import Mathlib.Order.Bounds.Basic
import RegexSearch.Token.Basic

/-! How many groups are open at each position of a token sequence, where they are closed, and which operators no group takes
in. -/
namespace RegexSearch.Token

/-- The number of open groups after a token. A parenthesis that has nothing to close leaves none open. -/
def deepen (depth : Nat) : Token → Nat
  | operator .openParen => depth + 1
  | operator .closeParen => depth - 1
  | _ => depth

/-- The number of groups that are open before the token at `i`. -/
def depthAt (tokens : List Token) (i : Nat) : Nat := (tokens.take i).foldl deepen 0

/-- Where an operator stands outside all groups. -/
def outside (op : Operator) (tokens : List Token) : Set Nat :=
  {i | tokens[i]? = some (operator op) ∧ depthAt tokens i = 0}

/-- The group that opens at `start` is still open before the token at `i`. -/
structure Inside (tokens : List Token) (start i : Nat) : Prop where
  opens : tokens[start]? = some (operator .openParen)
  lt : start < i
  depth_lt : ∀ k, start < k → k ≤ i → depthAt tokens start < depthAt tokens k

/-- The group that opens at `start` is closed by the token at `i`. -/
structure Closes (tokens : List Token) (start i : Nat) : Prop extends Inside tokens start i where
  closes : tokens[i]? = some (operator .closeParen)
  depth_eq : depthAt tokens (i + 1) = depthAt tokens start

/-- Of the groups around the token at `i` the one that opens at `start` is the innermost. -/
structure Innermost (tokens : List Token) (start i : Nat) : Prop extends Inside tokens start i where
  depth_eq : depthAt tokens i = depthAt tokens start + 1

/-- Where the latest unit of the tokens starts, a token that is no operator or a group that the last token closes, if they end in
one. -/
inductive LatestUnit : List Token → Option Nat → Prop
  | nil : LatestUnit [] none
  | operator {before : List Token} {op : Operator} (h : op ≠ .closeParen) : LatestUnit (before ++ [operator op]) none
  | single {before : List Token} {t : Token} (h : t.operator? = none) : LatestUnit (before ++ [t]) (some before.length)
  | group {before : List Token} {start : Nat} (h : Closes (before ++ [operator .closeParen]) start before.length) :
    LatestUnit (before ++ [operator .closeParen]) (some start)

/-- Where a group opens that is never closed. -/
def unclosed (tokens : List Token) : Set Nat :=
  {i | tokens[i]? = some (operator .openParen) ∧ ∀ j, ¬ Closes tokens i j}

/-- Where a bar stands that belongs to no closed group: outside all groups, or in one that is never closed. -/
def unclaimed (tokens : List Token) : Set Nat :=
  {i | tokens[i]? = some (operator .bar) ∧
    (depthAt tokens i = 0 ∨ ∃ start ∈ unclosed tokens, Innermost tokens start i)}

/-- Groups nest, and all bars stand in groups. -/
structure Grouped (tokens : List Token) : Prop where
  outside_closeParen : outside .closeParen tokens = ∅
  unclosed_eq : unclosed tokens = ∅
  outside_bar : outside .bar tokens = ∅

variable {tokens more : List Token} {t : Token} {i : Nat}

theorem depthAt_succ (h : tokens[i]? = some t) : depthAt tokens (i + 1) = deepen (depthAt tokens i) t := by
  rw [depthAt, List.take_add_one, h, List.foldl_append]
  rfl

theorem depthAt_append (h : i ≤ tokens.length) : depthAt (tokens ++ more) i = depthAt tokens i := by
  rw [depthAt, List.take_append_of_le_length h, depthAt]

theorem depthAt_append_singleton (tokens : List Token) (t : Token) :
    depthAt (tokens ++ [t]) (tokens.length + 1) = deepen (depthAt tokens tokens.length) t := by
  rw [depthAt_succ List.getElem?_concat_length, depthAt_append (Nat.le_refl _)]

theorem deepen_le {depth : Nat} (h : t ≠ operator .openParen) : deepen depth t ≤ depth := by
  unfold deepen
  split
  · contradiction
  · exact Nat.sub_le depth 1
  · exact Nat.le_refl depth

theorem le_deepen {depth : Nat} (h : t ≠ operator .closeParen) : depth ≤ deepen depth t := by
  unfold deepen
  split
  · exact Nat.le_succ depth
  · contradiction
  · exact Nat.le_refl depth

theorem deepen_eq {depth : Nat} (hopen : t ≠ operator .openParen) (hclose : t ≠ operator .closeParen) :
    deepen depth t = depth := Nat.le_antisymm (deepen_le hopen) (le_deepen hclose)

/-- A parenthesis that closes no group stands outside all groups. -/
theorem depthAt_pos (h : outside .closeParen (tokens ++ [operator .closeParen]) = ∅) : 0 < depthAt tokens tokens.length := by
  rw [Nat.pos_iff_ne_zero, ← depthAt_append (Nat.le_refl _)]
  intro hzero
  have hmem : tokens.length ∈ outside .closeParen (tokens ++ [operator .closeParen]) :=
    ⟨List.getElem?_concat_length, hzero⟩
  rw [h] at hmem
  exact hmem

theorem outside_subset_append (op : Operator) (tokens more : List Token) :
    outside op tokens ⊆ outside op (tokens ++ more) := by
  rintro i ⟨hop, hdepth⟩
  have hlt := (List.getElem?_eq_some_iff.1 hop).1
  exact ⟨by rw [List.getElem?_append_left hlt, hop], by rw [depthAt_append (Nat.le_of_lt hlt), hdepth]⟩

theorem outside_take (op : Operator) (tokens : List Token) (i : Nat) :
    outside op (tokens.take i) = outside op tokens ∩ Set.Iio i := by
  ext j
  by_cases hj : j < i
  · simp [outside, depthAt, List.getElem?_take, List.take_take, hj, Nat.le_of_lt hj]
  · simp [outside, List.getElem?_take, hj]

end RegexSearch.Token
