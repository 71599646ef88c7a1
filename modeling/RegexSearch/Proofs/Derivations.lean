import Mathlib.Data.List.Basic
import RegexSearch.Pattern.Grammar

/-! What the shape of a derivation says: how far it reads, and which pieces can stand for what it yields. -/
namespace RegexSearch.Pattern

variable {inSet first : Bool} {text mid rest cs : List Char} {c : Char} {xs ys : List (Option Token)}

theorem Literal.length_lt (h : Literal inSet first text c rest) : rest.length < text.length := by
  cases h <;> simp only [List.length_cons] <;> omega

theorem Literals.length_le (h : Literals text cs rest) : rest.length ≤ text.length := by
  induction h with
  | nil => exact Nat.le_refl _
  | cons h k ih => exact Nat.le_trans ih (Nat.le_of_lt h.length_lt)

mutual

theorem Piece.length_lt {inSet first : Bool} {text rest : List Char} {xs : List (Option Token)} :
    Piece inSet first text xs rest → rest.length < text.length
  | .literal h => h.length_lt
  | .wildcard | .operator _ _ | .conjunction => by
    simp only [List.length_cons]
    omega
  | .range h k _ => by
    have lower := h.length_lt
    have upper := k.length_lt
    rw [List.length_cons] at lower
    omega
  | .group h | .set h _ | .negatedSet h _ => by
    have inside := h.length_le
    simp only [List.length_cons] at inside ⊢
    omega
  | .counted h _ body _ _ => by
    have unit := h.length_lt
    have count := body.length_le
    rw [List.length_cons] at unit count
    omega

theorem Pieces.length_le {inSet first : Bool} {text rest : List Char} {xs : List (Option Token)} :
    Pieces inSet first text xs rest → rest.length ≤ text.length
  | .nil => Nat.le_refl _
  | .cons h k => Nat.le_trans k.length_le (Nat.le_of_lt h.length_lt)

end

theorem Pieces.length_lt (h : Pieces inSet first text xs (c :: rest)) : rest.length < text.length := h.length_le

theorem Literals.length_lt (h : Literals text cs (c :: rest)) : rest.length < text.length := h.length_le

theorem Piece.ne_nil (h : Piece inSet first text xs rest) : xs ≠ [] := by
  cases h with
  | counted _ _ _ _ expansion =>
    obtain ⟨inside, -, rfl⟩ := Option.map_eq_some_iff.1 expansion
    simp
  | _ => simp

theorem Pieces.eq_of_nil (h : Pieces inSet first text [] rest) : text = rest := by
  generalize hxs : ([] : List (Option Token)) = xs at h
  cases h with
  | nil => rfl
  | cons h k => exact absurd (List.append_eq_nil_iff.1 hxs.symm).1 h.ne_nil

theorem Pieces.snoc {inSet first : Bool} {text mid rest : List Char} {xs ys : List (Option Token)} :
    Pieces inSet first text xs mid → Piece inSet (first && xs.isEmpty) mid ys rest →
      Pieces inSet first text (xs ++ ys) rest
  | .nil, last => by
    rw [List.isEmpty_nil, Bool.and_true] at last
    rw [List.nil_append, ← List.append_nil ys]
    exact .cons last .nil
  | .cons h k, last => by
    rw [List.append_assoc]
    rw [List.isEmpty_eq_false_iff.2 (List.append_ne_nil_of_left_ne_nil h.ne_nil _), Bool.and_false] at last
    exact .cons h (k.snoc last)

mutual

/-- There are no conjunctions outside sets. -/
theorem Piece.exists_tokens {inSet first : Bool} {text rest : List Char} {xs : List (Option Token)}
    (hset : inSet = false) : Piece inSet first text xs rest → ∃ ts : List Token, xs = ts.map some
  | .literal _ | .wildcard | .operator _ _ | .range _ _ _ | .set _ _ | .negatedSet _ _ => ⟨[_], rfl⟩
  | .group h => by
    obtain ⟨ts, rfl⟩ := h.exists_tokens hset
    exact ⟨.operator .openParen :: (ts ++ [.operator .closeParen]), by simp⟩
  | .conjunction => by contradiction
  | .counted _ _ _ _ _ => ⟨_, rfl⟩

theorem Pieces.exists_tokens {inSet first : Bool} {text rest : List Char} {xs : List (Option Token)}
    (hset : inSet = false) : Pieces inSet first text xs rest → ∃ ts : List Token, xs = ts.map some
  | .nil => ⟨[], rfl⟩
  | .cons h k => by
    obtain ⟨ts, rfl⟩ := h.exists_tokens hset
    obtain ⟨us, rfl⟩ := k.exists_tokens hset
    exact ⟨ts ++ us, by simp⟩

end

/-- A literal comes last only in a piece that is a literal. -/
theorem Piece.eq_literal (h : Piece inSet first text xs rest) (hxs : xs = ys ++ [some (.literal c)]) :
    ys = [] ∧ Literal inSet first text c rest := by
  have hlast := congrArg List.reverse hxs
  cases h with
  | literal h =>
    obtain ⟨rfl, rfl⟩ : _ = c ∧ [] = ys := by simpa using hlast
    exact ⟨rfl, h⟩
  | counted _ _ _ _ expansion =>
    obtain ⟨inside, -, rfl⟩ := Option.map_eq_some_iff.1 expansion
    simp at hlast
  | _ => simp at hlast

/-- An operator comes first only in a piece that is this operator, a parenthesis apart. -/
theorem Piece.head?_eq {op : Operator} (h : Piece inSet first text xs rest) (hop : op ≠ .openParen)
    (hxs : xs.head? = some (some (.operator op))) : text.head? = some op.char := by
  cases h with
  | operator _ _ =>
    obtain rfl : _ = op := by simpa using hxs
    rfl
  | group _ =>
    obtain rfl : .openParen = op := by simpa using hxs
    contradiction
  | counted _ _ _ _ expansion =>
    obtain ⟨inside, -, rfl⟩ := Option.map_eq_some_iff.1 expansion
    obtain rfl : .openParen = op := by simpa using hxs
    contradiction
  | _ => simp at hxs

theorem Pieces.head?_eq {op : Operator} (h : Pieces inSet first text xs rest) (hop : op ≠ .openParen)
    (hxs : xs.head? = some (some (.operator op))) : text.head? = some op.char := by
  cases h with
  | nil => contradiction
  | cons h _ =>
    rw [List.head?_append_of_ne_nil _ h.ne_nil] at hxs
    exact h.head?_eq hop hxs

-- The flags are fixed here, so the recursion is on the text and not on the derivation.
theorem Pieces.literals {text rest cs : List Char} {xs : List (Option Token)}
    (hxs : cs.map (fun c => some (.literal c)) = xs) : Pieces false false text xs rest → Literals text cs rest
  | .nil => by
    obtain rfl : cs = [] := by simpa using hxs
    exact .nil
  | .cons h k => by
    obtain ⟨front, back, rfl, hfront, hback⟩ := List.map_eq_append_iff.1 hxs
    obtain rfl | ⟨before, c, rfl⟩ := List.eq_nil_or_concat' front
    · exact absurd hfront.symm h.ne_nil
    · rw [List.map_append] at hfront
      obtain ⟨hbefore, hliteral⟩ := h.eq_literal hfront.symm
      obtain rfl := List.map_eq_nil_iff.1 hbefore
      exact .cons hliteral (k.literals hback)
termination_by text.length
decreasing_by exact h.length_lt

end RegexSearch.Pattern
