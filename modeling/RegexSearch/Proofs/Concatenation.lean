import RegexSearch.Proofs.Units
import RegexSearch.Proofs.Derivations

/-! Patterns written one after the other, in parentheses, or with a count behind them. A derivation stays one when text is put
behind what it has left, unless a `&` in a set has been read at the very end of the text. -/
namespace RegexSearch.Pattern
open Slot

variable {inSet first : Bool} {text mid rest more cs : List Char} {c : Char} {xs ys : List (Option Token)}

theorem Literal.append_text (h : Literal inSet first text c rest) (hrest : inSet = true → rest ≠ []) :
    Literal inSet first (text ++ more) c (rest ++ more) := by
  cases h with
  | escaped => exact .escaped
  | plain h => exact .plain h
  | ampersand => exact .ampersand
  | ampersandInSet h =>
    refine .ampersandInSet ?_
    rw [List.append_eq, List.head?_append_of_ne_nil _ (hrest rfl)]
    exact h
  | caretInSet => exact .caretInSet

theorem Literals.append_text (h : Literals text cs rest) : Literals (text ++ more) cs (rest ++ more) := by
  induction h with
  | nil => exact .nil
  | cons h _ ih => exact .cons (h.append_text fun hset => absurd hset Bool.false_ne_true) ih

mutual

theorem Piece.append_text {inSet first : Bool} {text rest more : List Char} {xs : List (Option Token)}
    (hrest : inSet = true → rest ≠ []) : Piece inSet first text xs rest →
      Piece inSet first (text ++ more) xs (rest ++ more)
  | .literal h => .literal (h.append_text hrest)
  | .wildcard => .wildcard
  | .operator hopen hclose => .operator hopen hclose
  | .range h k lt => .range (h.append_text fun _ => List.cons_ne_nil _ _) (k.append_text hrest) lt
  | .group h => .group (h.append_text fun _ => List.cons_ne_nil _ _)
  | .set h k => .set (h.append_text fun _ => List.cons_ne_nil _ _) k
  | .negatedSet h k => .negatedSet (h.append_text fun _ => List.cons_ne_nil _ _) k
  | .conjunction => .conjunction
  | .counted h hunit body hcount hexpansion =>
    .counted (h.append_text fun hset => absurd hset Bool.false_ne_true) hunit body.append_text hcount hexpansion

theorem Pieces.append_text {inSet first : Bool} {text rest more : List Char} {xs : List (Option Token)}
    (hrest : inSet = true → rest ≠ []) : Pieces inSet first text xs rest →
      Pieces inSet first (text ++ more) xs (rest ++ more)
  | .nil => .nil
  | .cons h k => by
    refine .cons (h.append_text fun hset => ?_) (k.append_text hrest)
    have hpos := List.length_pos_of_ne_nil (hrest hset)
    exact List.ne_nil_of_length_pos (Nat.lt_of_lt_of_le hpos k.length_le)

end

theorem Pieces.append {inSet first : Bool} {text mid rest : List Char} {xs ys : List (Option Token)} :
    Pieces inSet first text xs mid → Pieces inSet (first && xs.isEmpty) mid ys rest →
      Pieces inSet first text (xs ++ ys) rest
  | .nil, k => by
    rw [List.isEmpty_nil, Bool.and_true] at k
    exact k
  | .cons h h', k => by
    rw [List.isEmpty_eq_false_iff.2 (List.append_ne_nil_of_left_ne_nil h.ne_nil _), Bool.and_false] at k
    rw [List.append_assoc]
    exact .cons h (h'.append k)

/-- The latest of several pieces. -/
theorem Pieces.exists_concat {inSet first : Bool} {text rest : List Char} {xs : List (Option Token)} :
    Pieces inSet first text xs rest → xs ≠ [] → ∃ ys zs mid, xs = ys ++ zs ∧ Pieces inSet first text ys mid ∧
      Piece inSet (first && ys.isEmpty) mid zs rest
  | .nil, hne => absurd rfl hne
  | @Pieces.cons _ _ _ _ _ xs ys h k, _ => by
    by_cases hys : ys = []
    · subst hys
      obtain rfl := k.eq_of_nil
      exact ⟨[], xs, text, by simp, .nil, by simpa using h⟩
    · obtain ⟨us, vs, mid, rfl, hus, hvs⟩ := k.exists_concat hys
      refine ⟨xs ++ us, vs, mid, (List.append_assoc ..).symm, .cons h hus, ?_⟩
      have hne : (xs ++ us).isEmpty = false := List.isEmpty_eq_false_iff.2 (List.append_ne_nil_of_left_ne_nil h.ne_nil us)
      rw [hne, Bool.and_false]
      exact hvs

/-- What can be repeated is a single piece: the latest one would be a unit of its own. -/
theorem Pieces.piece_of_formsUnit {unit : List Token} (h : Pieces false first text (unit.map some) rest)
    (hunit : FormsUnit (unit.map Slot.token)) : Piece false first text (unit.map some) rest := by
  have hsplit := hunit.splitUnit? []
  rw [List.append_nil] at hsplit
  have hne : unit.map some ≠ [] := by
    intro hnil
    obtain rfl := List.map_eq_nil_iff.1 hnil
    contradiction
  obtain ⟨ys, zs, mid, hcat, hys, hzs⟩ := h.exists_concat hne
  obtain ⟨before, last, rfl, rfl, rfl⟩ := List.map_eq_append_iff.1 hcat
  rw [List.map_append, List.reverse_append] at hsplit
  obtain hlast | ⟨op, -, hclose, hop⟩ | ⟨hset, -⟩ := hzs.formsUnit_or (map_token?_eq_some.2 rfl)
  · rw [hlast.splitUnit?] at hsplit
    obtain rfl : before = [] := by simpa using hsplit
    obtain rfl := hys.eq_of_nil
    rw [List.map_nil, List.isEmpty_nil, Bool.and_true] at hzs
    exact hzs
  · rw [hop, List.reverse_singleton, List.singleton_append, splitUnit?_operator hclose] at hsplit
    contradiction
  · contradiction

variable {p q : List Char} {body tokens : List Token}

theorem Derives.append {other : List Token} (h : Derives p body) (k : Derives q other) :
    Derives (p ++ q) (body ++ other) := by
  have hp : Pieces false false (p ++ q) (body.map some) ([] ++ q) :=
    Pieces.append_text (fun hset => absurd hset Bool.false_ne_true) h
  have key := hp.append k
  rw [← List.map_append] at key
  exact key

theorem Derives.of_piece (h : Piece false false p (body.map some) []) : Derives p body := by
  have key : Pieces false false p (body.map some ++ []) [] := .cons h .nil
  rw [List.append_nil] at key
  exact key

theorem Derives.operator {op : Operator} (hopen : op ≠ .openParen) (hclose : op ≠ .closeParen) :
    Derives [op.char] [.operator op] := .of_piece (.operator hopen hclose)

theorem Derives.of_group (h : Pieces false false text (body.map some) [')']) :
    Derives ('(' :: text) (.operator .openParen :: (body ++ [.operator .closeParen])) := by
  apply Derives.of_piece
  rw [List.map_cons, List.map_append]
  exact .group h

theorem Derives.group (h : Derives p body) :
    Derives ('(' :: (p ++ [')'])) (.operator .openParen :: (body ++ [.operator .closeParen])) :=
  .of_group (Pieces.append_text (fun hset => absurd hset Bool.false_ne_true) h)

/-- The inside of a pattern that is a group. -/
theorem IsGroup.exists_inside (h : IsGroup p) : ∃ inner inside, p = '(' :: inner ∧
    Pieces false false inner (inside.map some) [')'] ∧
      Derives p (.operator .openParen :: (inside ++ [.operator .closeParen])) := by
  obtain ⟨inner, xs, rfl, hinner⟩ := h
  obtain ⟨inside, rfl⟩ := hinner.exists_tokens rfl
  exact ⟨inner, inside, rfl, hinner, .of_group hinner⟩

end RegexSearch.Pattern
