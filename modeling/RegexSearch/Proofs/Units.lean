import RegexSearch.Pattern.Grammar
import RegexSearch.Proofs.Conjunctions

/-! The unit that a count finds behind it. Pieces leave the parentheses among their slots balanced, so the latest unit is the
latest piece, unless that is a lone operator. -/
namespace RegexSearch

theorem mapM_eq_some_iff {α β : Type} {f : α → Option β} {xs : List α} {ys : List β} :
    xs.mapM f = some ys ↔ xs.map f = ys.map some := by
  induction xs generalizing ys with
  | nil => cases ys <;> simp
  | cons x xs ih =>
    rw [List.mapM_cons]
    cases ys with
    | nil => simp [Option.bind_eq_some_iff]
    | cons y ys => simp [Option.bind_eq_some_iff, ih]

namespace Slot

theorem literal?_eq_some {slot : Slot} {c : Char} : slot.literal? = some c ↔ slot = token (.literal c) := by
  unfold literal?
  split <;> simp_all

theorem repeatUnit?_eq_some_iff {body slots result : List Slot} : repeatUnit? body slots = some result ↔
    ∃ cs count unit before expansion, body.reverse = cs.map (fun c => token (.literal c)) ∧
      Repeat.parse? cs = some count ∧ splitUnit? slots = some (unit.map token, before) ∧
      count.expand? unit = some expansion ∧ (expansion.map token).reverse ++ before = result := by
  have hbody (cs : List Char) :
      body.reverse.mapM literal? = some cs ↔ body.reverse = cs.map fun c => token (.literal c) := by
    rw [mapM_eq_some_iff, map_eq_map_some literal?_eq_some]
  have hunit (unit : List Slot) (ts : List Token) : unit.mapM token? = some ts ↔ unit = ts.map token := by
    rw [mapM_eq_some_iff, map_token?_eq_some]
  simp only [repeatUnit?, Option.bind_eq_bind, Option.bind_eq_some_iff, hbody, hunit, Prod.exists]
  constructor
  · rintro ⟨cs, hcs, count, hcount, unit, before, hsplit, ts, rfl, expansion, hexpansion, h⟩
    exact ⟨cs, count, ts, before, expansion, hcs, hcount, hsplit, hexpansion, by simpa using h⟩
  · rintro ⟨cs, count, ts, before, expansion, hcs, hcount, hsplit, hexpansion, rfl⟩
    exact ⟨cs, hcs, count, hcount, _, before, hsplit, ts, rfl, expansion, hexpansion, rfl⟩

inductive Balanced : List Slot → Prop
  | nil : Balanced []
  | atom {slot : Slot} (h : slot ≠ token (.operator .openParen)) (k : slot ≠ token (.operator .closeParen)) :
    Balanced [slot]
  | append {slots more : List Slot} (h : Balanced slots) (k : Balanced more) : Balanced (slots ++ more)
  | group {inside : List Slot} (h : Balanced inside) :
    Balanced (token (.operator .openParen) :: (inside ++ [token (.operator .closeParen)]))

theorem Balanced.splitGroup? {slots : List Slot} (h : Balanced slots) (depth : Nat) (taken before : List Slot) :
    splitGroup? depth taken (slots.reverse ++ before) = splitGroup? depth (slots ++ taken) before := by
  induction h generalizing depth taken before with
  | nil => rfl
  | @atom slot hopen hclose =>
    rw [List.reverse_singleton, List.singleton_append, List.singleton_append, Slot.splitGroup?]
    · exact hclose
    · exact fun h _ => hopen h
    · exact fun _ h _ => hopen h
  | append h k ih ik => rw [List.reverse_append, List.append_assoc, ik, ih, List.append_assoc]
  | group h ih =>
    rw [List.reverse_cons, List.reverse_append, List.append_assoc, List.append_assoc, List.reverse_singleton,
      List.singleton_append, Slot.splitGroup?, ih, List.singleton_append, Slot.splitGroup?]
    simp

/-- What a count can repeat. -/
inductive FormsUnit : List Slot → Prop
  | single {t : Token} (h : t.operator? = none) : FormsUnit [token t]
  | group {inside : List Slot} (h : Balanced inside) :
    FormsUnit (token (.operator .openParen) :: (inside ++ [token (.operator .closeParen)]))

theorem FormsUnit.balanced {slots : List Slot} (h : FormsUnit slots) : Balanced slots := by
  cases h with
  | single h =>
    apply Balanced.atom
    · rintro ⟨⟩
      contradiction
    · rintro ⟨⟩
      contradiction
  | group h => exact .group h

theorem FormsUnit.splitUnit? {slots : List Slot} (h : FormsUnit slots) (before : List Slot) :
    splitUnit? (slots.reverse ++ before) = some (slots, before) := by
  cases h with
  | @single t h => cases t <;> first | rfl | contradiction
  | group h =>
    rw [List.reverse_cons, List.reverse_append, List.append_assoc, List.append_assoc, List.reverse_singleton,
      List.singleton_append, Slot.splitUnit?, h.splitGroup?, List.singleton_append, Slot.splitGroup?]

/-- Between matching parentheses the latest slot is the end of a unit, or else a lone operator or conjunction. -/
theorem Balanced.eq_nil_or_latest {slots : List Slot} (h : Balanced slots) : slots = [] ∨
    (∃ front unit, Balanced front ∧ FormsUnit unit ∧ slots = front ++ unit) ∨
    ∃ front slot, Balanced front ∧ slot ≠ token (.operator .closeParen) ∧ (∀ t, slot = token t → t.operator? ≠ none) ∧
      slots = front ++ [slot] := by
  induction h with
  | nil => exact .inl rfl
  | @atom slot hopen hclose =>
    refine .inr ?_
    by_cases hunit : ∃ t, slot = token t ∧ t.operator? = none
    · obtain ⟨t, rfl, ht⟩ := hunit
      exact .inl ⟨[], [token t], .nil, .single ht, rfl⟩
    · exact .inr ⟨[], slot, .nil, hclose, fun t ht hop => hunit ⟨t, ht, hop⟩, rfl⟩
  | @append slots more h k ih ik =>
    obtain rfl | ⟨front, unit, hfront, hunit, rfl⟩ | ⟨front, slot, hfront, hclose, hslot, rfl⟩ := ik
    · rw [List.append_nil]
      exact ih
    · exact .inr (.inl ⟨slots ++ front, unit, h.append hfront, hunit, (List.append_assoc ..).symm⟩)
    · exact .inr (.inr ⟨slots ++ front, slot, h.append hfront, hclose, hslot, (List.append_assoc ..).symm⟩)
  | group h => exact .inr (.inl ⟨[], _, .nil, .group h, rfl⟩)

theorem FormsUnit.ne_operator {slots : List Slot} (h : FormsUnit slots) (op : Operator) : slots ≠ [token (.operator op)] := by
  cases h with
  | single h =>
    rintro ⟨⟩
    contradiction
  | group h => simp

theorem splitUnit?_operator {op : Operator} (h : op ≠ .closeParen) (before : List Slot) :
    splitUnit? (token (.operator op) :: before) = none := by
  cases op with
  | closeParen => contradiction
  | openParen | bar | star | plus | optional => rfl

end Slot

namespace Repeat
open Slot

variable {unit inside : List Token}

theorem formsUnit_expand? {count : Repeat} {tokens : List Token} (h : FormsUnit (unit.map token))
    (k : count.expand? unit = some tokens) : FormsUnit (tokens.map token) := by
  obtain ⟨inside, hinside, rfl⟩ := Option.map_eq_some_iff.1 k
  rw [List.map_cons, List.map_append]
  refine .group (expansion?_induction (motive := fun ts => Balanced (ts.map token)) .nil ?_ ?_ h.balanced hinside)
  · intro xs ys hxs hys
    rw [List.map_append]
    exact hxs.append hys
  · intro op hopen hclose
    exact .atom (by simpa using hopen) (by simpa using hclose)

end Repeat

namespace Pattern
open Slot

-- A group is a unit because the pieces inside are balanced, and they are because each is a unit or a lone slot.
mutual

theorem Piece.formsUnit_or {inSet first : Bool} {text rest : List Char} {xs : List (Option Token)} {slots : List Slot}
    (hslots : slots.map token? = xs) : Piece inSet first text xs rest → FormsUnit slots ∨
      (∃ op, op ≠ .openParen ∧ op ≠ .closeParen ∧ slots = [token (.operator op)]) ∨
      inSet = true ∧ ∃ offset, slots = [conjunction offset]
  | .literal _ | .wildcard | .range _ _ _ | .set _ _ | .negatedSet _ _ => by
    rw [map_token?_eq_singleton.1 hslots]
    exact .inl (.single rfl)
  | .operator hopen hclose => .inr (.inl ⟨_, hopen, hclose, map_token?_eq_singleton.1 hslots⟩)
  | .group h => by
    obtain ⟨inside, rfl, hinside⟩ := map_token?_eq_bracketed.1 hslots
    exact .inl (.group (h.balanced hinside))
  | .conjunction => by
    obtain ⟨slot, rfl, hslot⟩ := List.map_eq_singleton_iff.1 hslots
    obtain ⟨offset, rfl⟩ := token?_eq_none.1 hslot
    exact .inr (.inr ⟨rfl, offset, rfl⟩)
  | .counted h hlone _ _ expansion => by
    obtain rfl := map_token?_eq_some.1 hslots
    obtain hunit | ⟨op, -, -, hop⟩ | ⟨hset, -⟩ := h.formsUnit_or (map_token?_eq_some.2 rfl)
    · exact .inl (Repeat.formsUnit_expand? hunit expansion)
    · exact absurd (by simpa using hop) (hlone op)
    · contradiction

theorem Pieces.balanced {inSet first : Bool} {text rest : List Char} {xs : List (Option Token)} {slots : List Slot}
    (hslots : slots.map token? = xs) : Pieces inSet first text xs rest → Balanced slots
  | .nil => by
    obtain rfl := List.map_eq_nil_iff.1 hslots
    exact .nil
  | .cons h k => by
    obtain ⟨left, right, rfl, hleft, hright⟩ := List.map_eq_append_iff.1 hslots
    have key : Balanced left := by
      obtain hunit | ⟨op, hopen, hclose, rfl⟩ | ⟨-, offset, rfl⟩ := h.formsUnit_or hleft
      · exact hunit.balanced
      · exact .atom (by simpa using hopen) (by simpa using hclose)
      · exact .atom (by simp) (by simp)
    exact key.append (k.balanced hright)

end

end Pattern
end RegexSearch
