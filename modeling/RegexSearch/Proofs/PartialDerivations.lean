import RegexSearch.Pattern.Draft
import RegexSearch.Proofs.Derivations
import RegexSearch.Proofs.Units

/-! A draft read out of a pattern is a derivation in progress: for each open construct the pieces that stand before it, then its
opening, and at the end the pieces of the innermost one. Each change of a draft keeps it one. -/
namespace RegexSearch
open Slot Pattern

namespace Bracket

def opening : Bracket → List Char
  | group => ['(']
  | set false => ['[']
  | set true => ['[', '^']
  | count => ['{']

/-- The slots of a construct that has just been opened. -/
def firstSlots : Bracket → List Slot
  | group => [.token (.operator .openParen)]
  | set _ | count => []

/-- A `^` that comes first negates the set. -/
def negatable : Bracket → Bool
  | set negated => !negated
  | group | count => false

end Bracket

def negatable : List Opened → Bool
  | [] => false
  | o :: _ => o.bracket.negatable

def anySet (opened : List Opened) : Bool := opened.any (·.bracket.isSet)

/-- `pattern` has been read up to `text`, with these constructs open and these slots in the innermost one. -/
inductive Partial (pattern : List Char) : List Opened → List Slot → List Char → Prop
  | start : Partial pattern [] [] pattern
  | enter (bracket : Bracket) (offset : Nat) {opened : List Opened} {outside : List Slot} {text : List Char}
    (h : Partial pattern opened outside (bracket.opening ++ text)) :
    Partial pattern (⟨bracket, offset, outside⟩ :: opened) bracket.firstSlots text
  | piece {opened : List Opened} {before slots : List Slot} {mid rest : List Char} (h : Partial pattern opened before mid)
    (k : Piece (anySet opened) (negatable opened && before.isEmpty) mid (slots.map token?) rest) :
    Partial pattern opened (slots.reverse ++ before) rest

namespace Partial

variable {pattern text rest : List Char} {opened : List Opened} {slots outside : List Slot} {bracket : Bracket}
  {offset : Nat} {d d' : Draft}

theorem token {t : Token} (h : Partial pattern opened slots text)
    (k : Piece (anySet opened) (negatable opened && slots.isEmpty) text [some t] rest) :
    Partial pattern opened (.token t :: slots) rest := by
  have key : Piece (anySet opened) (negatable opened && slots.isEmpty) text ([Slot.token t].map token?) rest := k
  exact h.piece key

theorem conjunction (h : Partial pattern opened slots ('&' :: '&' :: text)) (hset : anySet opened = true) (offset : Nat) :
    Partial pattern opened (.conjunction offset :: slots) text := by
  have key : Piece true (negatable opened && slots.isEmpty) ('&' :: '&' :: text)
      ([Slot.conjunction offset].map token?) text := .conjunction
  rw [← hset] at key
  exact h.piece key

/-- The innermost construct apart from what stands before it. -/
theorem inside (h : Partial pattern (⟨bracket, offset, outside⟩ :: opened) slots text) :
    ∃ (inner : List Char) (read : List Slot), Partial pattern opened outside (bracket.opening ++ inner) ∧
      slots = read.reverse ++ bracket.firstSlots ∧
      Pieces (bracket.isSet || anySet opened) bracket.negatable inner (read.map token?) text := by
  generalize hopened : ⟨bracket, offset, outside⟩ :: opened = constructs at h
  induction h with
  | start => contradiction
  | @enter _ _ _ _ text h =>
    cases hopened
    exact ⟨text, [], h, rfl, .nil⟩
  | @piece _ _ last _ _ _ k ih =>
    subst hopened
    obtain ⟨inner, read, houter, rfl, hpieces⟩ := ih rfl
    -- The slots of a construct that can still be negated are just those of its pieces.
    have hfirst : (bracket.negatable && (read.map token?).isEmpty) =
        (bracket.negatable && (read.reverse ++ bracket.firstSlots).isEmpty) := by
      cases bracket <;> cases read <;> simp [Bracket.negatable, Bracket.firstSlots]
    have hlast : Piece (bracket.isSet || anySet opened) (bracket.negatable && (read.map token?).isEmpty) _ _ _ :=
      hfirst ▸ k
    refine ⟨inner, read ++ last, houter, ?_, ?_⟩
    · rw [List.reverse_append, List.append_assoc]
    · rw [List.map_append]
      exact hpieces.snoc hlast

theorem pieces (h : Partial pattern [] slots text) : Pieces false false pattern (slots.reverse.map token?) text := by
  generalize hopened : [] = constructs at h
  induction h with
  | start => exact .nil
  | enter => contradiction
  | piece h k ih =>
    subst hopened
    rw [List.reverse_append, List.reverse_reverse, List.map_append]
    exact (ih rfl).snoc k

theorem lastLiteral {c : Char} {before : List Slot} (h : Partial pattern opened (.token (.literal c) :: before) text) :
    ∃ mid, Partial pattern opened before mid ∧
      Literal (anySet opened) (negatable opened && before.isEmpty) mid c text := by
  generalize hslots : Slot.token (.literal c) :: before = slots at h
  cases h with
  | start => contradiction
  | enter bracket => cases bracket <;> simp [Bracket.firstSlots] at hslots
  | @piece _ front last mid _ h k =>
    obtain rfl | ⟨read, slot, rfl⟩ := List.eq_nil_or_concat' last
    · exact absurd rfl k.ne_nil
    · rw [List.reverse_append, List.reverse_singleton, List.append_assoc, List.singleton_append] at hslots
      obtain ⟨rfl, rfl⟩ := List.cons.inj hslots
      rw [List.map_append] at k
      obtain ⟨hread, hliteral⟩ := k.eq_literal rfl
      obtain rfl := List.map_eq_nil_iff.1 hread
      exact ⟨mid, h, hliteral⟩

theorem closeGroup (h : Partial pattern d.opened d.slots (')' :: text)) (k : d.closeGroup offset = .ok d') :
    Partial pattern d'.opened d'.slots text := by
  unfold Draft.closeGroup at k
  split at k
  · next start outside opened hopened =>
    rw [hopened] at h
    obtain ⟨inner, read, houter, hslots, hpieces⟩ := h.inside
    obtain rfl : _ = d' := by simpa using k
    have group : Piece (anySet opened) (negatable opened && outside.isEmpty) ('(' :: inner)
        ((.token (.operator .openParen) :: (read ++ [.token (.operator .closeParen)])).map token?) text := by
      rw [List.map_cons, List.map_append]
      exact .group hpieces
    have key := houter.piece group
    simpa [hslots, Bracket.firstSlots] using key
  · contradiction

theorem closeSet (h : Partial pattern d.opened d.slots (']' :: text)) (k : d.closeSet offset = .ok d') :
    Partial pattern d'.opened d'.slots text := by
  unfold Draft.closeSet at k
  split at k
  · next negated start outside opened hopened =>
    rw [hopened] at h
    obtain ⟨inner, read, houter, hslots, hpieces⟩ := h.inside
    obtain rfl : d.slots.reverse = read := by simp [hslots, Bracket.firstSlots]
    obtain ⟨members, hmembers, hd⟩ := bind_eq_ok_iff.1 k
    obtain rfl : _ = d' := by simpa using hd
    obtain ⟨chains, hchains, rfl⟩ := foldConjunctions_eq_ok_iff.1 hmembers
    cases negated with
    | false => exact houter.token (.set hpieces hchains)
    | true => exact houter.token (.negatedSet hpieces hchains)
  · contradiction

theorem unit {unit : List Token} {before : List Slot} (h : Partial pattern opened slots text)
    (hset : anySet opened = false) (hsplit : splitUnit? slots = some (unit.map Slot.token, before)) :
    ∃ mid, Partial pattern opened before mid ∧ (∀ op, unit ≠ [.operator op]) ∧
      Piece false (negatable opened && before.isEmpty) mid (unit.map some) text := by
  cases h with
  | start => contradiction
  | enter bracket => cases bracket <;> contradiction
  | @piece _ front last mid _ h k =>
    rw [hset] at k
    obtain hunit | ⟨op, -, hclose, rfl⟩ | ⟨hinside, -⟩ := k.formsUnit_or rfl
    · rw [hunit.splitUnit?] at hsplit
      obtain ⟨rfl, rfl⟩ : last = unit.map Slot.token ∧ front = before := by simpa using hsplit
      rw [map_token?_eq_some.2 rfl] at k
      refine ⟨mid, h, ?_, k⟩
      rintro op rfl
      exact hunit.ne_operator op rfl
    · rw [List.reverse_singleton, List.singleton_append, splitUnit?_operator hclose] at hsplit
      contradiction
    · contradiction

theorem closeCount (h : Partial pattern d.opened d.slots ('}' :: text)) (k : d.closeCount offset = .ok d') :
    Partial pattern d'.opened d'.slots text := by
  unfold Draft.closeCount at k
  split at k
  · next start outside opened hopened =>
    rw [hopened] at h
    obtain ⟨inner, read, houter, hslots, hpieces⟩ := h.inside
    obtain rfl : d.slots.reverse = read := by simp [hslots, Bracket.firstSlots]
    split_ifs at k with hset
    split at k
    · next slots hrepeat =>
      obtain rfl : _ = d' := by simpa using k
      obtain ⟨cs, count, unit, before, expansion, hbody, hcount, hsplit, hexpansion, rfl⟩ :=
        repeatUnit?_eq_some_iff.1 hrepeat
      have hset : anySet opened = false := Bool.eq_false_iff.2 hset
      -- The unit is taken off the construct around the count, and the expansion put in its place.
      obtain ⟨mid, hbefore, hlone, hunit⟩ := houter.unit hset hsplit
      have hliterals : cs.map (fun c => some (.literal c)) = d.slots.reverse.map token? := by
        rw [hbody, List.map_map]
        rfl
      have hinner : Pieces (anySet opened) false inner (d.slots.reverse.map token?) ('}' :: text) := hpieces
      rw [hset] at hinner
      have hcounted := Piece.counted hunit hlone (hinner.literals hliterals) hcount hexpansion
      rw [← map_token?_eq_some.2 rfl, ← hset] at hcounted
      exact hbefore.piece hcounted
    · contradiction
  · contradiction

theorem negate (h : Partial pattern d.opened d.slots ('^' :: text)) (k : d.negateSet? = some d') :
    Partial pattern d'.opened d'.slots text := by
  unfold Draft.negateSet? at k
  split at k
  · next start outside opened hslots hopened =>
    rw [hopened, hslots] at h
    obtain ⟨inner, read, houter, hread, hpieces⟩ := h.inside
    -- Nothing stands in the set yet, so what is left starts right after its bracket.
    obtain rfl : read = [] := by simpa [Bracket.firstSlots] using hread
    obtain rfl := hpieces.eq_of_nil
    obtain rfl : _ = d' := by simpa using k
    rw [hslots]
    exact .enter (.set true) start houter
  · contradiction

end Partial

theorem negatable_of_negateSet?_eq_none {d : Draft} (h : d.negateSet? = none) :
    (negatable d.opened && d.slots.isEmpty) = false := by
  unfold Draft.negateSet? at h
  split at h
  · contradiction
  · next hset =>
    cases hslots : d.slots with
    | cons => exact Bool.and_false _
    | nil =>
      match hopened : d.opened with
      | [] | ⟨.group, _, _⟩ :: _ | ⟨.count, _, _⟩ :: _ | ⟨.set true, _, _⟩ :: _ => rfl
      | ⟨.set false, _, _⟩ :: _ => exact (hset _ _ _ hslots hopened).elim

end RegexSearch
