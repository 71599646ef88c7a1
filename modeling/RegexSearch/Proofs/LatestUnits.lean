import RegexSearch.Proofs.BufferSegments
import RegexSearch.Proofs.Depth
import RegexSearch.Proofs.NestedTokens

/-! Looking back from the end of the buffer for the parenthesis that its latest group starts with finds the one that belongs to
it, and never goes past the start of the construct in which the group ends. -/
namespace RegexSearch
open Slot Token

/-- Within matching parentheses the depth never falls below that before them, and at their end it is the same. -/
theorem Slot.Balanced.deepen {slots : List Slot} (h : Balanced slots) {ts : List Token} (hslots : slots = ts.map token)
    (depth : Nat) : ts.foldl deepen depth = depth ∧ ∀ k, depth ≤ (ts.take k).foldl deepen depth := by
  induction h generalizing ts depth with
  | nil =>
    obtain rfl := List.map_eq_nil_iff.1 hslots.symm
    simp
  | atom hopen hclose =>
    obtain ⟨t, rfl, rfl⟩ := List.map_eq_singleton_iff.1 hslots.symm
    have ht : Token.deepen depth t = depth := deepen_eq (by simpa using hopen) (by simpa using hclose)
    refine ⟨ht, fun k => ?_⟩
    cases k with
    | zero => exact Nat.le_refl depth
    | succ k => simp [ht]
  | append h k ih ik =>
    obtain ⟨left, right, rfl, rfl, rfl⟩ := List.map_eq_append_iff.1 hslots.symm
    obtain ⟨hleft, hleft'⟩ := ih rfl depth
    obtain ⟨hright, hright'⟩ := ik rfl depth
    refine ⟨by rw [List.foldl_append, hleft, hright], fun j => ?_⟩
    rw [List.take_append, List.foldl_append]
    rcases Nat.le_total j left.length with hj | hj
    · rw [Nat.sub_eq_zero_of_le hj]
      exact hleft' j
    · rw [List.take_of_length_le hj, hleft]
      exact hright' _
  | group h ih =>
    obtain ⟨mid, rfl, hmid⟩ := map_token_eq_bracketed hslots.symm
    obtain ⟨hinside, hinside'⟩ := ih hmid.symm (depth + 1)
    refine ⟨?_, fun j => ?_⟩
    · rw [List.foldl_cons, List.foldl_append]
      exact congrArg (· - 1) hinside
    have last (n : Nat) {inner : Nat} (hinner : depth < inner) :
        depth ≤ ([operator .closeParen].take n).foldl Token.deepen inner := by
      cases n with
      | zero => exact hinner.le
      | succ n =>
        rw [List.take_succ_cons, List.take_nil]
        exact Nat.le_sub_one_of_lt hinner
    cases j with
    | zero => exact Nat.le_refl depth
    | succ j =>
      rw [List.take_succ_cons, List.foldl_cons, List.take_append, List.foldl_append]
      exact last _ (hinside' j)

namespace Token

theorem depthAt_group {before inside more : List Token} {k : Nat} (hk : k ≤ inside.length) :
    depthAt (before ++ operator .openParen :: (inside ++ more)) (before.length + 1 + k) =
      (inside.take k).foldl deepen (depthAt before before.length + 1) := by
  have htake : (before ++ operator .openParen :: (inside ++ more)).take (before.length + 1 + k) =
      before ++ operator .openParen :: inside.take k := by
    rw [Nat.add_assoc, List.take_length_add_append, Nat.add_comm 1 k, List.take_succ_cons, List.take_append_of_le_length hk]
  rw [depthAt, htake, List.foldl_append, List.foldl_cons, depthAt, List.take_length]
  rfl

/-- Where the parentheses inside a group match, its own belong together. -/
theorem closes_of_balanced (before : List Token) {inside : List Token} (h : Balanced (inside.map Slot.token)) :
    Closes (before ++ operator .openParen :: (inside ++ [operator .closeParen])) before.length
      (before.length + 1 + inside.length) := by
  obtain ⟨hinside, hinside'⟩ := h.deepen rfl (depthAt before before.length + 1)
  have hstart : depthAt (before ++ operator .openParen :: (inside ++ [operator .closeParen])) before.length =
      depthAt before before.length := depthAt_append (Nat.le_refl _)
  have hclose : (before ++ operator .openParen :: (inside ++ [operator .closeParen]))[before.length + 1 + inside.length]? =
      some (operator .closeParen) := by
    rw [List.getElem?_append_right (by omega), Nat.add_assoc, Nat.add_sub_cancel_left, Nat.add_comm, List.getElem?_cons_succ]
    exact List.getElem?_concat_length
  refine ⟨⟨?_, by omega, fun k hk hle => ?_⟩, hclose, ?_⟩
  · rw [List.getElem?_append_right (Nat.le_refl _), Nat.sub_self]
    rfl
  · obtain ⟨j, rfl⟩ := Nat.exists_eq_add_of_le hk
    rw [depthAt_group (by omega), hstart]
    exact hinside' j
  · rw [depthAt_closeParen hclose, depthAt_group (Nat.le_refl _), List.take_length, hinside, hstart]
    rfl

end Token

namespace Buffer

variable {b : Buffer} {marks : List Mark} {pattern text : List Char} {start : Nat}

/-- Looking back from the end of the tokens finds their latest unit. -/
def FindsUnit (ts : List Token) : Prop := ∃ start?, unitStart? (ts.map .token) = .ok start? ∧ LatestUnit ts start?

theorem findsUnit_formsUnit {front unit : List Token} (h : FormsUnit (unit.map .token)) : FindsUnit (front ++ unit) := by
  refine ⟨some front.length, ?_, ?_⟩
  · have key := unitStart?_formsUnit h (front.map .token)
    rwa [List.length_map, ← List.map_append] at key
  · generalize hslots : unit.map Slot.token = slots at h
    cases h with
    | single ht =>
      obtain ⟨t, rfl, hop⟩ := List.map_eq_singleton_iff.1 hslots
      obtain rfl := Slot.token.inj hop
      exact .single ht
    | group h =>
      obtain ⟨inside, rfl, rfl⟩ := map_token_eq_bracketed hslots
      have key := closes_of_balanced front h
      have hlength : front.length + 1 + inside.length = (front ++ .operator .openParen :: inside).length := by
        rw [List.length_append, List.length_cons]
        omega
      rw [hlength, ← List.cons_append, ← List.append_assoc] at key
      rw [← List.cons_append, ← List.append_assoc]
      exact .group key

theorem findsUnit_lone {front : List Token} {t : Token} (hclose : t ≠ .operator .closeParen) (ht : t.operator? ≠ none) :
    FindsUnit (front ++ [t]) := by
  refine ⟨none, ?_, ?_⟩
  · have hslot : Slot.token t ≠ .token (.operator .closeParen) := by simpa using hclose
    have key := unitStart?_lone hslot (fun u hu => Slot.token.inj hu ▸ ht) (front.map .token)
    rwa [← List.map_singleton, ← List.map_append] at key
  · cases t with
    | operator op => exact .operator (by simpa using hclose)
    | literal | wildcard | range | both | set => exact absurd rfl ht

theorem findsUnit_of_balanced {ts : List Token} {outer inside : List Slot} (h : Balanced inside)
    (hts : ts.map .token = outer ++ inside) : inside = [] ∨ FindsUnit ts := by
  obtain ⟨front, more, rfl, rfl, rfl⟩ := List.map_eq_append_iff.1 hts
  refine h.eq_nil_or_latest.imp_right ?_
  rintro (⟨before, unit, -, hunit, hmore⟩ | ⟨before, slot, -, hclose, hslot, hmore⟩)
  · obtain ⟨left, right, rfl, rfl, rfl⟩ := List.map_eq_append_iff.1 hmore
    rw [← List.append_assoc]
    exact findsUnit_formsUnit hunit
  · obtain ⟨left, right, rfl, rfl, hright⟩ := List.map_eq_append_iff.1 hmore
    obtain ⟨t, rfl, rfl⟩ := List.map_eq_singleton_iff.1 hright
    rw [← List.append_assoc]
    exact findsUnit_lone (by simpa using hclose) (hslot t rfl)

theorem Segmented.findsUnit {ts : List Token} (h : Segmented marks (ts.map .token)) : FindsUnit ts := by
  induction marks generalizing ts with
  | nil =>
    obtain hnil | hfinds := findsUnit_of_balanced h (List.nil_append _).symm
    · obtain rfl := List.map_eq_nil_iff.1 hnil
      exact ⟨none, rfl, .nil⟩
    · exact hfinds
  | cons mark marks ih =>
    obtain ⟨before, inside, hslots, -, hinside, hbefore⟩ := h
    rw [← List.append_assoc] at hslots
    obtain rfl | hfinds := findsUnit_of_balanced hinside hslots
    · rw [List.append_nil] at hslots
      obtain ⟨bracket, position, offset⟩ := mark
      cases bracket with
      | group =>
        obtain ⟨front, last, rfl, -, hlast⟩ := List.map_eq_append_iff.1 hslots
        obtain ⟨t, rfl, ht⟩ := List.map_eq_singleton_iff.1 hlast
        obtain rfl := Slot.token.inj ht
        exact findsUnit_lone (by decide) (by decide)
      -- Nothing stands in the construct yet, so the latest unit is that of the construct around it.
      | set | count =>
        rw [Bracket.firstSlots, List.append_nil] at hslots
        exact ih (hslots ▸ hbefore)
    · exact hfinds

theorem Segmented.floor_le_iff (h : Segmented b.marks b.slots) (hstart : unitStart? b.slots = .ok (some start)) :
    (b.floor ≤ start ↔ b.floor < b.slots.length) ∧ (b.floor ≤ start ∨ b.slots.length = b.floor) := by
  have hlt := lt_length_of_unitStart? hstart
  obtain ⟨hfloor, -⟩ | hlength := h.exists_unit_or hstart
  · exact ⟨⟨fun _ => Nat.lt_of_le_of_lt hfloor hlt, fun _ => hfloor⟩, .inl hfloor⟩
  · exact ⟨⟨fun hfloor => Nat.lt_of_le_of_lt hfloor hlt, fun hfloor => absurd hlength (Nat.ne_of_gt hfloor)⟩,
      .inr hlength⟩

/-- What is split off a draft is the latest unit of its buffer, if that starts in the innermost construct. -/
theorem map_splitUnit? {n : Nat} {d : Draft} {start? : Option Nat} (hstart : unitStart? (d.flat n).slots = .ok start?) :
    (splitUnit? d.slots).map (fun split => (d.flat n).floor + split.2.length) = start?.filter ((d.flat n).floor ≤ ·) := by
  obtain ⟨found?, hfound, key⟩ := unitStart?_append d.outer d.slots
  obtain rfl := Except.ok.inj (hstart.symm.trans hfound)
  rw [Draft.floor_flat]
  cases hsplit : splitUnit? d.slots with
  | some split =>
    rw [hsplit] at key
    have hle : d.outer.length ≤ split.2.length + d.outer.length := Nat.le_add_left _ _
    simp [key, Option.filter, hle, Nat.add_comm]
  | none =>
    rw [hsplit] at key
    cases start? with
    | none => rfl
    | some start =>
      simp [Option.filter, key start rfl]

theorem not_mem_of_noSet {mark : Mark} {i : Nat} (h : Visits pattern b text) (hmarks : b.marks = mark :: marks)
    (hset : (mark :: marks).any (·.bracket.isSet) = false) : .conjunction i ∉ b.slots := by
  obtain ⟨d, hfits, rfl⟩ := exists_draft_of_visits h
  intro hi
  obtain ⟨k, hk⟩ := List.mem_iff_getElem?.1 hi
  obtain ⟨around, haround, hbracket, -⟩ := (Draft.disciplined_flat hfits.conjoined).enclosed k i hk
  rw [hmarks] at haround
  exact absurd hbracket (List.any_eq_false.1 hset around haround)

/-- At the end of a count outside all sets, once its mark and its body are gone, looking back from the end of the buffer finds the
latest unit: the token there, or the group that it closes. The unit starts in the innermost construct that is still open just if
anything stands there, and otherwise it ends where that construct begins. What the scan repeats is that unit in the first case,
and nothing in the second. -/
theorem latestUnit_of_visits {position offset : Nat} (h : Visits pattern b ('}' :: text))
    (hmarks : b.marks = ⟨.count, position, offset⟩ :: marks) (hset : marks.any (·.bracket.isSet) = false) :
    ∃ (c : Buffer) (body : List Slot) (ts : List Token) (start? : Option Nat),
      cut b.slots position = .ok (c.slots, body) ∧ c.marks = marks ∧ c.slots = ts.map .token ∧
      unitStart? c.slots = .ok start? ∧ LatestUnit ts start? ∧
      (∀ start, start? = some start →
        (c.floor ≤ start ↔ c.floor < c.slots.length) ∧ (c.floor ≤ start ∨ c.slots.length = c.floor)) ∧
      ∀ d : Draft, d.flat pattern.length = c →
        (splitUnit? d.slots).map (fun split => c.floor + split.2.length) = start?.filter (c.floor ≤ ·) := by
  have segmented := segmented_of_visits h
  rw [hmarks] at segmented
  obtain ⟨before, body, hslots, rfl, -, hbefore⟩ := segmented
  obtain ⟨ts, rfl⟩ := exists_map_token fun i hi => not_mem_of_noSet h hmarks hset (hslots ▸ List.mem_append_left _ hi)
  obtain ⟨start?, hstart, hlatest⟩ := hbefore.findsUnit
  have hcut : cut b.slots (ts.map Slot.token).length = .ok (ts.map .token, body) := by
    rw [hslots]
    exact cut_append _ _
  refine ⟨⟨ts.map .token, marks, b.whole⟩, body, ts, start?, hcut, rfl, rfl, hstart, hlatest, ?_, ?_⟩
  · rintro start rfl
    exact Segmented.floor_le_iff (b := ⟨ts.map .token, marks, b.whole⟩) hbefore hstart
  · intro d hd
    have hslots : (d.flat pattern.length).slots = ts.map .token := congrArg slots hd
    rw [← hd]
    rw [← hslots] at hstart
    exact map_splitUnit? hstart

/-- A count in the body of another one finds the group before both, which is not its own to repeat. -/
theorem latestUnit_of_visits_nested_counts :
    Visits ['(', 'a', ')', '{', '{', '1', '}'] ⟨[.token (.operator .openParen), .token (.literal 'a'),
      .token (.operator .closeParen), .token (.literal '1')], [⟨.count, 3, 4⟩, ⟨.count, 3, 3⟩], false⟩ ['}'] ∧
    LatestUnit [.operator .openParen, .literal 'a', .operator .closeParen] (some 0) ∧
    ∃ c : Buffer, c.slots = [.token (.operator .openParen), .token (.literal 'a'), .token (.operator .closeParen)] ∧
      unitStart? c.slots = .ok (some 0) ∧ c.floor = 3 ∧ (c.floor ≤ 0 ↔ c.floor < c.slots.length) := by
  have opened : Visits ['(', 'a', ')', '{', '{', '1', '}'] ⟨[.token (.operator .openParen)], [⟨.group, 0, 0⟩], false⟩
      ['a', ')', '{', '{', '1', '}'] := .read .start rfl
  have inside : Visits ['(', 'a', ')', '{', '{', '1', '}'] ⟨[.token (.operator .openParen), .token (.literal 'a')],
      [⟨.group, 0, 0⟩], false⟩ [')', '{', '{', '1', '}'] := .read opened rfl
  have closed : Visits ['(', 'a', ')', '{', '{', '1', '}'] ⟨[.token (.operator .openParen), .token (.literal 'a'),
      .token (.operator .closeParen)], [], false⟩ ['{', '{', '1', '}'] := .read inside rfl
  have outer : Visits ['(', 'a', ')', '{', '{', '1', '}'] ⟨[.token (.operator .openParen), .token (.literal 'a'),
      .token (.operator .closeParen)], [⟨.count, 3, 3⟩], false⟩ ['{', '1', '}'] := .read closed rfl
  have inner : Visits ['(', 'a', ')', '{', '{', '1', '}'] ⟨[.token (.operator .openParen), .token (.literal 'a'),
      .token (.operator .closeParen)], [⟨.count, 3, 4⟩, ⟨.count, 3, 3⟩], false⟩ ['1', '}'] := .read outer rfl
  have digit : Visits ['(', 'a', ')', '{', '{', '1', '}'] ⟨[.token (.operator .openParen), .token (.literal 'a'),
      .token (.operator .closeParen), .token (.literal '1')], [⟨.count, 3, 4⟩, ⟨.count, 3, 3⟩], false⟩ ['}'] :=
    .read inner rfl
  obtain ⟨c, body, ts, start?, hcut, hmarks, hts, hstart, hlatest, hfloor, -⟩ := latestUnit_of_visits digit rfl rfl
  have hslots : [.token (.operator .openParen), .token (.literal 'a'), .token (.operator .closeParen)] = c.slots :=
    congrArg Prod.fst (Except.ok.inj hcut)
  obtain rfl : [.operator .openParen, .literal 'a', .operator .closeParen] = ts :=
    List.map_injective_iff.2 (fun _ _ => Slot.token.inj) (hslots.trans hts)
  rw [← hslots] at hstart
  obtain rfl : some 0 = start? := Except.ok.inj hstart
  have floor : c.floor = 3 := by
    unfold Buffer.floor
    rw [hmarks]
  exact ⟨digit, hlatest, c, hslots.symm, hslots ▸ hstart, floor, (hfloor 0 rfl).1⟩

end Buffer
end RegexSearch
