import RegexSearch.Proofs.BufferDiscipline

/-! The parentheses in the buffer. Those of a construct match among themselves, so that a unit never straddles the place where
a construct begins, and each thing that is read leaves it so. -/
namespace RegexSearch
open Slot

namespace Buffer

variable {b b' : Buffer} {marks : List Mark} {slots more unit : List Slot} {pattern text rest : List Char} {n start : Nat}

theorem unitStart?_formsUnit (h : FormsUnit unit) (front : List Slot) : unitStart? (front ++ unit) = .ok (some front.length) := by
  obtain ⟨start?, hstart, key⟩ := unitStart?_append front unit.reverse
  have hsplit := h.splitUnit? []
  rw [List.append_nil] at hsplit
  rw [hsplit] at key
  rw [List.reverse_reverse, key, List.length_nil, Nat.zero_add] at hstart
  exact hstart

theorem lt_length_of_unitStart? (h : unitStart? slots = .ok (some start)) : start < slots.length := by
  obtain ⟨start?, hstart, hlt⟩ := unitStart?_lt slots
  exact hlt start (Except.ok.inj (h.symm.trans hstart)).symm

theorem unitStart?_lone {slot : Slot} (hclose : slot ≠ .token (.operator .closeParen))
    (h : ∀ t, slot = .token t → t.operator? ≠ none) (front : List Slot) : unitStart? (front ++ [slot]) = .ok none := by
  rw [unitStart?_concat]
  split
  · contradiction
  · rfl
  · rfl
  · next t _ hop =>
    have hnone : t.operator? = none := by
      cases t with
      | operator op => exact absurd rfl (hop op)
      | literal | wildcard | range | both | set => rfl
    exact absurd hnone (h t rfl)

theorem eq_map_of_tokensOf {ts : List Token} (h : tokensOf slots = .ok ts) : slots = ts.map .token := by
  induction slots generalizing ts with
  | nil =>
    obtain rfl := Except.ok.inj h
    rfl
  | cons slot slots ih =>
    rw [tokensOf, List.mapM_cons] at h
    obtain ⟨t, ht, h⟩ := bind_eq_ok_iff.1 h
    obtain ⟨rest, hrest, h⟩ := bind_eq_ok_iff.1 h
    obtain rfl := Except.ok.inj h
    cases slot with
    | token u =>
      obtain rfl := Except.ok.inj ht
      rw [ih hrest, List.map_cons]
    | conjunction => cases ht

/-- Behind each mark the parentheses match as far as the next one, that of a group which is still open apart. -/
def Segmented : List Mark → List Slot → Prop
  | [], slots => Balanced slots
  | mark :: marks, slots => ∃ before inside, slots = before ++ (mark.bracket.firstSlots ++ inside) ∧
      before.length = mark.position ∧ Balanced inside ∧ Segmented marks before

namespace Segmented

theorem append (h : Segmented marks slots) (k : Balanced more) : Segmented marks (slots ++ more) := by
  cases marks with
  | nil => exact Balanced.append h k
  | cons mark marks =>
    obtain ⟨before, inside, rfl, hposition, hinside, hbefore⟩ := h
    exact ⟨before, inside ++ more, by simp only [List.append_assoc], hposition, hinside.append k, hbefore⟩

theorem concat {slot : Slot} (h : Segmented marks slots) (hopen : slot ≠ .token (.operator .openParen))
    (hclose : slot ≠ .token (.operator .closeParen)) : Segmented marks (slots ++ [slot]) := h.append (.atom hopen hclose)

/-- The slots of the innermost construct, apart from the parenthesis of a group. -/
theorem exists_inside (h : Segmented b.marks b.slots) : ∃ outer inside, b.slots = outer ++ inside ∧ Balanced inside ∧
    (outer.length = b.floor ∨ ∃ before, before.length = b.floor ∧ outer = before ++ [.token (.operator .openParen)]) ∧
    ∀ more, Balanced more → Segmented b.marks (outer ++ more) := by
  obtain ⟨slots, marks, whole⟩ := b
  cases marks with
  | nil => exact ⟨[], slots, rfl, h, .inl rfl, fun more hmore => hmore⟩
  | cons mark marks =>
    obtain ⟨bracket, position, offset⟩ := mark
    obtain ⟨before, inside, rfl, hposition, hinside, hbefore⟩ := h
    refine ⟨before ++ bracket.firstSlots, inside, (List.append_assoc ..).symm, hinside, ?_, fun more hmore =>
      ⟨before, more, List.append_assoc .., hposition, hmore, hbefore⟩⟩
    cases bracket with
    | group => exact .inr ⟨before, hposition, rfl⟩
    | set | count =>
      refine .inl ?_
      rw [Bracket.firstSlots, List.append_nil]
      exact hposition

/-- A unit starts in the innermost construct and can be taken off there, unless the buffer ends where that begins. -/
theorem exists_unit_or (h : Segmented b.marks b.slots) (hstart : unitStart? b.slots = .ok (some start)) :
    (b.floor ≤ start ∧ ∃ front unit, b.slots = front ++ unit ∧ front.length = start ∧ FormsUnit unit ∧
      Segmented b.marks front) ∨ b.slots.length = b.floor := by
  obtain ⟨outer, inside, hslots, hinside, houter, hmore⟩ := h.exists_inside
  have hle : b.floor ≤ outer.length := by
    obtain houter | ⟨before, hbefore, rfl⟩ := houter
    · exact Nat.le_of_eq houter.symm
    · rw [List.length_append, hbefore]
      exact Nat.le_add_right _ _
  rw [hslots] at hstart ⊢
  obtain rfl | ⟨front, unit, hfront, hunit, rfl⟩ | ⟨front, slot, -, hclose, hslot, rfl⟩ := hinside.eq_nil_or_latest
  · rw [List.append_nil] at hstart ⊢
    obtain houter | ⟨before, -, rfl⟩ := houter
    · exact .inr houter
    · rw [unitStart?_lone (by decide) (by rintro t ⟨⟩; decide)] at hstart
      cases hstart
  · rw [← List.append_assoc, unitStart?_formsUnit hunit] at hstart
    obtain rfl : (outer ++ front).length = start := by simpa using hstart
    refine .inl ⟨?_, outer ++ front, unit, (List.append_assoc ..).symm, rfl, hunit, hmore front hfront⟩
    rw [List.length_append]
    exact Nat.le_add_right_of_le hle
  · rw [← List.append_assoc, unitStart?_lone hclose hslot] at hstart
    cases hstart

theorem exists_unit (h : Segmented b.marks b.slots) (hstart : unitStart? b.slots = .ok (some start))
    (hfloor : b.floor ≤ start) :
    ∃ front unit, b.slots = front ++ unit ∧ front.length = start ∧ FormsUnit unit ∧ Segmented b.marks front := by
  obtain ⟨-, hunit⟩ | hlength := h.exists_unit_or hstart
  · exact hunit
  · have hlt := lt_length_of_unitStart? hstart
    omega

variable {offset : Nat} {count : Repeat} {d : Draft} {c : Char}

theorem enter (h : Segmented marks slots) (bracket : Bracket) (offset : Nat) :
    Segmented (⟨bracket, slots.length, offset⟩ :: marks) (slots ++ bracket.firstSlots) :=
  ⟨slots, [], by rw [List.append_nil], rfl, .nil, h⟩

theorem enter_of_nil {bracket : Bracket} {offset : Nat} (h : Segmented marks slots) (hfirst : bracket.firstSlots = []) :
    Segmented (⟨bracket, slots.length, offset⟩ :: marks) slots := by
  have key := h.enter bracket offset
  rwa [hfirst, List.append_nil] at key

theorem closeGroup (h : Segmented b.marks b.slots) (k : b.closeGroup n offset = .ok b') : Segmented b'.marks b'.slots := by
  unfold Buffer.closeGroup at k
  split at k
  · next hmarks =>
    rw [hmarks] at h
    obtain ⟨before, inside, hslots, -, hinside, hbefore⟩ := h
    obtain rfl := Except.ok.inj k
    have key := hbefore.append (.group hinside)
    rw [hslots]
    simpa [Bracket.firstSlots] using key
  · cases k

theorem closeSet (h : Segmented b.marks b.slots) (k : b.closeSet offset = .ok b') : Segmented b'.marks b'.slots := by
  unfold Buffer.closeSet at k
  split at k
  · next hmarks =>
    rw [hmarks] at h
    obtain ⟨before, inside, hslots, rfl, -, hbefore⟩ := h
    rw [hslots, cut_append] at k
    dsimp only [bind, Except.bind] at k
    split at k
    · cases k
    · obtain rfl := Except.ok.inj k
      exact hbefore.concat (by simp) (by simp)
  · cases k

theorem repeatUnit (h : Segmented b.marks b.slots) (k : b.repeatUnit count offset = .ok b') :
    Segmented b'.marks b'.slots := by
  obtain ⟨start?, hstart, k⟩ := bind_eq_ok_iff.1 k
  split at k
  · split_ifs at k with hfloor
    · obtain ⟨front, unit, hslots, rfl, hunit, hfront⟩ := h.exists_unit hstart hfloor.1
      rw [hslots, cut_append] at k
      dsimp only [bind, Except.bind] at k
      split at k
      · cases k
      · next ts hts =>
        obtain rfl := eq_map_of_tokensOf hts
        split at k
        · next tokens hexpand =>
          obtain rfl := Except.ok.inj k
          exact hfront.append (Repeat.formsUnit_expand? hunit hexpand).balanced
        · cases k
    · cases k
  · cases k

theorem closeCount (h : Segmented b.marks b.slots) (k : b.closeCount offset = .ok b') : Segmented b'.marks b'.slots := by
  unfold Buffer.closeCount at k
  split at k
  · next hmarks =>
    rw [hmarks] at h
    obtain ⟨before, inside, hslots, rfl, -, hbefore⟩ := h
    rw [hslots, cut_append] at k
    dsimp only [bind, Except.bind] at k
    split at k
    · exact repeatUnit hbefore k
    · cases k
  · cases k

theorem negate (h : Segmented b.marks b.slots) (k : b.negateSet? = some b') : Segmented b'.marks b'.slots := by
  unfold negateSet? at k
  split at k
  · next hmarks =>
    rw [hmarks] at h
    split_ifs at k
    obtain rfl := Option.some.inj k
    exact h
  · contradiction

/-- The lower end of a range is taken off like a unit, and the range is put in its place. -/
theorem joinRange {lo : Char} {left : List Char} (h : Segmented (d.flat n).marks (d.flat n).slots)
    (hlast : d.lastLiteral? = some lo) (hread : Draft.Reads n d text (.ok (b, left)))
    (k : b.joinRange lo (d.flat n).slots.length offset = .ok b') : Segmented b'.marks b'.slots := by
  cases hread with
  | other _ hupper =>
    rw [hupper] at k
    cases k
  | literal =>
    rw [Draft.joinRange_emit hlast] at k
    split at k
    · next t hrange =>
      obtain rfl := Except.ok.inj k
      obtain ⟨slot, hhead, hslot⟩ := Option.bind_eq_some_iff.1 hlast
      obtain rfl := literal?_eq_some.1 hslot
      obtain ⟨before, hslots⟩ := List.head?_eq_some_iff.1 hhead
      have hflat : (d.flat n).slots = (d.outer ++ before.reverse) ++ [.token (.literal lo)] := by
        rw [Draft.slots_flat, hslots, List.reverse_cons, List.append_assoc]
      have hjoined : ((d.replaceLast t).flat n).slots = (d.outer ++ before.reverse) ++ [.token t] := by
        rw [Draft.slots_flat, Draft.replaceLast, hslots, List.tail_cons, List.reverse_cons, List.append_assoc]
        rfl
      have hstart : unitStart? (d.flat n).slots = .ok (some (d.outer ++ before.reverse).length) := by
        rw [hflat]
        exact unitStart?_formsUnit (.single rfl) _
      have hfloor : (d.flat n).floor ≤ (d.outer ++ before.reverse).length := by
        rw [Draft.floor_flat, List.length_append]
        exact Nat.le_add_right _ _
      obtain ⟨front, unit, hunit, hlength, -, hfront⟩ := h.exists_unit hstart hfloor
      rw [hflat] at hunit
      obtain ⟨rfl, -⟩ := List.append_inj hunit hlength.symm
      unfold Token.range? at hrange
      split_ifs at hrange
      obtain rfl := Option.some.inj hrange
      rw [hjoined]
      exact hfront.concat (by simp) (by simp)
    · cases k

/-- Reading one thing keeps the parentheses matched behind each mark. -/
theorem read (hfits : d.Fits n (c :: text)) (h : Segmented (d.flat n).marks (d.flat n).slots)
    (k : (d.flat n).read n c text = .ok (b', rest)) : Segmented b'.marks b'.slots := by
  have pushed {slot : Slot} {left : List Char} (hopen : slot ≠ .token (.operator .openParen))
      (hclose : slot ≠ .token (.operator .closeParen))
      (k : (.ok ((d.flat n).push slot, left) : Except Stop (Buffer × List Char)) = .ok (b', rest)) :
      Segmented b'.marks b'.slots := by
    obtain ⟨rfl, -⟩ := Prod.mk.inj (Except.ok.inj k)
    exact h.concat hopen hclose
  rw [Buffer.read.eq_def] at k
  cases hsign : Sign.ofChar c with
  | literal | wildcard =>
    rw [hsign] at k
    exact pushed (by simp) (by simp) k
  | operator op =>
    obtain ⟨hopen, hclose⟩ := Sign.ne_paren hsign
    rw [hsign] at k
    exact pushed (by simpa using hopen) (by simpa using hclose) k
  | escape =>
    rw [hsign] at k
    dsimp only at k
    split at k
    · cases k
    · exact pushed (by simp) (by simp) k
  | openGroup =>
    rw [hsign] at k
    obtain ⟨rfl, -⟩ := Prod.mk.inj (Except.ok.inj k)
    exact h.enter .group _
  | openSet | openCount =>
    rw [hsign] at k
    obtain ⟨rfl, -⟩ := Prod.mk.inj (Except.ok.inj k)
    exact h.enter_of_nil rfl
  | closeGroup =>
    rw [hsign] at k
    obtain ⟨next, hnext, k⟩ := bind_eq_ok_iff.1 k
    obtain ⟨rfl, -⟩ := Prod.mk.inj (Except.ok.inj k)
    exact h.closeGroup hnext
  | closeSet =>
    rw [hsign] at k
    obtain ⟨next, hnext, k⟩ := bind_eq_ok_iff.1 k
    obtain ⟨rfl, -⟩ := Prod.mk.inj (Except.ok.inj k)
    exact h.closeSet hnext
  | closeCount =>
    rw [hsign] at k
    obtain ⟨next, hnext, k⟩ := bind_eq_ok_iff.1 k
    obtain ⟨rfl, -⟩ := Prod.mk.inj (Except.ok.inj k)
    exact h.closeCount hnext
  | caret =>
    rw [hsign] at k
    dsimp only at k
    split at k
    · next hnegate =>
      obtain ⟨rfl, -⟩ := Prod.mk.inj (Except.ok.inj k)
      exact h.negate hnegate
    · split_ifs at k
      · exact pushed (by simp) (by simp) k
      · cases k
  | dash =>
    rw [hsign] at k
    dsimp only at k
    split at k
    · next hlower =>
      obtain ⟨⟨above, left⟩, habove, k⟩ := bind_eq_ok_iff.1 k
      obtain ⟨joined, hjoined, k⟩ := bind_eq_ok_iff.1 k
      obtain ⟨rfl, -⟩ := Prod.mk.inj (Except.ok.inj k)
      have hread := hfits.behind.reads
      rw [habove] at hread
      exact h.joinRange (Draft.lowerEnd?_flat.symm.trans hlower) hread hjoined
    · cases k
  | ampersand =>
    rw [hsign] at k
    dsimp only at k
    split at k
    · split_ifs at k
      · exact pushed (by simp) (by simp) k
      · exact pushed (by simp) (by simp) k
    · exact pushed (by simp) (by simp) k

end Segmented

theorem segmented_of_visits (h : Visits pattern b text) : Segmented b.marks b.slots := by
  induction h with
  | start => exact Balanced.nil
  | read h k ih =>
    obtain ⟨d, hfits, rfl⟩ := exists_draft_of_visits h
    exact ih.read hfits k
  | upperEnd h k ih => exact ih

end Buffer
end RegexSearch
