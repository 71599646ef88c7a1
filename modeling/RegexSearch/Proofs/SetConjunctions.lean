import RegexSearch.Proofs.PartialDerivations

/-! Conjunctions are only ever read inside sets, and every change of a draft leaves them there. -/
namespace RegexSearch
open Slot

/-- Each conjunction stands in a set, its own construct or one around that, and `P` holds of its offset. -/
def Conjoined (P : Nat → Prop) (slots : List Slot) : List Opened → Prop
  | [] => ∀ i, .conjunction i ∉ slots
  | o :: opened => (∀ i, .conjunction i ∈ slots → P i ∧ anySet (o :: opened) = true) ∧ Conjoined P o.outside opened

namespace Conjoined

variable {P Q : Nat → Prop} {slots more outside : List Slot} {opened : List Opened} {bracket : Bracket} {offset i : Nat}
  {d d' : Draft}

theorem of_mem (h : Conjoined P slots opened) (hi : .conjunction i ∈ slots) : P i ∧ anySet opened = true := by
  cases opened with
  | nil => exact absurd hi (h i)
  | cons o opened => exact h.1 i hi

theorem congr (h : Conjoined P slots opened) (k : ∀ i, .conjunction i ∈ more → P i ∧ anySet opened = true) :
    Conjoined P more opened := by
  cases opened with
  | nil => exact fun i hi => Bool.noConfusion (k i hi).2
  | cons o opened => exact ⟨k, h.2⟩

theorem subset (h : Conjoined P slots opened) (k : ∀ i, .conjunction i ∈ more → .conjunction i ∈ slots) :
    Conjoined P more opened := h.congr fun i hi => h.of_mem (k i hi)

theorem token {t : Token} (h : Conjoined P slots opened) : Conjoined P (.token t :: slots) opened :=
  h.subset fun _ hi => by simpa using hi

theorem conjunction (h : Conjoined P slots opened) (hset : anySet opened = true) (hi : P i) :
    Conjoined P (.conjunction i :: slots) opened := by
  refine h.congr fun j hj => ?_
  obtain hj | hj := List.mem_cons.1 hj
  · obtain rfl : j = i := by simpa using hj
    exact ⟨hi, hset⟩
  · exact h.of_mem hj

theorem enter (h : Conjoined P slots opened) : Conjoined P [] (⟨bracket, offset, slots⟩ :: opened) :=
  ⟨fun _ hi => absurd hi List.not_mem_nil, h⟩

theorem replaceLast {t : Token} (h : Conjoined P d.slots d.opened) :
    Conjoined P (d.replaceLast t).slots (d.replaceLast t).opened :=
  token (h.subset fun _ => List.mem_of_mem_tail)

theorem closeGroup (h : Conjoined P d.slots d.opened) (k : d.closeGroup offset = .ok d') :
    Conjoined P d'.slots d'.opened := by
  unfold Draft.closeGroup at k
  split at k
  · next start outside opened hopened =>
    rw [hopened] at h
    obtain rfl : _ = d' := by simpa using k
    -- A group is no set, so what stands in a set inside it does so outside it too.
    refine token (h.2.congr fun i hi => ?_)
    exact (List.mem_append.1 hi).elim (h.1 i) h.2.of_mem
  · contradiction

theorem closeSet (h : Conjoined P d.slots d.opened) (k : d.closeSet offset = .ok d') :
    Conjoined P d'.slots d'.opened := by
  unfold Draft.closeSet at k
  split at k
  · next negated start outside opened hopened =>
    rw [hopened] at h
    obtain ⟨members, -, hd⟩ := bind_eq_ok_iff.1 k
    obtain rfl : _ = d' := by simpa using hd
    exact token h.2
  · contradiction

theorem repeatUnit? {body result : List Slot} (h : Conjoined P slots opened)
    (k : Slot.repeatUnit? body slots = some result) : Conjoined P result opened := by
  obtain ⟨cs, count, unit, before, expansion, -, -, hsplit, -, rfl⟩ := repeatUnit?_eq_some_iff.1 k
  obtain rfl := splitUnit?_eq_some hsplit
  refine h.subset fun i hi => ?_
  obtain hi | hi := List.mem_append.1 hi
  · simp at hi
  · exact List.mem_append_right _ hi

theorem closeCount (h : Conjoined P d.slots d.opened) (k : d.closeCount offset = .ok d') :
    Conjoined P d'.slots d'.opened := by
  unfold Draft.closeCount at k
  split at k
  · next start outside opened hopened =>
    rw [hopened] at h
    split_ifs at k
    split at k
    · next slots hrepeat =>
      obtain rfl : _ = d' := by simpa using k
      exact h.2.repeatUnit? hrepeat
    · contradiction
  · contradiction

theorem negate (h : Conjoined P d.slots d.opened) (k : d.negateSet? = some d') : Conjoined P d'.slots d'.opened := by
  unfold Draft.negateSet? at k
  split at k
  · next start outside opened hslots hopened =>
    rw [hopened] at h
    obtain rfl : _ = d' := by simpa using k
    rw [hslots]
    exact h.2.enter
  · contradiction

end Conjoined
end RegexSearch
