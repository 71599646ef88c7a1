import RegexSearch.Expr.Loose
import RegexSearch.Proofs.Runs

/-! Stretches of an automaton that are entered at one state and left at another, and the language read in between. Stretches in
a row read a product, and a stretch with an edge around it and one back reads a star. -/
namespace RegexSearch.Automaton
open Computability

variable {a : Automaton} {p q r : Nat} {l m : Language Char}

def Enters (a : Automaton) (p q : Nat) (l : Language Char) : Prop := ∀ s ∈ l, a.Run p s q

/-- Each run from `p` to the end reads a word of `l` first and then goes on from `q`; that leaves it no more steps. -/
def Leaves (a : Automaton) (p q : Nat) (l : Language Char) : Prop :=
  ∀ n text, a.RunIn n p text a.final →
    ∃ k ≤ n, ∃ s ∈ l, ∃ rest, s ++ rest = text ∧ a.RunIn k q rest a.final

theorem Leaves.refl (a : Automaton) (p : Nat) : a.Leaves p p 1 := fun n text h =>
  ⟨n, le_rfl, [], Language.nil_mem_one, text, rfl, h⟩

theorem Leaves.mono (h : a.Leaves p q l) (hle : ∀ s ∈ l, s ∈ m) : a.Leaves p q m := by
  intro n text hrun
  obtain ⟨k, hk, s, hs, rest, hcat, hrest⟩ := h n text hrun
  exact ⟨k, hk, s, hle s hs, rest, hcat, hrest⟩

theorem Leaves.mul (h : a.Leaves p q l) (k : a.Leaves q r m) : a.Leaves p r (l * m) := by
  intro n text hrun
  obtain ⟨i, hi, s, hs, rest, hcat, hrest⟩ := h n text hrun
  obtain ⟨j, hj, t, ht, rest', hcat', hrest'⟩ := k i rest hrest
  refine ⟨j, hj.trans hi, s ++ t, Language.append_mem_mul hs ht, rest', ?_, hrest'⟩
  rw [List.append_assoc, hcat', hcat]

theorem Enters.refl (a : Automaton) (p : Nat) : a.Enters p p 1 := by
  intro s hs
  obtain rfl := (Language.mem_one s).1 hs
  exact .done p

theorem Enters.mul (h : a.Enters p q l) (k : a.Enters q r m) : a.Enters p r (l * m) := by
  intro x hx
  obtain ⟨s, hs, t, ht, rfl⟩ := Language.mem_mul.1 hx
  exact (h s hs).append (k t ht)

structure Crosses (a : Automaton) (p q : Nat) (l : Language Char) : Prop where
  enters : a.Enters p q l
  leaves : a.Leaves p q l

theorem Crosses.refl (a : Automaton) (p : Nat) : a.Crosses p p 1 := ⟨.refl a p, .refl a p⟩

theorem Crosses.mul (h : a.Crosses p q l) (k : a.Crosses q r m) : a.Crosses p r (l * m) :=
  ⟨h.enters.mul k.enters, h.leaves.mul k.leaves⟩

/-- What is read where an edge may lead around a stretch. -/
def skippable (skip : Bool) (l : Language Char) : Language Char := if skip then 1 + l else l

theorem mem_skippable {skip : Bool} {s : List Char} :
    s ∈ skippable skip l ↔ skip = true ∧ s = [] ∨ s ∈ l := by
  cases skip
  · simp [skippable]
  · change s ∈ 1 + l ↔ _
    rw [Language.mem_add, Language.mem_one]
    simp

theorem append_mem_kstar {s t : List Char} (hs : s ∈ l) (ht : t ∈ l∗) : s ++ t ∈ l∗ := by
  rw [← Language.one_add_self_mul_kstar_eq_kstar l]
  exact (Language.mem_add _ _ _).2 (.inr (Language.append_mem_mul hs ht))

/-- What is read at the end of a stretch whose runs may come back to it. -/
def repeatable (back : Bool) (l : Language Char) : Language Char := if back then l∗ else 1

theorem nil_mem_repeatable (back : Bool) : [] ∈ repeatable back l := by
  cases back
  · exact Language.nil_mem_one
  · exact Language.nil_mem_kstar l

/-- From `p` nothing is read on the way to `q`, or, if `back` holds, back to `door`. -/
structure Drifts (a : Automaton) (p q door : Nat) (back : Bool) : Prop where
  run : a.Run p [] q
  run_back : back = true → a.Run p [] door
  leaves : ∀ n text, a.RunIn n p text a.final →
    ∃ k ≤ n, a.RunIn k q text a.final ∨ back = true ∧ a.RunIn k door text a.final

theorem Drifts.refl (a : Automaton) (p door : Nat) : a.Drifts p p door false where
  run := .done p
  run_back h := absurd h Bool.false_ne_true
  leaves n _ h := ⟨n, le_rfl, .inl h⟩

-- Each time round takes a step, so a run comes back to the door no more often than it has steps.
theorem RunIn.of_door {P : Nat → List Char → Prop} {n : Nat} {text : List Char} (h : a.RunIn n p text a.final)
    (inner : p ≠ a.final) (silent : ∀ c, a.consumes p c = false)
    (mono : ∀ {k m : Nat} {rest : List Char}, k ≤ m → P k rest → P m rest)
    (step : ∀ v, (p, v) ∈ a.graph.edges → ∀ m rest, a.RunIn m v rest a.final →
      P m rest ∨ ∃ k ≤ m, a.RunIn k p rest a.final) : P n text := by
  induction n using Nat.strong_induction_on with
  | _ n ih =>
    obtain ⟨m, hm, ⟨v, hv, hstep⟩ | ⟨c, rest, -, hc, -⟩⟩ := h.first inner
    · obtain hend | ⟨k, hk, hdoor⟩ := step v hv m text hstep
      · exact mono hm.le hend
      · exact mono (hk.trans hm.le) (ih k (hk.trans_lt hm) hdoor)
    · rw [silent c] at hc
      contradiction

/-- A door each of whose edges leads to a stretch that is crossed by reading words of `l`, or just back to the door. -/
theorem Leaves.of_door (inner : p ≠ a.final) (silent : ∀ c, a.consumes p c = false)
    (step : ∀ v, (p, v) ∈ a.graph.edges →
      a.Leaves v q l ∨ ∃ f back, a.Drifts v f p back ∧ a.Leaves f q l) : a.Leaves p q l := by
  intro n text h
  refine h.of_door (P := fun n text => ∃ k ≤ n, ∃ s ∈ l, ∃ rest, s ++ rest = text ∧ a.RunIn k q rest a.final)
    inner silent (fun hle ⟨k, hk, found⟩ => ⟨k, hk.trans hle, found⟩) fun v hv m text hrun => ?_
  obtain hleaves | ⟨f, back, drifts, hleaves⟩ := step v hv
  · exact .inl (hleaves m text hrun)
  · obtain ⟨i, hi, hrest | ⟨-, hdoor⟩⟩ := drifts.leaves m text hrun
    · obtain ⟨k, hk, found⟩ := hleaves i text hrest
      exact .inl ⟨k, hk.trans hi, found⟩
    · exact .inr ⟨i, hi, hdoor⟩

theorem Enters.loop {back : Bool} (h : a.Enters p q l) (out : a.Run q [] r)
    (again : back = true → (q, p) ∈ a.graph.edges) : a.Enters q r (repeatable back l) := by
  intro s hs
  cases back with
  | false =>
    obtain rfl := (Language.mem_one s).1 hs
    exact out
  | true =>
    obtain ⟨words, rfl, hwords⟩ := Language.mem_kstar.1 hs
    clear hs
    induction words with
    | nil => exact out
    | cons word words ih =>
      have first := h word (hwords word List.mem_cons_self)
      have rest := ih fun w hw => hwords w (List.mem_cons_of_mem word hw)
      exact .epsilon (again rfl) (first.append rest)

-- The stretch itself may be crossed without a step, so the induction is on the steps, and the edge that leads to the next round
-- pays for it.
theorem Leaves.loop {t : Nat} {back astray : Bool} (h : a.Leaves p q l) (inner : q ≠ a.final)
    (edges : ∀ v, (q, v) ∈ a.graph.edges → v = r ∨ back = true ∧ v = p) (silent : ∀ c, a.consumes q c = false)
    (drifts : a.Drifts r t q astray) : a.Leaves q t (repeatable back l) := by
  intro n
  induction n using Nat.strong_induction_on with
  | _ n ih =>
    intro text hrun
    obtain ⟨k, hk, ⟨v, hv, hstep⟩ | ⟨c, rest, -, hc, -⟩⟩ := hrun.first inner
    · rcases edges v hv with rfl | ⟨rfl, rfl⟩
      · obtain ⟨i, hi, hrest | ⟨-, hdoor⟩⟩ := drifts.leaves k text hstep
        · exact ⟨i, hi.trans hk.le, [], nil_mem_repeatable back, text, rfl, hrest⟩
        · obtain ⟨j, hj, s, hs, rest, hcat, hrest⟩ := ih i (hi.trans_lt hk) text hdoor
          exact ⟨j, hj.trans (hi.trans hk.le), s, hs, rest, hcat, hrest⟩
      · obtain ⟨i, hi, s, hs, mid, rfl, hmid⟩ := h k text hstep
        obtain ⟨j, hj, t, ht, rest, rfl, hrest⟩ := ih i (hi.trans_lt hk) mid hmid
        exact ⟨j, hj.trans (hi.trans hk.le), s ++ t, append_mem_kstar hs ht, rest, List.append_assoc .., hrest⟩
    · rw [silent c] at hc
      contradiction

end Automaton

namespace Quantifier
open Automaton Computability

theorem skippable_mul_repeatable (q : Quantifier) (l : Language Char) :
    skippable q.skips l * repeatable q.repeats (skippable q.skips l) = Quantifier.language (some q) l := by
  cases q with
  | plus => rfl
  | optional => exact mul_one (1 + l)
  | star =>
    change (1 + l) * (1 + l)∗ = l∗
    have small : 1 + l ≤ l∗ := add_le one_le_kstar le_kstar
    apply le_antisymm
    · calc (1 + l) * (1 + l)∗ ≤ (1 + l)∗ := mul_kstar_le_kstar
        _ ≤ l∗∗ := kstar_mono small
        _ = l∗ := kstar_idem l
    · calc l∗ ≤ (1 + l)∗ := kstar_mono le_add_self
        _ = 1 * (1 + l)∗ := (one_mul _).symm
        _ ≤ (1 + l) * (1 + l)∗ := mul_le_mul_left le_self_add _

end Quantifier
end RegexSearch
