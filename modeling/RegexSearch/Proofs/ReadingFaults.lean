import RegexSearch.Pattern.Scan
import RegexSearch.Proofs.Conjunctions

/-! The errors that reading a pattern may end with, function by function: whatever holds of each fault at the offset where it is
raised holds of every error. -/
namespace RegexSearch

def ErrorsIn {α : Type} (P : SyntaxError → Prop) (x : Except SyntaxError α) : Prop := ∀ e, x = .error e → P e

variable {P : SyntaxError → Prop}

namespace ErrorsIn
variable {α β : Type}

theorem ok (a : α) : ErrorsIn P (.ok a) := by
  rintro e ⟨⟩

theorem error {e : SyntaxError} (h : P e) : ErrorsIn P (.error e : Except SyntaxError α) := by
  rintro _ ⟨⟩
  exact h

theorem bind {x : Except SyntaxError α} {f : α → Except SyntaxError β} (h : ErrorsIn P x)
    (k : ∀ a, x = .ok a → ErrorsIn P (f a)) : ErrorsIn P (x >>= f) := by
  intro e he
  cases x with
  | error e' =>
    obtain rfl : e' = e := Except.error.inj he
    exact h e' rfl
  | ok a => exact k a rfl e he

theorem foldlM {f : β → α → Except SyntaxError β} (h : ∀ b a, ErrorsIn P (f b a)) (xs : List α) (b : β) :
    ErrorsIn P (xs.foldlM f b) := by
  induction xs generalizing b with
  | nil => exact ok b
  | cons x xs ih =>
    rw [List.foldlM_cons]
    exact (h b x).bind fun b _ => ih b

theorem mapM {f : α → Except SyntaxError β} {xs : List α} (h : ∀ x ∈ xs, ErrorsIn P (f x)) : ErrorsIn P (xs.mapM f) := by
  induction xs with
  | nil => exact ok []
  | cons x xs ih =>
    rw [List.mapM_cons]
    exact (h x List.mem_cons_self).bind fun y _ =>
      (ih fun z hz => h z (List.mem_cons_of_mem x hz)).bind fun ys _ => ok (y :: ys)

end ErrorsIn

theorem Slot.errorsIn_foldConjunctions {members : List Token} {slots : List Slot}
    (h : ∀ offset, conjunction offset ∈ slots → P ⟨.intersection, offset⟩) :
    ErrorsIn P (foldConjunctions members slots) := by
  fun_induction foldConjunctions members slots with
  | case1 => exact .ok _
  | case2 _ _ _ ih => exact ih fun offset hmem => h offset (List.mem_cons_of_mem _ hmem)
  | case3 _ _ _ _ _ ih => exact ih fun offset hmem => h offset (List.mem_cons_of_mem _ (List.mem_cons_of_mem _ hmem))
  | case4 => exact .error (h _ List.mem_cons_self)

namespace Draft

variable {d : Draft} {offset length : Nat}

theorem errorsIn_closeGroup (h : P ⟨.unmatchedOperator, offset⟩) : ErrorsIn P (d.closeGroup offset) := by
  unfold closeGroup
  split
  · exact .ok _
  · exact .error h

theorem errorsIn_closeSet (h : P ⟨.unmatchedOperator, offset⟩)
    (k : ∀ i, .conjunction i ∈ d.slots → P ⟨.intersection, i⟩) : ErrorsIn P (d.closeSet offset) := by
  unfold closeSet
  split
  · refine ErrorsIn.bind (Slot.errorsIn_foldConjunctions fun i hi => k i (List.mem_reverse.1 hi)) fun members _ => ?_
    exact .ok _
  · exact .error h

theorem errorsIn_closeCount (h : P ⟨.unmatchedOperator, offset⟩) (k : P ⟨.closure, offset⟩) :
    ErrorsIn P (d.closeCount offset) := by
  unfold closeCount
  split
  · split
    · exact .error k
    · split
      · exact .ok _
      · exact .error k
  · exact .error h

theorem errorsIn_complete (h : P ⟨.unmatchedOperator, length⟩)
    (k : ∀ i, .conjunction i ∈ d.slots → P ⟨.intersection, i⟩) : ErrorsIn P (d.complete length) := by
  unfold complete
  split
  · refine ErrorsIn.mapM fun slot hslot => ?_
    cases slot with
    | token t => exact .ok t
    | conjunction i => exact .error (k i (List.mem_reverse.1 hslot))
  · exact .error h

end Draft

namespace Scan

variable {s : Scan} {offset : Nat} {c : Char}

theorem errorsIn_rangeToken {lo hi : Char} (h : P ⟨.characterRange, offset⟩) : ErrorsIn P (rangeToken lo hi offset) := by
  unfold rangeToken
  split
  · exact .ok _
  · exact .error h

theorem errorsIn_literal (h : ∀ r, s.range? = some r → P ⟨.characterRange, offset⟩ ∧ P ⟨.characterRange, r.dash⟩) :
    ErrorsIn P (s.literal offset c) := by
  unfold literal
  split
  · exact .ok _
  · next r hrange =>
    obtain ⟨hupper, hdash⟩ := h r hrange
    refine (errorsIn_rangeToken hupper).bind fun t _ => ?_
    split
    · exact .error hdash
    · exact .ok _

theorem errorsIn_structural {change : Except SyntaxError Draft} (h : ErrorsIn P change)
    (k : ∀ r, s.range? = some r → P ⟨.characterRange, offset⟩) : ErrorsIn P (s.structural offset change) := by
  refine ErrorsIn.bind h fun d _ => ?_
  split
  · exact .ok _
  · next r hrange => exact .error (k r hrange)

theorem errorsIn_dash (h : P ⟨.characterRange, offset⟩) : ErrorsIn P (s.dash offset) := by
  unfold dash
  split
  · exact .ok _
  · split
    · exact .ok _
    · exact .error h

theorem errorsIn_read (range : ∀ r, s.range? = some r → P ⟨.characterRange, offset⟩ ∧ P ⟨.characterRange, r.dash⟩)
    (dash : Sign.ofChar c = .dash → P ⟨.characterRange, offset⟩)
    (unmatched : Sign.ofChar c ∈ [.closeGroup, .closeSet, .closeCount, .caret] → P ⟨.unmatchedOperator, offset⟩)
    (closure : Sign.ofChar c = .closeCount → P ⟨.closure, offset⟩)
    (intersection : ∀ i, .conjunction i ∈ s.draft.slots → P ⟨.intersection, i⟩) : ErrorsIn P (s.read offset c) := by
  have upper (r : PendingRange) (hrange : s.range? = some r) : P ⟨.characterRange, offset⟩ := (range r hrange).1
  unfold read
  split
  · exact .ok _
  · exact errorsIn_structural (.ok _) upper
  · exact errorsIn_structural (.ok _) upper
  · exact errorsIn_structural (.ok _) upper
  · next hsign => exact errorsIn_structural (Draft.errorsIn_closeGroup (unmatched (by simp [hsign]))) upper
  · exact errorsIn_structural (.ok _) upper
  · next hsign => exact errorsIn_structural (Draft.errorsIn_closeSet (unmatched (by simp [hsign])) intersection) upper
  · exact errorsIn_structural (.ok _) upper
  · next hsign =>
    exact errorsIn_structural (Draft.errorsIn_closeCount (unmatched (by simp [hsign])) (closure hsign)) upper
  · next hsign =>
    split
    · exact errorsIn_structural (.ok _) upper
    · split
      · exact errorsIn_literal range
      · exact .error (unmatched (by simp [hsign]))
  · next hsign => exact errorsIn_dash (dash hsign)
  · split
    · exact .ok _
    · exact errorsIn_literal range
  · exact errorsIn_literal range

end Scan

/-- All errors but those of grouping, which only the tokens of a pattern can show. -/
def NoGrouping (e : SyntaxError) : Prop := e.fault ≠ .grouping

namespace Scan

variable (s : Scan) (offset : Nat) (c : Char)

theorem noGrouping_literal : ErrorsIn NoGrouping (s.literal offset c) := errorsIn_literal fun _ _ => ⟨nofun, nofun⟩

theorem noGrouping_read : ErrorsIn NoGrouping (s.read offset c) :=
  errorsIn_read (fun _ _ => ⟨nofun, nofun⟩) nofun nofun nofun nofun

theorem noGrouping_step : ErrorsIn NoGrouping (s.step c) := by
  unfold step
  split
  · exact (s.noGrouping_read s.offset c).bind fun next _ => .ok _
  · exact (s.resume.noGrouping_literal _ c).bind fun next _ => .ok _
  · split
    · exact (errorsIn_structural (P := NoGrouping) (.ok _) nofun).bind fun next _ => .ok _
    · exact (s.resume.noGrouping_literal _ '&').bind fun before _ =>
        (before.noGrouping_read s.offset c).bind fun next _ => .ok _

theorem noGrouping_finish : ErrorsIn NoGrouping s.finish := by
  have release : ErrorsIn NoGrouping s.release := by
    unfold Scan.release
    split
    · exact .ok s
    · exact .error nofun
    · exact s.resume.noGrouping_literal _ '&'
  refine release.bind fun t _ => ?_
  split
  · exact .error nofun
  · exact .ok _

end Scan

theorem Pattern.noGrouping_tokens (pattern : List Char) : ErrorsIn NoGrouping (Pattern.tokens pattern) := by
  have scanned : ErrorsIn NoGrouping (Pattern.draft pattern) :=
    (ErrorsIn.foldlM Scan.noGrouping_step pattern {}).bind fun s _ => s.noGrouping_finish
  have completed (d : Draft) : ErrorsIn NoGrouping (d.complete pattern.length) := Draft.errorsIn_complete nofun nofun
  exact scanned.bind fun d _ => (completed d).bind fun body _ => .ok _

end RegexSearch
