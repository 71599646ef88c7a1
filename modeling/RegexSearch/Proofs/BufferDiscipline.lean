import RegexSearch.Proofs.BufferReading
import RegexSearch.Proofs.PatternGrammar

/-! Reading into a buffer never breaks down: it comes by the buffers of drafts only, and ends as the scan does. -/
namespace RegexSearch
open Pattern

variable {pattern text rest : List Char} {b : Buffer} {d : Draft} {n : Nat} {P : Nat → Prop}

namespace Draft

theorem Reads.of_ok (h : d.Fits n text) (k : Reads n d text (.ok (b, rest))) :
    ∃ d' : Draft, d'.Fits n rest ∧ d'.flat n = b ∧ d.resume none n text = d'.resume none n rest := by
  cases k with
  | literal hliteral hfirst =>
    exact ⟨_, h.literal (Nat.le_of_lt hliteral.length_lt), rfl, resume_emit hliteral hfirst h.length_le⟩
  | other hfits _ alone => exact ⟨_, hfits, rfl, alone⟩

theorem readAll_flat (h : d.Fits n text) : (d.flat n).readAll n text = flatResult n (d.resume none n text) := by
  generalize hflat : d.flat n = b
  fun_induction Buffer.readAll n b text generalizing d with
  | case1 b =>
    subst hflat
    rfl
  | case2 b c text b' rest hread ih =>
    subst hflat
    have key := h.reads
    rw [hread] at key
    obtain ⟨d', hfits, hflat, hresume⟩ := key.of_ok h
    rw [hresume]
    exact ih hfits hflat
  | case3 b c text stop hread =>
    subst hflat
    have key := h.reads
    rw [hread] at key
    cases key with
    | rejected alone =>
      rw [alone]
      rfl

end Draft

namespace Buffer

theorem exists_draft_of_visits (h : Visits pattern b text) :
    ∃ d : Draft, d.Fits pattern.length text ∧ d.flat pattern.length = b := by
  induction h with
  | start => exact ⟨{}, .start pattern, rfl⟩
  | read h k ih =>
    obtain ⟨d, hfits, rfl⟩ := ih
    have hread := hfits.reads
    rw [k] at hread
    obtain ⟨d', hfits', hflat, -⟩ := hread.of_ok hfits
    exact ⟨d', hfits', hflat⟩
  | upperEnd h k ih =>
    obtain ⟨d, hfits, hflat⟩ := ih
    exact ⟨d, hfits.behind, hflat⟩

theorem tokens_eq (pattern : List Char) : tokens pattern = (Pattern.tokens pattern).mapError .rejected := by
  have hread : readAll pattern.length {} pattern = Draft.flatResult pattern.length (draft pattern) := by
    rw [← resume_start]
    exact Draft.readAll_flat (.start pattern)
  unfold tokens Pattern.tokens
  rw [hread]
  cases hdraft : draft pattern with
  | error e => rfl
  | ok d =>
    have conjoined := conjoined_of_draft hdraft
    obtain ⟨slots, opened, end?⟩ := d
    cases opened with
    | nil =>
      have hslots (i : Nat) : .conjunction i ∉ slots.reverse := fun hi => conjoined i (List.mem_reverse.1 hi)
      obtain ⟨ts, hts⟩ := Slot.exists_map_token hslots
      have hcomplete : Draft.complete ⟨slots, [], end?⟩ pattern.length = .ok ts :=
        Draft.complete_eq_ok_iff.2 ⟨rfl, List.reverse_eq_iff.1 hts⟩
      have hresult : Draft.flatResult pattern.length (.ok ⟨slots, [], end?⟩) =
          .ok ⟨ts.map .token, [], end? == some pattern.length⟩ := hts ▸ rfl
      rw [hresult]
      dsimp only [bind, Except.bind]
      rw [tokensOf_map, hcomplete]
      dsimp only [Except.mapError]
      simp only [beq_iff_eq]
    | cons o opened =>
      have hresult : Draft.flatResult pattern.length (.ok ⟨slots, o :: opened, end?⟩) = .ok _ :=
        congrArg Except.ok Draft.flat_cons
      rw [hresult]
      rfl

/-- On every buffer that reading comes by the marks are in order, none stands behind the end, and each conjunction has a set
around it; the same holds of the draft after each character of the scan. No cut is made behind the end, no number runs below
zero, and no conjunction is met where there can only be tokens: reading ends just as the scan does. -/
theorem disciplined_reading (pattern : List Char) :
    (∀ b text, Visits pattern b text → b.Disciplined) ∧
    (∀ front s, front <+: pattern → scanFrom {} front = .ok s → (s.draft.flat pattern.length).Disciplined) ∧
    tokens pattern = (Pattern.tokens pattern).mapError .rejected ∧
    ∀ breakdown, tokens pattern ≠ .error (.broken breakdown) := by
  refine ⟨fun b text h => ?_, ?_, tokens_eq pattern, fun breakdown h => ?_⟩
  · obtain ⟨d, hfits, rfl⟩ := exists_draft_of_visits h
    exact Draft.disciplined_flat hfits.conjoined
  · rintro front s ⟨rest, rfl⟩ h
    exact Draft.disciplined_flat ((Underway.start (front ++ rest)).scanFrom h).conjoined
  · rw [tokens_eq] at h
    cases htokens : Pattern.tokens pattern with
    | ok ts =>
      rw [htokens] at h
      contradiction
    | error e =>
      rw [htokens] at h
      cases h

/-- The upper end of the range was a slot of its own before both ends were cut off, behind the mark of the set. -/
theorem disciplined_reading_range :
    Visits ['x', '[', 'a', '-', 'c', '&', '&', 'b', ']']
      ⟨[.token (.literal 'x'), .token (.range 'a' 'c'), .conjunction 5], [⟨.set false, 1, 1⟩], false⟩ ['b', ']'] ∧
    Disciplined ⟨[.token (.literal 'x'), .token (.range 'a' 'c'), .conjunction 5], [⟨.set false, 1, 1⟩], false⟩ ∧
    (∃ s, scanFrom {} ['x', '[', 'a', '-'] = .ok s ∧ (s.draft.flat 9).Disciplined) ∧
    tokens ['x', '[', 'a', '-', 'c', '&', '&', 'b', ']'] =
      (Pattern.tokens ['x', '[', 'a', '-', 'c', '&', '&', 'b', ']']).mapError .rejected := by
  have first : Visits ['x', '[', 'a', '-', 'c', '&', '&', 'b', ']'] ⟨[.token (.literal 'x')], [], false⟩
      ['[', 'a', '-', 'c', '&', '&', 'b', ']'] := .read .start rfl
  have entered : Visits ['x', '[', 'a', '-', 'c', '&', '&', 'b', ']'] ⟨[.token (.literal 'x')], [⟨.set false, 1, 1⟩], false⟩
      ['a', '-', 'c', '&', '&', 'b', ']'] := .read first rfl
  have lower : Visits ['x', '[', 'a', '-', 'c', '&', '&', 'b', ']']
      ⟨[.token (.literal 'x'), .token (.literal 'a')], [⟨.set false, 1, 1⟩], false⟩ ['-', 'c', '&', '&', 'b', ']'] :=
    .read entered rfl
  have joined : Visits ['x', '[', 'a', '-', 'c', '&', '&', 'b', ']']
      ⟨[.token (.literal 'x'), .token (.range 'a' 'c')], [⟨.set false, 1, 1⟩], false⟩ ['&', '&', 'b', ']'] :=
    .read lower rfl
  have conjoined : Visits ['x', '[', 'a', '-', 'c', '&', '&', 'b', ']']
      ⟨[.token (.literal 'x'), .token (.range 'a' 'c'), .conjunction 5], [⟨.set false, 1, 1⟩], false⟩ ['b', ']'] :=
    .read joined rfl
  obtain ⟨hbuffer, hdraft, htokens, -⟩ := disciplined_reading ['x', '[', 'a', '-', 'c', '&', '&', 'b', ']']
  exact ⟨conjoined, hbuffer _ _ conjoined, ⟨_, rfl, hdraft ['x', '[', 'a', '-'] _ ⟨_, rfl⟩ rfl⟩, htokens⟩

end Buffer
end RegexSearch
