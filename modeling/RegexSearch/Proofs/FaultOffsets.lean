import RegexSearch.Pattern.Shown
import RegexSearch.Proofs.ReadingFaults
import RegexSearch.Proofs.ScanInvariant
import RegexSearch.Proofs.SetConjunctions

/-! Each offset that the scan keeps is that of the character it stands for: what is held back, the latest dash, each
conjunction. So every error points at the character that shows it. -/
namespace RegexSearch
open Pattern

/-- Where the characters start that the scan has not yet made anything of, after so many have been read. -/
def Held.start (offset : Nat) : Option Held → Nat
  | none => offset
  | some (.escape start) | some (.ampersand start) => start

/-- What is held back is the latest character, and no escape makes the next one a literal unless it is held. -/
inductive HeldAt (pattern : List Char) (d : Draft) (offset : Nat) : Option Held → Prop
  | none (h : ¬ Escaped pattern offset) : HeldAt pattern d offset none
  | escape {start : Nat} (h : Stands pattern start '\\') (start_succ : start + 1 = offset) :
    HeldAt pattern d offset (some (.escape start))
  | ampersand {start : Nat} (h : Stands pattern start '&') (start_succ : start + 1 = offset) (hset : d.inSet = true) :
    HeldAt pattern d offset (some (.ampersand start))

/-- Two in a row that stand for a conjunction. -/
def Paired (pattern : List Char) (k : Nat) : Prop := Stands pattern k '&' ∧ pattern[k + 1]? = some '&'

/-- The invariant of the scan before the character at `offset`. -/
structure Located (pattern : List Char) (offset : Nat) (s : Scan) : Prop where
  held : HeldAt pattern s.draft offset s.held?
  range : ∀ r, s.range? = some r → Stands pattern r.dash '-' ∧ r.dash + 1 = Held.start offset s.held?
  conjoined : Conjoined (Paired pattern) s.draft.slots s.draft.opened

/-- Nothing is held back, and no range is in progress. -/
structure AtRest (P : Nat → Prop) (s : Scan) : Prop where
  held : s.held? = none
  range : s.range? = none
  conjoined : Conjoined P s.draft.slots s.draft.opened

variable {P : Nat → Prop} {pattern text : List Char} {s t : Scan} {d : Draft} {c : Char} {offset : Nat}
  {change : Except SyntaxError Draft} {e : SyntaxError}

theorem AtRest.of_literal (hheld : s.held? = none) (h : Conjoined P s.draft.slots s.draft.opened)
    (k : s.literal offset c = .ok t) : AtRest P t := by
  unfold Scan.literal at k
  split at k
  · next hrange =>
    obtain rfl := Except.ok.inj k
    exact ⟨hheld, hrange, h.token⟩
  · obtain ⟨token, -, k⟩ := bind_eq_ok_iff.1 k
    split_ifs at k
    obtain rfl := Except.ok.inj k
    exact ⟨hheld, rfl, h.replaceLast⟩

theorem AtRest.of_structural (hheld : s.held? = none) (h : ∀ d, change = .ok d → Conjoined P d.slots d.opened)
    (k : s.structural offset change = .ok t) : AtRest P t := by
  obtain ⟨d, hd, k⟩ := bind_eq_ok_iff.1 k
  split at k
  · next hrange =>
    obtain rfl := Except.ok.inj k
    exact ⟨hheld, hrange, h d hd⟩
  · contradiction

theorem AtRest.of_structural_ok (hheld : s.held? = none) (h : Conjoined P d.slots d.opened)
    (k : s.structural offset (.ok d) = .ok t) : AtRest P t :=
  of_structural hheld (fun _ hd => Except.ok.inj hd ▸ h) k

namespace Located

theorem of_atRest (h : AtRest (Paired pattern) t) (hnext : ¬ Escaped pattern offset) : Located pattern offset t := by
  refine ⟨?_, fun r hr => ?_, h.conjoined⟩
  · rw [h.held]
    exact .none hnext
  · rw [h.range] at hr
    contradiction

theorem not_escaped (h : Located pattern offset s) (hheld : s.held? = none) : ¬ Escaped pattern offset := by
  have hnone := h.held
  rw [hheld] at hnone
  cases hnone with
  | none hnext => exact hnext

theorem range_of_none (h : Located pattern offset s) (hheld : s.held? = none) (r : PendingRange)
    (hrange : s.range? = some r) : Stands pattern r.dash '-' ∧ r.dash + 1 = offset := by
  have key := h.range r hrange
  rw [hheld] at key
  exact key

theorem dash (h : Located pattern offset s) (hheld : s.held? = none) (stands : Stands pattern offset '-')
    (k : s.dash offset = .ok t) : Located pattern (offset + 1) t := by
  have pending {lo : Char} {chained : Bool} : Located pattern (offset + 1) { s with range? := some ⟨lo, offset, chained⟩ } := by
    refine ⟨?_, ?_, h.conjoined⟩
    · rw [hheld]
      exact .none (not_escaped_succ stands.1 (by decide))
    · rintro r ⟨⟩
      rw [hheld]
      exact ⟨stands, rfl⟩
  unfold Scan.dash at k
  split at k
  · obtain rfl := Except.ok.inj k
    exact pending
  · split at k
    · obtain rfl := Except.ok.inj k
      exact pending
    · contradiction

theorem read (h : Located pattern offset s) (hheld : s.held? = none) (hc : pattern[offset]? = some c)
    (k : s.read offset c = .ok t) : Located pattern (offset + 1) t := by
  have stands : Stands pattern offset c := ⟨hc, h.not_escaped hheld⟩
  have atRest (hsign : Sign.ofChar c ≠ .escape) (key : AtRest (Paired pattern) t) : Located pattern (offset + 1) t := by
    refine of_atRest key (not_escaped_succ hc ?_)
    rintro rfl
    exact hsign rfl
  unfold Scan.read at k
  split at k
  · next hsign =>
    obtain rfl := Sign.eq_of_char? hsign rfl
    obtain rfl := Except.ok.inj k
    exact ⟨.escape stands rfl, fun r hr => h.range_of_none hheld r hr, h.conjoined⟩
  · next hsign => exact atRest (by simp [hsign]) (.of_structural_ok hheld h.conjoined.token k)
  · next hsign => exact atRest (by simp [hsign]) (.of_structural_ok hheld h.conjoined.token k)
  · next hsign => exact atRest (by simp [hsign]) (.of_structural_ok hheld h.conjoined.enter.token k)
  · next hsign => exact atRest (by simp [hsign]) (.of_structural hheld (fun _ => h.conjoined.closeGroup) k)
  · next hsign => exact atRest (by simp [hsign]) (.of_structural_ok hheld h.conjoined.enter k)
  · next hsign => exact atRest (by simp [hsign]) (.of_structural hheld (fun _ => h.conjoined.closeSet) k)
  · next hsign => exact atRest (by simp [hsign]) (.of_structural_ok hheld h.conjoined.enter k)
  · next hsign => exact atRest (by simp [hsign]) (.of_structural hheld (fun _ => h.conjoined.closeCount) k)
  · next hsign =>
    split at k
    · next hnegate => exact atRest (by simp [hsign]) (.of_structural_ok hheld (h.conjoined.negate hnegate) k)
    · split_ifs at k
      exact atRest (by simp [hsign]) (.of_literal hheld h.conjoined k)
  · next hsign =>
    obtain rfl := Sign.eq_of_char? hsign rfl
    exact h.dash hheld stands k
  · next hsign =>
    split_ifs at k with hset
    · obtain rfl := Sign.eq_of_char? hsign rfl
      obtain rfl := Except.ok.inj k
      exact ⟨.ampersand stands rfl hset, fun r hr => h.range_of_none hheld r hr, h.conjoined⟩
    · exact atRest (by simp [hsign]) (.of_literal hheld h.conjoined k)
  · next hsign => exact atRest (by simp [hsign]) (.of_literal hheld h.conjoined k)

/-- A range in progress starts right before what the scan has not yet made anything of. -/
theorem shown_range (h : Located pattern offset s) (lt : Held.start offset s.held? < pattern.length) (r : PendingRange)
    (hrange : s.range? = some r) :
    Shown pattern ⟨.characterRange, Held.start offset s.held?⟩ ∧ Shown pattern ⟨.characterRange, r.dash⟩ := by
  obtain ⟨hdash, hstart⟩ := h.range r hrange
  rw [← hstart] at lt ⊢
  exact ⟨.upperEnd hdash lt, .dash hdash⟩

theorem shown_literal (h : Located pattern offset s) {start : Nat} (hstart : Held.start offset s.held? = start)
    (lt : start < pattern.length) (a : Char) : ErrorsIn (Shown pattern) (s.resume.literal start a) := by
  subst hstart
  exact Scan.errorsIn_literal fun r hr => h.shown_range lt r hr

theorem shown_read (h : Located pattern offset s) (hheld : s.held? = none) (hc : pattern[offset]? = some c) :
    ErrorsIn (Shown pattern) (s.read offset c) := by
  have stands : Stands pattern offset c := ⟨hc, h.not_escaped hheld⟩
  refine Scan.errorsIn_read (fun r hr => ?_) (fun hsign => ?_) (fun hsign => ?_) (fun hsign => ?_) fun i hi => ?_
  · have key := h.shown_range (by rw [hheld]; exact stands.lt) r hr
    rwa [hheld] at key
  · obtain rfl := Sign.eq_of_char? hsign rfl
    exact .dash stands
  · refine .unmatched stands ?_
    simp only [List.mem_cons, List.not_mem_nil, or_false] at hsign ⊢
    exact hsign.imp (Sign.eq_of_char? · rfl)
      (Or.imp (Sign.eq_of_char? · rfl) (Or.imp (Sign.eq_of_char? · rfl) (Sign.eq_of_char? · rfl)))
  · obtain rfl := Sign.eq_of_char? hsign rfl
    exact .closure stands
  · obtain ⟨hfirst, hsecond⟩ := (h.conjoined.of_mem hi).1
    exact .conjunction hfirst hsecond

/-- A `&` that is no conjunction has been made a literal, and the character behind it is still to be read. -/
theorem release (h : Located pattern offset s) {start : Nat} (hheld : s.held? = some (.ampersand start))
    (k : s.resume.literal start '&' = .ok t) : Located pattern offset t := by
  have key := h.held
  rw [hheld] at key
  cases key with
  | ampersand stands hstart hset =>
    subst hstart
    exact of_atRest (.of_literal (s := s.resume) rfl h.conjoined k) (not_escaped_succ stands.1 (by decide))

end Located

/-- The scan has read all of the pattern but `text`. -/
structure Underway (pattern : List Char) (s : Scan) (text : List Char) : Prop extends Located pattern s.offset s where
  drop_eq : pattern.drop s.offset = text
  length_eq : s.offset + text.length = pattern.length

namespace Underway

theorem start (pattern : List Char) : Underway pattern {} pattern where
  held := .none not_false
  range := nofun
  conjoined := fun _ => List.not_mem_nil
  drop_eq := rfl
  length_eq := Nat.zero_add _

theorem getElem?_offset (h : Underway pattern s (c :: text)) : pattern[s.offset]? = some c := by
  rw [← List.head?_drop, h.drop_eq]
  rfl

/-- Where the next character starts, or the characters held back. -/
theorem start_lt (h : Underway pattern s (c :: text)) : Held.start s.offset s.held? < pattern.length := by
  have hlt : s.offset < pattern.length := (List.getElem?_eq_some_iff.1 h.getElem?_offset).1
  have hheld := h.held
  cases hheld' : s.held? with
  | none => exact hlt
  | some held =>
    rw [hheld'] at hheld
    cases hheld with
    | escape _ hstart | ampersand _ hstart _ => exact Nat.lt_trans (Nat.lt_of_succ_le (Nat.le_of_eq hstart)) hlt

theorem step (h : Underway pattern s (c :: text)) (k : s.step c = .ok t) : Underway pattern t text := by
  have hc := h.getElem?_offset
  have hheld := h.held
  obtain ⟨next, key, rfl⟩ : ∃ next, Located pattern (s.offset + 1) next ∧ { next with offset := s.offset + 1 } = t := by
    unfold Scan.step at k
    split at k
    · next hnone =>
      obtain ⟨next, hnext, ht⟩ := bind_eq_ok_iff.1 k
      exact ⟨next, h.read hnone hc hnext, Except.ok.inj ht⟩
    · next start hescape =>
      obtain ⟨next, hnext, ht⟩ := bind_eq_ok_iff.1 k
      rw [hescape] at hheld
      cases hheld with
      | escape stands hstart =>
        -- This character is what the escape makes a literal, so the next one is not.
        have escaped : Escaped pattern s.offset := hstart ▸ stands
        exact ⟨next, .of_atRest (.of_literal (s := s.resume) rfl h.conjoined hnext) fun k => k.2 escaped, Except.ok.inj ht⟩
    · next start hampersand =>
      split_ifs at k with hsecond
      · subst hsecond
        obtain ⟨next, hnext, ht⟩ := bind_eq_ok_iff.1 k
        rw [hampersand] at hheld
        cases hheld with
        | ampersand stands hstart hset =>
          have paired : Paired pattern start := ⟨stands, hstart ▸ hc⟩
          have atRest := AtRest.of_structural_ok (s := s.resume) rfl (h.conjoined.conjunction hset paired) hnext
          exact ⟨next, .of_atRest atRest (not_escaped_succ hc (by decide)), Except.ok.inj ht⟩
      · obtain ⟨before, hbefore, k⟩ := bind_eq_ok_iff.1 k
        obtain ⟨next, hnext, ht⟩ := bind_eq_ok_iff.1 k
        have atRest := AtRest.of_literal (s := s.resume) rfl h.conjoined hbefore
        exact ⟨next, (h.release hampersand hbefore).read atRest.held hc hnext, Except.ok.inj ht⟩
  refine ⟨⟨key.held, key.range, key.conjoined⟩, ?_, ?_⟩
  · show pattern.drop (s.offset + 1) = text
    rw [← List.tail_drop, h.drop_eq]
    rfl
  · have hlength := h.length_eq
    rw [List.length_cons] at hlength
    show s.offset + 1 + text.length = pattern.length
    omega

theorem shown_step (h : Underway pattern s (c :: text)) : ErrorsIn (Shown pattern) (s.step c) := by
  have hc := h.getElem?_offset
  have lt := h.start_lt
  unfold Scan.step
  split
  · next hnone => exact (h.shown_read hnone hc).bind fun next _ => .ok _
  · next start hescape =>
    have hstart : Held.start s.offset s.held? = start := by
      rw [hescape]
      rfl
    exact (h.shown_literal hstart (hstart ▸ lt) c).bind fun next _ => .ok _
  · next start hampersand =>
    have hstart : Held.start s.offset s.held? = start := by
      rw [hampersand]
      rfl
    split
    · refine (Scan.errorsIn_structural (.ok _) fun r hr => ?_).bind fun next _ => .ok _
      exact hstart ▸ (h.shown_range lt r hr).1
    · refine (h.shown_literal hstart (hstart ▸ lt) '&').bind fun before hbefore => ?_
      have atRest := AtRest.of_literal (s := s.resume) rfl h.conjoined hbefore
      exact ((h.release hampersand hbefore).shown_read atRest.held hc).bind fun next _ => .ok _

theorem scanFrom {front : List Char} (h : Underway pattern s (front ++ text)) (k : scanFrom s front = .ok t) :
    Underway pattern t text := by
  induction front generalizing s with
  | nil =>
    obtain rfl := Except.ok.inj k
    exact h
  | cons c front ih =>
    unfold Pattern.scanFrom at k
    rw [List.foldlM_cons] at k
    obtain ⟨next, hnext, k⟩ := bind_eq_ok_iff.1 k
    exact ih (h.step hnext) k

theorem shown_scanFrom (h : Underway pattern s text) : ErrorsIn (Shown pattern) (Pattern.scanFrom s text) := by
  induction text generalizing s with
  | nil => exact .ok s
  | cons c text ih =>
    unfold Pattern.scanFrom
    rw [List.foldlM_cons]
    exact h.shown_step.bind fun next hnext => ih (h.step hnext)

theorem shown_release (h : Underway pattern s []) : ErrorsIn (Shown pattern) s.release := by
  have hheld := h.held
  have hend : s.offset = pattern.length := h.length_eq
  unfold Scan.release
  split
  · exact .ok s
  · next start hescape =>
    rw [hescape] at hheld
    cases hheld with
    | escape stands hstart => exact .error (.escape stands (hstart.trans hend))
  · next start hampersand =>
    rw [hampersand] at hheld
    cases hheld with
    | ampersand stands => exact h.shown_literal (by rw [hampersand]; rfl) stands.lt '&'

/-- A range is in progress at the end only if there was one before. -/
theorem release (h : Underway pattern s []) (k : s.release = .ok t) :
    (t.range? = none ∨ s.held? = none ∧ t.range? = s.range?) ∧ Conjoined (Paired pattern) t.draft.slots t.draft.opened := by
  unfold Scan.release at k
  split at k
  · next hnone =>
    obtain rfl := Except.ok.inj k
    exact ⟨.inr ⟨hnone, rfl⟩, h.conjoined⟩
  · contradiction
  · have atRest := AtRest.of_literal (s := s.resume) rfl h.conjoined k
    exact ⟨.inl atRest.range, atRest.conjoined⟩

theorem shown_finish (h : Underway pattern s []) : ErrorsIn (Shown pattern) s.finish := by
  refine h.shown_release.bind fun released hrelease => ?_
  obtain ⟨hnone | ⟨-, hsame⟩, -⟩ := h.release hrelease
  · rw [hnone]
    exact .ok _
  · split
    · next r hrange => exact .error (.dash (h.range r (hsame ▸ hrange)).1)
    · exact .ok _

theorem finish (h : Underway pattern s []) (k : s.finish = .ok d) : Conjoined (Paired pattern) d.slots d.opened := by
  obtain ⟨released, hrelease, k⟩ := bind_eq_ok_iff.1 k
  split at k
  · contradiction
  · obtain rfl := Except.ok.inj k
    exact (h.release hrelease).2

theorem of_scanFrom (k : Pattern.scanFrom {} pattern = .ok t) : Underway pattern t [] := by
  have initial : Underway pattern {} (pattern ++ []) := by
    rw [List.append_nil]
    exact start pattern
  exact initial.scanFrom k

end Underway

theorem Pattern.conjoined_of_draft (h : draft pattern = .ok d) : Conjoined (Paired pattern) d.slots d.opened := by
  obtain ⟨s, hscan, hfinish⟩ := bind_eq_ok_iff.1 h
  exact (Underway.of_scanFrom hscan).finish hfinish

theorem Pattern.shown_tokens (pattern : List Char) : ErrorsIn (Shown pattern) (Pattern.tokens pattern) := by
  have scanned : ErrorsIn (Shown pattern) (Pattern.draft pattern) :=
    (Underway.start pattern).shown_scanFrom.bind fun s hscan => (Underway.of_scanFrom hscan).shown_finish
  refine scanned.bind fun d hdraft => ?_
  refine (Draft.errorsIn_complete .unclosed fun i hi => ?_).bind fun body _ => .ok _
  obtain ⟨hfirst, hsecond⟩ := ((conjoined_of_draft hdraft).of_mem hi).1
  exact .conjunction hfirst hsecond

/-- A pattern that is rejected shows its fault where the error says, in a character that no escape has made a literal, or at its
end. The caret of a rendered error stands under the pattern or right behind it. -/
theorem Pattern.shown_of_error {pattern : List Char} {e : SyntaxError} (h : Pattern.tokens pattern = .error e) :
    Shown pattern e ∧ (e.offset < pattern.length → ¬ Escaped pattern e.offset) ∧ e.fault ≠ .grouping ∧
    ∀ palette : Palette, ∃ above : String, ∃ column ≤ pattern.length, e.render palette pattern =
      above ++ "\n | " ++ String.ofList pattern ++ "\n | " ++
        String.ofList (List.replicate column ' ' ++ palette.paint .green ['^']) := by
  have shown := shown_tokens pattern e h
  refine ⟨shown, shown.not_escaped, noGrouping_tokens pattern e h, fun palette => ?_⟩
  refine ⟨String.ofList (e.fault.label palette) ++ " " ++ e.fault.description ++ ":", e.offset, shown.le, ?_⟩
  have hseparator : ":\n | " = ":" ++ "\n | " := rfl
  rw [SyntaxError.render, SyntaxError.caretLine, hseparator, ← String.append_assoc]

/-- The second conjunction of the outer set has nothing behind it. -/
theorem Pattern.shown_of_error_intersection : Pattern.tokens "a\\&[b&&[c]&&]".toList = .error ⟨.intersection, 10⟩ ∧
    Shown "a\\&[b&&[c]&&]".toList ⟨.intersection, 10⟩ ∧ ¬ Escaped "a\\&[b&&[c]&&]".toList 10 := by
  have h : Pattern.tokens "a\\&[b&&[c]&&]".toList = .error ⟨.intersection, 10⟩ := rfl
  obtain ⟨shown, escaped, -⟩ := shown_of_error h
  exact ⟨h, shown, escaped (by decide)⟩

end RegexSearch
