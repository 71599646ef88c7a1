import RegexSearch.Proofs.FaultOffsets

/-! A fault that the end of a pattern has no part in is found whatever follows the pattern. -/
namespace RegexSearch
open Pattern

variable {pattern : List Char} {s : Scan} {d : Draft} {e : SyntaxError} {k : Nat} {c : Char}

theorem Pattern.Stands.getLast?_eq (h : Stands pattern k c) (last : k + 1 = pattern.length) :
    pattern.getLast? = some c := by
  rw [List.getLast?_eq_getElem?, ← last, Nat.add_sub_cancel]
  exact h.1

/-- What the end of a pattern finds at fault: an escape, or what waits for the character behind it. -/
theorem Underway.error_of_finish (h : Underway pattern s []) (k : s.finish = .error e) :
    e = ⟨.danglingEscape, pattern.length - 1⟩ ∨ pattern.getLast? = some '-' ∨ pattern.getLast? = some '&' := by
  have hend : s.offset = pattern.length := h.length_eq
  have hheld := h.held
  cases hs : s.held? with
  | none =>
    unfold Scan.finish Scan.release at k
    rw [hs] at k
    dsimp only [bind, Except.bind] at k
    cases hrange : s.range? with
    | none =>
      rw [hrange] at k
      contradiction
    | some r =>
      obtain ⟨hdash, hstart⟩ := h.range_of_none hs r hrange
      exact .inr (.inl (hdash.getLast?_eq (hstart.trans hend)))
  | some held =>
    rw [hs] at hheld
    cases hheld with
    | ampersand stands hstart => exact .inr (.inr (stands.getLast?_eq (hstart.trans hend)))
    | escape stands hstart =>
      unfold Scan.finish Scan.release at k
      rw [hs] at k
      obtain rfl := Except.error.inj k
      rw [← hend, ← hstart, Nat.add_sub_cancel]
      exact .inl rfl

/-- No conjunction is left outside all sets, so a draft can only be incomplete for what is still open. -/
theorem Underway.error_of_complete (h : Underway pattern s []) (hfinish : s.finish = .ok d) {length : Nat}
    (k : d.complete length = .error e) : e = ⟨.unmatchedOperator, length⟩ := by
  have conjoined := h.finish hfinish
  cases hopened : d.opened with
  | nil =>
    rw [hopened] at conjoined
    exact Draft.errorsIn_complete (P := fun e => e = ⟨.unmatchedOperator, length⟩) rfl
      (fun i hi => absurd hi (conjoined i)) e k
  | cons o opened =>
    unfold Draft.complete at k
    rw [hopened] at k
    exact (Except.error.inj k).symm

theorem Pattern.tokens_eq_error_of_scanFrom (h : Pattern.scanFrom {} pattern = .error e) :
    Pattern.tokens pattern = .error e := by
  unfold Pattern.tokens Pattern.draft
  rw [h]
  rfl

/-- What is at fault with a pattern that can be read to its end is at the end. -/
theorem Pattern.error_of_scanFrom_eq_ok (hscan : Pattern.scanFrom {} pattern = .ok s) (h : Pattern.tokens pattern = .error e) :
    e = ⟨.unmatchedOperator, pattern.length⟩ ∨ e = ⟨.danglingEscape, pattern.length - 1⟩ ∨
      pattern.getLast? = some '-' ∨ pattern.getLast? = some '&' := by
  have hread := Underway.of_scanFrom hscan
  obtain hdraft | ⟨d, hdraft, h⟩ := bind_eq_error_iff.1 h
  · obtain hscan' | ⟨s', hscan', hfinish⟩ := bind_eq_error_iff.1 hdraft
    · rw [hscan] at hscan'
      contradiction
    · obtain rfl : s = s' := Except.ok.inj (hscan.symm.trans hscan')
      exact .inr (hread.error_of_finish hfinish)
  · obtain ⟨s', hscan', hfinish⟩ := bind_eq_ok_iff.1 hdraft
    obtain rfl : s = s' := Except.ok.inj (hscan.symm.trans hscan')
    obtain hcomplete | ⟨body, -, h⟩ := bind_eq_error_iff.1 h
    · exact .inl (hread.error_of_complete hfinish hcomplete)
    · contradiction

/-- A diagnosis stands whatever follows the pattern, unless it is about the end of the pattern, or the pattern ends in a dash
or a `&`, which may be the start of more. -/
theorem Pattern.tokens_append_eq_error {p : List Char} {e : SyntaxError} (h : Pattern.tokens p = .error e)
    (hescape : e ≠ ⟨.danglingEscape, p.length - 1⟩) (hopen : e ≠ ⟨.unmatchedOperator, p.length⟩)
    (hdash : p.getLast? ≠ some '-') (hampersand : p.getLast? ≠ some '&') (q : List Char) :
    Pattern.tokens (p ++ q) = .error e := by
  cases hscan : Pattern.scanFrom {} p with
  | error other =>
    obtain rfl : other = e := Except.error.inj ((tokens_eq_error_of_scanFrom hscan).symm.trans h)
    refine tokens_eq_error_of_scanFrom ?_
    rw [scanFrom_append, hscan]
    rfl
  | ok s =>
    obtain hend | hend | hend | hend := error_of_scanFrom_eq_ok hscan h
    · exact absurd hend hopen
    · exact absurd hend hescape
    · exact absurd hend hdash
    · exact absurd hend hampersand

/-- What follows closes the group, which would be at fault otherwise, but the set has been closed before. -/
theorem Pattern.tokens_append_eq_error_intersection :
    Pattern.tokens "(x[a-c&&]".toList = .error ⟨.intersection, 6⟩ ∧ "(x[a-c&&]".toList.getLast? ≠ some '-' ∧
      "(x[a-c&&]".toList.getLast? ≠ some '&' ∧
      Pattern.tokens ("(x[a-c&&]".toList ++ "b])".toList) = .error ⟨.intersection, 6⟩ := by
  have h : Pattern.tokens "(x[a-c&&]".toList = .error ⟨.intersection, 6⟩ := rfl
  have hdash : "(x[a-c&&]".toList.getLast? ≠ some '-' := by decide
  have hampersand : "(x[a-c&&]".toList.getLast? ≠ some '&' := by decide
  exact ⟨h, hdash, hampersand, tokens_append_eq_error h (by decide) (by decide) hdash hampersand _⟩

end RegexSearch
