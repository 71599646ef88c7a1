import RegexSearch.Search.Leftmost

/-! What is chosen from a collection of spans does not hang on its order: with overlaps all spans in their order, without them
the leftmost ones, the longest first. -/
namespace RegexSearch.Span

variable {x : Span} {last : Option Span} {spans : List Span} {M : Span → Prop}

theorem pairwise_before_mergeSort (spans : List Span) :
    (spans.mergeSort before).Pairwise fun x y => x.before y = true := by
  have trans : ∀ x y z : Span, x.before y = true → y.before z = true → x.before z = true := fun _ _ _ => before_trans
  exact List.pairwise_mergeSort trans before_total spans

theorem mem_select_true : x ∈ select true spans ↔ x ∈ spans := List.mem_mergeSort

/-- Each span of a collection without repetitions comes strictly before the ones after it. -/
theorem pairwise_select_true (h : spans.Nodup) :
    (select true spans).Pairwise fun x y => x.start < y.start ∨ x.start = y.start ∧ y.stop < x.stop := by
  have sorted := pairwise_before_mergeSort spans
  have distinct : (spans.mergeSort before).Nodup := (List.mergeSort_perm spans before).nodup_iff.2 h
  have both : (spans.mergeSort before).Pairwise fun x y => x.before y = true ∧ x ≠ y := sorted.and distinct
  refine both.imp fun {x y} hxy => ?_
  obtain ⟨hbefore, hne⟩ := hxy
  rcases before_iff.1 hbefore with hlt | ⟨heq, hle⟩
  · exact .inl hlt
  · refine .inr ⟨heq, Nat.lt_of_le_of_ne hle fun hstop => hne ?_⟩
    exact before_antisymm hbefore (before_iff.2 (.inr ⟨heq.symm, Nat.le_of_eq hstop.symm⟩))

theorem follows_iff (h : ∀ l ∈ last, l.start ≤ l.stop) : x.follows last = true ↔ x.Follows last := by
  cases last with
  | none => simp [follows, Follows]
  | some l =>
    have hl : l.start ≤ l.stop := h l rfl
    simp only [follows, Follows, Option.all_some, Bool.and_eq_true, decide_eq_true_eq, bne_iff_ne, Option.mem_def,
      Option.some.injEq, forall_eq']
    omega

theorem Follows.trans {y : Span} (h : x.Follows last) (k : y.Follows (some x)) : y.Follows last := by
  intro l hl
  have first := h l hl
  have second := k x rfl
  omega

theorem leftmost_greedy (sorted : spans.Pairwise fun x y => x.before y = true) (sound : ∀ x ∈ spans, M x)
    (complete : ∀ x, M x → x.Follows last → x ∈ spans) (proper : ∀ x, M x → x.start ≤ x.stop)
    (lastProper : ∀ l ∈ last, l.start ≤ l.stop) : Leftmost M last (greedy last spans) := by
  induction spans generalizing last with
  | nil => exact .done fun x hx hf => List.not_mem_nil (complete x hx hf)
  | cons x rest ih =>
    obtain ⟨first, sorted⟩ := List.pairwise_cons.1 sorted
    have hx : M x := sound x List.mem_cons_self
    have sound : ∀ y ∈ rest, M y := fun y hy => sound y (List.mem_cons_of_mem x hy)
    rw [greedy]
    split
    · next hf =>
      rw [follows_iff lastProper] at hf
      refine .next hx hf (fun y hy hyf => ?_) (ih sorted sound (fun y hy hyf => ?_) ?_)
      · rcases List.mem_cons.1 (complete y hy hyf) with rfl | hmem
        · exact before_iff.2 (.inr ⟨rfl, Nat.le_refl _⟩)
        · exact first y hmem
      · rcases List.mem_cons.1 (complete y hy (hf.trans hyf)) with rfl | hmem
        · exact absurd (hyf y rfl).2 (Nat.lt_irrefl _)
        · exact hmem
      · rintro l ⟨⟩
        exact proper x hx
    · next hf =>
      rw [follows_iff lastProper] at hf
      refine ih sorted sound (fun y hy hyf => ?_) lastProper
      rcases List.mem_cons.1 (complete y hy hyf) with rfl | hmem
      · exact absurd hyf hf
      · exact hmem

theorem leftmost_select (mem : ∀ x, x ∈ spans ↔ M x) (proper : ∀ x, M x → x.start ≤ x.stop) :
    Leftmost M none (select false spans) := by
  have members (x : Span) : x ∈ spans.mergeSort before ↔ M x := List.mem_mergeSort.trans (mem x)
  refine leftmost_greedy (pairwise_before_mergeSort spans) (fun x hx => (members x).1 hx)
    (fun x hx _ => (members x).2 hx) proper ?_
  rintro l ⟨⟩

end RegexSearch.Span
