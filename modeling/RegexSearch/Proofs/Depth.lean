import RegexSearch.Token.Depth

/-! An operator waits for its group to be closed as long as no more than the groups inside that group have been closed. What
waits at the end of a token sequence are the parentheses that are never closed and the bars that belong to no closed group. -/
namespace RegexSearch.Token

/-- The operator at `i` has `depth` groups around it, its own one among them if it is a parenthesis, and none of these has been
closed since. -/
structure Waits (op : Operator) (tokens : List Token) (depth i : Nat) : Prop where
  token : tokens[i]? = some (operator op)
  depth_eq : depthAt tokens (i + 1) = depth
  le : ∀ k, i < k → k ≤ tokens.length → depth ≤ depthAt tokens k

variable {tokens : List Token} {t : Token} {op : Operator} {depth i n : Nat}

theorem lt_length_of_getElem? (h : tokens[i]? = some t) : i < tokens.length := (List.getElem?_eq_some_iff.1 h).1

theorem depthAt_openParen (h : tokens[i]? = some (operator .openParen)) :
    depthAt tokens (i + 1) = depthAt tokens i + 1 := depthAt_succ h

theorem depthAt_closeParen (h : tokens[i]? = some (operator .closeParen)) :
    depthAt tokens (i + 1) = depthAt tokens i - 1 := depthAt_succ h

/-- A group around the token at `n` for each of the depths above it. -/
theorem exists_inside (hn : n ≤ tokens.length) (h : depth < depthAt tokens n) :
    ∃ start, Inside tokens start n ∧ depthAt tokens start = depth := by
  induction n with
  | zero => exact absurd h (Nat.not_lt_zero depth)
  | succ n ih =>
    obtain ⟨t, ht⟩ : ∃ t, tokens[n]? = some t := ⟨_, List.getElem?_eq_getElem hn⟩
    by_cases hlt : depth < depthAt tokens n
    · obtain ⟨start, hinside, rfl⟩ := ih (Nat.le_of_lt hn) hlt
      refine ⟨start, ⟨hinside.opens, Nat.lt_succ_of_lt hinside.lt, fun k hk hle => ?_⟩, rfl⟩
      rcases Nat.le_succ_iff.1 hle with hle | rfl
      · exact hinside.depth_lt k hk hle
      · exact h
    · -- The depth is reached just here, so the token opens the group.
      have hopen : t = operator .openParen := by
        by_contra hopen
        have hle : deepen (depthAt tokens n) t ≤ depthAt tokens n := deepen_le hopen
        rw [depthAt_succ ht] at h
        omega
      subst hopen
      rw [depthAt_openParen ht] at h
      obtain rfl : depthAt tokens n = depth := by omega
      refine ⟨n, ⟨ht, Nat.lt_succ_self n, fun k hk hle => ?_⟩, rfl⟩
      obtain rfl : k = n + 1 := by omega
      rw [depthAt_openParen ht]
      exact Nat.lt_succ_self _

/-- Where a group is not closed the depth stays above that of its parenthesis. -/
theorem depthAt_lt_of_mem_unclosed (h : i ∈ unclosed tokens) (hlt : i < n) (hn : n ≤ tokens.length) :
    depthAt tokens i < depthAt tokens n := by
  obtain ⟨hopen, hclosed⟩ := h
  induction n using Nat.strong_induction_on with
  | _ n ih =>
    obtain ⟨m, rfl⟩ : ∃ m, n = m + 1 := ⟨n - 1, by omega⟩
    rcases Nat.eq_or_lt_of_le (Nat.le_of_lt_succ hlt) with rfl | him
    · rw [depthAt_openParen hopen]
      exact Nat.lt_succ_self _
    · have hinside : Inside tokens i m := ⟨hopen, him, fun k hk hle => ih k (by omega) hk (by omega)⟩
      have hm := hinside.depth_lt m him (Nat.le_refl m)
      obtain ⟨t, ht⟩ : ∃ t, tokens[m]? = some t := ⟨_, List.getElem?_eq_getElem hn⟩
      by_cases hclose : t = operator .closeParen
      · subst hclose
        have hne : depthAt tokens (m + 1) ≠ depthAt tokens i := fun heq => hclosed m ⟨hinside, ht, heq⟩
        rw [depthAt_closeParen ht] at hne ⊢
        omega
      · rw [depthAt_succ ht]
        exact hm.trans_le (le_deepen hclose)

theorem mem_unclosed_iff : i ∈ unclosed tokens ↔ ∃ depth, Waits .openParen tokens depth i := by
  constructor
  · intro h
    refine ⟨_, h.1, rfl, fun k hk hle => ?_⟩
    rw [depthAt_openParen h.1]
    exact depthAt_lt_of_mem_unclosed h hk hle
  · rintro ⟨depth, h⟩
    refine ⟨h.token, fun j hj => ?_⟩
    have hle := h.le (j + 1) (Nat.lt_succ_of_lt hj.lt) (lt_length_of_getElem? hj.closes)
    rw [hj.depth_eq, ← h.depth_eq, depthAt_openParen h.token] at hle
    exact absurd hle (Nat.not_succ_le_self _)

theorem depthAt_bar (h : tokens[i]? = some (operator .bar)) : depthAt tokens (i + 1) = depthAt tokens i :=
  depthAt_succ h

theorem mem_unclaimed_iff : i ∈ unclaimed tokens ↔ ∃ depth, Waits .bar tokens depth i := by
  constructor
  · rintro ⟨hbar, hdepth⟩
    refine ⟨_, hbar, rfl, fun k hk hle => ?_⟩
    rw [depthAt_bar hbar]
    obtain hzero | ⟨start, hstart, hinner⟩ := hdepth
    · rw [hzero]
      exact Nat.zero_le _
    · rw [hinner.depth_eq]
      exact depthAt_lt_of_mem_unclosed hstart (hinner.lt.trans hk) hle
  · rintro ⟨depth, h⟩
    have hlt := lt_length_of_getElem? h.token
    have hdepth := h.depth_eq
    rw [depthAt_bar h.token] at hdepth
    refine ⟨h.token, ?_⟩
    cases depth with
    | zero => exact .inl hdepth
    | succ depth =>
      obtain ⟨start, hinside, hstart⟩ := exists_inside hlt.le (hdepth.ge : depth < depthAt tokens i)
      refine .inr ⟨start, ⟨hinside.opens, fun j hj => ?_⟩, hinside, by rw [hdepth, hstart]⟩
      -- Before the bar the group is still open, and after it the depth does not fall below that of the bar.
      rcases Nat.lt_or_ge i (j + 1) with hij | hij
      · have hle := h.le (j + 1) hij (lt_length_of_getElem? hj.closes)
        rw [hj.depth_eq, hstart] at hle
        exact Nat.not_succ_le_self _ hle
      · have hstill := hinside.depth_lt (j + 1) (Nat.lt_succ_of_lt hj.lt) hij
        rw [hj.depth_eq] at hstill
        exact Nat.lt_irrefl _ hstill

end RegexSearch.Token
