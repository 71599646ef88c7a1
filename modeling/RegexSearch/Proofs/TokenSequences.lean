import RegexSearch.Proofs.Grouping
import RegexSearch.Proofs.LooseLanguage
import RegexSearch.Proofs.NestedTokens

/-! A token sequence that has an automaton is a single alternative with groups in it, perhaps behind some quantifiers, and what
the automaton accepts is the language of that alternative. -/
namespace RegexSearch
open Token Automaton

theorem Quantifier.foldl_deepen (qs : List Quantifier) (depth : Nat) : (tokensOf qs).foldl deepen depth = depth := by
  induction qs with
  | nil => rfl
  | cons q qs ih => cases q <;> exact ih

theorem Token.deepen_of_operator?_eq_none {t : Token} (h : t.operator? = none) (depth : Nat) : deepen depth t = depth := by
  cases t with
  | operator op => contradiction
  | _ => rfl

mutual

theorem LooseExpr.foldl_deepen (e : LooseExpr) (depth : Nat) : e.tokens.foldl deepen depth = depth := by
  cases e with
  | last lead b => rw [LooseExpr.tokens, List.foldl_append, Quantifier.foldl_deepen, b.foldl_deepen]
  | alt lead b e =>
    rw [LooseExpr.tokens, List.foldl_append, Quantifier.foldl_deepen, List.foldl_append, b.foldl_deepen]
    exact e.foldl_deepen depth

theorem LooseBranch.foldl_deepen (b : LooseBranch) (depth : Nat) : b.tokens.foldl deepen depth = depth := by
  cases b with
  | nil => rfl
  | cons a qs rest =>
    rw [LooseBranch.tokens, List.foldl_append, a.foldl_deepen, List.foldl_append, Quantifier.foldl_deepen, rest.foldl_deepen]

theorem LooseAtom.foldl_deepen (a : LooseAtom) (depth : Nat) : a.tokens.foldl deepen depth = depth := by
  cases a with
  | token t h => exact deepen_of_operator?_eq_none h depth
  | group e =>
    rw [LooseAtom.tokens, List.foldl_cons, List.foldl_append, e.foldl_deepen]
    rfl

end

/-- What stands in the groups that are still open, from the outermost in, each with the parenthesis behind it. -/
def LooseExpr.opened (outer : List LooseExpr) : List Token := outer.flatMap fun e => e.tokens ++ [.operator .openParen]

theorem LooseExpr.opened_concat (outer : List LooseExpr) (e : LooseExpr) :
    opened (outer ++ [e]) = opened outer ++ (e.tokens ++ [.operator .openParen]) := by
  rw [opened, List.flatMap_append, List.flatMap_singleton, opened]

variable {tokens : List Token}

/-- As long as nothing is closed outside all groups, the latest expression stands in as many groups as are open. -/
theorem exists_opened (h : outside .closeParen tokens = ∅) : ∃ (outer : List LooseExpr) (e : LooseExpr),
    tokens = LooseExpr.opened outer ++ e.tokens ∧ depthAt tokens tokens.length = outer.length := by
  induction tokens using List.reverseRecOn with
  | nil => exact ⟨[], .last [] .nil, rfl, rfl⟩
  | append_singleton tokens t ih =>
    have hbefore : outside .closeParen tokens = ∅ := Set.subset_empty_iff.1 (h ▸ outside_subset_append _ tokens [t])
    obtain ⟨outer, e, htokens, hdepth⟩ := ih hbefore
    rw [List.length_append, List.length_singleton, depthAt_append_singleton, hdepth]
    by_cases hopen : t = .operator .openParen
    · subst hopen
      refine ⟨outer ++ [e], .last [] .nil, ?_, by rw [List.length_append]; rfl⟩
      rw [LooseExpr.opened_concat, htokens, List.append_assoc]
      exact (List.append_nil _).symm
    by_cases hclose : t = .operator .closeParen
    · subst hclose
      -- The group that is closed becomes an atom behind what stands before it.
      have hpos : 0 < outer.length := hdepth ▸ depthAt_pos h
      obtain ⟨outer, f, rfl⟩ := (List.eq_nil_or_concat' outer).resolve_left (List.ne_nil_of_length_pos hpos)
      obtain ⟨g, hg⟩ := f.exists_append (.ofAtom (.group e) [])
      refine ⟨outer, g, ?_, by rw [List.length_append]; rfl⟩
      rw [htokens, hg, LooseExpr.tokens_ofAtom_nil, LooseExpr.opened_concat]
      simp [LooseAtom.tokens]
    · obtain ⟨f, hf⟩ := exists_loose_token hopen hclose
      obtain ⟨g, hg⟩ := e.exists_append f
      exact ⟨outer, g, by rw [htokens, hg, hf, List.append_assoc], deepen_eq hopen hclose⟩

/-- Where all groups are closed nothing is left open at the end. -/
theorem Token.Grouped.depthAt_length (h : Grouped tokens) : depthAt tokens tokens.length = 0 := by
  by_contra hne
  obtain ⟨start, hinside, -⟩ := exists_inside le_rfl (Nat.pos_of_ne_zero hne)
  have hunclosed : start ∈ unclosed tokens := by
    refine ⟨hinside.opens, fun j hj => ?_⟩
    have hlt := hinside.depth_lt (j + 1) (Nat.lt_succ_of_lt hj.lt) (lt_length_of_getElem? hj.closes)
    rw [hj.depth_eq] at hlt
    exact Nat.lt_irrefl _ hlt
  exact absurd (h.unclosed_eq ▸ hunclosed) (Set.notMem_empty start)

/-- The bar between two alternatives stands outside all groups if they do. -/
theorem exists_branch_of_grouped (h : Grouped tokens) : ∃ (lead : List Quantifier) (b : LooseBranch),
    tokens = (LooseExpr.last lead b).tokens := by
  obtain ⟨outer, e, htokens, hdepth⟩ := exists_opened h.outside_closeParen
  rw [h.depthAt_length] at hdepth
  obtain rfl := List.length_eq_zero_iff.1 hdepth.symm
  cases e with
  | last lead b => exact ⟨lead, b, htokens⟩
  | alt lead b e =>
    have hfront : tokens = Quantifier.tokensOf lead ++ b.tokens ++ .operator .bar :: e.tokens := by
      rw [htokens, List.append_assoc]
      rfl
    have hbar : (Quantifier.tokensOf lead ++ b.tokens).length ∈ outside .bar tokens := by
      constructor
      · rw [hfront, List.getElem?_append_right le_rfl, Nat.sub_self]
        rfl
      · rw [hfront, depthAt, List.take_left, List.foldl_append, Quantifier.foldl_deepen, b.foldl_deepen]
    exact absurd (h.outside_bar ▸ hbar) (Set.notMem_empty _)

/-- Quantifiers at the very start have nothing to repeat but each other. -/
theorem Automaton.crosses_of_hosts_lead {a : Automaton} {op : Operator} {ts : List Token} {edge : Nat → Nat → Prop}
    {p f q : Nat} {back : Bool} {l : Language Char} (h : a.Hosts p (.operator op :: ts) edge)
    (k : ∀ v, edge p v ↔ v = p + 1) (lead : a.Drifts (p + 1) f p back) (first : a.Crosses f q l) : a.Crosses p q l := by
  have out (v : Nat) : (p, v) ∈ a.graph.edges ↔ v = p + 1 := (h.head_edges v).trans (k v)
  constructor
  · exact fun s hs => .epsilon ((out (p + 1)).2 rfl) (lead.run.append (first.enters s hs))
  · refine .of_door h.ne_final h.silent fun v hv => ?_
    obtain rfl := (out v).1 hv
    exact .inr ⟨f, back, lead, first.leaves⟩

theorem LooseBranch.exists_automaton (lead : List Quantifier) (b : LooseBranch) : ∃ a : Automaton,
    ofTokens (LooseExpr.last lead b).tokens = .ok a ∧ ∀ text, a.accepts text = true ↔ text ∈ b.language := by
  cases lead with
  | nil =>
    obtain ⟨item?, walk⟩ := b.walk 0 none [] [] []
    rw [Nat.zero_add, List.append_nil] at walk
    refine Automaton.exists_of_walk walk (b.within_edges 0) fun a hosts => ?_
    have crosses := b.crosses hosts
    rw [Nat.zero_add] at crosses
    exact crosses
  | cons q qs =>
    have hstep : Walk.step {} (.operator q.operator) = .ok ⟨1, some 0, [], [], [(0, 1)]⟩ := by cases q <;> rfl
    obtain ⟨mid?, hqs⟩ := Walk.foldlM_quantifiers qs 0 1 [] [] [(0, 1)]
    obtain ⟨item?, hb⟩ := b.walk (1 + qs.length) mid? [] [] ((Quantifier.edgesOf 0 1 qs).reverse ++ [(0, 1)])
    -- The expression behind the first quantifier, which is its door.
    obtain ⟨e, he⟩ : ∃ e, e = LooseExpr.last qs b := ⟨_, rfl⟩
    have htokens : (LooseExpr.last (q :: qs) b).tokens = .operator q.operator :: e.tokens := he ▸ rfl
    have walk : Walk.ofTokens (.operator q.operator :: e.tokens) =
        .ok ⟨e.tokens.length + 1, item?, [], [], ((0, 1) :: e.edges 0).reverse⟩ := by
      rw [Walk.ofTokens, Walk.foldlM_cons_of_ok hstep, he, LooseExpr.tokens, Walk.foldlM_append_of_ok hqs, hb]
      simp [LooseExpr.edges]
      omega
    have within : Within 0 (e.tokens.length + 1) ((0, 1) :: e.edges 0) := by
      have first : Within 0 (e.tokens.length + 1) [(0, 1)] := by simp [Within]
      exact first.append (e.within_edges 0)
    rw [htokens]
    refine Automaton.exists_of_walk walk within fun a hosts => ?_
    have inner : e.Crossed a 0 (e.tokens.length + 1) := by
      refine e.crossed (by omega) (hosts.tail.congr fun u v hu _ => ?_)
      have hne : u ≠ 0 := by omega
      simp [hne, he, LooseExpr.bars]
    have first : a.Crosses (e.entry 0) (e.tokens.length + 1) b.language := by
      have key := inner.first
      rwa [he] at key ⊢
    exact crosses_of_hosts_lead hosts (fun v => by simp [e.mem_edges_door]) inner.lead first

/-- What the automaton of a token sequence accepts. -/
theorem exists_branch_of_ofTokens {a : Automaton} (h : ofTokens tokens = .ok a) :
    ∃ (lead : List Quantifier) (b : LooseBranch), tokens = (LooseExpr.last lead b).tokens ∧
      ∀ text, a.accepts text = true ↔ text ∈ b.language := by
  obtain ⟨lead, b, rfl⟩ := exists_branch_of_grouped (exists_ofTokens_iff.1 ⟨a, h⟩)
  obtain ⟨c, hc, haccepts⟩ := b.exists_automaton lead
  obtain rfl := Except.ok.inj (h.symm.trans hc)
  exact ⟨lead, b, rfl, haccepts⟩

end RegexSearch
