import RegexSearch.Proofs.WalkInvariant

/-! The shape of the epsilon edges between token positions. Each edge is added for an operator: to get past it, around the item
that it repeats or makes optional, or at the end of a group for a bar in it. -/
namespace RegexSearch
open Token

/-- The epsilon edges that the tokens give rise to. -/
inductive Token.Leads (tokens : List Token) : Nat → Nat → Prop
  /-- Past an operator. -/
  | pass {i : Nat} {op : Operator} (h : tokens[i]? = some (operator op)) : Leads tokens i (i + 1)
  /-- From the start of an item, a token or a group, to the quantifier behind it. -/
  | skip {start i : Nat} {op : Operator} (h : tokens[i]? = some (operator op)) (hop : op = .star ∨ op = .optional)
    (lt : start < i) (item : start + 1 = i ∨ tokens[start]? = some (operator .openParen)) : Leads tokens start i
  /-- From a quantifier back to the start of its item. -/
  | again {start i : Nat} {op : Operator} (h : tokens[i]? = some (operator op)) (hop : op = .star ∨ op = .plus)
    (lt : start < i) : Leads tokens i start
  /-- From a group to what stands behind one of its bars. -/
  | enter {start bar i : Nat} (hopen : tokens[start]? = some (operator .openParen)) (lt : start < bar) (hlt : bar < i)
    (hclose : tokens[i]? = some (operator .closeParen)) : Leads tokens start (bar + 1)
  /-- From a bar to the end of its group. -/
  | leave {bar i : Nat} (h : tokens[bar]? = some (operator .bar)) (lt : bar < i)
    (hclose : tokens[i]? = some (operator .closeParen)) : Leads tokens bar i

variable {tokens : List Token} {t : Token} {op : Operator} {w v : Walk} {i j : Nat}

namespace Token.Leads

theorem append (h : Leads tokens i j) (more : List Token) : Leads (tokens ++ more) i j := by
  have key {i : Nat} {t : Token} (ht : tokens[i]? = some t) : (tokens ++ more)[i]? = some t := by
    rw [List.getElem?_append_left (lt_length_of_getElem? ht), ht]
  cases h with
  | pass h => exact .pass (key h)
  | skip h hop lt item => exact .skip (key h) hop lt (item.imp_right key)
  | again h hop lt => exact .again (key h) hop lt
  | enter hopen lt hlt hclose => exact .enter (key hopen) lt hlt (key hclose)
  | leave h lt hclose => exact .leave (key h) lt (key hclose)

theorem lt_length (h : Leads tokens i j) : i < tokens.length := by
  cases h with
  | pass h | again h => exact lt_length_of_getElem? h
  | skip h _ lt => exact lt.trans (lt_length_of_getElem? h)
  | enter hopen => exact lt_length_of_getElem? hopen
  | leave h => exact lt_length_of_getElem? h

/-- Only the last token leads to the position behind all tokens. -/
theorem lt_length_or (h : Leads tokens i j) : j < tokens.length ∨ j = i + 1 := by
  cases h with
  | pass => exact .inr rfl
  | skip h => exact .inl (lt_length_of_getElem? h)
  | again h _ lt => exact .inl (lt.trans (lt_length_of_getElem? h))
  | enter _ _ hlt hclose => exact .inl (Nat.lt_of_le_of_lt hlt (lt_length_of_getElem? hclose))
  | leave _ _ hclose => exact .inl (lt_length_of_getElem? hclose)

theorem le_length (h : Leads tokens i j) : j ≤ tokens.length := by
  obtain hj | rfl := h.lt_length_or
  · exact hj.le
  · exact h.lt_length

theorem eq_of_length (h : Leads tokens i tokens.length) : i + 1 = tokens.length :=
  (h.lt_length_or.resolve_left (Nat.lt_irrefl _)).symm

/-- What leads back is a quantifier that repeats its item. -/
theorem repeats_of_le (h : Leads tokens i j) (hle : j ≤ i) :
    tokens[i]? = some (operator .star) ∨ tokens[i]? = some (operator .plus) := by
  cases h with
  | pass | skip | enter | leave => omega
  | again h hop => rcases hop with rfl | rfl <;> simp [h]

end Token.Leads

/-- At `i` stands a quantifier that lets its item be skipped. -/
def Token.SkipsAt (tokens : List Token) (i : Nat) : Prop :=
  tokens[i]? = some (operator .star) ∨ tokens[i]? = some (operator .optional)

instance (tokens : List Token) (i : Nat) : Decidable (SkipsAt tokens i) := inferInstanceAs (Decidable (_ ∨ _))

theorem Token.skipsAt_append_singleton : SkipsAt (tokens ++ [t]) i ↔
    SkipsAt tokens i ∨ i = tokens.length ∧ (t = operator .star ∨ t = operator .optional) := by
  rcases Nat.lt_trichotomy i tokens.length with hi | rfl | hi
  · rw [SkipsAt, List.getElem?_append_left hi]
    exact (or_iff_left fun h => hi.ne h.1).symm
  · simp [SkipsAt]
  · have hnone : (tokens ++ [t])[i]? = none := by
      rw [List.getElem?_eq_none_iff, List.length_append, List.length_singleton]
      exact hi
    simp [SkipsAt, hnone, hi.ne', List.getElem?_eq_none hi.le]

theorem Token.not_skipsAt (h : tokens.length ≤ i) : ¬ SkipsAt tokens i := by
  simp [SkipsAt, List.getElem?_eq_none h]

namespace Walk

theorem mem_barEdges {g : OpenGroup} {e : Nat × Nat} :
    e ∈ barEdges g i ↔ ∃ bar ∈ g.bars, e = (g.start, bar + 1) ∨ e = (bar, i) := by
  simp [barEdges]

/-- What is known of the edges of a walk over the tokens, and of the item that the next token may be a quantifier of. -/
structure Drawn (tokens : List Token) (w : Walk) : Prop where
  leads : ∀ e ∈ w.edges, Leads tokens e.1 e.2
  /-- An item is a token or a group. -/
  item : ∀ start, w.item? = some start →
    start < tokens.length ∧ (start + 1 = tokens.length ∨ tokens[start]? = some (operator .openParen))
  single : ∀ i t, tokens[i]? = some t → t.operator? = none → i + 1 = tokens.length → w.item? = some i
  /-- Only a quantifier behind it adds an edge from a token that is no operator. -/
  skips : ∀ i t, tokens[i]? = some t → t.operator? = none →
    w.edges.filter (·.1 == i) = if SkipsAt tokens (i + 1) then [(i, i + 1)] else []

theorem filter_eq_nil {edges : List (Nat × Nat)} (h : ∀ e ∈ edges, ∃ op, tokens[e.1]? = some (operator op))
    (hi : tokens[i]? = some t) (ht : t.operator? = none) : edges.filter (·.1 == i) = [] := by
  refine List.filter_eq_nil_iff.2 fun e he => ?_
  rw [beq_iff_eq]
  rintro rfl
  obtain ⟨op, hop⟩ := h e he
  rw [hi] at hop
  obtain rfl := Option.some.inj hop
  contradiction

namespace Drawn

theorem start : Drawn [] {} := ⟨nofun, nofun, nofun, nofun⟩

theorem snoc (h : Drawn tokens w) (new : List (Nat × Nat)) (hedges : v.edges = new ++ w.edges)
    (leads : ∀ e ∈ new, Leads (tokens ++ [t]) e.1 e.2)
    (item : ∀ start, v.item? = some start → start = tokens.length ∨ tokens[start]? = some (operator .openParen))
    (single : t.operator? = none → v.item? = some tokens.length)
    (skips : ∀ i u, (tokens ++ [t])[i]? = some u → u.operator? = none → new.filter (·.1 == i) =
      if i + 1 = tokens.length ∧ (t = operator .star ∨ t = operator .optional) then [(i, i + 1)] else []) :
    Drawn (tokens ++ [t]) v := by
  have hlength : (tokens ++ [t]).length = tokens.length + 1 := by rw [List.length_append, List.length_singleton]
  refine ⟨fun e he => ?_, fun start hstart => ?_, fun i u hi hu hlast => ?_, fun i u hi hu => ?_⟩
  · rw [hedges] at he
    rcases List.mem_append.1 he with he | he
    · exact leads e he
    · exact (h.leads e he).append [t]
  · rw [hlength]
    obtain rfl | hopen := item start hstart
    · exact ⟨Nat.lt_succ_self _, .inl rfl⟩
    · have hlt := lt_length_of_getElem? hopen
      exact ⟨Nat.lt_succ_of_lt hlt, .inr (by rw [List.getElem?_append_left hlt, hopen])⟩
  · obtain rfl : i = tokens.length := Nat.succ.inj (hlast.trans hlength)
    rw [List.getElem?_concat_length] at hi
    obtain rfl := Option.some.inj hi
    exact single hu
  · rw [hedges, List.filter_append, skips i u hi hu]
    have hi' := lt_length_of_getElem? hi
    rw [hlength] at hi'
    -- The token itself adds to the edges of the one before it at most.
    rcases Nat.lt_succ_iff_lt_or_eq.1 hi' with hlt | rfl
    · rw [List.getElem?_append_left hlt] at hi
      rw [h.skips i u hi hu]
      by_cases hlast : i + 1 = tokens.length
      · simp [skipsAt_append_singleton, hlast, not_skipsAt]
      · simp [skipsAt_append_singleton, hlast]
    · have hold : w.edges.filter (·.1 == tokens.length) = [] := by
        refine List.filter_eq_nil_iff.2 fun e he => ?_
        rw [beq_iff_eq]
        exact (h.leads e he).lt_length.ne
      rw [hold, if_neg (by simp), if_neg (not_skipsAt hlength.le)]
      rfl

/-- A token that only adds edges from operators. -/
theorem plain (h : Drawn tokens w) (new : List (Nat × Nat)) (hedges : v.edges = new ++ w.edges)
    (leads : ∀ e ∈ new, Leads (tokens ++ [t]) e.1 e.2)
    (hnew : ∀ e ∈ new, ∃ op, (tokens ++ [t])[e.1]? = some (operator op))
    (item : ∀ start, v.item? = some start → start = tokens.length ∨ tokens[start]? = some (operator .openParen))
    (single : t.operator? = none → v.item? = some tokens.length)
    (ht : ¬ (t = operator .star ∨ t = operator .optional)) : Drawn (tokens ++ [t]) v := by
  refine h.snoc new hedges leads item single fun i u hi hu => ?_
  rw [filter_eq_nil hnew hi hu, if_neg fun h => ht h.2]

end Drawn

theorem leads_quantifierEdges {start : Nat} (h : tokens[i]? = some (operator op)) (lt : start < i)
    (item : start + 1 = i ∨ tokens[start]? = some (operator .openParen)) :
    ∀ e ∈ quantifierEdges op start i, Leads tokens e.1 e.2 := by
  intro e he
  cases op with
  | star =>
    obtain rfl | rfl : e = (start, i) ∨ e = (i, start) := by simpa [quantifierEdges] using he
    · exact .skip h (.inl rfl) lt item
    · exact .again h (.inl rfl) lt
  | plus =>
    obtain rfl : e = (i, start) := by simpa [quantifierEdges] using he
    exact .again h (.inr rfl) lt
  | optional =>
    obtain rfl : e = (start, i) := by simpa [quantifierEdges] using he
    exact .skip h (.inr rfl) lt item
  | openParen | closeParen | bar => exact absurd he List.not_mem_nil

theorem filter_quantifierEdges {start : Nat} (lt : j < i) : (quantifierEdges op start i).filter (·.1 == j) =
    if start = j ∧ (op = .star ∨ op = .optional) then [(start, i)] else [] := by
  have hne : i ≠ j := lt.ne'
  cases op <;> by_cases hstart : start = j <;> simp [quantifierEdges, hne, hstart]

theorem Keeps.lt_of_mem_bars {g : OpenGroup} {groups : List OpenGroup} (h : Keeps tokens w) (hopen : w.groups = g :: groups)
    (hi : i ∈ g.bars) : g.start < i := by
  have key := h.latest
  rw [waiting, hopen, List.flatMap_cons, List.append_assoc, List.append_assoc] at key
  exact (List.pairwise_append.1 key).2.2 i hi g.start List.mem_cons_self

theorem Keeps.leads_barEdges {g : OpenGroup} {groups : List OpenGroup} (h : Keeps tokens w) (hopen : w.groups = g :: groups) :
    ∀ e ∈ barEdges g w.position, Leads (tokens ++ [operator .closeParen]) e.1 e.2 ∧
      ∃ op, (tokens ++ [operator .closeParen])[e.1]? = some (operator op) := by
  have hg : g ∈ w.groups := hopen ▸ List.mem_cons_self
  have hclose : (tokens ++ [operator .closeParen])[w.position]? = some (operator .closeParen) := by
    rw [h.position]
    exact List.getElem?_concat_length
  have placed := h.placed.append [operator .closeParen]
  intro e he
  obtain ⟨bar, hbar, rfl | rfl⟩ := mem_barEdges.1 he
  · have hlt : bar < w.position := h.position ▸ lt_length_of_getElem? (h.placed.bars g hg bar hbar)
    exact ⟨.enter (placed.start g hg) (h.lt_of_mem_bars hopen hbar) hlt hclose, _, placed.start g hg⟩
  · have hlt : bar < w.position := h.position ▸ lt_length_of_getElem? (h.placed.bars g hg bar hbar)
    exact ⟨.leave (placed.bars g hg bar hbar) hlt hclose, _, placed.bars g hg bar hbar⟩

namespace Drawn

theorem item_eq_some_iff (h : Drawn tokens w) (hi : tokens[i]? = some t) (ht : t.operator? = none) :
    w.item? = some i ↔ i + 1 = tokens.length := by
  constructor
  · intro hitem
    refine (h.item i hitem).2.resolve_right fun hopen => ?_
    rw [hi] at hopen
    obtain rfl := Option.some.inj hopen
    contradiction
  · exact h.single i t hi ht

theorem quantifier (h : Drawn tokens w) (hposition : w.position = tokens.length) (hitem : v.item? = some w.position)
    (hedges : v.edges = (w.position, w.position + 1) ::
      ((w.item?.elim [] (quantifierEdges op · w.position)).reverse ++ w.edges)) :
    Drawn (tokens ++ [operator op]) v := by
  have hlast : (tokens ++ [operator op])[w.position]? = some (operator op) := by
    rw [hposition]
    exact List.getElem?_concat_length
  rw [← List.cons_append] at hedges
  refine h.snoc _ hedges (fun e he => ?_) (fun start hstart => ?_) nofun fun i u hi hu => ?_
  · rcases List.mem_cons.1 he with rfl | he
    · exact .pass hlast
    · rw [List.mem_reverse] at he
      cases hstart : w.item? with
      | none =>
        rw [hstart] at he
        exact absurd he List.not_mem_nil
      | some start =>
        rw [hstart] at he
        obtain ⟨hlt, item⟩ := h.item start hstart
        refine leads_quantifierEdges hlast (hposition ▸ hlt) ?_ e he
        rw [hposition, List.getElem?_append_left hlt]
        exact item
  · exact .inl (Option.some.inj (hstart.symm.trans (hitem.trans (congrArg some hposition))))
  · have hlt : i < w.position := by
      have hi' := lt_length_of_getElem? hi
      rw [List.length_append, List.length_singleton, ← hposition] at hi'
      refine (Nat.lt_succ_iff_lt_or_eq.1 hi').resolve_right ?_
      rintro rfl
      rw [hlast] at hi
      obtain rfl := Option.some.inj hi
      contradiction
    rw [hposition] at hlt
    rw [List.getElem?_append_left hlt] at hi
    have hne : (w.position == i) = false := by
      rw [hposition]
      exact beq_false_of_ne hlt.ne'
    have hmine := h.item_eq_some_iff hi hu
    rw [List.filter_cons, hne, List.filter_reverse]
    -- Right behind the token at `i` the quantifier is one of that token, and anywhere else of another item.
    cases hstart : w.item? with
    | none =>
      rw [hstart] at hmine
      simp [← hmine]
    | some start =>
      rw [hstart, Option.some.injEq] at hmine
      simp only [Option.elim_some, Bool.false_eq_true, if_false]
      rw [hposition, filter_quantifierEdges hlt]
      by_cases hown : start = i
      · simp [hown, hmine.1 hown, apply_ite List.reverse]
      · simp [hown, mt hmine.2 hown]

theorem step (h : Drawn tokens w) (hk : w.Keeps tokens) (hstep : w.step t = .ok v) : Drawn (tokens ++ [t]) v := by
  have hlast : (tokens ++ [t])[w.position]? = some t := by
    rw [hk.position]
    exact List.getElem?_concat_length
  have hposition {start : Nat} (hstart : some w.position = some start) :
      start = tokens.length ∨ tokens[start]? = some (operator .openParen) :=
    .inl ((Option.some.inj hstart).symm.trans hk.position)
  unfold Walk.step at hstep
  split at hstep
  · next hop =>
    obtain rfl := Except.ok.inj hstep
    refine h.plain [] rfl nofun nofun (fun _ => hposition) (fun _ => congrArg some hk.position) ?_
    rintro (rfl | rfl) <;> contradiction
  · next hop =>
    obtain rfl := operator?_eq_some.1 hop
    obtain rfl := Except.ok.inj hstep
    refine h.plain [(w.position, w.position + 1)] rfl (fun e he => ?_) (fun e he => ?_) (fun _ => hposition) nofun (by decide)
    · obtain rfl := List.mem_singleton.1 he
      exact .pass hlast
    · obtain rfl := List.mem_singleton.1 he
      exact ⟨_, hlast⟩
  · next hop =>
    obtain rfl := operator?_eq_some.1 hop
    obtain rfl := Except.ok.inj hstep
    refine h.plain [] w.edges_addBar nofun nofun (fun start hstart => ?_) nofun (by decide)
    exact hposition (w.position_addBar ▸ hstart)
  · next hop =>
    obtain rfl := operator?_eq_some.1 hop
    split at hstep
    · next g groups hopen =>
      obtain rfl := Except.ok.inj hstep
      refine h.plain ((w.position, w.position + 1) :: (barEdges g w.position).reverse) rfl (fun e he => ?_) (fun e he => ?_)
        (fun start hstart => ?_) nofun (by decide)
      · rcases List.mem_cons.1 he with rfl | he
        · exact .pass hlast
        · exact (hk.leads_barEdges hopen e (List.mem_reverse.1 he)).1
      · rcases List.mem_cons.1 he with rfl | he
        · exact ⟨_, hlast⟩
        · exact (hk.leads_barEdges hopen e (List.mem_reverse.1 he)).2
      · obtain rfl : g.start = start := Option.some.inj hstart
        exact .inr (hk.placed.start g (hopen ▸ List.mem_cons_self))
    · contradiction
  · next op _ _ _ hop =>
    obtain rfl := operator?_eq_some.1 hop
    split at hstep
    · next start hstart =>
      obtain rfl := Except.ok.inj hstep
      refine h.quantifier hk.position rfl ?_
      rw [hstart]
      rfl
    · next hstart =>
      obtain rfl := Except.ok.inj hstep
      refine h.quantifier hk.position rfl ?_
      rw [hstart]
      rfl

end Drawn

theorem drawn_of_ofTokens (h : ofTokens tokens = .ok w) : Drawn tokens w := by
  induction tokens using List.reverseRecOn generalizing w with
  | nil =>
    obtain rfl := Except.ok.inj h
    exact .start
  | append_singleton tokens t ih =>
    rw [ofTokens_append_singleton] at h
    obtain ⟨u, hu, hstep⟩ := bind_eq_ok_iff.1 h
    exact (ih hu).step (keeps_of_ofTokens hu) hstep

theorem Drawn.vertices {n : Nat} (h : Drawn tokens w) (hn : tokens.length < n) :
    ∀ e ∈ w.edges.reverse, e.1 < n ∧ e.2 < n := by
  intro e he
  have hleads := h.leads e (List.mem_reverse.1 he)
  exact ⟨hleads.lt_length.trans hn, hleads.le_length.trans_lt hn⟩

end Walk

namespace Automaton

theorem exists_walk_of_ofTokens {a : Automaton} (h : ofTokens tokens = .ok a) : ∃ w, Walk.ofTokens tokens = .ok w ∧
    a.graph = .ofEdges (tokens.length + 1) w.edges.reverse ∧ a.final = tokens.length := by
  obtain ⟨edges, hedges, h⟩ := bind_eq_ok_iff.1 h
  obtain ⟨w, hw, hedges⟩ := bind_eq_ok_iff.1 hedges
  obtain rfl := Except.ok.inj h
  split at hedges
  · contradiction
  · obtain rfl := Except.ok.inj hedges
    exact ⟨w, hw, rfl, List.size_toArray⟩

/-- Whatever the tokens are, and wherever the walk over them stops, each edge that it has found by then can be added to the graph.
Where there is an automaton, no edge leads away from its final state, and only one from the last token leads to it; a token that
is no operator has at most one edge, which leads on to a quantifier right behind it that lets it be skipped; and an edge that
leads back comes from a quantifier that repeats its item. -/
theorem ofTokens_edges (tokens : List Token) :
    (∀ before w, before <+: tokens → Walk.ofTokens before = .ok w →
      ∃ g, (Graph.empty (tokens.length + 1)).addEdges? w.edges.reverse = some g) ∧
    ∀ a, ofTokens tokens = .ok a →
      (∃ w, Walk.ofTokens tokens = .ok w ∧
        (Graph.empty (tokens.length + 1)).addEdges? w.edges.reverse = some a.graph) ∧
      a.graph.order = tokens.length + 1 ∧ a.final = tokens.length ∧ a.graph.successors a.final = [] ∧
      (∀ u, (u, a.final) ∈ a.graph.edges → u + 1 = a.final) ∧
      (∀ i t, tokens[i]? = some t → t.operator? = none →
        a.graph.successors i = if SkipsAt tokens (i + 1) then [i + 1] else []) ∧
      ∀ u v, (u, v) ∈ a.graph.edges → v ≤ u → tokens[u]? = some (operator .star) ∨ tokens[u]? = some (operator .plus) := by
  constructor
  · intro before w hbefore hw
    exact ⟨_, Graph.addEdges?_empty ((Walk.drawn_of_ofTokens hw).vertices (Nat.lt_succ_of_le hbefore.length_le))⟩
  intro a ha
  obtain ⟨w, hw, hgraph, hfinal⟩ := exists_walk_of_ofTokens ha
  have drawn := Walk.drawn_of_ofTokens hw
  have hvertices := drawn.vertices (Nat.lt_succ_self _)
  have hadded := Graph.addEdges?_empty hvertices
  rw [← hgraph] at hadded
  have hsuccessors (u : Nat) : a.graph.successors u = ((w.edges.filter (·.1 == u)).map (·.2)).reverse := by
    rw [hgraph, Graph.successors_ofEdges hvertices, List.filter_reverse, List.map_reverse]
  have hleads (u v : Nat) (huv : (u, v) ∈ a.graph.edges) : Leads tokens u v := by
    rw [hgraph, Graph.mem_edges_ofEdges, List.mem_reverse] at huv
    exact drawn.leads _ huv.1
  refine ⟨⟨w, hw, hadded⟩, ?_, hfinal, ?_, fun u hu => ?_, fun i t hi ht => ?_,
    fun u v huv => (hleads u v huv).repeats_of_le⟩
  · rw [hgraph, Graph.order_ofEdges]
  · rw [List.eq_nil_iff_forall_not_mem]
    intro v hv
    exact (hfinal ▸ (hleads _ v (Graph.mem_edges.2 hv)).lt_length).false
  · rw [hfinal] at hu ⊢
    exact (hleads u _ hu).eq_of_length
  · rw [hsuccessors, drawn.skips i t hi ht]
    split <;> rfl

/-- The walk stops at the last token of the first sequence, and what it has found by then can be added. In the second sequence the
star leads back to the letter, and the letter on to the star. -/
theorem ofTokens_edges_star :
    (∃ g, (Graph.empty 4).addEdges? [(0, 1), (1, 0), (1, 2)] = some g) ∧
    ∃ a, ofTokens [.operator .openParen, .literal 'a', .operator .star, .operator .bar, .operator .closeParen] = .ok a ∧
      a.graph.order = 6 ∧ a.graph.successors a.final = [] ∧ ((4, a.final) ∈ a.graph.edges ∧ 4 + 1 = a.final) ∧
      a.graph.successors 1 = [2] ∧ (2, 1) ∈ a.graph.edges ∧
      ([.operator .openParen, .literal 'a', .operator .star, .operator .bar, .operator .closeParen][2]? =
          some (operator .star) ∨
        [.operator .openParen, .literal 'a', .operator .star, .operator .bar, .operator .closeParen][2]? =
          some (operator .plus)) := by
  have rejected := (ofTokens_edges [.literal 'a', .operator .star, .operator .closeParen]).1
  have accepted := (ofTokens_edges [.operator .openParen, .literal 'a', .operator .star, .operator .bar,
    .operator .closeParen]).2
  obtain ⟨-, order, -, final, last, skips, back⟩ := accepted _ rfl
  exact ⟨rejected [.literal 'a', .operator .star] _ ⟨_, rfl⟩ rfl, _, rfl, order, final, ⟨by decide, last 4 (by decide)⟩,
    skips 1 _ rfl rfl, by decide, back 2 1 (by decide) (by decide)⟩

end Automaton
end RegexSearch
