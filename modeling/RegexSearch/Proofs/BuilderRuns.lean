import RegexSearch.Automaton.Builder
import RegexSearch.Proofs.EpsilonEdges
import RegexSearch.Proofs.Grouping

/-! Building the graph with one stack comes to the automaton of the tokens, or to the fault that they have. After each token the
stack holds what waits in the walk over them, and the edges are those of the walk with those of a quantifier that comes next. -/
namespace RegexSearch
open Token

variable {tokens before : List Token} {t : Token} {op : Operator} {w v : Walk} {b : Builder} {g : OpenGroup} {e : SyntaxError}
  {n i start position : Nat} {bars waiting : List Nat} {edges more : List (Nat × Nat)}

namespace Builder

theorem tokenAt_eq (h : tokens[position]? = some t) : tokenAt tokens position = .ok t := by
  rw [tokenAt, h]

theorem addEdges_ofEdges (h : ∀ e ∈ more, e.1 < n ∧ e.2 < n) (edges : List (Nat × Nat)) :
    addEdges (.ofEdges n edges) more = .ok (.ofEdges n (edges ++ more)) := by
  induction more generalizing edges with
  | nil => rw [addEdges, List.append_nil]
  | cons e more ih =>
    have inside := h e List.mem_cons_self
    have added : (Graph.ofEdges n edges).addEdge? e.1 e.2 = some (.ofEdges n (edges ++ [e])) := by
      have hedge := Graph.addEdge?_eq_some (g := .ofEdges n edges) (u := e.1) (v := e.2) (by simpa using inside.1)
        (by simpa using inside.2)
      have last : Graph.ofEdges n (edges ++ [e]) = ((Graph.ofEdges n edges).addEdge? e.1 e.2).getD (.ofEdges n edges) :=
        List.foldl_append
      rw [last, hedge]
      rfl
    rw [addEdges, added]
    have key := ih (fun e he => h e (List.mem_cons_of_mem _ he)) (edges ++ [e])
    rwa [List.append_assoc, List.singleton_append] at key

/-- With bars on top the stack is unwound to the start of the group that they belong to. -/
theorem popBars_group (hstart : tokens[start]? = some (operator .openParen)) (popped : List Nat)
    (hbars : ∀ bar ∈ bars, tokens[bar]? = some (operator .bar)) {rest : List Nat}
    (hstack : position :: waiting = bars ++ start :: rest) :
    popBars tokens popped position waiting = .ok (start, popped ++ bars, rest) := by
  induction bars generalizing popped position waiting with
  | nil =>
    obtain ⟨rfl, rfl⟩ := List.cons.inj hstack
    cases waiting <;> rw [popBars, tokenAt_eq hstart, List.append_nil] <;> rfl
  | cons bar bars ih =>
    obtain ⟨rfl, rfl⟩ := List.cons.inj hstack
    have key (next : Nat) (waiting : List Nat) (h : next :: waiting = bars ++ start :: rest) :
        popBars tokens popped position (next :: waiting) = .ok (start, popped ++ position :: bars, rest) := by
      have more := ih (popped ++ [position]) (fun bar hbar => hbars bar (List.mem_cons_of_mem _ hbar)) h
      rw [popBars, tokenAt_eq (hbars position List.mem_cons_self)]
      rwa [List.append_assoc, List.singleton_append] at more
    cases bars with
    | nil => exact key start rest rfl
    | cons next bars => exact key next (bars ++ start :: rest) rfl

/-- With nothing but bars on the stack the first of them is at fault. -/
theorem popBars_eq_reject (popped : List Nat) (hbars : ∀ bar ∈ position :: waiting, tokens[bar]? = some (operator .bar)) :
    popBars tokens popped position waiting = reject (waiting.getLastD position) := by
  induction waiting generalizing popped position with
  | nil =>
    rw [popBars, tokenAt_eq (hbars position List.mem_cons_self)]
    rfl
  | cons next waiting ih =>
    have more := ih (popped ++ [position]) fun bar hbar => hbars bar (List.mem_cons_of_mem _ hbar)
    rw [popBars, tokenAt_eq (hbars position List.mem_cons_self), List.getLastD_cons]
    exact more

theorem closeGroup_ok {rest : List Nat} (hstart : tokens[g.start]? = some (operator .openParen))
    (hbars : ∀ bar ∈ g.bars, tokens[bar]? = some (operator .bar)) (hstack : b.waiting = g.bars ++ g.start :: rest)
    (hgraph : b.graph = .ofEdges n edges) (hedges : ∀ e ∈ Walk.barEdges g i, e.1 < n ∧ e.2 < n) :
    b.closeGroup tokens i = .ok (g.start, { graph := .ofEdges n (edges ++ Walk.barEdges g i), waiting := rest }) := by
  rcases g with ⟨start, bars⟩
  rw [closeGroup, hstack]
  cases bars with
  | nil =>
    show (tokenAt tokens start >>= _) = _
    rw [tokenAt_eq hstart, Walk.barEdges, List.flatMap_nil, List.append_nil, ← hgraph]
    rfl
  | cons top bars =>
    obtain ⟨below, waiting, hbelow⟩ : ∃ below waiting, bars ++ start :: rest = below :: waiting := by
      cases bars <;> exact ⟨_, _, rfl⟩
    have popped := popBars_group hstart [top] (fun bar hbar => hbars bar (List.mem_cons_of_mem _ hbar)) hbelow.symm
    rw [List.cons_append, hbelow]
    show (tokenAt tokens top >>= _) = _
    rw [tokenAt_eq (hbars top List.mem_cons_self)]
    show (popBars tokens [top] below waiting >>= _) = _
    rw [popped]
    show (addEdges b.graph (Walk.barEdges ⟨start, top :: bars⟩ i) >>= _) = _
    rw [hgraph, addEdges_ofEdges hedges]
    rfl

theorem closeGroup_eq_reject (hbars : ∀ bar ∈ b.waiting, tokens[bar]? = some (operator .bar)) :
    b.closeGroup tokens i = reject (b.waiting.getLastD i) := by
  rcases b with ⟨graph, waiting⟩
  cases waiting with
  | nil => rfl
  | cons top waiting =>
    show (tokenAt tokens top >>= _) = _
    rw [tokenAt_eq (hbars top List.mem_cons_self)]
    cases waiting with
    | nil => rfl
    | cons below waiting =>
      show (popBars tokens [top] below waiting >>= _) = _
      rw [popBars_eq_reject [top] fun bar hbar => hbars bar (List.mem_cons_of_mem _ hbar), List.getLastD_cons,
        List.getLastD_cons]
      rfl

theorem mem_aheadEdges {e : Nat × Nat} (he : e ∈ aheadEdges tokens start i) (lt : start < i)
    (item : start + 1 = i ∨ tokens[start]? = some (operator .openParen)) : Leads tokens e.1 e.2 := by
  rw [aheadEdges] at he
  cases hop : tokens[i]?.bind Token.operator? with
  | none =>
    rw [hop] at he
    exact absurd he List.not_mem_nil
  | some op =>
    rw [hop] at he
    rcases Option.bind_eq_some_iff.1 hop with ⟨t, ht, htop⟩
    rw [operator?_eq_some.1 htop] at ht
    exact Walk.leads_quantifierEdges ht lt item e he

/-- The edge past a token may be added before those of the quantifier behind it or after them. -/
theorem filter_passEdges (tokens : List Token) (start i u : Nat) (t : Token) :
    ((aheadEdges tokens start (i + 1) ++ passEdges i t).filter (·.1 == u)).map (·.2) =
      ((passEdges i t ++ aheadEdges tokens start (i + 1)).filter (·.1 == u)).map (·.2) := by
  have key (edges : List (Nat × Nat)) (hedges : edges = [] ∨ edges = [(i, i + 1)]) (op : Operator) :
      ((Walk.quantifierEdges op start (i + 1) ++ edges).filter (·.1 == u)).map (·.2) =
        ((edges ++ Walk.quantifierEdges op start (i + 1)).filter (·.1 == u)).map (·.2) := by
    rcases hedges with rfl | rfl
    · rw [List.append_nil, List.nil_append]
    · by_cases hi : i = u
      · subst hi
        cases op <;> by_cases hstart : start = i <;> simp [Walk.quantifierEdges, hstart]
      · cases op <;> simp [Walk.quantifierEdges, List.filter_cons, hi]
  have pass : passEdges i t = [] ∨ passEdges i t = [(i, i + 1)] := by
    unfold passEdges
    split <;> simp
  rw [aheadEdges]
  cases tokens[i + 1]?.bind Token.operator? with
  | none => rw [Option.elim_none, List.nil_append, List.append_nil]
  | some op => exact key _ pass op

/-- What the builder has of a walk: its stack, and its edges with those of the quantifier that comes next. -/
structure Agrees (tokens : List Token) (b : Builder) (w : Walk) : Prop where
  waiting : b.waiting = w.waiting
  graph : b.graph =
    .ofEdges (tokens.length + 1) (w.edges.reverse ++ w.item?.elim [] (aheadEdges tokens · w.position))

theorem aheadEdges_eq (ht : tokens[i]? = some t) (start : Nat) :
    aheadEdges tokens start i = t.operator?.elim [] (Walk.quantifierEdges · start i) := by
  rw [aheadEdges, ht, Option.bind_some]

namespace Agrees

theorem graph_eq (h : Agrees tokens b w) (ht : tokens[w.position]? = some t) : b.graph =
    .ofEdges (tokens.length + 1)
      (w.edges.reverse ++ w.item?.elim [] fun start => t.operator?.elim [] (Walk.quantifierEdges · start w.position)) := by
  rw [h.graph]
  cases w.item? with
  | none => rfl
  | some start => rw [Option.elim_some, Option.elim_some, aheadEdges_eq ht]

/-- Before a token that is no quantifier there are the edges of the walk only. -/
theorem graph_eq_edges (h : Agrees tokens b w) (ht : tokens[w.position]? = some t)
    (quiet : ∀ start, t.operator?.elim [] (Walk.quantifierEdges · start w.position) = []) :
    b.graph = .ofEdges (tokens.length + 1) w.edges.reverse := by
  rw [h.graph_eq ht]
  cases w.item? with
  | none => rw [Option.elim_none, List.append_nil]
  | some start => rw [Option.elim_some, quiet, List.append_nil]

theorem closeGroup (h : Agrees tokens b w) (hw : Walk.ofTokens before = .ok w)
    (hbefore : before ++ [operator .closeParen] <+: tokens) (ht : tokens[w.position]? = some (operator .closeParen))
    {groups : List OpenGroup} (hopen : w.groups = g :: groups) : b.closeGroup tokens w.position = .ok (g.start, {
      graph := .ofEdges (tokens.length + 1) (w.edges.reverse ++ Walk.barEdges g w.position)
      waiting := groups.flatMap (fun g => g.bars ++ [g.start]) ++ w.stray }) := by
  have hg : g ∈ w.groups := hopen ▸ List.mem_cons_self
  have placed := Walk.placed_of_prefix hw ((List.prefix_append before _).trans hbefore)
  apply closeGroup_ok (placed.start g hg) (placed.bars g hg)
  · rw [h.waiting, Walk.waiting, hopen, List.flatMap_cons, List.append_assoc, List.append_assoc, List.singleton_append]
  · exact h.graph_eq_edges ht fun _ => rfl
  · intro e he
    have leads := ((Walk.keeps_of_ofTokens hw).leads_barEdges hopen e he).1
    exact ⟨Nat.lt_succ_of_lt (leads.lt_length.trans_le hbefore.length_le),
      Nat.lt_succ_of_le (leads.le_length.trans hbefore.length_le)⟩

end Agrees

/-- Once the groups are seen to, the rest of the step adds the edges that are still missing. -/
theorem exists_step {c : Builder} (hv : v.Drawn before) (hi : before.length = i + 1) (hbefore : before <+: tokens)
    (hnest : b.nest tokens i t = .ok (start, c)) (hgraph : c.graph = .ofEdges (tokens.length + 1) edges)
    (hedges : v.edges.reverse = edges ++ passEdges i t) (hwaiting : c.waiting = v.waiting) (hitem : v.item? = some start)
    (hposition : v.position = i + 1) : ∃ b', step tokens b t i = .ok b' ∧ Agrees tokens b' v := by
  have inside := hv.vertices (Nat.lt_succ_of_le hbefore.length_le)
  rw [hedges] at inside
  have pass : ∀ e ∈ passEdges i t, e.1 < tokens.length + 1 ∧ e.2 < tokens.length + 1 := fun e he =>
    inside e (List.mem_append_right _ he)
  have ahead : ∀ e ∈ aheadEdges tokens start (i + 1), e.1 < tokens.length + 1 ∧ e.2 < tokens.length + 1 := by
    intro e he
    rcases hv.item start hitem with ⟨hlt, item⟩
    rw [hi] at hlt item
    have leads : Leads tokens e.1 e.2 := by
      apply mem_aheadEdges he hlt
      apply item.imp_right
      intro hopen
      rcases hbefore with ⟨more, rfl⟩
      rw [List.getElem?_append_left (lt_length_of_getElem? hopen), hopen]
    exact ⟨Nat.lt_succ_of_lt leads.lt_length, Nat.lt_succ_of_le leads.le_length⟩
  have run : step tokens b t i = .ok { c with
      graph := .ofEdges (tokens.length + 1) (edges ++ aheadEdges tokens start (i + 1) ++ passEdges i t) } := by
    rw [step, hnest]
    show (addEdges c.graph (aheadEdges tokens start (i + 1)) >>= _) = _
    rw [hgraph, addEdges_ofEdges ahead]
    show (addEdges _ (passEdges i t) >>= _) = _
    rw [addEdges_ofEdges pass]
    rfl
  refine ⟨_, run, hwaiting, ?_⟩
  rw [hitem, hposition, hedges]
  apply Graph.ofEdges_congr
  · simp only [List.mem_append]
    rintro e ((he | he) | he)
    · exact inside e (List.mem_append_left _ he)
    · exact ahead e he
    · exact pass e he
  · simp only [List.mem_append, Option.elim_some]
    rintro e ((he | he) | he)
    · exact inside e (List.mem_append_left _ he)
    · exact pass e he
    · exact ahead e he
  · intro u
    rw [List.append_assoc, Option.elim_some, List.append_assoc, List.filter_append edges, List.filter_append edges,
      List.map_append, List.map_append, filter_passEdges]

theorem nest_of_operator?_eq_none (h : t.operator? = none) :
    b.nest tokens i t = .ok (i, b) ∧ passEdges i t = [] := by
  cases t with
  | operator op => cases h
  | literal | wildcard | range | both | set => exact ⟨rfl, rfl⟩

theorem nest_quantifier (tokens : List Token) (b : Builder) (i : Nat) (hopen : op ≠ .openParen) (hclose : op ≠ .closeParen)
    (hbar : op ≠ .bar) : b.nest tokens i (operator op) = .ok (i, b) ∧ passEdges i (operator op) = [(i, i + 1)] := by
  cases op with
  | openParen => exact absurd rfl hopen
  | closeParen => exact absurd rfl hclose
  | bar => exact absurd rfl hbar
  | star | plus | optional => exact ⟨rfl, rfl⟩

theorem Agrees.step (h : Agrees tokens b w) (hw : Walk.ofTokens before = .ok w) (hbefore : before ++ [t] <+: tokens)
    (hstep : w.step t = .ok v) : ∃ b', Builder.step tokens b t before.length = .ok b' ∧ Agrees tokens b' v := by
  have hv : v.Drawn (before ++ [t]) := by
    apply Walk.drawn_of_ofTokens
    rw [Walk.ofTokens_append_singleton, hw]
    exact hstep
  have position := (Walk.keeps_of_ofTokens hw).position
  have hlength : (before ++ [t]).length = w.position + 1 := by rw [List.length_append, position, List.length_singleton]
  have ht : tokens[w.position]? = some t := by
    rcases hbefore with ⟨more, rfl⟩
    rw [position, List.append_assoc, List.getElem?_append_right (Nat.le_refl _), Nat.sub_self]
    rfl
  rw [← position]
  unfold Walk.step at hstep
  split at hstep
  · next hop =>
    obtain rfl := Except.ok.inj hstep
    rcases nest_of_operator?_eq_none hop with ⟨hnest, hpass⟩
    have graph := h.graph_eq_edges ht fun _ => by rw [hop, Option.elim_none]
    refine exists_step hv hlength hbefore hnest graph ?_ h.waiting rfl rfl
    rw [hpass, List.append_nil]
    rfl
  · next hop =>
    obtain rfl := operator?_eq_some.1 hop
    obtain rfl := Except.ok.inj hstep
    exact exists_step hv hlength hbefore rfl (h.graph_eq_edges ht fun _ => rfl) List.reverse_cons
      (congrArg (w.position :: ·) h.waiting) rfl rfl
  · next hop =>
    obtain rfl := operator?_eq_some.1 hop
    obtain rfl := Except.ok.inj hstep
    refine exists_step hv hlength hbefore rfl (h.graph_eq_edges ht fun _ => rfl) ?_ ?_ ?_ ?_
    · show w.addBar.edges.reverse = w.edges.reverse ++ []
      rw [w.edges_addBar, List.append_nil]
    · show w.position :: b.waiting = w.addBar.waiting
      rw [h.waiting, w.waiting_addBar]
    · rfl
    · show w.addBar.position + 1 = w.position + 1
      rw [w.position_addBar]
  · next hop =>
    obtain rfl := operator?_eq_some.1 hop
    split at hstep
    · next g groups hopen =>
      obtain rfl := Except.ok.inj hstep
      refine exists_step hv hlength hbefore (h.closeGroup hw hbefore ht hopen) rfl ?_ rfl rfl rfl
      show ((w.position, w.position + 1) :: ((Walk.barEdges g w.position).reverse ++ w.edges)).reverse = _
      rw [List.reverse_cons, List.reverse_append, List.reverse_reverse]
      rfl
    · contradiction
  · next op hopen hbar hclose hop =>
    obtain rfl := operator?_eq_some.1 hop
    rcases nest_quantifier tokens b w.position hopen hclose hbar with ⟨hnest, hpass⟩
    split at hstep
    · next start hitem =>
      obtain rfl := Except.ok.inj hstep
      refine exists_step hv hlength hbefore hnest (h.graph_eq ht) ?_ h.waiting rfl rfl
      rw [hpass, hitem]
      show ((w.position, w.position + 1) :: ((Walk.quantifierEdges op start w.position).reverse ++ w.edges)).reverse = _
      rw [List.reverse_cons, List.reverse_append, List.reverse_reverse]
      rfl
    · next hitem =>
      obtain rfl := Except.ok.inj hstep
      refine exists_step hv hlength hbefore hnest (h.graph_eq ht) ?_ h.waiting rfl rfl
      rw [hpass, hitem, Option.elim_none, List.append_nil]
      exact List.reverse_cons

/-- Only a parenthesis with no group to close is rejected, and with it both find the same position at fault. -/
theorem Agrees.step_eq_error (h : Agrees tokens b w) (hw : Walk.ofTokens before = .ok w) (hbefore : before ++ [t] <+: tokens)
    (hstep : w.step t = .error e) : Builder.step tokens b t before.length = .error (.rejected e) := by
  unfold Walk.step at hstep
  split at hstep
  · contradiction
  · contradiction
  · contradiction
  · next hop =>
    obtain rfl := operator?_eq_some.1 hop
    split at hstep
    · contradiction
    · next hopen =>
      obtain rfl := Except.error.inj hstep
      have stack : b.waiting = w.stray := by
        rw [h.waiting, Walk.waiting, hopen, List.flatMap_nil, List.nil_append]
      have placed := Walk.placed_of_prefix hw ((List.prefix_append before _).trans hbefore)
      rw [Builder.step]
      show (b.closeGroup tokens before.length >>= _) = _
      rw [closeGroup_eq_reject (stack ▸ placed.stray), stack, ← (Walk.keeps_of_ofTokens hw).position]
      rfl
  · split at hstep <;> contradiction

theorem run_append_singleton (tokens before : List Token) (t : Token) :
    run tokens (before ++ [t]) = run tokens before >>= fun b => step tokens b t before.length := by
  rw [run, List.zipIdx_append, List.foldlM_append, run]
  congr
  funext b
  rw [Nat.zero_add]
  exact (List.foldlM_cons ..).trans (bind_pure _)

/-- As far as the walk goes the builder goes along, and it is rejected with the walk. -/
theorem run_eq (hbefore : before <+: tokens) : match Walk.ofTokens before with
    | .ok w => ∃ b, run tokens before = .ok b ∧ Agrees tokens b w
    | .error e => run tokens before = .error (.rejected e) := by
  induction before using List.reverseRecOn with
  | nil => exact ⟨_, rfl, rfl, rfl⟩
  | append_singleton before t ih =>
    have earlier := ih ((List.prefix_append before [t]).trans hbefore)
    rw [run_append_singleton, Walk.ofTokens_append_singleton]
    cases hw : Walk.ofTokens before with
    | error e =>
      rw [hw] at earlier
      show (run tokens before >>= _) = _
      rw [earlier]
      rfl
    | ok w =>
      rw [hw] at earlier
      rcases earlier with ⟨b, hb, agrees⟩
      rw [hb]
      show match w.step t with
        | .ok v => ∃ b', step tokens b t before.length = .ok b' ∧ Agrees tokens b' v
        | .error e => step tokens b t before.length = .error (.rejected e)
      cases hstep : w.step t with
      | ok v => exact agrees.step hw hbefore hstep
      | error e => exact agrees.step_eq_error hw hbefore hstep

/-- On the stack there are parentheses and bars only. -/
theorem token_of_mem_waiting (hbefore : before <+: tokens) (hrun : run tokens before = .ok b) (hi : i ∈ b.waiting) :
    tokens[i]? = some (operator .openParen) ∨ tokens[i]? = some (operator .bar) := by
  have key := run_eq hbefore
  cases hw : Walk.ofTokens before with
  | error e =>
    rw [hw, hrun] at key
    contradiction
  | ok w =>
    rw [hw, hrun] at key
    rcases key with ⟨b', hb', agrees⟩
    obtain rfl := Except.ok.inj hb'
    have placed := Walk.placed_of_prefix hw hbefore
    rw [agrees.waiting, Walk.mem_waiting] at hi
    rcases hi with ⟨g, hg, rfl | hbar⟩ | hstray
    · exact .inl (placed.start g hg)
    · exact .inr (placed.bars g hg i hbar)
    · exact .inr (placed.stray i hstray)

theorem transitions_of_run (h : run tokens tokens = .ok b) : transitions tokens =
    match b.waiting with
    | position :: _ => reject position
    | [] => .ok b.graph := by
  rw [transitions, h]
  rfl

/-- The builder never breaks down: it ends with the graph of the automaton, or it rejects the tokens where that has a fault. -/
theorem transitions_eq (tokens : List Token) : transitions tokens =
    match Automaton.ofTokens tokens with
    | .ok a => .ok a.graph
    | .error e => .error (.rejected e) := by
  have key := run_eq (List.prefix_refl tokens)
  rw [Automaton.ofTokens]
  cases hw : Walk.ofTokens tokens with
  | error e =>
    rw [hw] at key
    rw [transitions, key, epsilonEdges, hw]
    rfl
  | ok w =>
    rw [hw] at key
    rcases key with ⟨b, hb, agrees⟩
    rw [transitions_of_run hb, epsilonEdges_eq hw, ← agrees.waiting]
    cases b.waiting with
    | cons position waiting => rfl
    | nil =>
      have last : w.item?.elim [] (aheadEdges tokens · w.position) = [] := by
        have hnone : tokens[w.position]? = none := by
          rw [(Walk.keeps_of_ofTokens hw).position]
          exact List.getElem?_eq_none (Nat.le_refl _)
        cases w.item? with
        | none => rfl
        | some start =>
          rw [Option.elim_some, aheadEdges, hnone]
          rfl
      rw [agrees.graph, last, List.append_nil]
      rfl

end Builder
end RegexSearch
