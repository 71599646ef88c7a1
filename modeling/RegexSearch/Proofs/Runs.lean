import RegexSearch.Automaton.Run
import RegexSearch.Proofs.Reachability

/-! The states that an automaton is in after a text are those that its runs over the text lead to, and none of them is out of
range. -/
namespace RegexSearch.Automaton

theorem mem_closure {a : Automaton} {states : List Nat} {v : Nat} :
    v ∈ a.closure states ↔ ∃ s ∈ states, s ≤ a.final ∧ a.graph.Reaches s v := by
  simp only [closure, Graph.mem_reach, a.order_graph, final, Nat.lt_succ_iff]

theorem closure_nil (a : Automaton) : a.closure [] = [] := by
  refine List.eq_nil_iff_forall_not_mem.2 fun v hv => ?_
  obtain ⟨s, hs, -⟩ := mem_closure.1 hv
  exact List.not_mem_nil hs

theorem run_nil_iff {a : Automaton} {u v : Nat} : a.Run u [] v ↔ a.graph.Reaches u v := by
  constructor
  · intro h
    generalize ht : ([] : List Char) = text at h
    induction h with
    | done => exact .refl _
    | epsilon h _ ih => exact .step (Graph.mem_edges.1 h) (ih ht)
    | consume => contradiction
  · intro h
    induction h with
    | refl => exact .done _
    | step h _ ih => exact .epsilon (Graph.mem_edges.2 h) ih

theorem run_cons_iff {a : Automaton} {u w : Nat} {c : Char} {text : List Char} :
    a.Run u (c :: text) w ↔ ∃ v, a.graph.Reaches u v ∧ a.consumes v c = true ∧ a.Run (v + 1) text w := by
  constructor
  · intro h
    generalize ht : c :: text = whole at h
    induction h with
    | done => contradiction
    | epsilon h _ ih =>
      obtain ⟨v, hr, hc, hrest⟩ := ih ht
      exact ⟨v, .step (Graph.mem_edges.1 h) hr, hc, hrest⟩
    | consume h rest =>
      obtain ⟨rfl, rfl⟩ := List.cons.inj ht
      exact ⟨_, .refl _, h, rest⟩
  · rintro ⟨v, hr, hc, hrest⟩
    have key := (run_nil_iff.2 hr).append (.consume hc hrest)
    exact key

/-- The states after a text. -/
def after (a : Automaton) (text : List Char) : List Nat := text.foldl a.advance a.initial

theorem after_append_singleton (a : Automaton) (text : List Char) (c : Char) :
    a.after (text ++ [c]) = a.advance (a.after text) c := List.foldl_append

theorem advance_nil (a : Automaton) (c : Char) : a.advance [] c = [] := a.closure_nil

theorem foldl_advance_nil (a : Automaton) (text : List Char) : text.foldl a.advance [] = [] := by
  induction text with
  | nil => rfl
  | cons c text ih => rw [List.foldl_cons, advance_nil, ih]

/-- Stopping where no state is left makes no difference. -/
theorem acceptsFrom_eq (a : Automaton) (states : List Nat) (text : List Char) :
    a.acceptsFrom states text = (text.foldl a.advance states).contains a.final := by
  induction text generalizing states with
  | nil => rfl
  | cons c text ih =>
    rw [acceptsFrom, List.foldl_cons]
    split
    · next h => rw [List.isEmpty_iff.1 h, foldl_advance_nil, List.contains_nil]
    · exact ih _

theorem accepts_eq (a : Automaton) (text : List Char) : a.accepts text = (a.after text).contains a.final :=
  a.acceptsFrom_eq a.initial text

theorem mem_foldl_advance {a : Automaton} {seeds : List Nat} {text : List Char} {v : Nat} :
    v ∈ text.foldl a.advance (a.closure seeds) ↔ ∃ s ∈ seeds, s ≤ a.final ∧ a.Run s text v := by
  induction text generalizing seeds with
  | nil => simp only [List.foldl_nil, mem_closure, run_nil_iff]
  | cons c text ih =>
    rw [List.foldl_cons, advance, ih]
    simp only [List.mem_map, List.mem_filter, mem_closure, run_cons_iff]
    constructor
    · rintro ⟨_, ⟨u, ⟨⟨s, hs, hle, hr⟩, hc⟩, rfl⟩, -, hrest⟩
      exact ⟨s, hs, hle, u, hr, hc, hrest⟩
    · rintro ⟨s, hs, hle, u, hr, hc, hrest⟩
      exact ⟨u + 1, ⟨u, ⟨⟨s, hs, hle, hr⟩, hc⟩, rfl⟩, lt_final_of_consumes hc, hrest⟩

theorem mem_after {a : Automaton} {text : List Char} {v : Nat} : v ∈ a.after text ↔ a.Run a.start text v := by
  rw [after, initial, mem_foldl_advance]
  simp [start]

theorem accepts_iff {a : Automaton} {text : List Char} : a.accepts text = true ↔ a.Run a.start text a.final := by
  rw [accepts_eq, List.contains_iff_mem, mem_after]

/-- The positions behind the states whose tokens read a character. -/
def stepped (a : Automaton) (states : List Nat) (c : Char) : List Nat := (states.filter (a.consumes · c)).map (· + 1)

theorem le_final_of_mem_stepped {a : Automaton} {states : List Nat} {c : Char} {v : Nat} (h : v ∈ a.stepped states c) :
    v ≤ a.final := by
  obtain ⟨u, hu, rfl⟩ := List.mem_map.1 h
  exact lt_final_of_consumes (List.mem_filter.1 hu).2

theorem reach?_eq_closure {a : Automaton} {states : List Nat} (h : ∀ v ∈ states, v ≤ a.final) :
    a.graph.reach? states = some (a.closure states) := by
  apply Graph.reach?_eq_some
  rw [a.order_graph]
  exact fun v hv => Nat.lt_succ_of_le (h v hv)

theorem tokens_of_ofTokens {tokens : List Token} {a : Automaton} (h : ofTokens tokens = .ok a) :
    a.tokens = tokens.toArray := by
  unfold ofTokens at h
  cases hedges : epsilonEdges tokens with
  | error e =>
    rw [hedges] at h
    contradiction
  | ok edges =>
    rw [hedges] at h
    obtain rfl := Except.ok.inj h
    rfl

/-- A text is accepted just where a run over it leads from the first token to the position behind the last one. Finding this out,
each set of states is the result of a search that is given and meets no other positions than these. -/
theorem accepts_iff_run_of_ofTokens {tokens : List Token} {a : Automaton} (h : ofTokens tokens = .ok a) (text : List Char) :
    (a.accepts text = true ↔ a.Run 0 text tokens.length) ∧
      (∀ v c, a.consumes v c = true ↔ ∃ t, tokens[v]? = some t ∧ t.accepts c = true) ∧
      a.graph.order = tokens.length + 1 ∧ a.graph.reach? [0] = some (a.after []) ∧
      ∀ before c, a.graph.reach? (a.stepped (a.after before) c) = some (a.after (before ++ [c])) := by
  have htokens := tokens_of_ofTokens h
  have hfinal : a.final = tokens.length := by rw [final, htokens, List.size_toArray]
  refine ⟨?_, fun v c => ?_, ?_, ?_, fun before c => ?_⟩
  · rw [← hfinal]
    exact accepts_iff
  · rw [consumes, htokens, List.getElem?_toArray, Option.any_eq_true]
  · rw [a.order_graph, htokens, List.size_toArray]
  · apply reach?_eq_closure
    intro v hv
    rw [List.mem_singleton.1 hv]
    exact Nat.zero_le _
  · rw [after_append_singleton]
    exact reach?_eq_closure fun v hv => le_final_of_mem_stepped hv

/-- A quantifier right behind the parenthesis, and one behind the bar, by which both alternatives are read in a row. -/
theorem accepts_iff_run_of_leading_quantifiers : ∃ a,
    ofTokens [.operator .openParen, .operator .plus, .literal 'a', .operator .bar, .operator .star, .literal 'b',
      .operator .closeParen] = .ok a ∧ a.accepts ['a', 'b'] = true ∧ a.Run 0 ['a', 'b'] 7 ∧
      a.graph.reach? (a.stepped (a.after ['a']) 'b') = some (a.after ['a', 'b']) := by
  obtain ⟨a, h⟩ : ∃ a, ofTokens [.operator .openParen, .operator .plus, .literal 'a', .operator .bar, .operator .star,
    .literal 'b', .operator .closeParen] = .ok a := ⟨_, rfl⟩
  have value : (ofTokens [.operator .openParen, .operator .plus, .literal 'a', .operator .bar, .operator .star,
    .literal 'b', .operator .closeParen]).map (·.accepts ['a', 'b']) = .ok true := by cbv
  rw [h] at value
  have accepted : a.accepts ['a', 'b'] = true := Except.ok.inj value
  obtain ⟨hruns, -, -, -, hsearch⟩ := accepts_iff_run_of_ofTokens h ['a', 'b']
  exact ⟨a, h, accepted, hruns.1 accepted, hsearch ['a'] 'b'⟩

/-- Runs of a given number of steps. -/
inductive RunIn (a : Automaton) : Nat → Nat → List Char → Nat → Prop
  | done (v : Nat) : RunIn a 0 v [] v
  | epsilon {n u v w : Nat} {text : List Char} (h : (u, v) ∈ a.graph.edges) (rest : RunIn a n v text w) :
    RunIn a (n + 1) u text w
  | consume {n u w : Nat} {c : Char} {text : List Char} (h : a.consumes u c = true)
    (rest : RunIn a n (u + 1) text w) : RunIn a (n + 1) u (c :: text) w

theorem run_iff_exists_runIn {a : Automaton} {u w : Nat} {text : List Char} :
    a.Run u text w ↔ ∃ n, a.RunIn n u text w := by
  constructor
  · intro h
    induction h with
    | done v => exact ⟨0, .done v⟩
    | epsilon h _ ih =>
      obtain ⟨n, hn⟩ := ih
      exact ⟨n + 1, .epsilon h hn⟩
    | consume h _ ih =>
      obtain ⟨n, hn⟩ := ih
      exact ⟨n + 1, .consume h hn⟩
  · rintro ⟨n, hn⟩
    induction hn with
    | done v => exact .done v
    | epsilon h _ ih => exact .epsilon h ih
    | consume h _ ih => exact .consume h ih

theorem RunIn.first {a : Automaton} {n u w : Nat} {text : List Char} (h : a.RunIn n u text w) (hne : u ≠ w) :
    ∃ m < n, (∃ v, (u, v) ∈ a.graph.edges ∧ a.RunIn m v text w) ∨
      ∃ c rest, text = c :: rest ∧ a.consumes u c = true ∧ a.RunIn m (u + 1) rest w := by
  cases h with
  | done => contradiction
  | epsilon h rest => exact ⟨_, Nat.lt_succ_self _, .inl ⟨_, h, rest⟩⟩
  | consume h rest => exact ⟨_, Nat.lt_succ_self _, .inr ⟨_, _, rfl, h, rest⟩⟩

end RegexSearch.Automaton
