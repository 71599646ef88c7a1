import RegexSearch.Matcher.History
import RegexSearch.Proofs.SearchSpans
import RegexSearch.Regex

/-! A matcher is what its history says: after any calls its spans are those of the latest source, its cursor has taken as many
steps along them as there were calls of `find`, and its current match is where that has led. -/
namespace RegexSearch

theorem Span.mem_of_mem_select {overlapping : Bool} {s : Span} {spans : List Span} (h : s ∈ select overlapping spans) :
    s ∈ spans := by
  cases overlapping with
  | false => exact List.mem_mergeSort.1 ((greedy_sublist _ _).subset h)
  | true => exact List.mem_mergeSort.1 h

namespace Results

/-- The results after some steps along the spans. The first step leads to the first span. -/
def after (spans : Array Span) : Nat → Results
  | 0 => ⟨spans, none⟩
  | k + 1 => ⟨spans, some (min k spans.size)⟩

variable (spans : Array Span) (k : Nat)

theorem spans_after : (after spans k).spans = spans := by cases k <;> rfl

theorem nextCursor_after : (after spans k).nextCursor = min k spans.size := by
  cases k with
  | zero => exact (Nat.zero_min _).symm
  | succ k =>
    change min (min k spans.size + 1) spans.size = _
    omega

theorem after_succ : after spans (k + 1) = { after spans k with cursor? := some (after spans k).nextCursor } := by
  have next := congrArg some (nextCursor_after spans k)
  cases k with
  | zero => exact congrArg (Results.mk spans) next.symm
  | succ k => exact congrArg (Results.mk spans) next.symm

theorem cursor_after_le : ∀ i ∈ (after spans k).cursor?, i ≤ spans.size := by
  cases k with
  | zero => exact fun _ h => absurd h (Option.not_mem_none _)
  | succ k =>
    rintro i ⟨⟩
    exact Nat.min_le_right _ _

theorem current?_after_zero : (after spans 0).current? = none := rfl

theorem current?_after_succ : (after spans (k + 1)).current? = spans[min (k + 1) spans.size - 1]? := by
  have last : min (min k spans.size) (spans.size - 1) = min (k + 1) spans.size - 1 := by omega
  change spans[min (min k spans.size) (spans.size - 1)]? = _
  rw [last]

end Results

namespace Matcher

variable {m : Matcher} {t : Tracked}

theorem proper_of_mem_spans {overlapping : Bool} {s : Span} (hs : s ∈ m.spans overlapping) :
    s.start ≤ s.stop ∧ s.stop ≤ m.text.length := by
  have found : s ∈ m.automaton.search m.text := Span.mem_of_mem_select (List.mem_toArray.1 hs)
  obtain ⟨hle, hstop, -⟩ := Automaton.mem_search.1 found
  exact ⟨hle, hstop⟩

theorem Source.proper_of_mem_spans {source : Source} {s : Span} (hs : s ∈ source.spans m) :
    s.start ≤ s.stop ∧ s.stop ≤ m.text.length := by
  cases source with
  | whole =>
    obtain rfl : s = ⟨0, m.text.length⟩ := by simpa [Source.spans] using hs
    exact ⟨Nat.zero_le _, Nat.le_refl _⟩
  | search => exact Matcher.proper_of_mem_spans hs

/-- The current span of a matcher without results and that of results that have not been stepped into is none. -/
theorem current?_walked (m : Matcher) : m.results?.bind Results.current? = m.walked.current? := by
  unfold walked
  cases m.results? <;> rfl

/-- How many steps along its spans a source has taken by itself: a whole match is current at once. -/
def Source.steps : Source → Nat
  | whole => 1
  | search _ => 0

namespace History

def steps (h : History) : Nat := h.source.steps + h.walk.length

theorem found_cons (e : Event) (h : History) : found (e :: h) = (!e.resets && (e.finds || found h)) := by
  unfold found
  cases hreset : e.resets with
  | true => simp [hreset]
  | false => simp [hreset]

theorem answers_succ (calls spans : Nat) :
    answers (calls + 1) spans = answers calls spans ++ [decide (calls < spans)] := by
  unfold answers
  rcases Nat.lt_or_ge calls spans with hlt | hge
  · have left : min (calls + 1) spans = min calls spans + 1 := by omega
    have none : calls - spans = 0 ∧ calls + 1 - spans = 0 := by omega
    rw [left, none.1, none.2, decide_eq_true hlt, List.replicate_succ']
    simp
  · have stay : min (calls + 1) spans = min calls spans := by omega
    rw [stay, Nat.succ_sub hge, decide_eq_false (Nat.not_lt.2 hge), List.replicate_succ', List.append_assoc]

theorem steps_find (found : Bool) (h : History) : steps (.find found :: h) = h.steps + 1 := by
  change h.source.steps + (walk h ++ [found]).length = h.source.steps + h.walk.length + 1
  rw [List.length_append]
  rfl

theorem current?_eq (m : Matcher) (h : History) :
    h.current? m = (h.source.spans m)[min h.steps (h.source.spans m).size - 1]? := by
  unfold current? steps
  cases h.source with
  | whole =>
    have first : min (1 + h.walk.length) 1 - 1 = 0 := by omega
    change _ = #[(⟨0, m.text.length⟩ : Span)][min (1 + h.walk.length) 1 - 1]?
    rw [first]
    rfl
  | search overlapping =>
    change _ = (m.spans overlapping)[min (0 + h.walk.length) (m.spans overlapping).size - 1]?
    rw [Nat.zero_add]

end History

/-- The state of a matcher that was `m` when it was new, read off its history. -/
structure Tracked.Recalls (m : Matcher) (t : Tracked) : Prop where
  automaton : t.matcher.automaton = m.automaton
  text : t.matcher.text = m.text
  walked : t.matcher.walked = .after (t.history.source.spans m) t.history.steps
  found : t.history.found = true ↔ 0 < t.history.steps ∧ 0 < (t.history.source.spans m).size
  walk : t.history.walk =
    History.answers t.history.walk.length ((t.history.source.spans m).size - t.history.source.steps)
  counted : ∀ overlapping count, .search overlapping count ∈ t.history → count = (m.spans overlapping).size

namespace Tracked

/-- Before the first step of a walk only a whole match is current. -/
theorem Recalls.of_walk_nil (automaton : t.matcher.automaton = m.automaton) (text : t.matcher.text = m.text)
    (start : t.history.walk = [])
    (walked : t.matcher.walked = .after (t.history.source.spans m) t.history.source.steps)
    (found : t.history.found = true ↔ t.history.source = .whole)
    (counted : ∀ overlapping count, .search overlapping count ∈ t.history → count = (m.spans overlapping).size) :
    t.Recalls m := by
  have steps : t.history.steps = t.history.source.steps := by
    rw [History.steps, start]
    rfl
  refine ⟨automaton, text, steps ▸ walked, ?_, by simp [start, History.answers], counted⟩
  rw [found, steps]
  cases t.history.source with
  | whole => simp [Source.steps, Source.spans]
  | search => simp [Source.steps]

theorem recalls_new (hm : m.results? = none) : Recalls m ⟨m, []⟩ := by
  have walked : m.walked = ⟨m.spans false, none⟩ := by
    rw [Matcher.walked, hm]
    rfl
  exact .of_walk_nil rfl rfl rfl walked (by simp [History.found, History.source]) fun _ _ h => absurd h List.not_mem_nil

section Recalls

variable (h : t.Recalls m)
include h

theorem Recalls.spans (overlapping : Bool) : t.matcher.spans overlapping = m.spans overlapping := by
  rw [Matcher.spans, Matcher.spans, h.automaton, h.text]

theorem Recalls.matchWhole : (t.call .matchWhole).Recalls m := by
  have called : t.call .matchWhole = ⟨t.matcher.matchWhole.2, .whole t.matcher.matchWhole.1 :: t.history⟩ := rfl
  have counted (matched : Bool) : ∀ overlapping count, .search overlapping count ∈ Event.whole matched :: t.history →
      count = (m.spans overlapping).size :=
    fun overlapping count hmem => h.counted overlapping count (by simpa using hmem)
  rw [called, Matcher.matchWhole]
  split
  · refine .of_walk_nil h.automaton h.text rfl ?_ ?_ (counted true)
    · exact congrArg (fun text : List Char => (⟨#[⟨0, text.length⟩], some 0⟩ : Results)) h.text
    · simp [History.found_cons, History.source, Event.resets, Event.finds]
  · refine .of_walk_nil h.automaton h.text rfl ?_ ?_ (counted false)
    · exact congrArg (Results.mk · none) (h.spans false)
    · simp [History.found_cons, History.source, Event.resets]

theorem Recalls.search (overlapping : Bool) : (t.call (.search overlapping)).Recalls m := by
  have spans : (t.call (.search overlapping)).matcher.walked = ⟨m.spans overlapping, none⟩ :=
    congrArg (Results.mk · none) (h.spans overlapping)
  refine .of_walk_nil h.automaton h.text rfl spans ?_ fun other count hmem => ?_
  · change History.found (.search overlapping _ :: t.history) = true ↔ Source.search overlapping = .whole
    simp [History.found_cons, Event.resets]
  · rcases List.mem_cons.1 hmem with heq | hmem
    · obtain ⟨rfl, rfl⟩ : other = overlapping ∧ count = (t.matcher.spans overlapping).size := by simpa using heq
      rw [h.spans]
    · exact h.counted other count hmem

theorem Recalls.find_eq :
    t.matcher.find.1 = decide (t.history.steps < (t.history.source.spans m).size) := by
  change decide (t.matcher.walked.nextCursor < t.matcher.walked.spans.size) = _
  rw [h.walked, Results.nextCursor_after, Results.spans_after]
  exact decide_eq_decide.2 (by omega)

theorem Recalls.find : (t.call .find).Recalls m := by
  have called : t.call .find = ⟨t.matcher.find.2, .find t.matcher.find.1 :: t.history⟩ := rfl
  rw [called, h.find_eq]
  refine ⟨h.automaton, h.text, ?_, ?_, ?_, fun overlapping count hmem => ?_⟩
  · change { t.matcher.walked with cursor? := some t.matcher.walked.nextCursor } = _
    rw [h.walked, ← Results.after_succ, History.steps_find]
    rfl
  · change History.found (.find _ :: t.history) = true ↔ 0 < History.steps (.find _ :: t.history) ∧
      0 < (t.history.source.spans m).size
    have before := h.found
    rw [History.found_cons, History.steps_find]
    simp only [Event.resets, Event.finds, Bool.not_false, Bool.true_and, Bool.or_eq_true, decide_eq_true_eq, before]
    omega
  · have answer : decide (t.history.steps < (t.history.source.spans m).size) =
        decide (t.history.walk.length < (t.history.source.spans m).size - t.history.source.steps) := by
      rw [History.steps]
      exact decide_eq_decide.2 (by omega)
    change t.history.walk ++ [_] = History.answers (t.history.walk ++ [_]).length
      ((t.history.source.spans m).size - t.history.source.steps)
    rw [answer, List.length_append, List.length_singleton, History.answers_succ, ← h.walk]
  · exact h.counted overlapping count (by simpa using hmem)

theorem Recalls.call (c : Call) : (t.call c).Recalls m := by
  cases c with
  | matchWhole => exact h.matchWhole
  | search overlapping => exact h.search overlapping
  | find => exact h.find

theorem Recalls.bounded {r : Results} (hr : r ∈ t.matcher.results?) :
    (∀ s ∈ r.spans, s.start ≤ s.stop ∧ s.stop ≤ m.text.length) ∧ ∀ k ∈ r.cursor?, k ≤ r.spans.size := by
  have same : t.matcher.walked = r := by
    rw [Matcher.walked, Option.mem_def.1 hr]
    rfl
  have spans : r.spans = t.history.source.spans m := by rw [← same, h.walked, Results.spans_after]
  refine ⟨fun s hs => Source.proper_of_mem_spans (spans ▸ hs), fun k hk => ?_⟩
  rw [← same, h.walked] at hk
  rw [spans]
  exact Results.cursor_after_le _ _ k hk

theorem Recalls.current_of_found (found : t.history.found = true) :
    ∃ s, t.history.current? m = some s ∧ t.matcher.current = .ok ⟨s, s.slice m.text⟩ := by
  obtain ⟨stepped, pos⟩ := h.found.1 found
  obtain ⟨k, hk⟩ := Nat.exists_eq_add_one.2 stepped
  have lt : min t.history.steps (t.history.source.spans m).size - 1 < (t.history.source.spans m).size := by omega
  have expected : t.history.current? m = some _ := (t.history.current?_eq m).trans (Array.getElem?_eq_getElem lt)
  have actual : t.matcher.results?.bind Results.current? = t.history.current? m := by
    rw [current?_walked, h.walked, History.current?_eq, hk, Results.current?_after_succ]
  refine ⟨_, expected, ?_⟩
  rw [current, actual, expected, h.text]

theorem Recalls.current_of_not_found (found : t.history.found = false) : t.matcher.current = .error .noMatch := by
  have none : t.matcher.results?.bind Results.current? = none := by
    rw [current?_walked, h.walked]
    cases hk : t.history.steps with
    | zero => exact Results.current?_after_zero _
    | succ k =>
      have empty : (t.history.source.spans m).size = 0 := by
        have iff := h.found
        rw [found, hk] at iff
        simpa using iff
      rw [Results.current?_after_succ, Array.getElem?_eq_none (by omega)]
  rw [current, none]

end Recalls

theorem recalls_replay (hm : m.results? = none) (calls : List Call) : (replay m calls).Recalls m := by
  induction calls with
  | nil => exact recalls_new hm
  | cons c calls ih => exact ih.call c

theorem call_fst_call (m : Matcher) (c : Call) : (m.call c).1.call = c := by cases c <;> rfl

theorem map_call_replay (m : Matcher) (calls : List Call) : (replay m calls).history.map Event.call = calls := by
  induction calls with
  | nil => rfl
  | cons c calls ih =>
    change ((replay m calls).matcher.call c).1.call :: (replay m calls).history.map Event.call = c :: calls
    rw [call_fst_call, ih]

theorem obeys_replay (hm : m.results? = none) (calls : List Call) : (replay m calls).Obeys m := by
  have recalls := recalls_replay hm calls
  refine ⟨by rw [map_call_replay], fun r hr => recalls.bounded hr, fun found => ?_, fun found => ?_,
    fun overlapping source => ?_, recalls.counted⟩
  · obtain ⟨s, expected, hcurrent⟩ := recalls.current_of_found found
    exact ⟨s, expected, accessors_of_current hcurrent⟩
  · exact accessors_of_error (recalls.current_of_not_found found)
  · have walk := recalls.walk
    rw [source] at walk
    exact walk

end Tracked

variable {matchers : List Tracked}

theorem mem_act {action : Action} (h : t ∈ act matchers action) :
    t ∈ matchers ∨ ∃ u ∈ matchers, ∃ c, t = u.call c := by
  cases action with
  | copy i =>
    rcases List.mem_append.1 h with h | h
    · exact .inl h
    · exact .inl (List.mem_of_getElem? (Option.mem_toList.1 h))
  | call i c =>
    obtain ⟨j, hj⟩ := List.mem_iff_getElem?.1 h
    change (matchers.modify i _)[j]? = _ at hj
    rw [List.getElem?_modify] at hj
    obtain ⟨u, hu, rfl⟩ := Option.map_eq_some_iff.1 hj
    have mem := List.mem_of_getElem? hu
    by_cases hij : i = j
    · exact .inr ⟨u, mem, c, if_pos hij⟩
    · exact .inl (by rwa [if_neg hij])

theorem exists_replay_of_mem_foldl {actions : List Action} (h : t ∈ actions.foldl act matchers)
    (begun : ∀ u ∈ matchers, ∃ calls, u = Tracked.replay m calls) : ∃ calls, t = Tracked.replay m calls := by
  induction actions generalizing matchers with
  | nil => exact begun t h
  | cons action actions ih =>
    refine ih h fun u hu => ?_
    rcases mem_act hu with hu | ⟨v, hv, c, rfl⟩
    · exact begun u hu
    · obtain ⟨calls, rfl⟩ := begun v hv
      exact ⟨c :: calls, rfl⟩

end Matcher

/-- Whatever is called and copied in a session, each matcher is what its own history says. Its spans lie in the text, it has a
current match exactly where it has found one since it last lost it, and a walk finds each of its spans once and then none. -/
theorem Regex.obeys_of_mem_session (r : Regex) (text : String) (actions : List Matcher.Action) :
    ∀ t ∈ Matcher.session (r.matcher text) actions, t.Obeys (r.matcher text) := by
  intro t ht
  obtain ⟨calls, rfl⟩ : ∃ calls, t = Matcher.Tracked.replay (r.matcher text) calls := by
    refine Matcher.exists_replay_of_mem_foldl ht fun u hu => ⟨[], ?_⟩
    exact List.mem_singleton.1 hu
  exact Matcher.Tracked.obeys_replay rfl calls

/-- The first matcher stays at its last match. Its copy has lost the match with which it was copied. -/
theorem Regex.obeys_of_mem_session_copied : ∃ r, compile "a" = .ok r ∧
    let matchers := Matcher.session (r.matcher "ab") [.call 0 .find, .copy 0, .call 0 .find, .call 1 .matchWhole]
    (∃ t ∈ matchers, t.history = [.find false, .find true] ∧ t.matcher.start = .ok 0 ∧ t.matcher.group = .ok ['a']) ∧
      ∃ u ∈ matchers, u.history = [.whole false, .find true] ∧ u.matcher.start = .error .noMatch := by
  obtain ⟨r, hr, last, histories⟩ : ∃ r, compile "a" = .ok r ∧
      Matcher.History.current? (r.matcher "ab") [.find false, .find true] = some ⟨0, 1⟩ ∧
      (Matcher.session (r.matcher "ab") [.call 0 .find, .copy 0, .call 0 .find, .call 1 .matchWhole]).map
        Matcher.Tracked.history = [[.find false, .find true], [.whole false, .find true]] :=
    ⟨_, rfl, by decide +kernel, by decide +kernel⟩
  refine ⟨r, hr, ?_, ?_⟩
  · obtain ⟨t, ht, history⟩ := List.mem_map.1 (histories ▸ List.mem_cons_self)
    obtain ⟨s, hs, start, -, group⟩ := (obeys_of_mem_session r "ab" _ t ht).current (by rw [history]; rfl)
    rw [history, last] at hs
    obtain rfl := Option.some.inj hs
    exact ⟨t, ht, history, start, group⟩
  · obtain ⟨u, hu, history⟩ := List.mem_map.1 (histories ▸ List.mem_cons_of_mem _ List.mem_cons_self)
    exact ⟨u, hu, history, ((obeys_of_mem_session r "ab" _ u hu).noMatch (by rw [history]; rfl)).1⟩

end RegexSearch
