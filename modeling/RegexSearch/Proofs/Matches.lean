import RegexSearch.Proofs.SearchSpans
import RegexSearch.Proofs.Selection
import RegexSearch.Regex

/-! Walking the results of a matcher. The matches that are still to come say all about a walk: each `find` takes the first of
them, and what a search leaves to come is what it has found. -/
namespace RegexSearch.Matcher

/-- The matches that are still to come. -/
def pending (m : Matcher) : List Match :=
  (m.walked.spans.toList.drop m.walked.nextCursor).map fun s => ⟨s, s.slice m.text⟩

theorem nextCursor_find (m : Matcher) :
    m.find.2.walked.nextCursor = min (m.walked.nextCursor + 1) m.walked.spans.size := rfl

theorem find_of_pending_nil {m : Matcher} (h : m.pending = []) : m.find.1 = false ∧ m.find.2.pending = [] := by
  have hle : m.walked.spans.size ≤ m.walked.nextCursor := by
    rw [pending, List.map_eq_nil_iff, List.drop_eq_nil_iff, Array.length_toList] at h
    exact h
  refine ⟨decide_eq_false (Nat.not_lt.2 hle), ?_⟩
  rw [pending, nextCursor_find, Nat.min_eq_right (Nat.le_succ_of_le hle), List.map_eq_nil_iff, List.drop_eq_nil_iff,
    Array.length_toList]
  exact Nat.le_refl _

theorem find_of_pending_cons {m : Matcher} {x : Match} {xs : List Match} (h : m.pending = x :: xs) :
    m.find.1 = true ∧ m.find.2.current = .ok x ∧ m.find.2.pending = xs := by
  obtain ⟨s, rest, hdrop, rfl, hrest⟩ := List.map_eq_cons_iff.1 h
  have hlt : m.walked.nextCursor < m.walked.spans.size := by
    have hlen := congrArg List.length hdrop
    rw [List.length_drop, Array.length_toList, List.length_cons] at hlen
    omega
  have hget : m.walked.spans[m.walked.nextCursor]? = some s := by
    have head := congrArg List.head? hdrop
    rw [List.head?_drop, Array.getElem?_toList] at head
    exact head
  refine ⟨decide_eq_true hlt, ?_, ?_⟩
  · have stay : min m.walked.nextCursor (m.walked.spans.size - 1) = m.walked.nextCursor := by omega
    have found : m.find.2.results?.bind Results.current? = some s := by
      change m.walked.spans[min m.walked.nextCursor (m.walked.spans.size - 1)]? = some s
      rw [stay, hget]
    rw [current, found]
    rfl
  · have tail := congrArg List.tail hdrop
    rw [List.tail_drop] at tail
    rw [pending, nextCursor_find, Nat.min_eq_left hlt]
    change (m.walked.spans.toList.drop (m.walked.nextCursor + 1)).map _ = xs
    rw [tail]
    exact hrest

theorem collect_eq (m : Matcher) : m.collect = .ok m.pending := by
  generalize h : m.pending = pending
  induction pending generalizing m with
  | nil =>
    obtain ⟨hfind, -⟩ := find_of_pending_nil h
    unfold collect
    split
    · rfl
    · next heq => simp [heq] at hfind
  | cons x xs ih =>
    obtain ⟨hfind, hcurrent, hrest⟩ := find_of_pending_cons h
    unfold collect
    split
    · next heq => simp [heq] at hfind
    · next rest heq =>
      rw [heq] at hcurrent hrest
      rw [hcurrent, ih rest hrest]
      rfl

theorem toList_eq (m : Matcher) : m.toList = m.pending := by
  generalize h : m.pending = pending
  induction pending generalizing m with
  | nil =>
    obtain ⟨hfind, -⟩ := find_of_pending_nil h
    unfold toList
    split
    · rfl
    · next heq => simp [heq] at hfind
  | cons x xs ih =>
    obtain ⟨hfind, hcurrent, hrest⟩ := find_of_pending_cons h
    unfold toList
    split
    · next heq => simp [heq] at hfind
    · next rest heq =>
      rw [heq] at hcurrent hrest
      rw [hcurrent, ih rest hrest]

/-- What the `k`-th call for a further match gives, counted from zero. -/
def item? (m : Matcher) : Nat → Option Match
  | 0 => m.next?.1
  | k + 1 => m.next?.2.item? k

theorem next?_eq (m : Matcher) : m.next?.1 = m.pending.head? ∧ m.next?.2.pending = m.pending.tail := by
  cases h : m.pending with
  | nil =>
    obtain ⟨hfind, hrest⟩ := find_of_pending_nil h
    refine ⟨?_, hrest⟩
    change (if m.find.1 then _ else none) = none
    rw [hfind]
    rfl
  | cons x xs =>
    obtain ⟨hfind, hcurrent, hrest⟩ := find_of_pending_cons h
    refine ⟨?_, hrest⟩
    change (if m.find.1 then m.find.2.current.toOption else none) = some x
    rw [hfind, hcurrent]
    rfl

theorem item?_eq (m : Matcher) (k : Nat) : m.item? k = m.pending[k]? := by
  induction k generalizing m with
  | zero => rw [item?, m.next?_eq.1, List.head?_eq_getElem?]
  | succ k ih => rw [item?, ih, m.next?_eq.2, List.getElem?_tail]

theorem pending_search (m : Matcher) (overlapping : Bool) :
    (m.search overlapping).2.pending =
      (Span.select overlapping (m.automaton.search m.text)).map fun s => ⟨s, s.slice m.text⟩ := rfl

theorem map_span_entries (text : List Char) (spans : List Span) :
    (spans.map fun s => (⟨s, s.slice text⟩ : Match)).map Match.span = spans := by
  rw [List.map_map]
  exact List.map_id spans

theorem text_of_mem_entries {text : List Char} {spans : List Span} {x : Match}
    (h : x ∈ spans.map fun s => (⟨s, s.slice text⟩ : Match)) : x.text = x.span.slice text := by
  obtain ⟨s, -, rfl⟩ := List.mem_map.1 h
  rfl

/-- A search with overlaps, whatever has been done before it, walks exactly the spans that match as a whole, in their order. -/
theorem collect_search_overlapping (m : Matcher) : ∃ found : List Match,
    (m.search true).2.collect = .ok found ∧ (m.search true).1 = found.length ∧
      (∀ s, s ∈ found.map Match.span ↔ m.automaton.MatchesAt m.text s) ∧
      ((found.map Match.span).Pairwise fun x y => x.start < y.start ∨ x.start = y.start ∧ y.stop < x.stop) ∧
      ∀ x ∈ found, x.text = x.span.slice m.text := by
  have found := pending_search m true
  refine ⟨_, (collect_eq _).trans (congrArg Except.ok found), ?_, ?_, ?_, fun x hx => text_of_mem_entries hx⟩
  · rw [List.length_map]
    exact List.size_toArray
  · intro s
    rw [map_span_entries, Span.mem_select_true, Automaton.mem_search]
  · rw [map_span_entries]
    exact Span.pairwise_select_true (m.automaton.nodup_search m.text)

end RegexSearch.Matcher

namespace RegexSearch

theorem Automaton.leftmost_select_search (a : Automaton) (text : List Char) {spans : List Span}
    (h : spans.Perm (a.search text)) : Span.Leftmost (a.MatchesAt text) none (Span.select false spans) :=
  Span.leftmost_select (fun _ => h.mem_iff.trans mem_search) fun _ hs => hs.1

/-- The matches of a text are the leftmost ones that do not overlap, the longest first. Calls for a further match give them one
by one and then nothing, and the order in which the spans of the text have been found does not matter. -/
theorem Regex.find_leftmost (r : Regex) (text : String) :
    Span.Leftmost (r.automaton.MatchesAt text.toList) none ((r.find text).map Match.span) ∧
      (∀ x ∈ r.find text, x.text = x.span.slice text.toList) ∧
      (∀ k, (r.matcher text).item? k = (r.find text)[k]?) ∧
      ∀ spans, spans.Perm (r.automaton.search text.toList) → Span.select false spans = (r.find text).map Match.span := by
  have entries : r.find text = (Span.select false (r.automaton.search text.toList)).map fun s => ⟨s, s.slice text.toList⟩ :=
    Matcher.toList_eq _
  have spans : (r.find text).map Match.span = Span.select false (r.automaton.search text.toList) := by
    rw [entries, Matcher.map_span_entries]
  have leftmost : Span.Leftmost (r.automaton.MatchesAt text.toList) none ((r.find text).map Match.span) :=
    spans ▸ r.automaton.leftmost_select_search text.toList (List.Perm.refl _)
  refine ⟨leftmost, fun x hx => Matcher.text_of_mem_entries (entries ▸ hx), fun k => ?_, fun other h => ?_⟩
  · rw [Matcher.item?_eq, find, Matcher.toList_eq]
  · exact (r.automaton.leftmost_select_search text.toList h).unique leftmost

end RegexSearch
