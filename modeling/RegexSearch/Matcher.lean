import RegexSearch.Search.Attempt
import RegexSearch.SearchError

/-! Matching one text: results are computed by a whole match, by a search, or by the first `find`, and a cursor walks them. -/
namespace RegexSearch

/-- Spans found in a text. The cursor is the index of the current one, or their number once the walk is over; there is none
before the first `find`. -/
structure Results where
  spans : Array Span
  cursor? : Option Nat := none
deriving DecidableEq, Repr

structure Match where
  span : Span
  text : List Char
deriving DecidableEq, Repr

structure Matcher where
  automaton : Automaton
  text : List Char
  results? : Option Results := none
deriving DecidableEq

namespace Results

def nextCursor (r : Results) : Nat := r.cursor?.elim 0 fun k => min (k + 1) r.spans.size

/-- The current span. A walk that is over stays at the last one. -/
def current? (r : Results) : Option Span := r.cursor?.bind fun k => r.spans[min k (r.spans.size - 1)]?

end Results

namespace Matcher

/-- Whether the text matches as a whole. If so the whole text becomes the only result and the current match; if not there is no
result at all. -/
def matchWhole (m : Matcher) : Bool × Matcher :=
  if m.automaton.accepts m.text then (true, { m with results? := some ⟨#[⟨0, m.text.length⟩], some 0⟩ })
  else (false, { m with results? := none })

def spans (m : Matcher) (overlapping : Bool) : Array Span := (Span.select overlapping (m.automaton.search m.text)).toArray

def search (m : Matcher) (overlapping : Bool) : Nat × Matcher :=
  let spans := m.spans overlapping
  (spans.size, { m with results? := some ⟨spans, none⟩ })

/-- The results to walk: those computed last, or else the matches that do not overlap. -/
def walked (m : Matcher) : Results := m.results?.getD ⟨m.spans false, none⟩

def find (m : Matcher) : Bool × Matcher :=
  let r := m.walked
  let next := r.nextCursor
  (next < r.spans.size, { m with results? := some { r with cursor? := some next } })

def current (m : Matcher) : Except SearchError Match :=
  match m.results?.bind Results.current? with
  | some s => .ok ⟨s, s.slice m.text⟩
  | none => .error .noMatch

def start (m : Matcher) : Except SearchError Nat := m.current.map (·.span.start)

def stop (m : Matcher) : Except SearchError Nat := m.current.map (·.span.stop)

def group (m : Matcher) : Except SearchError (List Char) := m.current.map Match.text

theorem accessors_of_current {m : Matcher} {x : Match} (h : m.current = .ok x) :
    m.start = .ok x.span.start ∧ m.stop = .ok x.span.stop ∧ m.group = .ok x.text := by
  rw [start, stop, group, h]
  exact ⟨rfl, rfl, rfl⟩

theorem accessors_of_error {m : Matcher} {e : SearchError} (h : m.current = .error e) :
    m.start = .error e ∧ m.stop = .error e ∧ m.group = .error e := by
  rw [start, stop, group, h]
  exact ⟨rfl, rfl, rfl⟩

def next? (m : Matcher) : Option Match × Matcher :=
  let (found, m) := m.find
  (if found then m.current.toOption else none, m)

def left (m : Matcher) : Nat := m.walked.spans.size - m.walked.nextCursor

theorem left_lt_of_find {m rest : Matcher} (h : m.find = (true, rest)) : rest.left < m.left := by
  simp only [find, Prod.mk.injEq, decide_eq_true_eq] at h
  obtain ⟨h, rfl⟩ := h
  change m.walked.spans.size - min (m.walked.nextCursor + 1) m.walked.spans.size < _
  rw [left]
  omega

def toList (m : Matcher) : List Match :=
  match _h : m.find with
  | (false, _) => []
  | (true, rest) =>
    match rest.current with
    | .ok x => x :: toList rest
    | .error _ => []
termination_by m.left
decreasing_by exact left_lt_of_find (by assumption)

def collect (m : Matcher) : Except SearchError (List Match) :=
  match _h : m.find with
  | (false, _) => .ok []
  | (true, rest) => do
    let x ← rest.current
    let xs ← collect rest
    .ok (x :: xs)
termination_by m.left
decreasing_by exact left_lt_of_find (by assumption)

end Matcher
end RegexSearch
