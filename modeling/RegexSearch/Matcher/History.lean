import RegexSearch.Matcher

/-! Sessions: matchers are called and copied at will, and each of them goes on with a history of its own. A history says which
spans its matcher walks, how often it has asked for a further one, and whether it has a current match. -/
namespace RegexSearch.Matcher

inductive Call where
  | matchWhole
  | search (overlapping : Bool)
  | find
deriving DecidableEq, Repr

/-- A call with its answer. -/
inductive Event where
  | whole (matched : Bool)
  | search (overlapping : Bool) (count : Nat)
  | find (found : Bool)
deriving DecidableEq, Repr

namespace Event

def call : Event → Call
  | whole _ => .matchWhole
  | search overlapping _ => .search overlapping
  | find _ => .find

/-- Whether the event takes the current match away. -/
def resets : Event → Bool
  | whole matched => !matched
  | search _ _ => true
  | find _ => false

/-- Whether a match has been found, be it the whole text or the next one of a walk. -/
def finds : Event → Bool
  | whole matched => matched
  | search _ _ => false
  | find found => found

end Event

def call (m : Matcher) : Call → Event × Matcher
  | .matchWhole => m.matchWhole.map .whole id
  | .search overlapping => (m.search overlapping).map (.search overlapping) id
  | .find => m.find.map .find id

/-- What the spans that are walked come from. -/
inductive Source where
  | whole
  | search (overlapping : Bool)
deriving DecidableEq, Repr

def Source.spans (m : Matcher) : Source → Array Span
  | whole => #[⟨0, m.text.length⟩]
  | search overlapping => m.spans overlapping

/-- The events of a matcher, the latest first. -/
abbrev History := List Event

namespace History

/-- Where there are no results, `find` makes a search without overlaps. -/
def source : History → Source
  | [] => .search false
  | .whole matched :: _ => if matched then .whole else .search false
  | .search overlapping _ :: _ => .search overlapping
  | .find _ :: earlier => source earlier

/-- The answers of `find` since the last event of another kind, the earliest first. -/
def walk : History → List Bool
  | .find found :: earlier => walk earlier ++ [found]
  | _ => []

/-- What calls of `find` answer along a number of spans: true for each of them, and false from then on. -/
def answers (calls spans : Nat) : List Bool :=
  List.replicate (min calls spans) true ++ List.replicate (calls - spans) false

/-- Whether a match has been found since the matcher last had none. -/
def found (h : History) : Bool := (h.takeWhile (!·.resets)).any Event.finds

/-- The span that is current where a match has been found. Of the spans of a search it is the one that the last call of `find`
asked for, or the last one. -/
def current? (m : Matcher) (h : History) : Option Span :=
  match h.source with
  | .whole => some ⟨0, m.text.length⟩
  | .search overlapping => (m.spans overlapping)[min h.walk.length (m.spans overlapping).size - 1]?

end History

/-- A matcher with its history. -/
structure Tracked where
  matcher : Matcher
  history : History
deriving DecidableEq

namespace Tracked

def call (t : Tracked) (c : Call) : Tracked :=
  let (event, m) := t.matcher.call c
  ⟨m, event :: t.history⟩

/-- What calls, the latest first, make of a new matcher. -/
def replay (m : Matcher) (calls : List Call) : Tracked := calls.foldr (fun c t => t.call c) ⟨m, []⟩

/-- A matcher that was `m` when it was new is what its history says. -/
structure Obeys (m : Matcher) (t : Tracked) : Prop where
  replayed : t = replay m (t.history.map Event.call)
  bounded : ∀ r ∈ t.matcher.results?,
    (∀ s ∈ r.spans, s.start ≤ s.stop ∧ s.stop ≤ m.text.length) ∧ ∀ k ∈ r.cursor?, k ≤ r.spans.size
  current : t.history.found = true → ∃ s, t.history.current? m = some s ∧
    t.matcher.start = .ok s.start ∧ t.matcher.stop = .ok s.stop ∧ t.matcher.group = .ok (s.slice m.text)
  noMatch : t.history.found = false →
    t.matcher.start = .error .noMatch ∧ t.matcher.stop = .error .noMatch ∧ t.matcher.group = .error .noMatch
  walked : ∀ overlapping, t.history.source = .search overlapping →
    t.history.walk = History.answers t.history.walk.length (m.spans overlapping).size
  counted : ∀ overlapping count, .search overlapping count ∈ t.history → count = (m.spans overlapping).size

end Tracked

/-- What is done in a session. Matchers are numbered in the order in which they have come. -/
inductive Action where
  | call (i : Nat) (c : Call)
  | copy (i : Nat)
deriving DecidableEq, Repr

def act (matchers : List Tracked) : Action → List Tracked
  | .call i c => matchers.modify i (·.call c)
  | .copy i => matchers ++ matchers[i]?.toList

def session (m : Matcher) (actions : List Action) : List Tracked := actions.foldl act [⟨m, []⟩]

end RegexSearch.Matcher
