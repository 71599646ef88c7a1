import RegexSearch.Automaton.Basic
import RegexSearch.Search.Span

/-! One pass over a text that finds every span an automaton accepts. New attempts start at each position, and all attempts read
the text side by side, each of them in one state. -/
namespace RegexSearch

/-- An attempt that has come to a state. Where it starts is open as long as it has read nothing. -/
structure Attempt where
  state : Nat
  start? : Option Nat := none
deriving DecidableEq, Repr

/-- The round of the attempts at one position: the spans found so far, each once, and the attempts that go on, latest first. -/
structure Round where
  spans : List Span
  next : List Attempt := []
deriving Repr

namespace Round

def record (r : Round) (s : Span) : Round := { r with spans := r.spans.insert s }

def keep (r : Round) (t : Attempt) : Round := { r with next := t :: r.next }

end Round

namespace Automaton

def fresh (a : Automaton) : List Attempt := a.initial.map fun state => { state }

/-- Takes in that an attempt from `start` has read all before `position` and come to `state`. -/
def arrive (a : Automaton) (start position : Nat) (r : Round) (state : Nat) : Round :=
  if state = a.final then r.record ⟨start, position⟩ else r.keep ⟨state, some start⟩

/-- Lets an attempt read the character at `position`, if the text has one there. In the final state it ends instead. -/
def visit (a : Automaton) (position : Nat) (char? : Option Char) (r : Round) (t : Attempt) : Round :=
  let start := t.start?.getD position
  if t.state = a.final then r.record ⟨start, position⟩
  else
    match char? with
    | some c => if a.consumes t.state c then (a.closure [t.state + 1]).foldl (a.arrive start (position + 1)) r else r
    | none => r

def round (a : Automaton) (spans : List Span) (live : List Attempt) (position : Nat) (char? : Option Char) : Round :=
  live.foldl (a.visit position char?) { spans }

/-- The spans found before `position` and those found in the rest of the text, which begins there. -/
def searchFrom (a : Automaton) (spans : List Span) (live : List Attempt) (position : Nat) : List Char → List Span
  | [] => (a.round spans live position none).spans
  | c :: rest =>
    let r := a.round spans live position (some c)
    a.searchFrom r.spans (r.next.reverse ++ a.fresh).eraseDups (position + 1) rest

/-- Every span of a text that is accepted, empty and overlapping ones included, each once. -/
def search (a : Automaton) (text : List Char) : List Span := a.searchFrom [] a.fresh 0 text

end Automaton
end RegexSearch
