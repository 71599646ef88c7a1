import RegexSearch.Automaton.Nesting
import RegexSearch.Graph.Reach
import RegexSearch.Pattern.Scan

/-! The automaton of a token sequence. Its states are the positions of the tokens and one final state after them; a token that
accepts a character leads from its position to the next one, and the rest are epsilon edges. -/
namespace RegexSearch

structure Automaton where
  tokens : Array Token
  graph : Graph
  order_graph : graph.order = tokens.size + 1
deriving DecidableEq

namespace Automaton

def ofTokens (tokens : List Token) : Except SyntaxError Automaton := do
  let edges ← epsilonEdges tokens
  .ok {
    tokens := tokens.toArray
    graph := .ofEdges (tokens.length + 1) edges
    order_graph := by rw [Graph.order_ofEdges, List.size_toArray] }

def ofPattern (pattern : List Char) : Except SyntaxError Automaton := Pattern.tokens pattern >>= ofTokens

def start (_ : Automaton) : Nat := 0

def final (a : Automaton) : Nat := a.tokens.size

def consumes (a : Automaton) (state : Nat) (c : Char) : Bool := a.tokens[state]?.any (·.accepts c)

def closure (a : Automaton) (states : List Nat) : List Nat := a.graph.reach states

def initial (a : Automaton) : List Nat := a.closure [a.start]

def advance (a : Automaton) (states : List Nat) (c : Char) : List Nat :=
  a.closure ((states.filter (a.consumes · c)).map (· + 1))

/-- Reads a text from some states on. Where no state is left the rest is not read. -/
def acceptsFrom (a : Automaton) (states : List Nat) : List Char → Bool
  | [] => states.contains a.final
  | c :: rest =>
    let next := a.advance states c
    if next.isEmpty then false else a.acceptsFrom next rest

def accepts (a : Automaton) (text : List Char) : Bool := a.acceptsFrom a.initial text

theorem lt_final_of_consumes {a : Automaton} {state : Nat} {c : Char} (h : a.consumes state c = true) :
    state < a.final := by
  rw [consumes] at h
  cases ht : a.tokens[state]? with
  | none => simp [ht] at h
  | some t => exact (Array.getElem?_eq_some_iff.1 ht).1

end Automaton
end RegexSearch
