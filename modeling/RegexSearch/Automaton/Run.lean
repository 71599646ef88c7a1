import RegexSearch.Automaton.Basic

/-! Runs of an automaton: paths from state to state whose consuming steps spell a text. -/
namespace RegexSearch.Automaton

inductive Run (a : Automaton) : Nat → List Char → Nat → Prop
  | done (v : Nat) : Run a v [] v
  | epsilon {u v w : Nat} {text : List Char} (h : (u, v) ∈ a.graph.edges) (rest : Run a v text w) : Run a u text w
  | consume {u w : Nat} {c : Char} {text : List Char} (h : a.consumes u c = true) (rest : Run a (u + 1) text w) :
    Run a u (c :: text) w

theorem Run.append {a : Automaton} {u v w : Nat} {s t : List Char} (h : a.Run u s v) (k : a.Run v t w) :
    a.Run u (s ++ t) w := by
  induction h with
  | done => exact k
  | epsilon h _ ih => exact .epsilon h (ih k)
  | consume h _ ih => exact .consume h (ih k)

end RegexSearch.Automaton
