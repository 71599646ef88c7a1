import RegexSearch.Automaton.Dot

/-! What a drawing of an automaton consists of, said without the order in which its text is put together, and how a label stands
in a line of that text. -/
namespace RegexSearch

namespace Dot

def Line.label? : Line → Option (List Char)
  | startNode _ label | node _ label | solid _ label => some label
  | finalNode state => some (Nat.toDigits 10 state)
  | dashed _ _ => none

end Dot

/-- A node for each token and one for the final state, a solid arrow for each token that is no operator, in the order of the
tokens, and a dashed arrow for each edge, in the order in which the edges occur first. -/
structure Automaton.Drawing (a : Automaton) where
  nodes : List Dot.Line
  solid : List (Nat × Token)
  dashed : List (Nat × Nat)
  node : ∀ state, nodes[state]? =
    a.tokens[state]?.map fun t => if state = a.start then .startNode state t.spell else .node state t.spell
  mem_solid : ∀ state t, (state, t) ∈ solid ↔ a.tokens[state]? = some t ∧ t.operator? = none
  pairwise_solid : solid.Pairwise fun x y => x.1 < y.1
  mem_dashed : ∀ edge, edge ∈ dashed ↔ edge ∈ a.graph.edges
  pairwise_dashed : dashed.Pairwise fun x y => a.graph.edges.idxOf x < a.graph.edges.idxOf y

def Automaton.Drawing.lines {a : Automaton} (d : a.Drawing) : List Dot.Line :=
  d.nodes ++ .finalNode a.final ::
    (d.solid.map (fun (state, t) => .solid state t.spell) ++ d.dashed.map fun (u, v) => .dashed u v)

end RegexSearch
