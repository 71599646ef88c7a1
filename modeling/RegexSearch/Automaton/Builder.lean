import RegexSearch.Automaton.Nesting
import RegexSearch.Graph.Basic

/-! The epsilon edges, added to a graph as they are found. One stack holds the positions of parentheses and bars alike, and the
edges of a quantifier are found one token ahead of it. A step may reject the tokens; it may also break down, when it looks for a
token or a vertex that is not there. -/
namespace RegexSearch

/-- `waiting` holds the positions of the parentheses and bars whose group has not been closed, latest first. -/
structure Builder where
  graph : Graph
  waiting : List Nat := []

namespace Builder

inductive Stop where
  | rejected (e : SyntaxError)
  /-- A position behind the last token. -/
  | noToken (position : Nat)
  /-- An edge with an end that is no vertex. -/
  | noVertex (u v : Nat)
deriving DecidableEq, Repr

def reject {α : Type} (position : Nat) : Except Stop α := .error (.rejected ⟨.grouping, position⟩)

def tokenAt (tokens : List Token) (position : Nat) : Except Stop Token :=
  match tokens[position]? with
  | some t => .ok t
  | none => .error (.noToken position)

/-- The latest position on a stack and those below it. If there is none, `fault` is at fault. -/
def pop (fault : Nat) : List Nat → Except Stop (Nat × List Nat)
  | [] => reject fault
  | position :: waiting => .ok (position, waiting)

def addEdges (g : Graph) : List (Nat × Nat) → Except Stop Graph
  | [] => .ok g
  | (u, v) :: edges =>
    match g.addEdge? u v with
    | some g => addEdges g edges
    | none => .error (.noVertex u v)

/-- Takes further bars off the stack, `position` being the latest that was taken off, until that is no bar: where the group
starts, its bars, and what is left. -/
def popBars (tokens : List Token) (bars : List Nat) (position : Nat) :
    List Nat → Except Stop (Nat × List Nat × List Nat)
  | [] => do
    if (← tokenAt tokens position).isOperator .bar then reject position else .ok (position, bars, [])
  | next :: waiting => do
    if (← tokenAt tokens position).isOperator .bar then popBars tokens (bars ++ [position]) next waiting
    else .ok (position, bars, next :: waiting)

/-- Closes the group that ends at `i`, and says where it starts. -/
def closeGroup (b : Builder) (tokens : List Token) (i : Nat) : Except Stop (Nat × Builder) := do
  let (top, waiting) ← pop i b.waiting
  match ← tokenAt tokens top with
  | .operator .bar =>
    let (below, waiting) ← pop top waiting
    let (start, bars, waiting) ← popBars tokens [top] below waiting
    let graph ← addEdges b.graph (bars.flatMap fun bar => [(start, bar + 1), (bar, i)])
    .ok (start, { graph, waiting })
  | .operator .openParen => .ok (top, { b with waiting })
  -- Nothing else is ever put on the stack.
  | _ => reject top

/-- Takes in the token at `i` as far as groups are concerned, and says where the item that it ends starts. -/
def nest (b : Builder) (tokens : List Token) (i : Nat) (t : Token) : Except Stop (Nat × Builder) :=
  match t with
  | .operator .openParen | .operator .bar => .ok (i, { b with waiting := i :: b.waiting })
  | .operator .closeParen => b.closeGroup tokens i
  | _ => .ok (i, b)

/-- The edges of the quantifier at `i`, if one stands there, around the item before it. -/
def aheadEdges (tokens : List Token) (start i : Nat) : List (Nat × Nat) :=
  (tokens[i]?.bind Token.operator?).elim [] (Walk.quantifierEdges · start i)

def passEdges (i : Nat) : Token → List (Nat × Nat)
  | .operator .openParen | .operator .closeParen => [(i, i + 1)]
  | .operator .star | .operator .optional | .operator .plus => [(i, i + 1)]
  | _ => []

def step (tokens : List Token) (b : Builder) (t : Token) (i : Nat) : Except Stop Builder := do
  let (start, b) ← b.nest tokens i t
  let graph ← addEdges b.graph (aheadEdges tokens start (i + 1))
  let graph ← addEdges graph (passEdges i t)
  .ok { b with graph }

/-- Takes in the tokens in front, `before`, of all those that a step may look at. -/
def run (tokens before : List Token) : Except Stop Builder :=
  before.zipIdx.foldlM (fun b (t, i) => step tokens b t i) { graph := .empty (tokens.length + 1) }

def transitions (tokens : List Token) : Except Stop Graph := do
  let b ← run tokens tokens
  match b.waiting with
  | position :: _ => reject position
  | [] => .ok b.graph

example : transitions [.operator .openParen, .literal 'a', .operator .bar, .operator .closeParen, .operator .star] =
    .ok (.ofEdges 6 [(0, 1), (0, 3), (2, 3), (0, 4), (4, 0), (3, 4), (4, 5)]) := rfl

end Builder
end RegexSearch
