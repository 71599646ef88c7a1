import RegexSearch.SyntaxError
import RegexSearch.Token.Basic

/-! Walking a token sequence: which groups are open and which bars belong to them, where the latest item starts, and the
epsilon edges between token positions that follow from it. -/
namespace RegexSearch

structure OpenGroup where
  start : Nat
  bars : List Nat := []
deriving DecidableEq, Repr

/-- The state before the token at `position`. `item?` is where the item that ends there starts: a group at its parenthesis, any
other token at itself. Groups are listed from the innermost out, and bars and edges latest first; the bars in `stray` stand
outside all groups. -/
structure Walk where
  position : Nat := 0
  item? : Option Nat := none
  groups : List OpenGroup := []
  stray : List Nat := []
  edges : List (Nat × Nat) := []
deriving DecidableEq, Repr

namespace Walk

def addEdges (w : Walk) (edges : List (Nat × Nat)) : Walk := { w with edges := edges.reverse ++ w.edges }

/-- The edges by which a quantifier at `i` skips and repeats the item that starts at `start`. -/
def quantifierEdges (op : Operator) (start i : Nat) : List (Nat × Nat) :=
  match op with
  | .star => [(start, i), (i, start)]
  | .plus => [(i, start)]
  | .optional => [(start, i)]
  | .openParen | .closeParen | .bar => []

def barEdges (g : OpenGroup) (i : Nat) : List (Nat × Nat) :=
  g.bars.flatMap fun bar => [(g.start, bar + 1), (bar, i)]

def next (w : Walk) (start : Nat) : Walk := { w with position := w.position + 1, item? := some start }

def pass (w : Walk) (start : Nat) : Walk := (w.addEdges [(w.position, w.position + 1)]).next start

def addBar (w : Walk) : Walk :=
  match w.groups with
  | g :: groups => { w with groups := { g with bars := w.position :: g.bars } :: groups }
  | [] => { w with stray := w.position :: w.stray }

theorem edges_addBar (w : Walk) : w.addBar.edges = w.edges := by
  unfold addBar
  split <;> rfl

theorem position_addBar (w : Walk) : w.addBar.position = w.position := by
  unfold addBar
  split <;> rfl

def step (w : Walk) (t : Token) : Except SyntaxError Walk :=
  match t.operator? with
  | none => .ok (w.next w.position)
  | some .openParen => .ok ({ w with groups := { start := w.position } :: w.groups }.pass w.position)
  | some .bar => .ok (w.addBar.next w.position)
  | some .closeParen =>
    match w.groups with
    | g :: groups => .ok (({ w with groups }.addEdges (barEdges g w.position)).pass g.start)
    -- Outside all groups the first stray bar is at fault, or else the parenthesis itself.
    | [] => .error ⟨.grouping, w.stray.getLastD w.position⟩
  | some op =>
    match w.item? with
    | some start => .ok ((w.addEdges (quantifierEdges op start w.position)).pass w.position)
    | none => .ok (w.pass w.position)

def unclosed? (w : Walk) : Option Nat :=
  match w.groups with
  | g :: _ => some (g.bars.headD g.start)
  | [] => w.stray.head?

def ofTokens (tokens : List Token) : Except SyntaxError Walk := tokens.foldlM step {}

end Walk

def epsilonEdges (tokens : List Token) : Except SyntaxError (List (Nat × Nat)) := do
  let w ← Walk.ofTokens tokens
  match w.unclosed? with
  | some position => .error ⟨.grouping, position⟩
  | none => .ok w.edges.reverse

end RegexSearch
