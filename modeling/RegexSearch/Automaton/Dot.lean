import RegexSearch.Automaton.Basic
import RegexSearch.Token.Spelling

/-! The automaton as a Graphviz drawing: a node per state, a solid arrow per token that reads a character, and a dashed arrow
per distinct epsilon edge. -/
namespace RegexSearch

namespace Dot

inductive Line where
  | startNode (state : Nat) (label : List Char)
  | node (state : Nat) (label : List Char)
  | finalNode (state : Nat)
  | solid (source : Nat) (label : List Char)
  | dashed (source target : Nat)
deriving DecidableEq, Repr

def escapeChar (c : Char) (text : List Char) : List Char := text.flatMap fun d => if d = c then ['\\', c] else [d]

/-- Escapes backslashes first, so that those put before quotes stay as they are. -/
def escapeLabel (label : List Char) : List Char := escapeChar '"' (escapeChar '\\' label)

def nodeName (state : Nat) : List Char := "node_".toList ++ Nat.toDigits 10 state

def labelled (label : List Char) : List Char := "[label=\"".toList ++ escapeLabel label ++ ['"']

def Line.text : Line → List Char
  | startNode state label => nodeName state ++ labelled label ++ "][fillcolor=green]".toList
  | node state label => nodeName state ++ labelled label ++ "][fillcolor=\"#EEEEEE\" fontcolor=\"#888888\"]".toList
  | finalNode state => nodeName state ++ labelled (Nat.toDigits 10 state) ++ " shape=doublecircle]".toList
  | solid source label => nodeName source ++ " -> ".toList ++ nodeName (source + 1) ++ labelled label ++ [']']
  | dashed source target => nodeName source ++ " -> ".toList ++ nodeName target ++ "[style=dashed]".toList

def header : List Char :=
  ("digraph G \x7b  rankdir=\"LR\" graph [fontname = \"Courier New\"];\n" ++
    "                node [fontname = \"verdana\", style = rounded];\n" ++
    "                edge [fontname = \"verdana\"];\n" ++
    "                \x7b\n" ++
    "node [shape=circle style=filled fillcolor=\"#4385f5\" fontcolor=\"#FFFFFF\" color=white " ++
    "penwidth=5.0 margin=0.1 width=0.5 height=0.5 fixedsize=true]\n").toList

def document (lines : List Line) : List Char :=
  header ++ lines.flatMap (fun line => line.text ++ ['\n']) ++ ['\n', '}', '}']

end Dot

namespace Automaton

def nodeLines (a : Automaton) : List Dot.Line :=
  a.tokens.toList.zipIdx.map fun (t, state) =>
    if state = a.start then .startNode state t.spell else .node state t.spell

def solidLines (a : Automaton) : List Dot.Line :=
  a.tokens.toList.zipIdx.filterMap fun (t, state) =>
    if t.operator?.isSome then none else some (.solid state t.spell)

def dashedLines (a : Automaton) : List Dot.Line := a.graph.edges.eraseDups.map fun (u, v) => .dashed u v

def dotLines (a : Automaton) : List Dot.Line :=
  a.nodeLines ++ .finalNode a.final :: (a.solidLines ++ a.dashedLines)

def dot (a : Automaton) : List Char := Dot.document a.dotLines

end Automaton
end RegexSearch
