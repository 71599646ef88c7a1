import Mathlib.Data.List.Induction
import RegexSearch.Automaton.Drawing

/-! The text of a drawing can be read in one way only: a label ends at its first quote that is not escaped, a line at the line
feed behind its ending, and no two lines are written alike. -/
namespace RegexSearch

namespace Dot

variable {label other before after x y : List Char} {c d : Char}

/-- What ends a line: the style of a node, or the end of an arrow. -/
inductive Ending where
  | startNode
  | node
  | finalNode
  | arrow
deriving DecidableEq

namespace Ending

def text : Ending → List Char
  | startNode => "][fillcolor=green]".toList
  | node => "][fillcolor=\"#EEEEEE\" fontcolor=\"#888888\"]".toList
  | finalNode => " shape=doublecircle]".toList
  | arrow => [']']

end Ending

-- A line is the name of its first node, the arrow to another one, its label or the style of an arrow without one, and its ending.
def arrow (target? : Option Nat) : List Char := target?.elim [] fun target => " -> ".toList ++ nodeName target

def shown (label? : Option (List Char)) : List Char := label?.elim "[style=dashed".toList labelled

namespace Line

def state : Line → Nat
  | startNode state _ | node state _ | finalNode state | solid state _ | dashed state _ => state

def target? : Line → Option Nat
  | solid source _ => some (source + 1)
  | dashed _ target => some target
  | startNode _ _ | node _ _ | finalNode _ => none

def ending : Line → Ending
  | startNode _ _ => .startNode
  | node _ _ => .node
  | finalNode _ => .finalNode
  | solid _ _ | dashed _ _ => .arrow

theorem text_eq (line : Line) :
    line.text = nodeName line.state ++ (arrow line.target? ++ (shown line.label? ++ line.ending.text)) := by
  have regroup (a b c d e : List Char) : a ++ b ++ c ++ d ++ e = a ++ (b ++ c ++ (d ++ e)) := by
    simp only [List.append_assoc]
  cases line with
  | startNode | node | finalNode => exact List.append_assoc _ _ _
  | solid => exact regroup _ _ _ _ _
  | dashed source target =>
    have style : "[style=dashed]".toList = "[style=dashed".toList ++ [']'] := rfl
    change _ ++ "[style=dashed]".toList = _
    rw [style, ← List.append_assoc (_ ++ _)]
    exact regroup _ _ _ _ _

end Line

end Dot

end RegexSearch
