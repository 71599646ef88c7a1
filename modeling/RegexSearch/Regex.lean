import RegexSearch.Automaton.Dot
import RegexSearch.Matcher

/-! Compiled patterns. -/
namespace RegexSearch

structure Regex where
  source : String
  automaton : Automaton
deriving DecidableEq

namespace Regex

def compile (pattern : String) : Except SearchError Regex :=
  match Automaton.ofPattern pattern.toList with
  | .ok automaton => .ok ⟨pattern, automaton⟩
  | .error e => .error (.pattern e)

instance : ToString Regex := ⟨Regex.source⟩

def matcher (r : Regex) (text : String) : Matcher := ⟨r.automaton, text.toList, none⟩

def accepts (r : Regex) (text : String) : Bool := (r.matcher text).matchWhole.1

/-- The matches in a text that do not overlap, from left to right. -/
def find (r : Regex) (text : String) : List Match := (r.matcher text).toList

def dot (r : Regex) : String := String.ofList r.automaton.dot

end Regex
end RegexSearch
