import Mathlib.Computability.Language
import RegexSearch.Regex

/-! The language of a compiled pattern: the texts that it matches as a whole. -/
namespace RegexSearch.Regex

def language (r : Regex) : Language Char := {text | r.accepts (String.ofList text) = true}

theorem accepts_eq (r : Regex) (text : String) : r.accepts text = r.automaton.accepts text.toList := by
  change (if r.automaton.accepts text.toList then _ else _ : Bool × Matcher).1 = _
  split_ifs with h
  · exact h.symm
  · exact (Bool.eq_false_iff.2 h).symm

theorem mem_language {r : Regex} {text : List Char} : text ∈ r.language ↔ r.automaton.accepts text = true := by
  change r.accepts (String.ofList text) = true ↔ _
  rw [accepts_eq, String.toList_ofList]

end RegexSearch.Regex
