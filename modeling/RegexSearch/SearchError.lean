import RegexSearch.SyntaxError

/-! What can go wrong between a pattern and its matches. -/
namespace RegexSearch

inductive SearchError where
  | pattern (e : SyntaxError)
  /-- A match was asked for where none had been found. -/
  | noMatch
deriving DecidableEq, Repr

namespace SearchError

def message (p : Palette) : SearchError → String
  | pattern e => "failed to parse: " ++ e.message p
  | noMatch => "no match available, call matches() or find() first"

def source? : SearchError → Option SyntaxError
  | pattern e => some e
  | noMatch => none

end SearchError
end RegexSearch
