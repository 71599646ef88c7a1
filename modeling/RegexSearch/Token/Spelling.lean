import RegexSearch.Token.Basic

/-! The spelling of tokens as pattern text. -/
namespace RegexSearch

def metacharacters : List Char :=
  ['\\', '.', '?', '+', '*', '|', '(', ')', '[', ']', '^', '{', '}', '-', '&']

def spellLiteral (c : Char) : List Char := if c ∈ metacharacters then ['\\', c] else [c]

namespace Token

mutual

def spell : Token → List Char
  | literal c => spellLiteral c
  | wildcard => ['.']
  | range lo hi => spellLiteral lo ++ '-' :: spellLiteral hi
  | both left right => left.spell ++ '&' :: '&' :: right.spell
  | set members negated => '[' :: (if negated then ['^'] else []) ++ spellAll members ++ [']']
  | operator op => [op.char]

def spellAll : List Token → List Char
  | [] => []
  | t :: rest => t.spell ++ spellAll rest

end

theorem spellAll_eq_flatMap (ts : List Token) : spellAll ts = ts.flatMap spell := by
  induction ts with
  | nil => simp [spellAll]
  | cons t rest ih => simp [spellAll, ih]

example : (set [range 'a' 'z', both (literal '-') wildcard] true).spell =
    ['[', '^', 'a', '-', 'z', '\\', '-', '&', '&', '.', ']'] := by decide

end Token
end RegexSearch
