import RegexSearch.Token.Basic

/-! What an unescaped character of a pattern stands for. -/
namespace RegexSearch

inductive Sign where
  | escape
  | wildcard
  | operator (op : Operator)
  | openGroup
  | closeGroup
  | openSet
  | closeSet
  | openCount
  | closeCount
  | caret
  | dash
  | ampersand
  | literal
deriving DecidableEq, Repr

def Sign.ofChar (c : Char) : Sign :=
  if c = '\\' then escape
  else if c = '.' then wildcard
  else if c = '?' then operator .optional
  else if c = '+' then operator .plus
  else if c = '*' then operator .star
  else if c = '|' then operator .bar
  else if c = '(' then openGroup
  else if c = ')' then closeGroup
  else if c = '[' then openSet
  else if c = ']' then closeSet
  else if c = '{' then openCount
  else if c = '}' then closeCount
  else if c = '^' then caret
  else if c = '-' then dash
  else if c = '&' then ampersand
  else literal

end RegexSearch
