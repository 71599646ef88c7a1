import RegexSearch.Text.Printable

/-! Quoted text: double quotes around it, with quotes and backslashes escaped, and each character that cannot be shown on its own
given by its code point. -/
namespace RegexSearch.Text

def codePoint (c : Char) : List Char := ['\\', 'u', '{'] ++ Nat.toDigits 16 c.toNat ++ ['}']

def escape (c : Char) : List Char :=
  if c = '\x00' then ['\\', '0']
  else if c = '\t' then ['\\', 't']
  else if c = '\r' then ['\\', 'r']
  else if c = '\n' then ['\\', 'n']
  else if c = '\\' then ['\\', '\\']
  else if c = '"' then ['\\', '"']
  else if isExtending c then codePoint c
  else if isPrintable c then [c]
  else codePoint c

def quoted (text : List Char) : List Char := '"' :: (text.flatMap escape ++ ['"'])

example : quoted ['a', '"', '\x1b'] = ['"', 'a', '\\', '"', '\\', 'u', '{', '1', 'b', '}', '"'] := by decide

/-- A no-break space, a combining accent, and a letter with its accent. -/
example : quoted ['\u00a0', '\u0301', 'é'] =
    ['"', '\\', 'u', '{', 'a', '0', '}', '\\', 'u', '{', '3', '0', '1', '}', 'é', '"'] := by decide +kernel

end RegexSearch.Text
