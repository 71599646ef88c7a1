import RegexSearch.Repeat

/-! The bodies that count. A number is read off digit by digit; the bodies are also read piece by piece from the front, where a
number that is too large counts as none, and what is then left over rejects the body. -/
namespace RegexSearch.Repeat

/-- Decimal digits and their value, leading zeros included. -/
inductive Numeral : List Char → Nat → Prop
  | digit {c : Char} (h : c.isDigit) : Numeral [c] (c.toNat - '0'.toNat)
  | snoc {digits : List Char} {c : Char} {m : Nat} (h : Numeral digits m) (k : c.isDigit) :
    Numeral (digits ++ [c]) (10 * m + (c.toNat - '0'.toNat))

inductive Spells : List Char → Repeat → Prop
  | exactly {digits : List Char} {m : Nat} (h : Numeral digits m) (le : m ≤ maxCount) : Spells digits (exactly m)
  | atLeast {digits : List Char} {m : Nat} (h : Numeral digits m) (le : m ≤ maxCount) :
    Spells (digits ++ [',']) (atLeast m)
  | between {lower upper : List Char} {m n : Nat} (h : Numeral lower m) (k : Numeral upper n) (le : m ≤ n)
    (upper_le : n ≤ maxCount) : Spells (lower ++ ',' :: upper) (between m n)

/-- The counts that can be written: their numbers are in order and in bounds. -/
def InRange : Repeat → Prop
  | exactly m => m ≤ maxCount
  | atLeast m => m ≤ maxCount
  | between m n => m ≤ n ∧ n ≤ maxCount

/-- Takes all digits that stand at the front. -/
def readCount? (text : List Char) : Option (Nat × List Char) :=
  (count? (text.takeWhile Char.isDigit)).map fun m => (m, text.dropWhile Char.isDigit)

/-- Takes a comma, and the number behind it if one can be read there. -/
def readUpper : List Char → Option (Option Nat) × List Char
  | ',' :: text =>
    match readCount? text with
    | some (n, rest) => (some (some n), rest)
    | none => (some none, text)
  | text => (none, text)

def ofBounds (m : Nat) : Option (Option Nat) → Repeat
  | none => exactly m
  | some none => atLeast m
  | some (some n) => between m n

def read? (text : List Char) : Option (Repeat × List Char) := do
  let (m, rest) ← readCount? text
  let (upper, rest) := readUpper rest
  some (ofBounds m upper, rest)

/-- Reads a body from the front to its end. -/
def readAll? (body : List Char) : Option Repeat :=
  match read? body with
  | some (between m n, []) => if m ≤ n then some (between m n) else none
  | some (count, []) => some count
  | _ => none

end RegexSearch.Repeat
