import RegexSearch.Token.Basic

/-! Counted repetition: the text between braces, and the tokens that a repeated unit becomes. -/
namespace RegexSearch

inductive Repeat where
  | exactly (count : Nat)
  | atLeast (count : Nat)
  | between (lower upper : Nat)
deriving DecidableEq, Repr

namespace Repeat

def maxCount : Nat := UInt64.size - 1

def count? (digits : List Char) : Option Nat :=
  let value := Nat.ofDigitChars 10 digits 0
  if digits ≠ [] ∧ digits.all Char.isDigit ∧ value ≤ maxCount then some value else none

/-- Reads `m`, `m,` or `m,n` with `m ≤ n`. -/
def parse? (body : List Char) : Option Repeat :=
  let lower := body.takeWhile (· != ',')
  match body.dropWhile (· != ',') with
  | [] => (count? lower).map exactly
  | [_] => (count? lower).map atLeast
  | _ :: upper => do
    let m ← count? lower
    let n ← count? upper
    if m ≤ n then some (between m n) else none

def body : Repeat → List Char
  | exactly m => Nat.toDigits 10 m
  | atLeast m => Nat.toDigits 10 m ++ [',']
  | between m n => Nat.toDigits 10 m ++ ',' :: Nat.toDigits 10 n

def spell (r : Repeat) : List Char := '{' :: (r.body ++ ['}'])

example : parse? ['0', '2', ',', '1', '0'] = some (between 2 10) := by decide
example : parse? ['3', ',', '1'] = none := by decide

def copies (n : Nat) (unit : List Token) : List Token := (List.replicate n unit).flatten

theorem copies_succ (n : Nat) (unit : List Token) : copies (n + 1) unit = unit ++ copies n unit := by
  simp [copies, List.replicate_succ]

/-- From `m` copies up to `m + k` copies, as alternatives. -/
def choices (unit : List Token) (m : Nat) : Nat → List Token
  | 0 => copies m unit
  | k + 1 => copies m unit ++ .operator .bar :: choices unit (m + 1) k

/-- The inside of the group that a repeated unit becomes. An unbounded count needs one copy more than its count for its star
to follow, and that number must itself be a count. -/
def expansion? (unit : List Token) : Repeat → Option (List Token)
  | exactly m => some (copies m unit)
  | atLeast m => if m + 1 ≤ maxCount then some (copies (m + 1) unit ++ [.operator .star]) else none
  | between m n => some (choices unit m (n - m))

/-- What holds of the unit and of the operators between copies holds of all that a count makes of the unit. -/
theorem expansion?_induction {motive : List Token → Prop} {unit inside : List Token} {count : Repeat} (nil : motive [])
    (append : ∀ {xs ys : List Token}, motive xs → motive ys → motive (xs ++ ys))
    (operator : ∀ {op : Operator}, op ≠ .openParen → op ≠ .closeParen → motive [.operator op])
    (hunit : motive unit) (h : count.expansion? unit = some inside) : motive inside := by
  have hcopies (n : Nat) : motive (copies n unit) := by
    induction n with
    | zero => exact nil
    | succ n ih =>
      rw [copies_succ]
      exact append hunit ih
  have hchoices (m k : Nat) : motive (choices unit m k) := by
    induction k generalizing m with
    | zero => exact hcopies m
    | succ k ih =>
      have bar : motive [.operator .bar] := operator (by decide) (by decide)
      exact append (hcopies m) (append bar (ih (m + 1)))
  cases count with
  | exactly m =>
    obtain rfl : _ = inside := by simpa [expansion?] using h
    exact hcopies m
  | atLeast m =>
    obtain ⟨-, rfl⟩ : _ ∧ _ = inside := by simpa [expansion?] using h
    have star : motive [.operator .star] := operator (by decide) (by decide)
    exact append (hcopies (m + 1)) star
  | between m n =>
    obtain rfl : _ = inside := by simpa [expansion?] using h
    exact hchoices m (n - m)

def expand? (r : Repeat) (unit : List Token) : Option (List Token) :=
  (r.expansion? unit).map fun inside => .operator .openParen :: (inside ++ [.operator .closeParen])

end Repeat
end RegexSearch
