import RegexSearch.Terminal

/-! Why and where a pattern is rejected. -/
namespace RegexSearch

inductive Fault where
  | unmatchedOperator
  | characterRange
  | closure
  | intersection
  | grouping
  | danglingEscape
deriving DecidableEq, Repr

namespace Fault

def number : Fault → Nat
  | unmatchedOperator => 1
  | characterRange => 2
  | closure => 3
  | intersection => 4
  | grouping => 5
  | danglingEscape => 6

def description : Fault → String
  | unmatchedOperator => "unmatched operator"
  | characterRange => "bad character range"
  | closure => "bad closure expression"
  | intersection => "bad && expression"
  | grouping => "malformed group expression"
  | danglingEscape => "dangling escape"

def label (p : Palette) (f : Fault) : List Char :=
  p.paint .boldRed ('[' :: '0' :: '0' :: (Nat.toDigits 10 f.number ++ [']']))

end Fault

/-- A fault, with the offset of the pattern character that shows it. The offset of a grouping fault is that of a token. -/
structure SyntaxError where
  fault : Fault
  offset : Nat
deriving DecidableEq, Repr

namespace SyntaxError

def message (p : Palette) (e : SyntaxError) : String :=
  String.ofList (e.fault.label p) ++ " " ++ e.fault.description ++ " at offset " ++ toString e.offset

def caretLine (p : Palette) (e : SyntaxError) : List Char :=
  List.replicate e.offset ' ' ++ p.paint .green ['^']

def render (p : Palette) (e : SyntaxError) (pattern : List Char) : String :=
  String.ofList (e.fault.label p) ++ " " ++ e.fault.description ++ ":\n | " ++ String.ofList pattern ++ "\n | " ++
    String.ofList (e.caretLine p)

end SyntaxError

theorem bind_eq_ok_iff {ε α β : Type} {x : Except ε α} {f : α → Except ε β} {b : β} :
    x >>= f = .ok b ↔ ∃ a, x = .ok a ∧ f a = .ok b := by
  cases x <;> simp [bind, Except.bind]

theorem bind_eq_error_iff {ε α β : Type} {x : Except ε α} {f : α → Except ε β} {e : ε} :
    x >>= f = .error e ↔ x = .error e ∨ ∃ a, x = .ok a ∧ f a = .error e := by
  cases x <;> simp [bind, Except.bind]

theorem bind_congr_ok {ε α β : Type} {x : Except ε α} {f g : α → Except ε β} (h : ∀ a, x = .ok a → f a = g a) :
    x >>= f = x >>= g := by
  cases x with
  | error e => rfl
  | ok a => exact h a rfl

end RegexSearch
