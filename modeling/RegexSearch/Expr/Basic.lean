import RegexSearch.Token.Basic

/-! Regular expressions over tokens, and the token sequence that writes one down. -/
namespace RegexSearch

inductive Quantifier where
  | star
  | plus
  | optional
deriving DecidableEq, Repr

def Quantifier.operator : Quantifier → Operator
  | star => .star
  | plus => .plus
  | optional => .optional

mutual

/-- Alternatives, at least one. -/
inductive Expr where
  | last (b : Branch)
  | alt (b : Branch) (e : Expr)

inductive Branch where
  | nil
  | cons (a : Atom) (q : Option Quantifier) (rest : Branch)

inductive Atom where
  | token (t : Token) (h : t.operator? = none)
  | group (e : Expr)

end

def Quantifier.tokens (q : Option Quantifier) : List Token := (q.map fun q => .operator q.operator).toList

mutual

def Expr.tokens : Expr → List Token
  | .last b => b.tokens
  | .alt b e => b.tokens ++ .operator .bar :: e.tokens

def Branch.tokens : Branch → List Token
  | .nil => []
  | .cons a q rest => a.tokens ++ (Quantifier.tokens q ++ rest.tokens)

def Atom.tokens : Atom → List Token
  | .token t _ => [t]
  | .group e => .operator .openParen :: (e.tokens ++ [.operator .closeParen])

end

end RegexSearch
