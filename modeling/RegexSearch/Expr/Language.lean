import Mathlib.Computability.Language
import RegexSearch.Expr.Basic

/-! The language of a regular expression. -/
namespace RegexSearch

def Token.language (t : Token) : Language Char := {text | ∃ c, text = [c] ∧ t.accepts c = true}

def Quantifier.language (q : Option Quantifier) (l : Language Char) : Language Char :=
  match q with
  | none => l
  | some .star => KStar.kstar l
  | some .plus => l * KStar.kstar l
  | some .optional => 1 + l

mutual

def Expr.language : Expr → Language Char
  | .last b => b.language
  | .alt b e => b.language + e.language

def Branch.language : Branch → Language Char
  | .nil => 1
  | .cons a q rest => Quantifier.language q a.language * rest.language

def Atom.language : Atom → Language Char
  | .token t _ => t.language
  | .group e => e.language

end

end RegexSearch
