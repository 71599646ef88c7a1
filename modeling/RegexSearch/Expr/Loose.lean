import RegexSearch.Expr.Language

/-! Expressions with quantifiers anywhere: several in a row, or some at the start of an alternative, where they stand behind the
parenthesis or the bar. Only the first of several counts. Behind a parenthesis it has nothing to repeat; behind a bar it skips
and repeats the bar, so that an alternative may be left into the next one, or not begun at all. -/
namespace RegexSearch

namespace Quantifier

/-- Whether what a quantifier follows may be passed over. -/
def skips : Quantifier → Bool
  | star | optional => true
  | plus => false

/-- Whether what a quantifier follows may be gone through again. -/
def repeats : Quantifier → Bool
  | star | plus => true
  | optional => false

def tokensOf (qs : List Quantifier) : List Token := qs.map fun q => .operator q.operator

end Quantifier

mutual

/-- Alternatives, at least one, each with the quantifiers at its start. -/
inductive LooseExpr where
  | last (lead : List Quantifier) (b : LooseBranch)
  | alt (lead : List Quantifier) (b : LooseBranch) (e : LooseExpr)

inductive LooseBranch where
  | nil
  | cons (a : LooseAtom) (qs : List Quantifier) (rest : LooseBranch)

inductive LooseAtom where
  | token (t : Token) (h : t.operator? = none)
  | group (e : LooseExpr)

end

mutual

def LooseExpr.tokens : LooseExpr → List Token
  | .last lead b => Quantifier.tokensOf lead ++ b.tokens
  | .alt lead b e => Quantifier.tokensOf lead ++ (b.tokens ++ .operator .bar :: e.tokens)

def LooseBranch.tokens : LooseBranch → List Token
  | .nil => []
  | .cons a qs rest => a.tokens ++ (Quantifier.tokensOf qs ++ rest.tokens)

def LooseAtom.tokens : LooseAtom → List Token
  | .token t _ => [t]
  | .group e => .operator .openParen :: (e.tokens ++ [.operator .closeParen])

end

namespace LooseExpr

def lead : LooseExpr → List Quantifier
  | last lead _ | alt lead _ _ => lead

/-- Whether a bar before the expression may be skipped. -/
def skips (e : LooseExpr) : Bool := e.lead.head?.any Quantifier.skips

/-- Whether a bar before the expression may be gone back to. -/
def repeats (e : LooseExpr) : Bool := e.lead.head?.any Quantifier.repeats

theorem skips_eq_false {e : LooseExpr} (h : e.lead = []) : e.skips = false := by
  rw [skips, h]
  rfl

theorem repeats_eq_false {e : LooseExpr} (h : e.lead = []) : e.repeats = false := by
  rw [repeats, h]
  rfl

end LooseExpr

mutual

/-- What is read by way of the first alternative, past the quantifiers at its start. -/
def LooseExpr.first : LooseExpr → Language Char
  | .last _ b => b.language
  | .alt _ b e => b.language * (if e.skips then 1 + e.first else 1)

def LooseExpr.language : LooseExpr → Language Char
  | .last _ b => b.language
  | .alt _ b e => b.language * (if e.skips then 1 + e.first else 1) + (if e.repeats then 1 + e.language else e.language)

def LooseBranch.language : LooseBranch → Language Char
  | .nil => 1
  | .cons a qs rest => Quantifier.language qs.head? a.language * rest.language

def LooseAtom.language : LooseAtom → Language Char
  | .token t _ => t.language
  | .group e => e.language

end

namespace LooseExpr

/-- An atom with its quantifiers. -/
def ofAtom (a : LooseAtom) (qs : List Quantifier) : LooseExpr := .last [] (.cons a qs .nil)

theorem tokens_ofAtom (a : LooseAtom) (qs : List Quantifier) :
    (ofAtom a qs).tokens = a.tokens ++ Quantifier.tokensOf qs := by
  rw [ofAtom, tokens, LooseBranch.tokens, LooseBranch.tokens, List.append_nil]
  rfl

theorem tokens_ofAtom_nil (a : LooseAtom) : (ofAtom a []).tokens = a.tokens :=
  (tokens_ofAtom a []).trans (List.append_nil _)

theorem language_ofAtom (a : LooseAtom) (qs : List Quantifier) :
    (ofAtom a qs).language = Quantifier.language qs.head? a.language := mul_one _

end LooseExpr

end RegexSearch
