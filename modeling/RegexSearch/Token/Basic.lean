/-! Tokens of a pattern and the characters they accept. -/
namespace RegexSearch

/-- The tokens that consume nothing and only shape an expression. -/
inductive Operator where
  | openParen
  | closeParen
  | bar
  | star
  | plus
  | optional
deriving DecidableEq, Repr

namespace Operator

def char : Operator → Char
  | openParen => '('
  | closeParen => ')'
  | bar => '|'
  | star => '*'
  | plus => '+'
  | optional => '?'

def all : List Operator := [openParen, closeParen, bar, star, plus, optional]

end Operator

inductive Token where
  | literal (c : Char)
  | wildcard
  | range (lo hi : Char)
  /-- What both operands accept. -/
  | both (left right : Token)
  | set (members : List Token) (negated : Bool)
  | operator (op : Operator)
deriving Repr

namespace Token

def operator? : Token → Option Operator
  | operator op => some op
  | _ => none

def isOperator (t : Token) (op : Operator) : Bool := t.operator? == some op

/-- A range needs at least two characters. -/
def range? (lo hi : Char) : Option Token := if lo < hi then some (range lo hi) else none

mutual

def accepts (c : Char) : Token → Bool
  | literal a => a == c
  | wildcard => true
  | range lo hi => lo ≤ c && c ≤ hi
  | both left right => left.accepts c && right.accepts c
  | set members negated => negated ^^ anyAccepts c members
  | operator _ => false

def anyAccepts (c : Char) : List Token → Bool
  | [] => false
  | t :: rest => t.accepts c || anyAccepts c rest

end

theorem anyAccepts_eq_any (c : Char) (members : List Token) :
    anyAccepts c members = members.any (·.accepts c) := by
  induction members with
  | nil => simp [anyAccepts]
  | cons t rest ih => simp [anyAccepts, ih]

theorem accepts_set (c : Char) (members : List Token) (negated : Bool) :
    (set members negated).accepts c = (negated ^^ members.any (·.accepts c)) := by
  rw [accepts, anyAccepts_eq_any]

mutual

def same : Token → Token → Bool
  | literal a, literal b => a == b
  | wildcard, wildcard => true
  | range a b, range c d => a == c && b == d
  | both a b, both c d => a.same c && b.same d
  | set ms m, set ns n => sameAll ms ns && m == n
  | operator a, operator b => a == b
  | _, _ => false

def sameAll : List Token → List Token → Bool
  | [], [] => true
  | t :: ts, u :: us => t.same u && sameAll ts us
  | _, _ => false

end

mutual

theorem same_self : ∀ t : Token, t.same t = true
  | literal _ | wildcard | range _ _ | operator _ => by simp [same]
  | both a b => by simp [same, same_self a, same_self b]
  | set ms _ => by simp [same, sameAll_self ms]

theorem sameAll_self : ∀ ts : List Token, sameAll ts ts = true
  | [] => by simp [sameAll]
  | t :: ts => by simp [sameAll, same_self t, sameAll_self ts]

end

mutual

theorem eq_of_same : ∀ {t u : Token}, t.same u = true → t = u
  | literal _, u, h => by cases u <;> simp_all [same]
  | wildcard, u, h => by cases u <;> simp_all [same]
  | range _ _, u, h => by cases u <;> simp_all [same]
  | operator _, u, h => by cases u <;> simp_all [same]
  | both a b, u, h => by
    cases u with
    | both c d =>
      simp only [same, Bool.and_eq_true] at h
      rw [eq_of_same h.1, eq_of_same h.2]
    | _ => simp [same] at h
  | set ms m, u, h => by
    cases u with
    | set ns n =>
      simp only [same, Bool.and_eq_true, beq_iff_eq] at h
      rw [eq_of_sameAll h.1, h.2]
    | _ => simp [same] at h

theorem eq_of_sameAll : ∀ {ts us : List Token}, sameAll ts us = true → ts = us
  | [], us, h => by cases us <;> simp_all [sameAll]
  | t :: ts, us, h => by
    cases us with
    | nil => simp [sameAll] at h
    | cons u us =>
      simp only [sameAll, Bool.and_eq_true] at h
      rw [eq_of_same h.1, eq_of_sameAll h.2]

end

instance : DecidableEq Token := fun t u =>
  if h : t.same u then .isTrue (eq_of_same h) else .isFalse fun e => h (e ▸ same_self t)

end Token
end RegexSearch
