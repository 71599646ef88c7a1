import RegexSearch.Pattern.Chains
import RegexSearch.Token.Spelling

/-! The grammar of patterns. Each judgment reads the front of a text and leaves the rest, since what a `&` or a `^` stands for
hangs on its neighbours. A set differs from the text around it: `inSet` says whether there is one, and `first` whether its
opening bracket has just been read. In what a piece stands for, `none` is a conjunction. -/
namespace RegexSearch.Pattern

inductive Literal : (inSet first : Bool) → List Char → Char → List Char → Prop
  | escaped {inSet first : Bool} {c : Char} {rest : List Char} : Literal inSet first ('\\' :: c :: rest) c rest
  | plain {inSet first : Bool} {c : Char} {rest : List Char} (h : c ∉ metacharacters) :
    Literal inSet first (c :: rest) c rest
  | ampersand {first : Bool} {rest : List Char} : Literal false first ('&' :: rest) '&' rest
  | ampersandInSet {first : Bool} {rest : List Char} (h : rest.head? ≠ some '&') :
    Literal true first ('&' :: rest) '&' rest
  | caretInSet {rest : List Char} : Literal true false ('^' :: rest) '^' rest

inductive Literals : List Char → List Char → List Char → Prop
  | nil {text : List Char} : Literals text [] text
  | cons {text mid rest cs : List Char} {c : Char} (h : Literal false false text c mid) (k : Literals mid cs rest) :
    Literals text (c :: cs) rest

mutual

inductive Piece : (inSet first : Bool) → List Char → List (Option Token) → List Char → Prop
  | literal {inSet first : Bool} {text rest : List Char} {c : Char} (h : Literal inSet first text c rest) :
    Piece inSet first text [some (.literal c)] rest
  | wildcard {inSet first : Bool} {rest : List Char} : Piece inSet first ('.' :: rest) [some .wildcard] rest
  | operator {inSet first : Bool} {op : Operator} {rest : List Char} (h : op ≠ .openParen) (k : op ≠ .closeParen) :
    Piece inSet first (op.char :: rest) [some (.operator op)] rest
  | range {inSet first : Bool} {text mid rest : List Char} {lo hi : Char} (h : Literal inSet first text lo ('-' :: mid))
    (k : Literal inSet false mid hi rest) (lt : lo < hi) : Piece inSet first text [some (.range lo hi)] rest
  | group {inSet first : Bool} {text rest : List Char} {inside : List (Option Token)}
    (h : Pieces inSet false text inside (')' :: rest)) :
    Piece inSet first ('(' :: text)
      (some (.operator .openParen) :: (inside ++ [some (.operator .closeParen)])) rest
  | set {inSet first : Bool} {text rest : List Char} {inside : List (Option Token)} {chains : List (Token × List Token)}
    (h : Pieces true true text inside (']' :: rest)) (k : Chains inside chains) :
    Piece inSet first ('[' :: text) [some (.set (Chains.members chains) false)] rest
  | negatedSet {inSet first : Bool} {text rest : List Char} {inside : List (Option Token)}
    {chains : List (Token × List Token)} (h : Pieces true false text inside (']' :: rest)) (k : Chains inside chains) :
    Piece inSet first ('[' :: '^' :: text) [some (.set (Chains.members chains) true)] rest
  | conjunction {first : Bool} {rest : List Char} : Piece true first ('&' :: '&' :: rest) [none] rest
  /-- A unit is any piece but a lone operator. -/
  | counted {first : Bool} {text mid body rest : List Char} {unit expansion : List Token} {count : Repeat}
    (h : Piece false first text (unit.map some) ('{' :: mid)) (k : ∀ op, unit ≠ [.operator op])
    (body_eq : Literals mid body ('}' :: rest)) (count_eq : Repeat.parse? body = some count)
    (expansion_eq : count.expand? unit = some expansion) : Piece false first text (expansion.map some) rest

inductive Pieces : (inSet first : Bool) → List Char → List (Option Token) → List Char → Prop
  | nil {inSet first : Bool} {text : List Char} : Pieces inSet first text [] text
  | cons {inSet first : Bool} {text mid rest : List Char} {xs ys : List (Option Token)}
    (h : Piece inSet first text xs mid) (k : Pieces inSet false mid ys rest) : Pieces inSet first text (xs ++ ys) rest

end

def Derives (pattern : List Char) (tokens : List Token) : Prop := Pieces false false pattern (tokens.map some) []

/-- A pattern that is one group, from its first character to its last. -/
def IsGroup (pattern : List Char) : Prop :=
  ∃ text inside, pattern = '(' :: text ∧ Pieces false false text inside [')']

end RegexSearch.Pattern
