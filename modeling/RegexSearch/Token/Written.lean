import RegexSearch.Token.Basic

/-! The tokens that patterns stand for, and tokens whose parentheses match. -/
namespace RegexSearch.Token

mutual

/-- A token that stands outside conjunctions: a range goes up, and conjunctions are in the sets only. -/
inductive Written : Token → Prop
  | literal (c : Char) : Written (literal c)
  | wildcard : Written wildcard
  | operator (op : Operator) : Written (operator op)
  | range {lo hi : Char} (h : lo < hi) : Written (range lo hi)
  | set {members : List Token} {negated : Bool} (h : ∀ t ∈ members, Member t) : Written (set members negated)

/-- A member of a set, which may be a conjunction, but not one on the right of another. -/
inductive Member : Token → Prop
  | written {t : Token} (h : Written t) : Member t
  | both {left right : Token} (h : Member left) (k : Written right) : Member (both left right)

end

/-- Nowhere more groups have been closed than opened, and in the end as many. -/
structure Nested (tokens : List Token) : Prop where
  count_le : ∀ i, (tokens.take i).count (operator .closeParen) ≤ (tokens.take i).count (operator .openParen)
  count_eq : tokens.count (operator .closeParen) = tokens.count (operator .openParen)

/-- The group that the first token opens is closed by the last one, and not before. -/
theorem Nested.count_lt_group {inside : List Token} (h : Nested inside) {i : Nat} (pos : 0 < i)
    (lt : i < (operator .openParen :: (inside ++ [operator .closeParen])).length) :
    ((operator .openParen :: (inside ++ [operator .closeParen])).take i).count (operator .closeParen) <
      ((operator .openParen :: (inside ++ [operator .closeParen])).take i).count (operator .openParen) := by
  obtain ⟨j, rfl⟩ := Nat.exists_eq_succ_of_ne_zero (Nat.ne_of_gt pos)
  have hle : j ≤ inside.length := by
    rw [List.length_cons, List.length_append, List.length_singleton] at lt
    omega
  rw [List.take_succ_cons, List.take_append_of_le_length hle, List.count_cons_self, List.count_cons_of_ne (by decide)]
  exact Nat.lt_succ_of_le (h.count_le j)

end RegexSearch.Token
