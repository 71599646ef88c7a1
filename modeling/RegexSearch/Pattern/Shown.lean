import RegexSearch.SyntaxError

/-! Which characters of a pattern show that it is at fault. -/
namespace RegexSearch.Pattern

/-- An escape before it makes the character at this offset a literal. -/
def Escaped (pattern : List Char) : Nat → Prop
  | 0 => False
  | k + 1 => pattern[k]? = some '\\' ∧ ¬ Escaped pattern k

/-- The character stands at this offset, and no escape makes it a literal. -/
def Stands (pattern : List Char) (k : Nat) (c : Char) : Prop := pattern[k]? = some c ∧ ¬ Escaped pattern k

/-- The offset of an error is that of the character that shows its fault, or of the end of the pattern. -/
inductive Shown (pattern : List Char) : SyntaxError → Prop
  | unclosed : Shown pattern ⟨.unmatchedOperator, pattern.length⟩
  | unmatched {k : Nat} {c : Char} (h : Stands pattern k c) (hc : c ∈ [')', ']', '}', '^']) :
    Shown pattern ⟨.unmatchedOperator, k⟩
  | dash {k : Nat} (h : Stands pattern k '-') : Shown pattern ⟨.characterRange, k⟩
  | upperEnd {k : Nat} (h : Stands pattern k '-') (lt : k + 1 < pattern.length) : Shown pattern ⟨.characterRange, k + 1⟩
  | closure {k : Nat} (h : Stands pattern k '}') : Shown pattern ⟨.closure, k⟩
  | conjunction {k : Nat} (h : Stands pattern k '&') (k_succ : pattern[k + 1]? = some '&') :
    Shown pattern ⟨.intersection, k⟩
  | escape {k : Nat} (h : Stands pattern k '\\') (last : k + 1 = pattern.length) : Shown pattern ⟨.danglingEscape, k⟩

variable {pattern : List Char} {k : Nat} {c : Char} {e : SyntaxError}

theorem not_escaped_succ (h : pattern[k]? = some c) (hc : c ≠ '\\') : ¬ Escaped pattern (k + 1) := by
  rintro ⟨hslash, -⟩
  rw [h] at hslash
  exact hc (Option.some.inj hslash)

theorem Stands.lt (h : Stands pattern k c) : k < pattern.length := (List.getElem?_eq_some_iff.1 h.1).1

theorem Shown.le (h : Shown pattern e) : e.offset ≤ pattern.length := by
  cases h with
  | unclosed => exact Nat.le_refl _
  | upperEnd _ lt => exact Nat.le_of_lt lt
  | unmatched h | dash h | closure h | conjunction h | escape h => exact Nat.le_of_lt h.lt

theorem Shown.not_escaped (h : Shown pattern e) (lt : e.offset < pattern.length) : ¬ Escaped pattern e.offset := by
  cases h with
  | unclosed => exact absurd lt (Nat.lt_irrefl _)
  | upperEnd h => exact not_escaped_succ h.1 (by decide)
  | unmatched h | dash h | closure h | conjunction h | escape h => exact h.2

end RegexSearch.Pattern
