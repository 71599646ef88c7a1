import RegexSearch.Proofs.LooseLanguage

/-! The automaton of a group accepts the language of the expression in it. -/
namespace RegexSearch

mutual

/-- An expression as one that might have had more quantifiers. -/
def Expr.loose : Expr → LooseExpr
  | .last b => .last [] b.loose
  | .alt b e => .alt [] b.loose e.loose

def Branch.loose : Branch → LooseBranch
  | .nil => .nil
  | .cons a q rest => .cons a.loose q.toList rest.loose

def Atom.loose : Atom → LooseAtom
  | .token t h => .token t h
  | .group e => .group e.loose

end

mutual

theorem Expr.tokens_loose : ∀ e : Expr, e.loose.tokens = e.tokens
  | .last b => b.tokens_loose
  | .alt b e => by
    rw [Expr.loose, Expr.tokens, LooseExpr.tokens, b.tokens_loose, e.tokens_loose]
    rfl

theorem Branch.tokens_loose : ∀ b : Branch, b.loose.tokens = b.tokens
  | .nil => rfl
  | .cons a q rest => by
    rw [Branch.loose, Branch.tokens, LooseBranch.tokens, a.tokens_loose, rest.tokens_loose]
    cases q <;> rfl

theorem Atom.tokens_loose : ∀ a : Atom, a.loose.tokens = a.tokens
  | .token _ _ => rfl
  | .group e => by rw [Atom.loose, Atom.tokens, LooseAtom.tokens, e.tokens_loose]

end

theorem Expr.lead_loose (e : Expr) : e.loose.lead = [] := by
  cases e <;> rfl

mutual

theorem Expr.language_loose : ∀ e : Expr, e.loose.language = e.language
  | .last b => b.language_loose
  | .alt b e => by
    rw [Expr.loose, Expr.language, LooseExpr.language, b.language_loose, e.language_loose,
      LooseExpr.skips_eq_false e.lead_loose, LooseExpr.repeats_eq_false e.lead_loose]
    simp

theorem Branch.language_loose : ∀ b : Branch, b.loose.language = b.language
  | .nil => rfl
  | .cons a q rest => by
    rw [Branch.loose, Branch.language, LooseBranch.language, a.language_loose, rest.language_loose]
    cases q <;> rfl

theorem Atom.language_loose : ∀ a : Atom, a.loose.language = a.language
  | .token _ _ => rfl
  | .group e => by rw [Atom.loose, Atom.language, LooseAtom.language, e.language_loose]

end

theorem accepts_iff_mem_language (e : Expr) : ∃ a : Automaton,
    Automaton.ofTokens (.operator .openParen :: (e.tokens ++ [.operator .closeParen])) = .ok a ∧
      ∀ text, a.accepts text = true ↔ text ∈ e.language := by
  rw [← e.tokens_loose, ← e.language_loose]
  exact e.loose.exists_automaton

end RegexSearch
