import Mathlib.Order.CompletePartialOrder
import RegexSearch.Proofs.PatternLanguage

/-! Patterns put together: in parentheses one after the other, as alternatives, with a quantifier, and joined by a bar without
parentheses. -/
namespace RegexSearch
open Pattern Computability

namespace LooseExpr

theorem head?_tokens {k : Quantifier} (e : LooseExpr) (h : e.lead.head? = some k) :
    e.tokens.head? = some (.operator k.operator) := by
  obtain ⟨qs, hqs⟩ := List.head?_eq_some_iff.1 h
  cases e <;>
  · obtain rfl : _ = k :: qs := hqs
    simp [tokens, Quantifier.tokensOf]

/-- The alternatives of two expressions. -/
def join : LooseExpr → LooseExpr → LooseExpr
  | .last lead b, f => .alt lead b f
  | .alt lead b e, f => .alt lead b (e.join f)

theorem tokens_join (e f : LooseExpr) : (e.join f).tokens = e.tokens ++ .operator .bar :: f.tokens := by
  cases e with
  | last lead b => simp [join, tokens]
  | alt lead b e => simp [join, tokens, e.tokens_join f]

theorem lead_join (e f : LooseExpr) : (e.join f).lead = e.lead := by
  cases e <;> rfl

theorem skips_join (e f : LooseExpr) : (e.join f).skips = e.skips := by
  rw [skips, lead_join, skips]

theorem repeats_join (e f : LooseExpr) : (e.join f).repeats = e.repeats := by
  rw [repeats, lead_join, repeats]

variable {f : LooseExpr}

theorem first_join (e : LooseExpr) (h : f.lead = []) : (e.join f).first = e.first := by
  cases e with
  | last lead b => simp [join, first, skips_eq_false h]
  | alt lead b e => simp only [join, first, skips_join, e.first_join h]

/-- Nothing leads over the bar between two expressions if the second one starts with no quantifier. -/
theorem language_join (e : LooseExpr) (h : f.lead = []) : (e.join f).language = e.language + f.language := by
  cases e with
  | last lead b => simp [join, language, skips_eq_false h, repeats_eq_false h]
  | alt lead b e =>
    have ih := e.language_join h
    simp only [join, language, skips_join, repeats_join, first_join e h, ih]
    split_ifs <;> simp only [add_assoc]

theorem first_le_first_join (e f : LooseExpr) : e.first ≤ (e.join f).first := by
  cases e with
  | last lead b =>
    have one_le : (1 : Language Char) ≤ if f.skips then 1 + f.first else 1 := by
      split_ifs
      · exact le_self_add
      · exact le_rfl
    calc b.language = b.language * 1 := (mul_one _).symm
      _ ≤ b.language * (if f.skips then 1 + f.first else 1) := mul_le_mul_right one_le _
  | alt lead b e =>
    have ih := e.first_le_first_join f
    simp only [join, first, skips_join]
    split_ifs
    · exact mul_le_mul_right (add_le_add_right ih 1) _
    · exact le_rfl

theorem language_add_le_language_join (e f : LooseExpr) : e.language + f.language ≤ (e.join f).language := by
  cases e with
  | last lead b =>
    have beyond : f.language ≤ if f.repeats then 1 + f.language else f.language := by
      split_ifs
      · exact le_add_self
      · exact le_rfl
    exact add_le_add (first_le_first_join (.last lead b) f) beyond
  | alt lead b e =>
    have ih := e.language_add_le_language_join f
    have first := first_le_first_join (.alt lead b e) f
    have beyond : (if e.repeats then 1 + e.language else e.language) + f.language ≤
        if e.repeats then 1 + (e.join f).language else (e.join f).language := by
      split_ifs
      · rw [add_assoc]
        exact add_le_add_right ih 1
      · exact ih
    simp only [join, language, repeats_join]
    rw [add_assoc]
    exact add_le_add first beyond

end LooseExpr

namespace Regex

variable {p q pattern : String} {r s : Regex}

theorem exists_compile_of_derives {e : LooseExpr} {text : List Char} {body : List Token} (h : Derives text body)
    (htext : pattern.toList = text) (htokens : e.tokens = body) : ∃ c, compile pattern = .ok c ∧ c.language = e.language := by
  subst htext htokens
  exact compile_of_derives h

theorem exists_compile_quantified (k : Quantifier) (hp : compile p = .ok r)
    (h : pattern.toList = '(' :: (p.toList ++ [')']) ++ [k.operator.char]) :
    ∃ c, compile pattern = .ok c ∧ c.language = Quantifier.language (some k) r.language := by
  obtain ⟨e, he, hr⟩ := exists_loose_of_compile hp
  have hk : Derives [k.operator.char] [.operator k.operator] := .operator (by cases k <;> decide) (by cases k <;> decide)
  obtain ⟨c, hc, hlanguage⟩ := exists_compile_of_derives (he.group.append hk) h (LooseExpr.tokens_ofAtom (.group e) [k])
  refine ⟨c, hc, ?_⟩
  rw [hlanguage, LooseExpr.language_ofAtom, hr]
  rfl

theorem derives_join {e f : LooseExpr} {text other : List Char} (h : Derives text e.tokens) (k : Derives other f.tokens) :
    Derives (text ++ '|' :: other) (e.join f).tokens := by
  have hbar : Derives [Operator.bar.char] [.operator .bar] := .operator (by decide) (by decide)
  rw [LooseExpr.tokens_join]
  exact h.append (hbar.append k)

theorem derives_group {e : LooseExpr} {text : List Char} (h : Derives text e.tokens) :
    Derives ('(' :: (text ++ [')'])) (LooseExpr.ofAtom (.group e) []).tokens := by
  rw [LooseExpr.tokens_ofAtom_nil]
  exact h.group

/-- Patterns in parentheses compose as expressions do, whatever stands in the parentheses. -/
theorem compile_grouped (hp : compile p = .ok r) (hq : compile q = .ok s) :
    (∃ c, compile ("(" ++ p ++ ")(" ++ q ++ ")") = .ok c ∧ c.language = r.language * s.language) ∧
    (∃ c, compile ("(" ++ p ++ ")|(" ++ q ++ ")") = .ok c ∧ c.language = r.language + s.language) ∧
    (∃ c, compile ("(" ++ p ++ ")*") = .ok c ∧ c.language = r.language∗) ∧
    (∃ c, compile ("(" ++ p ++ ")+") = .ok c ∧ c.language = r.language * r.language∗) ∧
    ∃ c, compile ("(" ++ p ++ ")?") = .ok c ∧ c.language = 1 + r.language := by
  obtain ⟨e, he, hr⟩ := exists_loose_of_compile hp
  obtain ⟨f, hf, hs⟩ := exists_loose_of_compile hq
  refine ⟨?_, ?_, exists_compile_quantified .star hp (by simp [Quantifier.operator, Operator.char]),
    exists_compile_quantified .plus hp (by simp [Quantifier.operator, Operator.char]),
    exists_compile_quantified .optional hp (by simp [Quantifier.operator, Operator.char])⟩
  · have htext : ("(" ++ p ++ ")(" ++ q ++ ")").toList =
        '(' :: (p.toList ++ [')']) ++ '(' :: (q.toList ++ [')']) := by simp
    let both : LooseExpr := .last [] (.cons (.group e) [] (.cons (.group f) [] .nil))
    have htokens : both.tokens = .operator .openParen :: (e.tokens ++ [.operator .closeParen]) ++
        .operator .openParen :: (f.tokens ++ [.operator .closeParen]) := by
      simp [both, LooseExpr.tokens, LooseBranch.tokens, LooseAtom.tokens, Quantifier.tokensOf]
    obtain ⟨c, hc, hlanguage⟩ := exists_compile_of_derives (he.group.append hf.group) htext htokens
    refine ⟨c, hc, ?_⟩
    rw [hlanguage, hr, hs]
    change e.language * (f.language * 1) = _
    rw [mul_one]
  · have htext : ("(" ++ p ++ ")|(" ++ q ++ ")").toList =
        '(' :: (p.toList ++ [')']) ++ '|' :: '(' :: (q.toList ++ [')']) := by simp
    obtain ⟨c, hc, hlanguage⟩ := exists_compile_of_derives (derives_join (derives_group he) (derives_group hf)) htext rfl
    refine ⟨c, hc, ?_⟩
    rw [hlanguage, LooseExpr.language_join _ rfl, LooseExpr.language_ofAtom, LooseExpr.language_ofAtom, hr, hs]
    rfl

/-- A star at the start of an alternative and a count that makes nothing are as good as any other inside. -/
theorem compile_grouped_leading_star : ∃ r s, compile "a|*b" = .ok r ∧ compile "c{0}" = .ok s ∧
    (∃ c, compile "(a|*b)(c{0})" = .ok c ∧ c.language = r.language * s.language) ∧
    (∃ c, compile "(a|*b)|(c{0})" = .ok c ∧ c.language = r.language + s.language) ∧
    (∃ c, compile "(a|*b)*" = .ok c ∧ c.language = r.language∗) ∧
    (∃ c, compile "(a|*b)+" = .ok c ∧ c.language = r.language * r.language∗) ∧
    ∃ c, compile "(a|*b)?" = .ok c ∧ c.language = 1 + r.language := by
  obtain ⟨r, hr⟩ : ∃ r, compile "a|*b" = .ok r := exists_compile_iff.2 ⟨_, rfl⟩
  obtain ⟨s, hs⟩ : ∃ s, compile "c{0}" = .ok s := exists_compile_iff.2 ⟨_, rfl⟩
  exact ⟨r, s, hr, hs, compile_grouped hr hs⟩

/-- A bar between two patterns makes alternatives of them, and nothing else is matched unless the second pattern starts with a
quantifier, which then has the bar to repeat. -/
theorem compile_bar (hp : compile p = .ok r) (hq : compile q = .ok s) : ∃ c, compile (p ++ "|" ++ q) = .ok c ∧
    r.language + s.language ≤ c.language ∧
      ((∀ k : Quantifier, q.toList.head? ≠ some k.operator.char) → c.language = r.language + s.language) := by
  obtain ⟨e, he, hr⟩ := exists_loose_of_compile hp
  obtain ⟨f, hf, hs⟩ := exists_loose_of_compile hq
  have htext : (p ++ "|" ++ q).toList = p.toList ++ '|' :: q.toList := by simp
  obtain ⟨c, hc, hlanguage⟩ := exists_compile_of_derives (derives_join he hf) htext rfl
  refine ⟨c, hc, ?_, fun hhead => ?_⟩
  · rw [hlanguage, hr, hs]
    exact e.language_add_le_language_join f
  · have hlead : f.lead = [] := by
      rw [← List.head?_eq_none_iff, Option.eq_none_iff_forall_ne_some]
      intro k hk
      refine hhead k (Pieces.head?_eq hf ?_ ?_)
      · cases k <;> decide
      · rw [List.head?_map, f.head?_tokens hk]
        rfl
    rw [hlanguage, LooseExpr.language_join e hlead, hr, hs]

theorem compile_bar_literal : ∃ r s c, compile "a|*b" = .ok r ∧ compile "c" = .ok s ∧ compile "a|*b|c" = .ok c ∧
    c.language = r.language + s.language := by
  obtain ⟨r, hr⟩ : ∃ r, compile "a|*b" = .ok r := exists_compile_iff.2 ⟨_, rfl⟩
  obtain ⟨s, hs⟩ : ∃ s, compile "c" = .ok s := exists_compile_iff.2 ⟨_, rfl⟩
  obtain ⟨c, hc, -, hlanguage⟩ := compile_bar hr hs
  exact ⟨r, s, c, hr, hs, hc, hlanguage fun k => by cases k <;> decide⟩

/-- With a star behind the bar both alternatives can be read, one after the other. -/
theorem accepts_bar_star : (compile "a").map (·.accepts "ab") = .ok false ∧
    (compile "*b").map (·.accepts "ab") = .ok false ∧ (compile "a|*b").map (·.accepts "ab") = .ok true := by
  refine ⟨?_, ?_, ?_⟩ <;> cbv

end Regex
end RegexSearch
