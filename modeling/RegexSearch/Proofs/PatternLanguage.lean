import RegexSearch.Proofs.Concatenation
import RegexSearch.Proofs.LooseLanguage
import RegexSearch.Proofs.NestedTokens
import RegexSearch.Proofs.PatternGrammar
import RegexSearch.Regex.Language

/-! Every pattern that the grammar derives compiles, and what it matches is the language of the expression that its tokens
spell, whether the pattern is a group by itself or has been put in one. -/
namespace RegexSearch
open Pattern

variable {pattern : String} {r : Regex}

theorem Pattern.Derives.exists_loose {text : List Char} {body : List Token} (h : Derives text body) :
    ∃ e : LooseExpr, e.tokens = body :=
  exists_loose_of_balanced (h.balanced (Slot.map_token?_eq_some.2 rfl)) rfl

namespace Regex

theorem compile_of_tokens {tokens : List Token} {a : Automaton} (h : Pattern.tokens pattern.toList = .ok tokens)
    (k : Automaton.ofTokens tokens = .ok a) : compile pattern = .ok ⟨pattern, a⟩ := by
  have key : Automaton.ofPattern pattern.toList = .ok a := bind_eq_ok_iff.2 ⟨tokens, h, k⟩
  rw [compile, key]

theorem tokens_of_compile (h : compile pattern = .ok r) :
    ∃ tokens, Pattern.tokens pattern.toList = .ok tokens ∧ Automaton.ofTokens tokens = .ok r.automaton := by
  unfold compile at h
  split at h
  · next a ha =>
    obtain rfl := Except.ok.inj h
    exact bind_eq_ok_iff.1 ha
  · contradiction

theorem language_eq {a : Automaton} {l : Language Char} (h : ∀ text, a.accepts text = true ↔ text ∈ l) :
    language ⟨pattern, a⟩ = l := by
  ext text
  rw [mem_language, h]

-- A pattern that is a group gets no other one around it. Its tokens are then read in two ways, with the group as an atom and with
-- what is in it as the expression, and the automaton that they would have inside a group tells that both read the same texts.
theorem compile_of_derives {e : LooseExpr} (h : Derives pattern.toList e.tokens) :
    ∃ r, compile pattern = .ok r ∧ r.language = e.language := by
  obtain ⟨a, ha, haccepts⟩ := e.exists_automaton
  by_cases k : IsGroup pattern.toList
  · obtain ⟨inner, inside, -, hinner, hwhole⟩ := k.exists_inside
    have htokens := h.unique hwhole
    obtain ⟨f, rfl⟩ := exists_loose_of_balanced (hinner.balanced (Slot.map_token?_eq_some.2 rfl)) rfl
    obtain ⟨b, hb, hinside⟩ := f.exists_automaton
    obtain ⟨c, hc, hgroup⟩ := (LooseExpr.ofAtom (.group f) []).exists_automaton
    have same : (LooseExpr.ofAtom (.group f) []).tokens = e.tokens := by
      rw [htokens, LooseExpr.tokens_ofAtom_nil]
      rfl
    rw [same, ha] at hc
    obtain rfl := Except.ok.inj hc
    refine ⟨_, compile_of_tokens (tokens_of_isGroup h k) (htokens ▸ hb), language_eq fun text => ?_⟩
    rw [hinside, ← haccepts, hgroup, LooseExpr.language_ofAtom]
    rfl
  · exact ⟨_, compile_of_tokens (tokens_of_not_isGroup h k) ha, language_eq haccepts⟩

theorem compile_of_derives_atom {x : LooseAtom} (h : Derives pattern.toList x.tokens) :
    ∃ r, compile pattern = .ok r ∧ r.language = x.language := by
  rw [← LooseExpr.tokens_ofAtom_nil] at h
  obtain ⟨r, hr, hlanguage⟩ := compile_of_derives h
  exact ⟨r, hr, hlanguage.trans (LooseExpr.language_ofAtom x [])⟩

theorem exists_loose_of_compile (h : compile pattern = .ok r) :
    ∃ e : LooseExpr, Derives pattern.toList e.tokens ∧ r.language = e.language := by
  obtain ⟨tokens, htokens, -⟩ := tokens_of_compile h
  obtain ⟨body, hbody⟩ := exists_derives_of_tokens htokens
  obtain ⟨e, rfl⟩ := hbody.exists_loose
  obtain ⟨s, hs, hlanguage⟩ := compile_of_derives hbody
  obtain rfl := Except.ok.inj (h.symm.trans hs)
  exact ⟨e, hbody, hlanguage⟩

/-- A pattern compiles if it can be read: its tokens always have an automaton. -/
theorem exists_compile_iff : (∃ r, compile pattern = .ok r) ↔ ∃ body, Pattern.body pattern.toList = .ok body := by
  constructor
  · rintro ⟨r, hr⟩
    obtain ⟨e, he, -⟩ := exists_loose_of_compile hr
    exact ⟨e.tokens, body_eq_ok_iff.2 he⟩
  · rintro ⟨body, hbody⟩
    obtain ⟨e, rfl⟩ := (body_eq_ok_iff.1 hbody).exists_loose
    obtain ⟨r, hr, -⟩ := compile_of_derives (body_eq_ok_iff.1 hbody)
    exact ⟨r, hr⟩

end Regex
end RegexSearch
