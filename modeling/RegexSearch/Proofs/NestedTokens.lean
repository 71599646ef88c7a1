import RegexSearch.Expr.Loose
import RegexSearch.Proofs.Units

/-! Tokens whose groups nest spell an expression. -/
namespace RegexSearch
open Slot

/-- A branch goes on with the quantifiers and the branch behind it: the quantifiers go to its last atom, or to its start. -/
theorem LooseBranch.exists_append (b : LooseBranch) (qs rs : List Quantifier) (c : LooseBranch) :
    ∃ (ss : List Quantifier) (d : LooseBranch),
      Quantifier.tokensOf ss ++ d.tokens =
        Quantifier.tokensOf qs ++ b.tokens ++ (Quantifier.tokensOf rs ++ c.tokens) := by
  cases b with
  | nil => exact ⟨qs ++ rs, c, by simp [Quantifier.tokensOf, tokens]⟩
  | cons a ts rest =>
    obtain ⟨ss, d, h⟩ := rest.exists_append ts rs c
    exact ⟨qs, .cons a ss d, by simp [tokens, h]⟩

theorem LooseExpr.exists_append (e f : LooseExpr) : ∃ g : LooseExpr, g.tokens = e.tokens ++ f.tokens := by
  cases e with
  | last qs b =>
    cases f with
    | last rs c =>
      obtain ⟨ss, d, h⟩ := b.exists_append qs rs c
      exact ⟨.last ss d, by rw [tokens, tokens, tokens, h]⟩
    | alt rs c f =>
      obtain ⟨ss, d, h⟩ := b.exists_append qs rs c
      refine ⟨.alt ss d f, ?_⟩
      rw [tokens, tokens, tokens, ← List.append_assoc, h]
      simp only [List.append_assoc]
  | alt qs b e =>
    obtain ⟨g, h⟩ := e.exists_append f
    exact ⟨.alt qs b g, by simp [tokens, h]⟩

theorem exists_loose_token {t : Token} (hopen : t ≠ .operator .openParen) (hclose : t ≠ .operator .closeParen) :
    ∃ e : LooseExpr, e.tokens = [t] := by
  cases hop : t.operator? with
  | none => exact ⟨.ofAtom (.token t hop) [], LooseExpr.tokens_ofAtom_nil (.token t hop)⟩
  | some op =>
    obtain rfl : t = .operator op := by cases t <;> simp_all [Token.operator?]
    cases op with
    | openParen | closeParen => contradiction
    | bar => exact ⟨.alt [] .nil (.last [] .nil), rfl⟩
    | star => exact ⟨.last [.star] .nil, rfl⟩
    | plus => exact ⟨.last [.plus] .nil, rfl⟩
    | optional => exact ⟨.last [.optional] .nil, rfl⟩

theorem Slot.map_token_eq_bracketed {ts : List Token} {t u : Token} {inside : List Slot}
    (h : ts.map token = token t :: (inside ++ [token u])) :
    ∃ mid : List Token, ts = t :: (mid ++ [u]) ∧ mid.map token = inside := by
  obtain ⟨left, more, rfl, hleft, hmore⟩ := List.map_eq_cons_iff.1 h
  obtain ⟨mid, last, rfl, hmid, hlast⟩ := List.map_eq_append_iff.1 hmore
  obtain ⟨right, rfl, hright⟩ := List.map_eq_singleton_iff.1 hlast
  obtain rfl := Slot.token.inj hleft
  obtain rfl := Slot.token.inj hright
  exact ⟨mid, rfl, hmid⟩

theorem exists_loose_of_balanced {slots : List Slot} (h : Balanced slots) {ts : List Token}
    (hslots : slots = ts.map Slot.token) : ∃ e : LooseExpr, e.tokens = ts := by
  induction h generalizing ts with
  | nil =>
    obtain rfl := List.map_eq_nil_iff.1 hslots.symm
    exact ⟨.last [] .nil, rfl⟩
  | atom hopen hclose =>
    obtain ⟨t, rfl, rfl⟩ := List.map_eq_singleton_iff.1 hslots.symm
    exact exists_loose_token (by simpa using hopen) (by simpa using hclose)
  | append h k ih ik =>
    obtain ⟨left, right, rfl, rfl, rfl⟩ := List.map_eq_append_iff.1 hslots.symm
    obtain ⟨e, rfl⟩ := ih rfl
    obtain ⟨f, rfl⟩ := ik rfl
    exact e.exists_append f
  | group h ih =>
    obtain ⟨mid, rfl, hmid⟩ := map_token_eq_bracketed hslots.symm
    obtain ⟨e, rfl⟩ := ih hmid.symm
    exact ⟨.ofAtom (.group e) [], LooseExpr.tokens_ofAtom_nil (.group e)⟩

/-- What can be repeated is an atom. -/
theorem exists_loose_of_formsUnit {unit : List Token} (h : FormsUnit (unit.map Slot.token)) :
    ∃ a : LooseAtom, a.tokens = unit := by
  generalize hslots : unit.map Slot.token = slots at h
  cases h with
  | single h =>
    obtain ⟨t, rfl, ht⟩ := List.map_eq_singleton_iff.1 hslots
    obtain rfl := Slot.token.inj ht
    exact ⟨.token t h, rfl⟩
  | group h =>
    obtain ⟨mid, rfl, hmid⟩ := map_token_eq_bracketed hslots
    obtain ⟨e, rfl⟩ := exists_loose_of_balanced h hmid.symm
    exact ⟨.group e, rfl⟩

end RegexSearch
