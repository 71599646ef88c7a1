import RegexSearch.Proofs.TokenSequences

/-! Quantifiers without effect: those behind another quantifier, and those behind the parenthesis of a group. One of them is left
out of the tokens of an expression by leaving it out of the expression, and its language stays. -/
namespace RegexSearch
open Token Automaton

theorem Quantifier.operator_ne_openParen (q : Quantifier) : q.operator ≠ .openParen := by cases q <;> decide

theorem Quantifier.operator_ne_closeParen (q : Quantifier) : q.operator ≠ .closeParen := by cases q <;> decide

theorem Quantifier.operator_ne_bar (q : Quantifier) : q.operator ≠ .bar := by cases q <;> decide

namespace Token

/-- The tokens behind which a quantifier has no effect. -/
inductive Idles : Token → Prop
  | openParen : Idles (.operator .openParen)
  | quantifier (q : Quantifier) : Idles (.operator q.operator)

/-- The second sequence is the first one without one quantifier that has no effect. -/
inductive Drops : List Token → List Token → Prop
  | here {t : Token} {q : Quantifier} {rest : List Token} (h : t.Idles) : Drops (t :: .operator q.operator :: rest) (t :: rest)
  | later {t : Token} {ts us : List Token} (h : Drops ts us) : Drops (t :: ts) (t :: us)

/-- A sequence that does not start with a quantifier. -/
def Settled (ts : List Token) : Prop := ∀ q : Quantifier, ts.head? ≠ some (.operator q.operator)

variable {t : Token} {ts us xs ys : List Token} {q : Quantifier}

theorem Idles.operator?_ne_none (h : t.Idles) : t.operator? ≠ none := by
  cases h <;> exact Option.some_ne_none _

theorem not_idles {op : Operator} (hopen : op ≠ .openParen) (h : ∀ q : Quantifier, q.operator ≠ op) :
    ¬ Idles (.operator op) := by
  generalize ht : Token.operator op = t
  intro hidles
  cases hidles with
  | openParen => exact hopen (Token.operator.inj ht)
  | quantifier q => exact h q (Token.operator.inj ht).symm

theorem drops_cons_iff : Drops (t :: ts) us ↔
    (∃ q : Quantifier, ∃ rest, t.Idles ∧ ts = .operator q.operator :: rest ∧ us = t :: rest) ∨
      ∃ vs, Drops ts vs ∧ us = t :: vs := by
  constructor
  · intro h
    cases h with
    | here h => exact .inl ⟨_, _, h, rfl, rfl⟩
    | later h => exact .inr ⟨_, h, rfl⟩
  · rintro (⟨q, rest, h, rfl, rfl⟩ | ⟨vs, h, rfl⟩)
    · exact .here h
    · exact .later h

theorem not_drops_nil : ¬ Drops [] us := nofun

theorem settled_operator {op : Operator} (h : ∀ q : Quantifier, q.operator ≠ op) (ts : List Token) :
    Settled (.operator op :: ts) := by
  intro q hq
  exact h q (Token.operator.inj (Option.some.inj hq)).symm

theorem Settled.append (h : Settled ts) (k : Settled us) : Settled (ts ++ us) := by
  cases ts with
  | nil => exact k
  | cons => exact h

/-- A quantifier is left out of one part or of the other if none stands at the seam. -/
theorem Drops.append (h : Drops (xs ++ ys) us) (seam : (∃ t ∈ xs.getLast?, t.Idles) → Settled ys) :
    (∃ vs, Drops xs vs ∧ us = vs ++ ys) ∨ ∃ vs, Drops ys vs ∧ us = xs ++ vs := by
  induction xs generalizing us with
  | nil => exact .inr ⟨us, h, rfl⟩
  | cons t xs ih =>
    obtain ⟨q, rest, hidles, hrest, rfl⟩ | ⟨vs, hvs, rfl⟩ := drops_cons_iff.1 h
    · cases xs with
      | nil =>
        have hhead : ys.head? = some (.operator q.operator) := congrArg List.head? hrest
        exact absurd hhead (seam ⟨t, rfl, hidles⟩ q)
      | cons u xs =>
        obtain ⟨rfl, rfl⟩ := List.cons.inj hrest
        exact .inl ⟨t :: xs, .here hidles, rfl⟩
    · -- The seam is behind the last token of the first part, so it stays where it is when that part loses its first token.
      have hseam : (∃ u ∈ xs.getLast?, u.Idles) → Settled ys := by
        rintro ⟨u, hu, hidles⟩
        refine seam ⟨u, ?_, hidles⟩
        rw [List.getLast?_cons, Option.mem_def.1 hu]
        rfl
      obtain ⟨ws, hws, rfl⟩ | ⟨ws, hws, rfl⟩ := ih hvs hseam
      · exact .inl ⟨t :: ws, .later hws, rfl⟩
      · exact .inr ⟨ws, hws, rfl⟩

theorem drops_eraseIdx {i : Nat} (h : ts[i]? = some t) (hidles : t.Idles)
    (k : ts[i + 1]? = some (.operator q.operator)) : Drops ts (ts.eraseIdx (i + 1)) := by
  induction i generalizing ts with
  | zero =>
    match ts with
    | [] | [_] => contradiction
    | u :: v :: rest =>
      obtain rfl := Option.some.inj h
      obtain rfl := Option.some.inj k
      exact .here hidles
  | succ i ih =>
    match ts with
    | [] => contradiction
    | u :: rest => exact .later (ih h k)

end Token

theorem LooseAtom.settled_tokens (a : LooseAtom) : Settled a.tokens := by
  intro q h
  cases a with
  | token t ht =>
    obtain rfl : t = .operator q.operator := Option.some.inj h
    contradiction
  | group e => exact settled_operator Quantifier.operator_ne_openParen _ q h

theorem LooseAtom.not_idles_getLast (a : LooseAtom) : ¬ ∃ t ∈ a.tokens.getLast?, t.Idles := by
  rintro ⟨t, ht, hidles⟩
  cases a with
  | token u hu =>
    obtain rfl : u = t := Option.some.inj ht
    exact hidles.operator?_ne_none hu
  | group e =>
    have hclose : (LooseAtom.group e).tokens.getLast? = some (.operator .closeParen) := by
      rw [tokens, ← List.cons_append, List.getLast?_concat]
    rw [hclose] at ht
    obtain rfl := Option.some.inj ht
    exact not_idles (by decide) Quantifier.operator_ne_closeParen hidles

theorem LooseBranch.settled_tokens (b : LooseBranch) : Settled b.tokens := by
  cases b with
  | nil => exact nofun
  | cons a qs rest =>
    intro q
    rw [tokens, List.head?_append_of_ne_nil _ (List.ne_nil_of_length_pos a.length_tokens_pos)]
    exact a.settled_tokens q

theorem LooseExpr.settled_bar (e : LooseExpr) : Settled (.operator .bar :: e.tokens) :=
  settled_operator Quantifier.operator_ne_bar e.tokens

/-- A quantifier at the start of a group can be left out. -/
theorem LooseExpr.exists_of_lead (e : LooseExpr) {q : Quantifier} {ts rest : List Token} (hts : Settled ts)
    (h : e.tokens ++ ts = .operator q.operator :: rest) :
    ∃ f : LooseExpr, f.tokens ++ ts = rest ∧ f.language = e.language := by
  have hhead : (e.tokens ++ ts).head? = some (.operator q.operator) := congrArg List.head? h
  cases e with
  | last lead b =>
    cases lead with
    | nil => exact absurd hhead (b.settled_tokens.append hts q)
    | cons r lead => exact ⟨.last lead b, (List.cons.inj h).2, rfl⟩
  | alt lead b e =>
    cases lead with
    | nil => exact absurd hhead ((b.settled_tokens.append e.settled_bar).append hts q)
    | cons r lead => exact ⟨.alt lead b e, (List.cons.inj h).2, rfl⟩

/-- Two expressions that read the same texts, wherever they stand. -/
structure LooseExpr.Alike (e f : LooseExpr) : Prop where
  lead : e.lead.head? = f.lead.head?
  first : e.first = f.first
  language : e.language = f.language

theorem LooseExpr.Alike.skips {e f : LooseExpr} (h : e.Alike f) : e.skips = f.skips := by
  rw [LooseExpr.skips, h.lead, LooseExpr.skips]

theorem LooseExpr.Alike.repeats {e f : LooseExpr} (h : e.Alike f) : e.repeats = f.repeats := by
  rw [LooseExpr.repeats, h.lead, LooseExpr.repeats]

namespace Quantifier

/-- The first of several quantifiers stays. -/
theorem exists_of_drops {qs : List Quantifier} {us : List Token} (h : Drops (tokensOf qs) us) :
    ∃ rs, tokensOf rs = us ∧ rs.head? = qs.head? := by
  induction qs generalizing us with
  | nil => exact absurd h not_drops_nil
  | cons q qs ih =>
    obtain ⟨r, rest, -, hrest, rfl⟩ | ⟨vs, hvs, rfl⟩ := drops_cons_iff.1 h
    · cases qs with
      | nil => contradiction
      | cons r qs => exact ⟨q :: qs, by rw [← (List.cons.inj hrest).2]; rfl, rfl⟩
    · obtain ⟨rs, rfl, -⟩ := ih hvs
      exact ⟨q :: rs, rfl, rfl⟩

end Quantifier

theorem LooseBranch.exists_of_drops_lead {lead : List Quantifier} {b : LooseBranch} {us : List Token}
    (h : Drops (LooseExpr.last lead b).tokens us)
    (branch : ∀ {vs : List Token}, Drops b.tokens vs → ∃ c : LooseBranch, c.tokens = vs ∧ c.language = b.language) :
    ∃ (rs : List Quantifier) (c : LooseBranch), (LooseExpr.last rs c).tokens = us ∧ rs.head? = lead.head? ∧
      c.language = b.language := by
  obtain ⟨vs, hvs, rfl⟩ | ⟨vs, hvs, rfl⟩ := h.append fun _ => b.settled_tokens
  · obtain ⟨rs, rfl, hhead⟩ := Quantifier.exists_of_drops hvs
    exact ⟨rs, b, rfl, hhead, rfl⟩
  · obtain ⟨c, rfl, hlanguage⟩ := branch hvs
    exact ⟨lead, c, rfl, rfl, hlanguage⟩

mutual

theorem LooseExpr.exists_of_drops (e : LooseExpr) {us : List Token} (h : Drops e.tokens us) :
    ∃ f : LooseExpr, f.tokens = us ∧ f.Alike e := by
  cases e with
  | last lead b =>
    obtain ⟨rs, c, rfl, hhead, hlanguage⟩ := LooseBranch.exists_of_drops_lead h b.exists_of_drops
    exact ⟨.last rs c, rfl, hhead, hlanguage, hlanguage⟩
  | alt lead b e =>
    obtain ⟨vs, hvs, rfl⟩ | ⟨vs, hvs, rfl⟩ := h.append fun _ => b.settled_tokens.append e.settled_bar
    · obtain ⟨rs, rfl, hhead⟩ := Quantifier.exists_of_drops hvs
      exact ⟨.alt rs b e, rfl, hhead, rfl, rfl⟩
    · obtain ⟨ws, hws, rfl⟩ | ⟨ws, hws, rfl⟩ := hvs.append fun _ => e.settled_bar
      · obtain ⟨c, rfl, hlanguage⟩ := b.exists_of_drops hws
        refine ⟨.alt lead c e, rfl, rfl, ?_, ?_⟩
        · rw [LooseExpr.first, hlanguage, LooseExpr.first]
        · rw [LooseExpr.language, hlanguage, LooseExpr.language]
      · obtain ⟨q, rest, hidles, -⟩ | ⟨xs, hxs, rfl⟩ := drops_cons_iff.1 hws
        · exact absurd hidles (not_idles (by decide) Quantifier.operator_ne_bar)
        · obtain ⟨f, rfl, hf⟩ := e.exists_of_drops hxs
          refine ⟨.alt lead b f, rfl, rfl, ?_, ?_⟩
          · rw [LooseExpr.first, hf.skips, hf.first, LooseExpr.first]
          · rw [LooseExpr.language, hf.skips, hf.first, hf.repeats, hf.language, LooseExpr.language]

theorem LooseBranch.exists_of_drops (b : LooseBranch) {us : List Token} (h : Drops b.tokens us) :
    ∃ c : LooseBranch, c.tokens = us ∧ c.language = b.language := by
  cases b with
  | nil => exact absurd h not_drops_nil
  | cons a qs rest =>
    obtain ⟨vs, hvs, rfl⟩ | ⟨vs, hvs, rfl⟩ := h.append fun hlast => absurd hlast a.not_idles_getLast
    · obtain ⟨x, rfl, hlanguage⟩ := a.exists_of_drops hvs
      exact ⟨.cons x qs rest, rfl, by rw [LooseBranch.language, hlanguage, LooseBranch.language]⟩
    · obtain ⟨ws, hws, rfl⟩ | ⟨ws, hws, rfl⟩ := hvs.append fun _ => rest.settled_tokens
      · obtain ⟨rs, rfl, hhead⟩ := Quantifier.exists_of_drops hws
        exact ⟨.cons a rs rest, rfl, by rw [LooseBranch.language, hhead, LooseBranch.language]⟩
      · obtain ⟨c, rfl, hlanguage⟩ := rest.exists_of_drops hws
        exact ⟨.cons a qs c, rfl, by rw [LooseBranch.language, hlanguage, LooseBranch.language]⟩

theorem LooseAtom.exists_of_drops (a : LooseAtom) {us : List Token} (h : Drops a.tokens us) :
    ∃ x : LooseAtom, x.tokens = us ∧ x.language = a.language := by
  cases a with
  | token t ht =>
    obtain ⟨q, rest, hidles, -⟩ | ⟨vs, hvs, -⟩ := drops_cons_iff.1 h
    · exact absurd ht hidles.operator?_ne_none
    · exact absurd hvs not_drops_nil
  | group e =>
    have closing : Settled [.operator .closeParen] := settled_operator Quantifier.operator_ne_closeParen []
    obtain ⟨q, rest, -, hrest, rfl⟩ | ⟨vs, hvs, rfl⟩ := drops_cons_iff.1 h
    · obtain ⟨f, rfl, hlanguage⟩ := e.exists_of_lead closing hrest
      exact ⟨.group f, rfl, hlanguage⟩
    · obtain ⟨ws, hws, rfl⟩ | ⟨ws, hws, -⟩ := hvs.append fun _ => closing
      · obtain ⟨f, rfl, hf⟩ := e.exists_of_drops hws
        exact ⟨.group f, rfl, hf.language⟩
      · obtain ⟨q, rest, -, hrest, -⟩ | ⟨xs, hxs, -⟩ := drops_cons_iff.1 hws
        · contradiction
        · exact absurd hxs not_drops_nil

end

theorem exists_ofTokens_of_drops {tokens us : List Token} {a : Automaton} (h : ofTokens tokens = .ok a)
    (k : Drops tokens us) : ∃ b, ofTokens us = .ok b ∧ ∀ text, b.accepts text = a.accepts text := by
  obtain ⟨lead, b, rfl, haccepts⟩ := exists_branch_of_ofTokens h
  obtain ⟨rs, c, rfl, -, hlanguage⟩ := LooseBranch.exists_of_drops_lead k b.exists_of_drops
  obtain ⟨d, hd, hsame⟩ := c.exists_automaton rs
  refine ⟨d, hd, fun text => ?_⟩
  rw [Bool.eq_iff_iff, hsame, haccepts, hlanguage]

namespace Automaton

/-- A quantifier behind another one, or behind the parenthesis of a group, may be left out: the same texts are accepted. -/
theorem accepts_eraseIdx {tokens : List Token} {a : Automaton} {k : Nat} (h : ofTokens tokens = .ok a) (pos : 0 < k)
    (hk : ∃ q : Quantifier, tokens[k]? = some (.operator q.operator))
    (before : tokens[k - 1]? = some (.operator .openParen) ∨
      ∃ q : Quantifier, tokens[k - 1]? = some (.operator q.operator)) :
    ∃ b, ofTokens (tokens.eraseIdx k) = .ok b ∧ ∀ text, b.accepts text = a.accepts text := by
  obtain ⟨i, rfl⟩ := Nat.exists_eq_succ_of_ne_zero (Nat.ne_of_gt pos)
  obtain ⟨q, hq⟩ := hk
  obtain ⟨t, ht, hidles⟩ : ∃ t, tokens[i]? = some t ∧ t.Idles := by
    obtain ht | ⟨p, ht⟩ := before
    · exact ⟨_, ht, .openParen⟩
    · exact ⟨_, ht, .quantifier p⟩
  exact exists_ofTokens_of_drops h (drops_eraseIdx ht hidles hq)

/-- Behind a plus a star has no effect. -/
theorem accepts_eraseIdx_plus : ∃ a b : Automaton,
    ofTokens [.operator .openParen, .literal 'a', .operator .plus, .operator .star, .operator .closeParen] = .ok a ∧
      ofTokens [.operator .openParen, .literal 'a', .operator .plus, .operator .closeParen] = .ok b ∧
        ∀ text, b.accepts text = a.accepts text := by
  obtain ⟨a, ha⟩ : ∃ a, ofTokens [.operator .openParen, .literal 'a', .operator .plus, .operator .star,
      .operator .closeParen] = .ok a := ⟨_, rfl⟩
  obtain ⟨b, hb, haccepts⟩ := accepts_eraseIdx (k := 3) ha (by decide) ⟨.star, rfl⟩ (.inr ⟨.plus, rfl⟩)
  exact ⟨a, b, ha, hb, haccepts⟩

end Automaton

end RegexSearch
