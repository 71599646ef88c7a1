import RegexSearch.Automaton.Basic
import RegexSearch.Proofs.PatternGrammar

/-! The spelling of an accepted pattern's tokens is a pattern with these tokens. What a piece stands for is read back from its
spelling whatever stands around it: an escape makes a literal of any character, so no literal is taken for the sign of a range,
a conjunction or a negation. -/
namespace RegexSearch
open Pattern

def spellElements (xs : List (Option Token)) : List Char := xs.flatMap fun x => x.elim ['&', '&'] Token.spell

theorem spellElements_append (xs ys : List (Option Token)) :
    spellElements (xs ++ ys) = spellElements xs ++ spellElements ys := List.flatMap_append

theorem spellElements_singleton (t : Token) : spellElements [some t] = t.spell := List.append_nil _

theorem spellElements_map (ts : List Token) : spellElements (ts.map some) = Token.spellAll ts := by
  rw [spellElements, List.flatMap_map, Token.spellAll_eq_flatMap]
  rfl

theorem spellElements_bracketed (left right : Operator) (xs : List (Option Token)) :
    spellElements (some (.operator left) :: (xs ++ [some (.operator right)])) =
      left.char :: (spellElements xs ++ [right.char]) := by
  simp [spellElements, Token.spell]

theorem Token.spell_meet (t : Token) (more : List Token) : (t.meet more).spell = spellElements (t.chained more) := by
  induction more generalizing t with
  | nil => exact (spellElements_singleton t).symm
  | cons u more ih =>
    have key : t.meet (u :: more) = (both t u).meet more := rfl
    rw [key, ih]
    simp [spellElements, chained, spell]

/-- The conjunctions that have been folded are spelled where they stood. -/
theorem Chains.spellAll_members {xs : List (Option Token)} {chains : List (Token × List Token)} (h : Chains xs chains) :
    Token.spellAll (members chains) = spellElements xs := by
  induction h with
  | nil => rfl
  | cons t more h ih =>
    rw [members, List.map_cons, Token.spellAll, Token.spell_meet, spellElements_append, ← ih]
    rfl

namespace Pattern

theorem Literal.spelled (inSet first : Bool) (c : Char) (rest : List Char) :
    Literal inSet first (spellLiteral c ++ rest) c rest := by
  unfold spellLiteral
  split_ifs with h
  · exact .escaped
  · exact .plain h

/-- Elements that their spelling is read as, at the start of a set or not and whatever stands behind it. -/
def ReadsBack (inSet : Bool) (xs : List (Option Token)) : Prop :=
  ∀ (first : Bool) (rest : List Char), Pieces inSet first (spellElements xs ++ rest) xs rest

namespace ReadsBack

variable {inSet : Bool} {xs ys : List (Option Token)} {unit : List Token}

theorem nil : ReadsBack inSet [] := fun _ _ => .nil

theorem append (h : ReadsBack inSet xs) (k : ReadsBack inSet ys) : ReadsBack inSet (xs ++ ys) := by
  intro first rest
  rw [spellElements_append, List.append_assoc]
  exact (h first (spellElements ys ++ rest)).append (k _ rest)

theorem of_piece (h : ∀ first rest, Piece inSet first (spellElements xs ++ rest) xs rest) : ReadsBack inSet xs := by
  intro first rest
  have key : Pieces inSet first (spellElements xs ++ rest) (xs ++ []) rest := .cons (h first rest) .nil
  rwa [List.append_nil] at key

theorem of_token {t : Token} (h : ∀ first rest, Piece inSet first (t.spell ++ rest) [some t] rest) :
    ReadsBack inSet [some t] := by
  apply of_piece
  rw [spellElements_singleton]
  exact h

theorem operator {op : Operator} (hopen : op ≠ .openParen) (hclose : op ≠ .closeParen) :
    ReadsBack inSet [some (.operator op)] := of_token fun _ _ => .operator hopen hclose

theorem range {lo hi : Char} (h : lo < hi) : ReadsBack inSet [some (.range lo hi)] := by
  refine of_token fun first rest => ?_
  rw [Token.spell, List.append_assoc]
  exact .range (.spelled _ _ lo _) (.spelled _ _ hi rest) h

theorem group (h : ReadsBack inSet xs) :
    ReadsBack inSet (some (.operator .openParen) :: (xs ++ [some (.operator .closeParen)])) := by
  refine of_piece fun first rest => ?_
  rw [spellElements_bracketed, List.cons_append, List.append_assoc]
  exact .group (h false (')' :: rest))

theorem set {chains : List (Token × List Token)} (h : ReadsBack true xs) (k : Chains xs chains) (negated : Bool) :
    ReadsBack inSet [some (.set (Chains.members chains) negated)] := by
  refine of_token fun first rest => ?_
  have key : (Token.set (Chains.members chains) negated).spell ++ rest =
      '[' :: ((if negated then ['^'] else []) ++ (spellElements xs ++ ']' :: rest)) := by
    rw [Token.spell, k.spellAll_members]
    simp
  rw [key]
  cases negated with
  | false => exact .set (h true (']' :: rest)) k
  | true => exact .negatedSet (h false (']' :: rest)) k

theorem expansion? {count : Repeat} {inside : List Token} (h : ReadsBack false (unit.map some))
    (k : count.expansion? unit = some inside) : ReadsBack false (inside.map some) := by
  refine Repeat.expansion?_induction (motive := fun ts => ReadsBack false (ts.map some)) nil ?_ operator h k
  intro xs ys hxs hys
  rw [List.map_append]
  exact hxs.append hys

end ReadsBack

-- A count is gone from what its piece stands for, so the spelling has the copies of the unit instead, each read like the first.
mutual

theorem Piece.readsBack {inSet first : Bool} {text rest : List Char} {xs : List (Option Token)} :
    Piece inSet first text xs rest → ReadsBack inSet xs
  | .literal _ => .of_token fun _ _ => .literal (.spelled _ _ _ _)
  | .wildcard => .of_token fun _ _ => .wildcard
  | .operator hopen hclose => .operator hopen hclose
  | .range _ _ lt => .range lt
  | .group h => h.readsBack.group
  | .set h k => h.readsBack.set k false
  | .negatedSet h k => h.readsBack.set k true
  | .conjunction => .of_piece fun _ _ => .conjunction
  | .counted h _ _ _ expansion => by
    obtain ⟨inside, hinside, rfl⟩ := Option.map_eq_some_iff.1 expansion
    rw [List.map_cons, List.map_append]
    exact (h.readsBack.expansion? hinside).group

theorem Pieces.readsBack {inSet first : Bool} {text rest : List Char} {xs : List (Option Token)} :
    Pieces inSet first text xs rest → ReadsBack inSet xs
  | .nil => .nil
  | .cons h k => h.readsBack.append k.readsBack

end

variable {p q : List Char} {ts : List Token}

theorem tokens_spelled (h : Pattern.tokens p = .ok ts) :
    IsGroup (Token.spellAll ts) ∧ Pattern.tokens (Token.spellAll ts) = .ok ts := by
  obtain ⟨inside, text, rest, rfl, hpieces⟩ := exists_pieces_of_tokens h
  have hinside := hpieces.readsBack
  have hspell : Token.spellAll (.operator .openParen :: (inside ++ [.operator .closeParen])) =
      '(' :: (spellElements (inside.map some) ++ [')']) := by
    rw [← spellElements_map, List.map_cons, List.map_append]
    exact spellElements_bracketed .openParen .closeParen _
  have hinner : Pieces false false (spellElements (inside.map some) ++ [')']) (inside.map some) [')'] := hinside false [')']
  have hgroup : IsGroup ('(' :: (spellElements (inside.map some) ++ [')'])) := ⟨_, _, rfl, hinner⟩
  have hwhole : Derives ('(' :: (spellElements (inside.map some) ++ [')']))
      (.operator .openParen :: (inside ++ [.operator .closeParen])) := .of_group hinner
  rw [hspell]
  exact ⟨hgroup, tokens_of_isGroup hwhole hgroup⟩

/-- Spelled out, the tokens of an accepted pattern are a pattern in one pair of parentheses that has the same tokens and the same
automaton, and no other pattern has tokens that are spelled so. -/
theorem tokens_spellAll (h : Pattern.tokens p = .ok ts) :
    Pattern.tokens (Token.spellAll ts) = .ok ts ∧ IsGroup (Token.spellAll ts) ∧
      Automaton.ofPattern (Token.spellAll ts) = Automaton.ofPattern p ∧
      ∀ q us, Pattern.tokens q = .ok us → Token.spellAll us = Token.spellAll ts → us = ts := by
  obtain ⟨hgroup, htokens⟩ := tokens_spelled h
  refine ⟨htokens, hgroup, ?_, fun q us hus hspell => ?_⟩
  · rw [Automaton.ofPattern, Automaton.ofPattern, htokens, h]
  · obtain ⟨-, hback⟩ := tokens_spelled hus
    rw [hspell, htokens] at hback
    exact (Except.ok.inj hback).symm

/-- The count is gone from the spelling, and the set is spelled as it was written. -/
theorem tokens_spellAll_counted_set : ∃ ts, Pattern.tokens "a{0,1}[^\\-&&b-d]".toList = .ok ts ∧
    Token.spellAll ts = "((|a)[^\\-&&b-d])".toList ∧ Pattern.tokens (Token.spellAll ts) = .ok ts := by
  have h : Pattern.tokens "a{0,1}[^\\-&&b-d]".toList = .ok [.operator .openParen, .operator .openParen, .operator .bar,
      .literal 'a', .operator .closeParen, .set [.both (.literal '-') (.range 'b' 'd')] true, .operator .closeParen] := rfl
  obtain ⟨htokens, -⟩ := tokens_spellAll h
  exact ⟨_, h, rfl, htokens⟩

end Pattern
end RegexSearch
