import RegexSearch.Proofs.PatternLanguage
import RegexSearch.Proofs.ReadingFaults
import RegexSearch.Token.Written

/-! What is accepted as a pattern can be built: its tokens are one group whose parentheses match, so no pattern has a grouping
fault. -/
namespace RegexSearch
open Slot Pattern Token

theorem Token.Member.meet {t : Token} {more : List Token} (h : t.Member) (k : ∀ u ∈ more, u.Written) : (t.meet more).Member := by
  induction more generalizing t with
  | nil => exact h
  | cons u more ih =>
    have first : (Token.both t u).Member := .both h (k u List.mem_cons_self)
    exact ih first fun v hv => k v (List.mem_cons_of_mem u hv)

theorem Chains.member_of_mem {xs : List (Option Token)} {chains : List (Token × List Token)} (h : Chains xs chains)
    (k : ∀ t, some t ∈ xs → t.Written) : ∀ t ∈ members chains, t.Member := by
  induction h with
  | nil => exact fun t ht => absurd ht List.not_mem_nil
  | cons t more h ih =>
    have first : t.Written := k t (List.mem_append_left _ List.mem_cons_self)
    have others : ∀ u ∈ more, u.Written := fun u hu => by
      refine k u (List.mem_append_left _ (List.mem_cons_of_mem _ ?_))
      exact List.mem_flatMap.2 ⟨u, hu, by simp⟩
    intro u hu
    rcases List.mem_cons.1 hu with rfl | hu
    · exact (Member.written first).meet others
    · exact ih (fun v hv => k v (List.mem_append_right _ hv)) u hu

namespace Pattern

mutual

theorem Piece.written {inSet first : Bool} {text rest : List Char} {xs : List (Option Token)} :
    Piece inSet first text xs rest → ∀ t, some t ∈ xs → t.Written
  | .literal _, t, ht => by
    obtain rfl : t = _ := by simpa using ht
    exact .literal _
  | .wildcard, t, ht => by
    obtain rfl : t = _ := by simpa using ht
    exact .wildcard
  | .operator _ _, t, ht => by
    obtain rfl : t = _ := by simpa using ht
    exact .operator _
  | .range _ _ lt, t, ht => by
    obtain rfl : t = _ := by simpa using ht
    exact .range lt
  | .group h, t, ht => by
    obtain rfl | ht | rfl : t = _ ∨ some t ∈ _ ∨ t = _ := by simpa using ht
    · exact .operator _
    · exact h.written t ht
    · exact .operator _
  | .set h k, t, ht | .negatedSet h k, t, ht => by
    obtain rfl : t = _ := by simpa using ht
    exact .set (k.member_of_mem h.written)
  | .conjunction, t, ht => by simp at ht
  | .counted h _ _ _ expansion, t, ht => by
    obtain ⟨inside, hinside, rfl⟩ := Option.map_eq_some_iff.1 expansion
    have copies : ∀ u ∈ inside, u.Written := by
      refine Repeat.expansion?_induction (motive := fun ts => ∀ u ∈ ts, u.Written) ?_ ?_ ?_ ?_ hinside
      · exact fun u hu => absurd hu List.not_mem_nil
      · exact fun hxs hys u hu => (List.mem_append.1 hu).elim (hxs u) (hys u)
      · intro op _ _ u hu
        obtain rfl := List.mem_singleton.1 hu
        exact .operator op
      · exact fun u hu => h.written u (List.mem_map_of_mem hu)
    obtain rfl | ht | rfl : t = _ ∨ t ∈ inside ∨ t = _ := by simpa using ht
    · exact .operator _
    · exact copies t ht
    · exact .operator _

theorem Pieces.written {inSet first : Bool} {text rest : List Char} {xs : List (Option Token)} :
    Pieces inSet first text xs rest → ∀ t, some t ∈ xs → t.Written
  | .nil, _, ht => absurd ht List.not_mem_nil
  | .cons h k, t, ht => (List.mem_append.1 ht).elim (h.written t) (k.written t)

end

end Pattern

theorem Slot.Balanced.count_take_le {slots : List Slot} (h : Balanced slots) (i : Nat) :
    (slots.take i).count (token (.operator .closeParen)) ≤ (slots.take i).count (token (.operator .openParen)) := by
  induction h generalizing i with
  | nil => simp
  | atom hopen hclose =>
    have none : token (.operator .closeParen) ∉ List.take i [_] := fun hmem =>
      hclose (List.mem_singleton.1 (List.mem_of_mem_take hmem)).symm
    rw [List.count_eq_zero_of_not_mem none]
    exact Nat.zero_le _
  | append h k ih ik =>
    rw [List.take_append, List.count_append, List.count_append]
    exact Nat.add_le_add (ih _) (ik _)
  | @group inside h ih =>
    cases i with
    | zero => simp
    | succ i =>
      have last (j : Nat) : ([token (.operator .closeParen)].take j).count (token (.operator .closeParen)) ≤ 1 :=
        List.count_le_length.trans (List.length_take_le' _ _)
      rw [List.take_succ_cons, List.take_append, List.count_cons_of_ne (by decide), List.count_cons_self, List.count_append,
        List.count_append]
      have inner := ih i
      have outer := last (i - inside.length)
      omega

theorem Slot.Balanced.count_eq {slots : List Slot} (h : Balanced slots) :
    slots.count (token (.operator .closeParen)) = slots.count (token (.operator .openParen)) := by
  induction h with
  | nil => rfl
  | atom hopen hclose => rw [List.count_singleton, List.count_singleton, beq_false_of_ne hopen, beq_false_of_ne hclose]
  | append h k ih ik => rw [List.count_append, List.count_append, ih, ik]
  | group h ih => simp [ih]

theorem Slot.Balanced.nested {ts : List Token} (h : Balanced (ts.map token)) : Nested ts := by
  have injective : Function.Injective token := fun _ _ => Slot.token.inj
  constructor
  · intro i
    have key := h.count_take_le i
    rw [← List.map_take, List.count_map_of_injective _ _ injective, List.count_map_of_injective _ _ injective] at key
    exact key
  · have key := h.count_eq
    rw [List.count_map_of_injective _ _ injective, List.count_map_of_injective _ _ injective] at key
    exact key

variable {pattern : List Char} {tokens : List Token}

theorem exists_group_of_tokens (h : Pattern.tokens pattern = .ok tokens) : ∃ inside,
    tokens = .operator .openParen :: (inside ++ [.operator .closeParen]) ∧ Nested inside ∧ ∀ t ∈ tokens, t.Written := by
  obtain ⟨inside, text, rest, rfl, hpieces⟩ := exists_pieces_of_tokens h
  refine ⟨inside, rfl, (hpieces.balanced (map_token?_eq_some.2 rfl)).nested, fun t ht => ?_⟩
  obtain rfl | ht | rfl : t = _ ∨ t ∈ inside ∨ t = _ := by simpa using ht
  · exact .operator _
  · exact hpieces.written t (List.mem_map_of_mem ht)
  · exact .operator _

theorem exists_ofTokens_of_tokens (h : Pattern.tokens pattern = .ok tokens) : ∃ a, Automaton.ofTokens tokens = .ok a := by
  obtain ⟨inside, text, rest, rfl, hpieces⟩ := exists_pieces_of_tokens h
  obtain ⟨e, rfl⟩ := exists_loose_of_balanced (hpieces.balanced (map_token?_eq_some.2 rfl)) rfl
  obtain ⟨a, ha, -⟩ := e.exists_automaton
  exact ⟨a, ha⟩

theorem Automaton.noGrouping_ofPattern (pattern : List Char) : ErrorsIn NoGrouping (ofPattern pattern) := by
  refine (noGrouping_tokens pattern).bind fun tokens htokens => ?_
  obtain ⟨a, ha⟩ := exists_ofTokens_of_tokens htokens
  rw [ha]
  exact .ok a

/-- The tokens of a pattern are one group that its last token closes, with conjunctions in sets only and with ranges that go up,
and they have an automaton. So no pattern is rejected for its grouping. -/
theorem build_accepted_tokens (pattern : String) :
    (∀ tokens, Pattern.tokens pattern.toList = .ok tokens →
      (∃ inside, tokens = .operator .openParen :: (inside ++ [.operator .closeParen]) ∧ Nested inside) ∧
      (∀ i, 0 < i → i < tokens.length →
        (tokens.take i).count (.operator .closeParen) < (tokens.take i).count (.operator .openParen)) ∧
      (∀ t ∈ tokens, t.Written) ∧ ∃ a, Automaton.ofTokens tokens = .ok a) ∧
    (∀ offset, Automaton.ofPattern pattern.toList ≠ .error ⟨.grouping, offset⟩) ∧
    ∀ offset, Regex.compile pattern ≠ .error (.pattern ⟨.grouping, offset⟩) := by
  refine ⟨fun tokens h => ?_, fun offset h => Automaton.noGrouping_ofPattern _ _ h rfl, fun offset h => ?_⟩
  · obtain ⟨inside, rfl, hnested, hwritten⟩ := exists_group_of_tokens h
    exact ⟨⟨inside, rfl, hnested⟩, fun i pos lt => hnested.count_lt_group pos lt, hwritten, exists_ofTokens_of_tokens h⟩
  · unfold Regex.compile at h
    split at h
    · contradiction
    · next e he =>
      obtain rfl : e = ⟨.grouping, offset⟩ := by simpa using h
      exact Automaton.noGrouping_ofPattern _ _ he rfl

/-- Two groups in a row are put in one more; the count has made the set a group. -/
theorem build_accepted_tokens_groups : ∃ tokens, Pattern.tokens "(a)[b-d&&[^c]]{1}".toList = .ok tokens ∧
    (tokens.take 4).count (.operator .closeParen) < (tokens.take 4).count (.operator .openParen) ∧
      (∀ t ∈ tokens, t.Written) ∧ ∃ a, Automaton.ofTokens tokens = .ok a := by
  have h : Pattern.tokens "(a)[b-d&&[^c]]{1}".toList = .ok [.operator .openParen, .operator .openParen, .literal 'a',
      .operator .closeParen, .operator .openParen, .set [.both (.range 'b' 'd') (.set [.literal 'c'] true)] false,
      .operator .closeParen, .operator .closeParen] := rfl
  obtain ⟨-, hopen, hwritten, hbuild⟩ := (build_accepted_tokens _).1 _ h
  exact ⟨_, h, hopen 4 (by decide) (by decide), hwritten, hbuild⟩

end RegexSearch
