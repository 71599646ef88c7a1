import RegexSearch.Proofs.AcceptedTokens

/-! Patterns next to each other. What stands before a pattern changes nothing in how it is read, and its own text tells nothing
of what stands behind it. -/
namespace RegexSearch.Pattern
open Slot Token

variable {p q : List Char} {front back : List Token}

theorem Derives.nested (h : Derives p front) : Nested front :=
  (h.balanced (map_token?_eq_some.2 rfl)).nested

theorem Derives.ne_nil (h : Derives p front) (hp : p ≠ []) : front ≠ [] := by
  rintro rfl
  exact hp h.eq_of_nil

theorem Derives.exists_tokens (h : Derives p front) : ∃ ts, tokens p = .ok ts := by
  by_cases hgroup : IsGroup p
  · exact ⟨_, tokens_of_isGroup h hgroup⟩
  · exact ⟨_, tokens_of_not_isGroup h hgroup⟩

theorem Derives.isGroup (h : Derives p front) : IsGroup ('(' :: (p ++ [')'])) :=
  ⟨p ++ [')'], front.map some, rfl, Pieces.append_text (fun hset => absurd hset Bool.false_ne_true) h⟩

/-- A group stays open up to the last token, but at the seam everything has been closed. -/
theorem not_isGroup_append (h : Derives p front) (k : Derives q back) (hp : p ≠ []) (hq : q ≠ []) :
    ¬ IsGroup (p ++ q) := by
  intro hgroup
  obtain ⟨inner, inside, -, hinner, hwhole⟩ := hgroup.exists_inside
  have htokens : front ++ back = .operator .openParen :: (inside ++ [.operator .closeParen]) := (h.append k).unique hwhole
  have hinside : Nested inside := (hinner.balanced (map_token?_eq_some.2 rfl)).nested
  have hpos : 0 < front.length := List.length_pos_of_ne_nil (h.ne_nil hp)
  have hlt : front.length < (front ++ back).length := by
    rw [List.length_append]
    exact Nat.lt_add_of_pos_right (List.length_pos_of_ne_nil (k.ne_nil hq))
  have hopen := hinside.count_lt_group hpos (htokens ▸ hlt)
  rw [← htokens, List.take_left] at hopen
  exact hopen.ne h.nested.count_eq

/-- The tokens of two patterns next to each other are those of the first and then those of the second, and parentheses around
a pattern add just themselves. -/
theorem tokens_append {ts us : List Token} (h : tokens p = .ok ts) (k : tokens q = .ok us) : ∃ front back,
    body p = .ok front ∧ body q = .ok back ∧ body (p ++ q) = .ok (front ++ back) ∧ (∃ vs, tokens (p ++ q) = .ok vs) ∧
      tokens ('(' :: (p ++ [')'])) = .ok (.operator .openParen :: (front ++ [.operator .closeParen])) ∧
        (p ≠ [] → q ≠ [] →
          tokens (p ++ q) = .ok (.operator .openParen :: (front ++ back ++ [.operator .closeParen]))) := by
  obtain ⟨front, hfront⟩ := exists_derives_of_tokens h
  obtain ⟨back, hback⟩ := exists_derives_of_tokens k
  have hboth : Derives (p ++ q) (front ++ back) := hfront.append hback
  exact ⟨front, back, body_eq_ok_iff.2 hfront, body_eq_ok_iff.2 hback, body_eq_ok_iff.2 hboth, hboth.exists_tokens,
    tokens_of_isGroup hfront.group hfront.isGroup, fun hp hq =>
      tokens_of_not_isGroup hboth (not_isGroup_append hfront hback hp hq)⟩

/-- A group and a counted set: one group is put around both. -/
theorem tokens_append_counted : ∃ front back,
    body "(a)".toList = .ok front ∧ body "[b-d]{2}".toList = .ok back ∧
      tokens ("(a)".toList ++ "[b-d]{2}".toList) =
        .ok (.operator .openParen :: (front ++ back ++ [.operator .closeParen])) := by
  have group : tokens "(a)".toList = .ok [.operator .openParen, .literal 'a', .operator .closeParen] := rfl
  have counted : tokens "[b-d]{2}".toList = .ok [.operator .openParen, .operator .openParen,
      .set [.range 'b' 'd'] false, .set [.range 'b' 'd'] false, .operator .closeParen, .operator .closeParen] := rfl
  obtain ⟨front, back, hfront, hback, -, -, -, hboth⟩ := tokens_append group counted
  exact ⟨front, back, hfront, hback, hboth (by decide) (by decide)⟩

end RegexSearch.Pattern
