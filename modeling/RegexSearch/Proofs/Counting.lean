import RegexSearch.Proofs.CountBodies
import RegexSearch.Proofs.PatternLanguage
import RegexSearch.Repeat.Language

/-! Counted repetition. What a count makes of a unit is an expression over the atom that the unit is, and this expression reads
as many texts of the atom in a row as the count admits. -/
namespace RegexSearch
open Pattern Computability

namespace Repeat

variable {count : Repeat} {c : Char}

theorem Fits.inRange (h : count.Fits) : count.InRange := by
  cases count with
  | exactly m => exact h
  | atLeast m => exact Nat.le_of_succ_le h
  | between m n => exact h

theorem not_mem_metacharacters (h : c ∈ count.body) : c ∉ metacharacters := by
  have hbody : c.isDigit = true ∨ c = ',' := by
    have digit {n : Nat} (h : c ∈ Nat.toDigits 10 n) : c.isDigit = true :=
      Nat.isDigit_of_mem_toDigits (by decide) (by decide) h
    cases count with
    | exactly m => exact .inl (digit h)
    | atLeast m => exact (List.mem_append.1 h).imp digit List.mem_singleton.1
    | between m n =>
      obtain h | h := List.mem_append.1 h
      · exact .inl (digit h)
      · exact (List.mem_cons.1 h).symm.imp digit id
  have plain : ∀ c ∈ metacharacters, ¬ (c.isDigit = true ∨ c = ',') := by simp [metacharacters]
  exact fun hmem => plain c hmem hbody

end Repeat

/-- An atom so many times, and then the rest of the branch. -/
def LooseBranch.copies (a : LooseAtom) : Nat → LooseBranch → LooseBranch
  | 0, rest => rest
  | n + 1, rest => .cons a [] (copies a n rest)

namespace LooseBranch

theorem tokens_copies (a : LooseAtom) (n : Nat) (rest : LooseBranch) :
    (copies a n rest).tokens = Repeat.copies n a.tokens ++ rest.tokens := by
  induction n with
  | zero => rfl
  | succ n ih =>
    rw [copies, tokens, ih, Repeat.copies_succ, List.append_assoc]
    rfl

theorem language_copies (a : LooseAtom) (n : Nat) (rest : LooseBranch) :
    (copies a n rest).language = a.language ^ n * rest.language := by
  induction n with
  | zero => rw [copies, pow_zero, one_mul]
  | succ n ih =>
    rw [copies, language, ih, pow_succ', mul_assoc]
    rfl

theorem tokens_copies_nil (a : LooseAtom) (n : Nat) : (copies a n .nil).tokens = Repeat.copies n a.tokens := by
  rw [tokens_copies]
  exact List.append_nil _

theorem language_copies_nil (a : LooseAtom) (n : Nat) : (copies a n .nil).language = a.language ^ n := by
  rw [language_copies]
  exact mul_one _

end LooseBranch

namespace LooseExpr

/-- From `m` copies of an atom up to `m + k` copies, as alternatives. -/
def choices (a : LooseAtom) (m : Nat) : Nat → LooseExpr
  | 0 => .last [] (.copies a m .nil)
  | k + 1 => .alt [] (.copies a m .nil) (choices a (m + 1) k)

/-- What a count makes of an atom. -/
def counted (a : LooseAtom) : Repeat → LooseExpr
  | .exactly m => .last [] (.copies a m .nil)
  | .atLeast m => .last [] (.copies a m (.cons a [.star] .nil))
  | .between m n => choices a m (n - m)

variable {a : LooseAtom} {count : Repeat}

theorem lead_choices (m k : Nat) : (choices a m k).lead = [] := by
  cases k <;> rfl

theorem tokens_choices (m k : Nat) : (choices a m k).tokens = Repeat.choices a.tokens m k := by
  induction k generalizing m with
  | zero => exact LooseBranch.tokens_copies_nil a m
  | succ k ih =>
    rw [choices, tokens, LooseBranch.tokens_copies_nil, ih]
    rfl

-- Each alternative starts with a copy or is empty, so no quantifier stands behind a bar.
theorem language_choices (m k : Nat) : (choices a m k).language = (Repeat.between m (m + k)).language a.language := by
  induction k generalizing m with
  | zero =>
    rw [Nat.add_zero, Repeat.language_between_self]
    exact LooseBranch.language_copies_nil a m
  | succ k ih =>
    have hlt : m < m + (k + 1) := by omega
    have hnext : m + 1 + k = m + (k + 1) := by omega
    have hlead := lead_choices (a := a) (m + 1) k
    rw [Repeat.language_between_succ hlt, choices, language, skips_eq_false hlead, repeats_eq_false hlead, ih, hnext,
      LooseBranch.language_copies_nil]
    simp

theorem expansion?_tokens (h : count.Fits) : count.expansion? a.tokens = some (counted a count).tokens := by
  cases count with
  | exactly m =>
    rw [counted, tokens, LooseBranch.tokens_copies_nil]
    rfl
  | atLeast m =>
    have hcopies : Repeat.copies (m + 1) a.tokens = Repeat.copies m a.tokens ++ a.tokens := by
      simp [Repeat.copies, List.replicate_succ']
    have hfits : m + 1 ≤ Repeat.maxCount := h
    rw [Repeat.expansion?, if_pos hfits, counted, tokens, LooseBranch.tokens_copies, hcopies, List.append_assoc]
    rfl
  | between m n => rw [Repeat.expansion?, counted, tokens_choices]

theorem language_counted (h : count.Fits) : (counted a count).language = count.language a.language := by
  cases count with
  | exactly m =>
    rw [Repeat.language_exactly, counted, language, LooseBranch.language_copies_nil]
  | atLeast m =>
    have hstar : (LooseBranch.cons a [.star] .nil).language = a.language∗ := mul_one _
    rw [Repeat.language_atLeast, counted, language, LooseBranch.language_copies, hstar]
  | between m n => rw [counted, language_choices, Nat.add_sub_of_le h.1]

end LooseExpr

namespace Pattern

variable {u : List Char} {unit : List Token} {count : Repeat}

theorem literals_of_plain {cs rest : List Char} (h : ∀ c ∈ cs, c ∉ metacharacters) : Literals (cs ++ rest) cs rest := by
  induction cs with
  | nil => exact .nil
  | cons c cs ih => exact .cons (.plain (h c List.mem_cons_self)) (ih fun c hc => h c (List.mem_cons_of_mem _ hc))

theorem Derives.counted {expansion : List Token} (h : Derives u unit)
    (hunit : Slot.FormsUnit (unit.map Slot.token)) (hcount : count.Fits) (k : count.expand? unit = some expansion) :
    Derives (u ++ count.spell) expansion := by
  have outside (hset : false = true) : ([] : List Char) ≠ [] := absurd hset Bool.false_ne_true
  have hpiece : Piece false false (u ++ count.spell) (unit.map some) ('{' :: (count.body ++ ['}'])) :=
    (Pieces.piece_of_formsUnit h hunit).append_text outside
  have hbody : Literals (count.body ++ ['}']) count.body ['}'] := literals_of_plain fun _ => Repeat.not_mem_metacharacters
  refine .of_piece (.counted hpiece (fun op hop => ?_) hbody (Repeat.parse?_body hcount.inRange) k)
  exact hunit.ne_operator op (congrArg (List.map Slot.token) hop)

end Pattern

namespace Regex

variable {u : String} {r : Regex} {unit : List Token} {count : Repeat}

/-- A unit with a count behind it matches as many texts of the unit in a row as the count admits. -/
theorem compile_counted (h : compile u = .ok r) (hbody : Pattern.body u.toList = .ok unit)
    (hunit : Slot.FormsUnit (unit.map Slot.token)) (hcount : count.Fits) :
    ∃ c, compile (u ++ String.ofList count.spell) = .ok c ∧ c.language = count.language r.language := by
  obtain ⟨a, rfl⟩ := exists_loose_of_formsUnit hunit
  have hu := body_eq_ok_iff.1 hbody
  obtain ⟨s, hs, hlanguage⟩ := compile_of_derives_atom hu
  obtain rfl := Except.ok.inj (h.symm.trans hs)
  have hexpansion : count.expand? a.tokens = some (LooseAtom.group (.counted a count)).tokens := by
    rw [Repeat.expand?, LooseExpr.expansion?_tokens hcount]
    rfl
  have hderives : Derives (u ++ String.ofList count.spell).toList (LooseAtom.group (.counted a count)).tokens := by
    rw [String.toList_append, String.toList_ofList]
    exact hu.counted hunit hcount hexpansion
  obtain ⟨c, hc, hcounted⟩ := compile_of_derives_atom hderives
  refine ⟨c, hc, ?_⟩
  rw [hcounted, hlanguage]
  exact LooseExpr.language_counted hcount

/-- What a count has made can be counted again. -/
theorem compile_counted_twice : ∃ r c, compile "a{2}" = .ok r ∧ compile "a{2}{0,2}" = .ok c ∧
    c.language = (Repeat.between 0 2).language r.language := by
  obtain ⟨r, hr⟩ : ∃ r, compile "a{2}" = .ok r := exists_compile_iff.2 ⟨_, rfl⟩
  have hbody : Pattern.body "a{2}".toList = .ok
      [.operator .openParen, .literal 'a', .literal 'a', .operator .closeParen] := rfl
  have hletter : Slot.Balanced [.token (.literal 'a')] := .atom (by decide) (by decide)
  have hfits : (Repeat.between 0 2).Fits := ⟨by decide, by decide⟩
  obtain ⟨c, hc, hlanguage⟩ := compile_counted hr hbody (.group (hletter.append hletter)) hfits
  exact ⟨r, c, hr, hc, hlanguage⟩

end Regex
end RegexSearch
