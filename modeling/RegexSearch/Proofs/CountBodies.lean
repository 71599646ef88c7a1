import Mathlib.Data.List.Induction
import RegexSearch.Repeat.Body

/-! A body is read just where it spells a count. -/
namespace RegexSearch.Repeat

variable {body digits lower upper text rest : List Char} {c : Char} {count : Repeat} {m n : Nat}

theorem numeral_iff : Numeral digits m ↔
    digits ≠ [] ∧ (∀ c ∈ digits, c.isDigit = true) ∧ Nat.ofDigitChars 10 digits 0 = m := by
  constructor
  · intro h
    induction h with
    | digit h => simp [h, Nat.ofDigitChars_cons]
    | snoc h k ih =>
      obtain ⟨-, hdigits, rfl⟩ := ih
      refine ⟨by simp, ?_, by rw [Nat.ofDigitChars_append, Nat.ofDigitChars_cons, Nat.ofDigitChars_nil]⟩
      simpa [or_imp, forall_and, k] using hdigits
  · rintro ⟨hne, hdigits, rfl⟩
    induction digits using List.reverseRecOn with
    | nil => contradiction
    | append_singleton front last ih =>
      have hlast : last.isDigit = true := hdigits last (by simp)
      obtain rfl | hfront := eq_or_ne front []
      · simpa [Nat.ofDigitChars_cons] using Numeral.digit hlast
      · rw [Nat.ofDigitChars_append, Nat.ofDigitChars_cons, Nat.ofDigitChars_nil]
        exact .snoc (ih hfront fun c hc => hdigits c (List.mem_append_left _ hc)) hlast

theorem Numeral.isDigit (h : Numeral digits m) : ∀ c ∈ digits, c.isDigit = true := (numeral_iff.1 h).2.1

theorem Numeral.ne_nil (h : Numeral digits m) : digits ≠ [] := (numeral_iff.1 h).1

theorem Numeral.comma_not_mem (h : Numeral digits m) : ',' ∉ digits :=
  fun hmem => absurd (h.isDigit ',' hmem) (by decide)

theorem numeral_toDigits (n : Nat) : Numeral (Nat.toDigits 10 n) n :=
  numeral_iff.2 ⟨Nat.toDigits_ne_nil, fun _ => Nat.isDigit_of_mem_toDigits (by decide) (by decide),
    Nat.ofDigitChars_ten_toDigits⟩

theorem count?_eq_some_iff : count? digits = some m ↔ Numeral digits m ∧ m ≤ maxCount := by
  rw [numeral_iff, count?]
  simp only [Option.ite_none_right_eq_some, Option.some.injEq, List.all_eq_true]
  constructor
  · rintro ⟨⟨hne, hdigits, hle⟩, rfl⟩
    exact ⟨⟨hne, hdigits, rfl⟩, hle⟩
  · rintro ⟨⟨hne, hdigits, rfl⟩, hle⟩
    exact ⟨⟨hne, hdigits, hle⟩, rfl⟩

theorem spells_body (h : count.InRange) : Spells count.body count := by
  cases count with
  | exactly m => exact .exactly (numeral_toDigits m) h
  | atLeast m => exact .atLeast (numeral_toDigits m) h
  | between m n => exact .between (numeral_toDigits m) (numeral_toDigits n) h.1 h.2

section Commas

variable (h : ',' ∉ lower)
include h

theorem takeWhile_comma (rest : List Char) :
    (lower ++ rest).takeWhile (· != ',') = lower ++ rest.takeWhile (· != ',') :=
  List.takeWhile_append_of_pos fun _ hc => bne_iff_ne.2 (ne_of_mem_of_not_mem hc h)

theorem dropWhile_comma (rest : List Char) : (lower ++ rest).dropWhile (· != ',') = rest.dropWhile (· != ',') :=
  List.dropWhile_append_of_pos fun _ hc => bne_iff_ne.2 (ne_of_mem_of_not_mem hc h)

theorem parse?_exactly : parse? lower = (count? lower).map exactly := by
  have htake := takeWhile_comma h []
  have hdrop := dropWhile_comma h []
  rw [List.append_nil] at htake hdrop
  simp [parse?, htake, hdrop]

theorem parse?_atLeast : parse? (lower ++ [',']) = (count? lower).map atLeast := by
  simp [parse?, takeWhile_comma h, dropWhile_comma h]

theorem parse?_between (hupper : upper ≠ []) : parse? (lower ++ ',' :: upper) = (do
    let m ← count? lower
    let n ← count? upper
    if m ≤ n then some (between m n) else none) := by
  obtain ⟨c, upper, rfl⟩ := List.exists_cons_of_ne_nil hupper
  simp [parse?, takeWhile_comma h, dropWhile_comma h]

end Commas

theorem parse?_eq_some_iff : parse? body = some count ↔ Spells body count := by
  constructor
  · intro h
    by_cases hcomma : ',' ∈ body
    · obtain ⟨lower, upper, rfl, hlower⟩ := List.eq_append_cons_of_mem hcomma
      obtain rfl | hupper := eq_or_ne upper []
      · rw [parse?_atLeast hlower, Option.map_eq_some_iff] at h
        obtain ⟨m, hm, rfl⟩ := h
        obtain ⟨hnumeral, hle⟩ := count?_eq_some_iff.1 hm
        exact .atLeast hnumeral hle
      · rw [parse?_between hlower hupper] at h
        obtain ⟨m, hm, n, hn, hle, rfl⟩ : ∃ m, count? lower = some m ∧ ∃ n, count? upper = some n ∧
            m ≤ n ∧ between m n = count := by simpa [Option.bind_eq_some_iff] using h
        obtain ⟨hlower, -⟩ := count?_eq_some_iff.1 hm
        obtain ⟨hupper, hbound⟩ := count?_eq_some_iff.1 hn
        exact .between hlower hupper hle hbound
    · rw [parse?_exactly hcomma, Option.map_eq_some_iff] at h
      obtain ⟨m, hm, rfl⟩ := h
      obtain ⟨hnumeral, hle⟩ := count?_eq_some_iff.1 hm
      exact .exactly hnumeral hle
  · intro h
    cases h with
    | exactly h le => rw [parse?_exactly h.comma_not_mem, count?_eq_some_iff.2 ⟨h, le⟩, Option.map_some]
    | atLeast h le => rw [parse?_atLeast h.comma_not_mem, count?_eq_some_iff.2 ⟨h, le⟩, Option.map_some]
    | between h k le upper_le =>
      rw [parse?_between h.comma_not_mem k.ne_nil, count?_eq_some_iff.2 ⟨h, Nat.le_trans le upper_le⟩,
        count?_eq_some_iff.2 ⟨k, upper_le⟩]
      simp [le]

theorem readCount?_eq_some_iff : readCount? text = some (m, rest) ↔ ∃ digits, text = digits ++ rest ∧ Numeral digits m ∧
    m ≤ maxCount ∧ ∀ c ∈ rest.head?, c.isDigit = false := by
  rw [readCount?, Option.map_eq_some_iff]
  constructor
  · rintro ⟨k, hk, heq⟩
    obtain ⟨rfl, rfl⟩ := Prod.mk.inj heq
    obtain ⟨hnumeral, hle⟩ := count?_eq_some_iff.1 hk
    refine ⟨_, List.takeWhile_append_dropWhile.symm, hnumeral, hle, fun c hc => ?_⟩
    have hstop := List.head?_dropWhile_not Char.isDigit text
    rwa [hc] at hstop
  · rintro ⟨digits, rfl, hnumeral, hle, hstop⟩
    have htake : rest.takeWhile Char.isDigit = [] := by cases rest <;> simp_all
    have hdrop : rest.dropWhile Char.isDigit = rest := by cases rest <;> simp_all
    rw [List.takeWhile_append_of_pos hnumeral.isDigit, List.dropWhile_append_of_pos hnumeral.isDigit, htake, hdrop,
      List.append_nil]
    exact ⟨m, count?_eq_some_iff.2 ⟨hnumeral, hle⟩, rfl⟩

theorem readCount?_digits : readCount? digits = some (m, []) ↔ Numeral digits m ∧ m ≤ maxCount := by
  simp [readCount?_eq_some_iff]

theorem readCount?_comma (h : Numeral digits m) (le : m ≤ maxCount) :
    readCount? (digits ++ ',' :: rest) = some (m, ',' :: rest) :=
  readCount?_eq_some_iff.2 ⟨digits, rfl, h, le, by simp⟩

/-- A number that is missing or too large leaves its digits over. -/
theorem readUpper_eq_end_iff {upper? : Option (Option Nat)} : readUpper text = (upper?, []) ↔
    text = [] ∧ upper? = none ∨ text = [','] ∧ upper? = some none ∨
      ∃ digits n, text = ',' :: digits ∧ upper? = some (some n) ∧ Numeral digits n ∧ n ≤ maxCount := by
  constructor
  · intro h
    unfold readUpper at h
    split at h
    · split at h
      · next n rest hread =>
        obtain ⟨rfl, rfl⟩ := Prod.mk.inj h
        exact .inr (.inr ⟨_, n, rfl, rfl, readCount?_digits.1 hread⟩)
      · obtain ⟨rfl, rfl⟩ := Prod.mk.inj h
        exact .inr (.inl ⟨rfl, rfl⟩)
    · obtain ⟨rfl, rfl⟩ := Prod.mk.inj h
      exact .inl ⟨rfl, rfl⟩
  · rintro (⟨rfl, rfl⟩ | ⟨rfl, rfl⟩ | ⟨digits, n, rfl, rfl, hn⟩)
    · rfl
    · rfl
    · rw [readUpper, readCount?_digits.2 hn]

theorem readAll?_iff_exists : readAll? body = some count ↔ ∃ m rest upper?, readCount? body = some (m, rest) ∧
    readUpper rest = (upper?, []) ∧ (∀ n, upper? = some (some n) → m ≤ n) ∧ ofBounds m upper? = count := by
  cases hfront : readCount? body with
  | none => simp [readAll?, read?, hfront]
  | some front =>
    obtain ⟨m, rest⟩ := front
    obtain ⟨⟨upper?, left⟩, hback⟩ : ∃ back, readUpper rest = back := ⟨_, rfl⟩
    obtain _ | _ | n := upper? <;> cases left <;> simp [readAll?, read?, hfront, hback, ofBounds]

theorem readAll?_eq_some_iff : readAll? body = some count ↔ Spells body count := by
  rw [readAll?_iff_exists]
  constructor
  · rintro ⟨m, rest, upper?, hfront, hback, hle, rfl⟩
    obtain ⟨digits, rfl, hm, hbound, -⟩ := readCount?_eq_some_iff.1 hfront
    obtain ⟨rfl, rfl⟩ | ⟨rfl, rfl⟩ | ⟨upper, n, rfl, rfl, hn, hupper⟩ := readUpper_eq_end_iff.1 hback
    · rw [List.append_nil]
      exact .exactly hm hbound
    · exact .atLeast hm hbound
    · exact .between hm hn (hle n rfl) hupper
  · intro h
    cases h with
    | exactly h le => exact ⟨_, [], none, readCount?_digits.2 ⟨h, le⟩, rfl, nofun, rfl⟩
    | atLeast h le => exact ⟨_, [','], some none, readCount?_comma h le, rfl, nofun, rfl⟩
    | @between lower upper m n h k le upper_le =>
      have hback : readUpper (',' :: upper) = (some (some n), []) :=
        readUpper_eq_end_iff.2 (.inr (.inr ⟨upper, n, rfl, rfl, k, upper_le⟩))
      exact ⟨m, ',' :: upper, _, readCount?_comma h (Nat.le_trans le upper_le), hback, by simpa using le, rfl⟩

theorem readAll?_eq_parse? (body : List Char) : readAll? body = parse? body := by
  ext count
  rw [readAll?_eq_some_iff, parse?_eq_some_iff]

theorem parse?_body (h : count.InRange) : parse? count.body = some count := parse?_eq_some_iff.2 (spells_body h)

/-- A body is read as a count just where it spells it, and so it is when it is read piece by piece. What a count is printed as is
a body between braces, and that body alone, and it is read back. -/
theorem parse_exact :
    (∀ (body : List Char) (count : Repeat), parse? body = some count ↔ Spells body count) ∧
    (∀ body : List Char, parse? body = none ↔ ∀ count, ¬ Spells body count) ∧
    (∀ body : List Char, readAll? body = parse? body) ∧
    ∀ count : Repeat, count.InRange → ∃ body : List Char, parse? body = some count ∧
      ∀ other : List Char, count.spell = '{' :: (other ++ ['}']) ↔ other = body := by
  refine ⟨fun _ _ => parse?_eq_some_iff, fun body => ?_, readAll?_eq_parse?, fun count h => ?_⟩
  · simp only [Option.eq_none_iff_forall_ne_some, ne_eq, parse?_eq_some_iff]
  · refine ⟨count.body, parse?_body h, fun other => ⟨fun spelled => ?_, fun same => same ▸ rfl⟩⟩
    exact (List.append_cancel_right (List.cons.inj spelled).2).symm

/-- The greatest count is printed and read back, and the number after it is none. -/
theorem parse_exact_max :
    (atLeast maxCount).InRange ∧ (∃ body : List Char, parse? body = some (atLeast maxCount) ∧
      (atLeast maxCount).spell = '{' :: (body ++ ['}']) ∧ body = "18446744073709551615,".toList) ∧
      ∀ count, ¬ Spells "1,18446744073709551616".toList count := by
  have hrange : (atLeast maxCount).InRange := Nat.le_refl maxCount
  obtain ⟨body, parsed, printed⟩ := parse_exact.2.2.2 _ hrange
  have known : "18446744073709551615,".toList = body := (printed _).1 (by decide)
  exact ⟨hrange, ⟨body, parsed, (printed body).2 rfl, known.symm⟩, (parse_exact.2.1 _).1 (by decide)⟩

end RegexSearch.Repeat
