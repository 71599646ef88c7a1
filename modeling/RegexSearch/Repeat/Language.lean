import Mathlib.Computability.Language
import RegexSearch.Repeat

/-! What a count makes of a language, and the counts that can be written. -/
namespace RegexSearch.Repeat
open Computability

/-- Whether so many texts in a row are as many as a count asks for. -/
def Admits : Repeat → Nat → Prop
  | exactly m, k => k = m
  | atLeast m, k => m ≤ k
  | between m n, k => m ≤ k ∧ k ≤ n

def language (count : Repeat) (l : Language Char) : Language Char :=
  {text | ∃ words : List (List Char), count.Admits words.length ∧ text = words.flatten ∧ ∀ w ∈ words, w ∈ l}

/-- The numbers of the count are in bounds, and so is the number of copies that are made for it. -/
def Fits : Repeat → Prop
  | exactly m => m ≤ maxCount
  | atLeast m => m + 1 ≤ maxCount
  | between m n => m ≤ n ∧ n ≤ maxCount

variable {count : Repeat} {l : Language Char} {text : List Char}

theorem mem_language : text ∈ count.language l ↔ ∃ k, count.Admits k ∧ text ∈ l ^ k := by
  constructor
  · rintro ⟨words, hadmits, htext, hwords⟩
    exact ⟨words.length, hadmits, Language.mem_pow.2 ⟨words, htext, rfl, hwords⟩⟩
  · rintro ⟨k, hadmits, hpow⟩
    obtain ⟨words, htext, rfl, hwords⟩ := Language.mem_pow.1 hpow
    exact ⟨words, hadmits, htext, hwords⟩

theorem language_exactly (m : Nat) (l : Language Char) : (exactly m).language l = l ^ m := by
  ext text
  rw [mem_language]
  exact exists_eq_left

theorem language_atLeast (m : Nat) (l : Language Char) : (atLeast m).language l = l ^ m * l∗ := by
  ext text
  rw [mem_language, Language.kstar_eq_iSup_pow, Language.mul_iSup, Language.mem_iSup]
  constructor
  · rintro ⟨k, hk, hpow⟩
    refine ⟨k - m, ?_⟩
    rwa [← pow_add, Nat.add_sub_of_le hk]
  · rintro ⟨k, hpow⟩
    refine ⟨m + k, Nat.le_add_right m k, ?_⟩
    rwa [pow_add]

theorem language_between_self (m : Nat) (l : Language Char) : (between m m).language l = l ^ m := by
  rw [← language_exactly]
  ext text
  simp only [mem_language, Admits, Nat.le_antisymm_iff, and_comm]

theorem language_between_succ {m n : Nat} (h : m < n) (l : Language Char) :
    (between m n).language l = l ^ m + (between (m + 1) n).language l := by
  ext text
  rw [Language.mem_add, mem_language, mem_language]
  constructor
  · rintro ⟨k, ⟨hm, hn⟩, hpow⟩
    obtain rfl | hlt := Nat.eq_or_lt_of_le hm
    · exact .inl hpow
    · exact .inr ⟨k, ⟨hlt, hn⟩, hpow⟩
  · rintro (hpow | ⟨k, ⟨hm, hn⟩, hpow⟩)
    · exact ⟨m, ⟨Nat.le_refl m, Nat.le_of_lt h⟩, hpow⟩
    · exact ⟨k, ⟨Nat.le_of_succ_le hm, hn⟩, hpow⟩

end RegexSearch.Repeat
