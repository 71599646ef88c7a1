import Mathlib.Data.Nat.Find
import Mathlib.Logic.Basic
import Mathlib.Order.Bounds.Basic
import RegexSearch.Proofs.Conjunctions

/-! Where the fold over the slots of a set fails, and what the members accept that it yields. -/
namespace RegexSearch

namespace Token

variable {t u : Token} {ts us : List Token} {after rest : List (Option Token)}

theorem chained_nil (t : Token) : t.chained [] = [some t] := rfl

theorem chained_cons (t u : Token) (more : List Token) : t.chained (u :: more) = some t :: none :: u.chained more := rfl

theorem getLast?_chained_ne (t : Token) (more : List Token) : (t.chained more).getLast? ≠ some none := by
  induction more generalizing t with
  | nil => simp [chained]
  | cons u more ih =>
    have hne : u.chained more ≠ [] := List.cons_ne_nil _ _
    rw [chained_cons, List.getLast?_cons_of_ne_nil (List.cons_ne_nil _ _), List.getLast?_cons_of_ne_nil hne]
    exact ih u

/-- Two chains at the front of the same elements are one, if no conjunction prolongs them. -/
theorem chained_append_inj (h : t.chained ts ++ after = u.chained us ++ rest) (hafter : after.head? ≠ some none)
    (hrest : rest.head? ≠ some none) : t = u ∧ ts = us := by
  induction ts generalizing t u us with
  | nil =>
    cases us with
    | nil =>
      obtain ⟨rfl, -⟩ : t = u ∧ after = rest := by simpa [chained_nil] using h
      exact ⟨rfl, rfl⟩
    | cons v us =>
      obtain ⟨-, rfl⟩ : t = u ∧ after = none :: (v.chained us ++ rest) := by simpa [chained_nil, chained_cons] using h
      exact absurd rfl hafter
  | cons v ts ih =>
    cases us with
    | nil =>
      obtain ⟨-, rfl⟩ : t = u ∧ none :: (v.chained ts ++ after) = rest := by simpa [chained_nil, chained_cons] using h
      exact absurd rfl hrest
    | cons w us =>
      obtain ⟨rfl, htail⟩ : t = u ∧ v.chained ts ++ after = w.chained us ++ rest := by simpa [chained_cons] using h
      obtain ⟨rfl, rfl⟩ := ih htail
      exact ⟨rfl, rfl⟩

/-- A chain in the elements that starts neither with the first of them nor behind a conjunction starts behind the first chain. -/
theorem exists_append_of_chained {before : List (Option Token)} (hne : before ≠ []) (hbefore : before.getLast? ≠ some none)
    (h : before ++ (t.chained ts ++ after) = u.chained us ++ rest) : ∃ front, before = u.chained us ++ front := by
  induction us generalizing u before with
  | nil =>
    obtain ⟨first, front, rfl⟩ := List.exists_cons_of_ne_nil hne
    obtain ⟨rfl, -⟩ := List.cons.inj h
    exact ⟨front, rfl⟩
  | cons v us ih =>
    obtain ⟨first, front, rfl⟩ := List.exists_cons_of_ne_nil hne
    rw [chained_cons] at h
    obtain ⟨rfl, htail⟩ := List.cons.inj h
    -- A conjunction comes second: no chain starts with it, and what stands before one does not end with it.
    cases front with
    | nil => cases ts <;> simp [chained_nil, chained_cons] at htail
    | cons second front =>
      obtain ⟨rfl, hmore⟩ := List.cons.inj htail
      have hfront : front ≠ [] := by
        rintro rfl
        simp at hbefore
      rw [List.getLast?_cons_of_ne_nil (List.cons_ne_nil _ _), List.getLast?_cons_of_ne_nil hfront] at hbefore
      obtain ⟨front, rfl⟩ := ih hfront hbefore hmore
      exact ⟨front, rfl⟩

end Token

namespace Chains

variable {xs : List (Option Token)} {chains : List (Token × List Token)} {t : Token} {ts : List Token}

theorem head?_ne (h : Chains xs chains) : xs.head? ≠ some none := by
  cases h with
  | nil => simp
  | cons t more h => simp [Token.chained]

theorem mem_iff_maximalChain (h : Chains xs chains) : (t, ts) ∈ chains ↔ MaximalChain xs t ts := by
  induction h with
  | nil =>
    constructor
    · exact fun hmem => absurd hmem List.not_mem_nil
    · rintro ⟨before, after, h, -, -⟩
      simp [Token.chained] at h
  | @cons u us rest chains h ih =>
    rw [List.mem_cons]
    constructor
    · rintro (heq | hmem)
      · obtain ⟨rfl, rfl⟩ := Prod.mk.inj heq
        exact ⟨[], rest, rfl, by simp, h.head?_ne⟩
      · obtain ⟨before, after, rfl, hbefore, hafter⟩ := ih.1 hmem
        refine ⟨u.chained us ++ before, after, by simp, ?_, hafter⟩
        cases hlast : before.getLast? with
        | none =>
          rw [List.getLast?_append, hlast]
          exact u.getLast?_chained_ne us
        | some x =>
          rw [List.getLast?_append, hlast, Option.some_or, ← hlast]
          exact hbefore
    · rintro ⟨before, after, heq, hbefore, hafter⟩
      rw [List.append_assoc] at heq
      by_cases hnil : before = []
      · subst hnil
        obtain ⟨rfl, rfl⟩ := Token.chained_append_inj heq.symm hafter h.head?_ne
        exact .inl rfl
      · obtain ⟨front, rfl⟩ := Token.exists_append_of_chained hnil hbefore heq.symm
        rw [List.append_assoc] at heq
        refine .inr (ih.2 ⟨front, after, ?_, ?_, hafter⟩)
        · rw [List.append_assoc]
          exact List.append_cancel_left heq
        · intro hlast
          rw [List.getLast?_append, hlast] at hbefore
          exact hbefore rfl

end Chains

namespace Slot

variable {slots front : List Slot} {members : List Token} {t : Token} {i offset : Nat} {e : SyntaxError}

theorem not_misplaced_token (h : slots[i]? = some (token t)) : ¬ Misplaced slots i := by
  rintro ⟨offset, hoffset, -⟩
  rw [h] at hoffset
  cases hoffset

/-- What stands before a token has no part in whether the conjunctions behind it are misplaced, nor has the token. -/
theorem misplaced_append_token (front slots : List Slot) (t u : Token) (i : Nat) :
    Misplaced (front ++ token t :: slots) (front.length + i) ↔ Misplaced (token u :: slots) i := by
  cases i with
  | zero =>
    have atFront : (front ++ token t :: slots)[front.length + 0]? = some (token t) := by simp
    exact iff_of_false (not_misplaced_token atFront) (not_misplaced_token rfl)
  | succ i =>
    unfold Misplaced
    rw [List.getElem?_append_right (Nat.le_add_right _ _), Nat.add_sub_cancel_left, Nat.add_assoc front.length,
      List.getElem?_append_right (Nat.le_add_right _ _), Nat.add_sub_cancel_left, List.length_append, Nat.add_left_cancel_iff]
    simp

/-- The offset of the first misplaced conjunction. -/
def FirstMisplaced (slots : List Slot) (offset : Nat) : Prop :=
  ∃ i, IsLeast {i | Misplaced slots i} i ∧ slots[i]? = some (conjunction offset)

theorem firstMisplaced_append_token (h : ∀ i < front.length, ¬ Misplaced (front ++ token t :: slots) i) (u : Token) :
    FirstMisplaced (front ++ token t :: slots) offset ↔ FirstMisplaced (token u :: slots) offset := by
  have later {i : Nat} (hi : Misplaced (front ++ token t :: slots) i) : ∃ j, i = front.length + j :=
    Nat.exists_eq_add_of_le (Nat.le_of_not_lt fun hlt => h i hlt hi)
  have same {i : Nat} (hi : Misplaced (front ++ token t :: slots) (front.length + i)) :
      (front ++ token t :: slots)[front.length + i]? = some (conjunction offset) ↔
        (token u :: slots)[i]? = some (conjunction offset) := by
    rw [List.getElem?_append_right (Nat.le_add_right _ _), Nat.add_sub_cancel_left]
    cases i with
    | zero => exact absurd hi (not_misplaced_token (t := t) (by simp))
    | succ i => rfl
  constructor
  · rintro ⟨i, ⟨hi, hleast⟩, hoffset⟩
    obtain ⟨i, rfl⟩ := later hi
    refine ⟨i, ⟨(misplaced_append_token ..).1 hi, fun j hj => ?_⟩, (same hi).1 hoffset⟩
    exact Nat.le_of_add_le_add_left (hleast ((misplaced_append_token ..).2 hj))
  · rintro ⟨i, ⟨hi, hleast⟩, hoffset⟩
    have hlater := (misplaced_append_token front slots t u i).2 hi
    refine ⟨front.length + i, ⟨hlater, fun j hj => ?_⟩, (same hlater).2 hoffset⟩
    obtain ⟨j, rfl⟩ := later hj
    exact Nat.add_le_add_left (hleast ((misplaced_append_token ..).1 hj)) _

theorem firstMisplaced_of_misplaced (h : Misplaced slots i) (hleast : ∀ j < i, ¬ Misplaced slots j) :
    FirstMisplaced slots offset ↔ slots[i]? = some (conjunction offset) := by
  have hi : IsLeast {i | Misplaced slots i} i := ⟨h, fun j hj => Nat.le_of_not_lt fun hlt => hleast j hlt hj⟩
  constructor
  · rintro ⟨j, hj, hoffset⟩
    rwa [hj.unique hi] at hoffset
  · exact fun hoffset => ⟨i, hi, hoffset⟩

theorem error_eq_iff_of_misplaced (h : Misplaced slots i) (hleast : ∀ j < i, ¬ Misplaced slots j)
    (hi : slots[i]? = some (conjunction offset)) : (.error ⟨.intersection, offset⟩ : Except SyntaxError (List Token)) = .error e ↔
      ∃ offset, FirstMisplaced slots offset ∧ e = ⟨.intersection, offset⟩ := by
  simp only [firstMisplaced_of_misplaced h hleast]
  constructor
  · intro herror
    exact ⟨offset, hi, (Except.error.inj herror).symm⟩
  · rintro ⟨other, hother, rfl⟩
    obtain ⟨⟩ := hi.symm.trans hother
    rfl

theorem exists_firstMisplaced_iff : (∃ offset, FirstMisplaced slots offset) ↔ ∃ i, Misplaced slots i := by
  classical
  constructor
  · rintro ⟨offset, i, ⟨hi, -⟩, -⟩
    exact ⟨i, hi⟩
  · intro hex
    obtain ⟨offset, hoffset, -⟩ := Nat.find_spec hex
    exact ⟨offset, Nat.find hex, ⟨Nat.find_spec hex, fun j hj => Nat.find_min' hex hj⟩, hoffset⟩

/-- To the fold it does not matter which members have been found so far, only that there are some. -/
theorem foldConjunctions_cons_eq_error_iff : foldConjunctions (t :: members) slots = .error e ↔
    ∃ offset, FirstMisplaced (token t :: slots) offset ∧ e = ⟨.intersection, offset⟩ := by
  generalize hopen : t :: members = opened
  fun_induction foldConjunctions opened slots generalizing t members with
  | case1 =>
    refine iff_of_false (fun h => ?_) ?_
    · contradiction
    · rintro ⟨offset, ⟨i, ⟨hi, -⟩, hoffset⟩, -⟩
      cases i with
      | zero => exact not_misplaced_token rfl hi
      | succ i => contradiction
  | case2 opened u slots ih =>
    have settled : ∀ i < [token t].length, ¬ Misplaced ([token t] ++ token u :: slots) i := by
      intro i hi
      obtain rfl : i = 0 := Nat.lt_one_iff.1 hi
      exact not_misplaced_token rfl
    simp only [ih rfl, ← firstMisplaced_append_token settled u]
    rfl
  | case3 left opened o right slots ih =>
    obtain ⟨rfl, rfl⟩ := List.cons.inj hopen
    have settled : ∀ i < [token t, conjunction o].length,
        ¬ Misplaced ([token t, conjunction o] ++ token right :: slots) i := by
      intro i hi
      cases i with
      | zero => exact not_misplaced_token rfl
      | succ i =>
        obtain rfl : i = 0 := Nat.lt_one_iff.1 (Nat.lt_of_succ_lt_succ hi)
        simp [Misplaced]
    simp only [ih rfl, ← firstMisplaced_append_token settled (.both t right)]
    rfl
  | case4 opened o slots hrest =>
    subst hopen
    have misplaced : Misplaced (token t :: conjunction o :: slots) 1 := by
      refine ⟨o, rfl, ?_⟩
      cases slots with
      | nil => exact .inr (.inl rfl)
      | cons slot rest =>
        cases slot with
        | token right => exact (hrest t members right rest rfl rfl).elim
        | conjunction next => exact .inr (.inr ⟨next, rfl⟩)
    have first : ∀ j < 1, ¬ Misplaced (token t :: conjunction o :: slots) j := by
      intro j hj
      obtain rfl : j = 0 := Nat.lt_one_iff.1 hj
      exact not_misplaced_token rfl
    exact error_eq_iff_of_misplaced misplaced first rfl

theorem foldConjunctions_eq_error_iff : foldConjunctions [] slots = .error e ↔
    ∃ offset, FirstMisplaced slots offset ∧ e = ⟨.intersection, offset⟩ := by
  match slots with
  | [] =>
    refine iff_of_false (fun h => ?_) ?_
    · contradiction
    · rintro ⟨offset, ⟨i, -, hoffset⟩, -⟩
      contradiction
  | token t :: slots => exact foldConjunctions_cons_eq_error_iff
  | conjunction o :: slots =>
    have misplaced : Misplaced (conjunction o :: slots) 0 := ⟨o, rfl, .inl rfl⟩
    have hfold : foldConjunctions [] (conjunction o :: slots) = .error ⟨.intersection, o⟩ := by simp [foldConjunctions]
    rw [hfold]
    exact error_eq_iff_of_misplaced misplaced (fun j hj => absurd hj (Nat.not_lt_zero j)) rfl

theorem exists_foldConjunctions_iff : (∃ members, foldConjunctions [] slots = .ok members) ↔ ∀ i, ¬ Misplaced slots i := by
  rw [← not_exists, ← exists_firstMisplaced_iff]
  constructor
  · rintro ⟨members, h⟩ ⟨offset, hoffset⟩
    rw [foldConjunctions_eq_error_iff.2 ⟨offset, hoffset, rfl⟩] at h
    contradiction
  · intro h
    cases hfold : foldConjunctions [] slots with
    | ok members => exact ⟨members, rfl⟩
    | error e =>
      obtain ⟨offset, hoffset, -⟩ := foldConjunctions_eq_error_iff.1 hfold
      exact (h ⟨offset, hoffset⟩).elim

/-- A set accepts what all members of some maximal chain accept, and what none does if it is negated. -/
theorem accepts_set_of_foldConjunctions (h : foldConjunctions [] slots = .ok members) (negated : Bool) (c : Char) :
    (Token.set members negated).accepts c = true ↔ Xor (negated = true)
      (∃ t more, MaximalChain (slots.map token?) t more ∧ ∀ u ∈ t :: more, u.accepts c = true) := by
  obtain ⟨chains, hchains, rfl⟩ := foldConjunctions_eq_ok_iff.1 h
  have hany : ((Chains.members chains).any (·.accepts c) = true) ↔
      ∃ t more, MaximalChain (slots.map token?) t more ∧ ∀ u ∈ t :: more, u.accepts c = true := by
    simp [Chains.members, Token.accepts_meet, ← hchains.mem_iff_maximalChain]
  rw [Token.accepts_set, ← hany]
  cases negated <;> simp [Xor]

/-- The slots of a set fold just if each conjunction stands between two members. If not, the first conjunction that does not
is at fault. If they do, a conjunction joins the members next to it only, and it binds tighter than the union that the set is:
what the set accepts is what all members of some maximal chain accept. -/
theorem foldConjunctions_exact (slots : List Slot) :
    ((∃ members, foldConjunctions [] slots = .ok members) ↔ ∀ i, ¬ Misplaced slots i) ∧
    (∀ e, foldConjunctions [] slots = .error e ↔ ∃ i offset, IsLeast {i | Misplaced slots i} i ∧
      slots[i]? = some (conjunction offset) ∧ e = ⟨.intersection, offset⟩) ∧
    ∀ members, foldConjunctions [] slots = .ok members → ∀ negated c,
      ((Token.set members negated).accepts c = true ↔ Xor (negated = true)
        (∃ t more, MaximalChain (slots.map token?) t more ∧ ∀ u ∈ t :: more, u.accepts c = true)) := by
  refine ⟨exists_foldConjunctions_iff, fun e => ?_, fun members h => accepts_set_of_foldConjunctions h⟩
  rw [foldConjunctions_eq_error_iff]
  constructor
  · rintro ⟨offset, ⟨i, hi, hoffset⟩, rfl⟩
    exact ⟨i, offset, hi, hoffset, rfl⟩
  · rintro ⟨i, offset, hi, hoffset, rfl⟩
    exact ⟨offset, ⟨i, hi, hoffset⟩, rfl⟩

/-- A chain of a range and a set, and a literal on its own. -/
theorem foldConjunctions_exact_two_chains :
    foldConjunctions [] [token (.range 'a' 'z'), conjunction 4, token (.set [.literal 'm'] true), token (.literal '-')] =
        .ok [.both (.range 'a' 'z') (.set [.literal 'm'] true), .literal '-'] ∧
      ((Token.set [.both (.range 'a' 'z') (.set [.literal 'm'] true), .literal '-'] true).accepts 'm' = true ↔
        Xor (true = true) (∃ t more, MaximalChain [some (.range 'a' 'z'), none, some (.set [.literal 'm'] true),
          some (.literal '-')] t more ∧ ∀ u ∈ t :: more, u.accepts 'm' = true)) := by
  have h : foldConjunctions [] [token (.range 'a' 'z'), conjunction 4, token (.set [.literal 'm'] true),
      token (.literal '-')] = .ok [.both (.range 'a' 'z') (.set [.literal 'm'] true), .literal '-'] := rfl
  exact ⟨h, (foldConjunctions_exact _).2.2 _ h true 'm'⟩

end Slot
end RegexSearch
