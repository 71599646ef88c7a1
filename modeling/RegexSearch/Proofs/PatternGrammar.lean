import RegexSearch.Proofs.Concatenation
import RegexSearch.Proofs.DerivedReadings
import RegexSearch.Proofs.ScanInvariant

/-! A pattern is accepted just where the grammar derives it, and its tokens are those that the derivation yields. -/
namespace RegexSearch
open Slot Pattern

variable {pattern : List Char} {body tokens : List Token} {d : Draft}

theorem mapM_eq_ok_iff {α β ε : Type} {f : α → Except ε β} {g : β → α} (h : ∀ {x y}, f x = .ok y ↔ x = g y) {xs : List α}
    {ys : List β} : xs.mapM f = .ok ys ↔ xs = ys.map g := by
  induction xs generalizing ys with
  | nil => cases ys <;> simp [pure, Except.pure]
  | cons x xs ih =>
    rw [List.mapM_cons, bind_eq_ok_iff]
    cases ys <;> simp [bind_eq_ok_iff, pure, Except.pure, h, ih]

theorem Draft.complete_eq_ok_iff {length : Nat} :
    d.complete length = .ok body ↔ d.opened = [] ∧ d.slots = (body.map Slot.token).reverse := by
  unfold Draft.complete
  split
  · next hopened =>
    rw [mapM_eq_ok_iff (g := Slot.token)]
    · simp [hopened, List.reverse_eq_iff]
    · intro slot t
      cases slot <;> simp
  · next hopened => simp [hopened]

namespace Pattern

theorem resume_start (pattern : List Char) : Draft.resume {} none pattern.length pattern = draft pattern := by
  unfold Draft.resume Scan.outcome draft
  rw [Nat.sub_self]

theorem draft_of_derives (h : Derives pattern body) :
    ∃ end?, draft pattern = .ok ⟨(body.map Slot.token).reverse, [], end?⟩ ∧
      Leads false pattern.length pattern none end? := by
  have hfollows : Follows {} false pattern.length pattern (body.map some) [] :=
    h.follows rfl (fun _ => rfl) (Nat.le_refl pattern.length)
  obtain ⟨slots, end?, hslots, hleads, hresume⟩ := hfollows
  obtain rfl := map_token?_eq_some.1 hslots
  rw [resume_start, Draft.resume_nil, List.append_nil] at hresume
  exact ⟨end?, hresume, hleads⟩

theorem Leads.isGroup (h : Leads false pattern.length pattern none (some pattern.length)) : IsGroup pattern := by
  obtain h | ⟨-, inner, inside, rest, rfl, hinner, hend⟩ := h
  · contradiction
  · have hle := hinner.length_le
    have hrest : rest.length = 0 := by
      simp only [List.length_cons, Option.some.injEq] at hle hend
      omega
    obtain rfl := List.length_eq_zero_iff.1 hrest
    exact ⟨inner, inside, rfl, hinner⟩

-- `Leads` only says what the end may become, so the group is read once more here to see that it is set.
theorem leadingGroupEnd?_of_isGroup (h : IsGroup pattern) (k : draft pattern = .ok d) :
    d.leadingGroupEnd? = some pattern.length := by
  obtain ⟨inner, inside, rfl, hinner⟩ := h
  have hlength : 0 + (inner.length + 1) = ('(' :: inner).length := Nat.zero_add _
  have hinside : Follows (Draft.openGroup {} 0) false ('(' :: inner).length inner inside [')'] :=
    hinner.follows rfl (fun _ => Draft.negateSet?_of_ne_nil (List.cons_ne_nil _ _)) (Nat.le_succ _)
  obtain ⟨slots, -, hresume⟩ := resume_group hlength hinner hinside
  rw [resume_start, k] at hresume
  obtain rfl := Except.ok.inj hresume
  rfl

theorem derives_of_complete (h : draft pattern = .ok d) (k : d.complete pattern.length = .ok body) :
    Derives pattern body := by
  obtain ⟨hopened, hslots⟩ := Draft.complete_eq_ok_iff.1 k
  have hread := partial_of_draft h
  rw [hopened, hslots] at hread
  have hpieces := hread.pieces
  rw [List.reverse_reverse, map_token?_eq_some.2 rfl] at hpieces
  exact hpieces

theorem complete_of_derives (h : Derives pattern body) : ∃ d, draft pattern = .ok d ∧
    d.complete pattern.length = .ok body ∧ (d.leadingGroupEnd? = some pattern.length ↔ IsGroup pattern) := by
  obtain ⟨end?, hdraft, hleads⟩ := draft_of_derives h
  refine ⟨_, hdraft, Draft.complete_eq_ok_iff.2 ⟨rfl, rfl⟩, ?_, fun hgroup => leadingGroupEnd?_of_isGroup hgroup hdraft⟩
  rintro rfl
  exact hleads.isGroup

theorem body_eq_ok_iff : Pattern.body pattern = .ok body ↔ Derives pattern body := by
  constructor
  · intro h
    obtain ⟨d, hdraft, hcomplete⟩ := bind_eq_ok_iff.1 h
    exact derives_of_complete hdraft hcomplete
  · intro h
    obtain ⟨d, hdraft, hcomplete, -⟩ := complete_of_derives h
    exact bind_eq_ok_iff.2 ⟨d, hdraft, hcomplete⟩

theorem Derives.unique {other : List Token} (h : Derives pattern body) (k : Derives pattern other) : body = other :=
  Except.ok.inj ((body_eq_ok_iff.2 h).symm.trans (body_eq_ok_iff.2 k))

theorem exists_derives_of_tokens (h : Pattern.tokens pattern = .ok tokens) : ∃ body, Derives pattern body := by
  obtain ⟨d, hdraft, h⟩ := bind_eq_ok_iff.1 h
  obtain ⟨body, hcomplete, -⟩ := bind_eq_ok_iff.1 h
  exact ⟨body, derives_of_complete hdraft hcomplete⟩

theorem tokens_of_isGroup (h : Derives pattern body) (k : IsGroup pattern) : Pattern.tokens pattern = .ok body := by
  obtain ⟨d, hdraft, hcomplete, hgroup⟩ := complete_of_derives h
  refine bind_eq_ok_iff.2 ⟨d, hdraft, bind_eq_ok_iff.2 ⟨body, hcomplete, ?_⟩⟩
  rw [if_pos (hgroup.2 k)]

theorem tokens_of_not_isGroup (h : Derives pattern body) (k : ¬ IsGroup pattern) :
    Pattern.tokens pattern = .ok (.operator .openParen :: (body ++ [.operator .closeParen])) := by
  obtain ⟨d, hdraft, hcomplete, hgroup⟩ := complete_of_derives h
  refine bind_eq_ok_iff.2 ⟨d, hdraft, bind_eq_ok_iff.2 ⟨body, hcomplete, ?_⟩⟩
  rw [if_neg fun hend => k (hgroup.1 hend)]

/-- Accepted tokens are one group, and what is in it has been read from a part of the pattern. -/
theorem exists_pieces_of_tokens (h : Pattern.tokens pattern = .ok tokens) : ∃ inside text rest,
    tokens = .operator .openParen :: (inside ++ [.operator .closeParen]) ∧
      Pieces false false text (inside.map some) rest := by
  obtain ⟨body, hbody⟩ := exists_derives_of_tokens h
  by_cases hgroup : IsGroup pattern
  · obtain rfl : tokens = body := Except.ok.inj (h.symm.trans (tokens_of_isGroup hbody hgroup))
    obtain ⟨inner, inside, -, hinner, hwhole⟩ := hgroup.exists_inside
    exact ⟨inside, inner, _, hbody.unique hwhole, hinner⟩
  · obtain rfl := Except.ok.inj (h.symm.trans (tokens_of_not_isGroup hbody hgroup))
    exact ⟨body, pattern, [], rfl, hbody⟩

theorem tokens_eq_ok_iff (pattern : List Char) (tokens : List Token) :
    Pattern.tokens pattern = .ok tokens ↔ ∃ body, Derives pattern body ∧
      (IsGroup pattern ∧ tokens = body ∨
        ¬ IsGroup pattern ∧ tokens = .operator .openParen :: (body ++ [.operator .closeParen])) := by
  constructor
  · intro h
    obtain ⟨body, hderives⟩ := exists_derives_of_tokens h
    refine ⟨body, hderives, ?_⟩
    by_cases hgroup : IsGroup pattern
    · exact .inl ⟨hgroup, Except.ok.inj (h.symm.trans (tokens_of_isGroup hderives hgroup))⟩
    · exact .inr ⟨hgroup, Except.ok.inj (h.symm.trans (tokens_of_not_isGroup hderives hgroup))⟩
  · rintro ⟨body, hderives, ⟨hgroup, rfl⟩ | ⟨hgroup, rfl⟩⟩
    · exact tokens_of_isGroup hderives hgroup
    · exact tokens_of_not_isGroup hderives hgroup

end Pattern
end RegexSearch
