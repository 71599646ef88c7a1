import RegexSearch.Proofs.PartialDerivations
import RegexSearch.Proofs.Readings

/-! The invariant of the scan: its state is a derivation in progress up to the text that is left, with what is held back put
before that text, and with a range in progress kept out of the derivation until its upper end has come. -/
namespace RegexSearch
open Pattern

namespace Sign

def char? : Sign → Option Char
  | escape => some '\\'
  | wildcard => some '.'
  | operator op => some op.char
  | openGroup => some '('
  | closeGroup => some ')'
  | openSet => some '['
  | closeSet => some ']'
  | openCount => some '{'
  | closeCount => some '}'
  | caret => some '^'
  | dash => some '-'
  | ampersand => some '&'
  | literal => none

theorem char?_ofChar {c : Char} (h : c ∈ metacharacters) : (ofChar c).char? = some c := by
  have key : metacharacters.all (fun c => (ofChar c).char? == some c) = true := by decide
  exact beq_iff_eq.1 (List.all_eq_true.1 key c h)

theorem eq_of_char? {c a : Char} {sign : Sign} (h : ofChar c = sign) (ha : sign.char? = some a) : c = a := by
  subst h
  by_cases hmem : c ∈ metacharacters
  · rw [char?_ofChar hmem] at ha
    exact Option.some.inj ha
  · rw [ofChar_eq_literal hmem] at ha
    contradiction

theorem not_mem_metacharacters {c : Char} (h : ofChar c = literal) : c ∉ metacharacters := by
  intro hmem
  have hchar := char?_ofChar hmem
  rw [h] at hchar
  contradiction

theorem ne_paren {c : Char} {op : Operator} (h : ofChar c = operator op) : op ≠ .openParen ∧ op ≠ .closeParen := by
  constructor
  · rintro rfl
    obtain rfl := eq_of_char? h rfl
    contradiction
  · rintro rfl
    obtain rfl := eq_of_char? h rfl
    contradiction

end Sign

/-- What the scan makes of a range whose upper end is still to come: the derivation goes up to its lower end. After a chain of
dashes no pattern can be completed. -/
inductive Pending (pattern : List Char) (d : Draft) : Option PendingRange → List Char → Prop
  | settled {text : List Char} (h : Partial pattern d.opened d.slots text) : Pending pattern d none text
  | range {before : List Slot} {text mid : List Char} {lo : Char} {dash : Nat} (h : Partial pattern d.opened before mid)
    (hslots : d.slots = .token (.literal lo) :: before)
    (k : Literal (anySet d.opened) (negatable d.opened && before.isEmpty) mid lo ('-' :: text)) :
    Pending pattern d (some ⟨lo, dash, false⟩) text
  | chained {text : List Char} {lo : Char} {dash : Nat} : Pending pattern d (some ⟨lo, dash, true⟩) text

def Held.text : Option Held → List Char
  | none => []
  | some (.escape _) => ['\\']
  | some (.ampersand _) => ['&']

/-- The invariant between two characters. -/
structure Reached (pattern : List Char) (s : Scan) (text : List Char) : Prop where
  pending : Pending pattern s.draft s.range? (Held.text s.held? ++ text)
  inSet : ∀ offset, s.held? = some (.ampersand offset) → s.draft.inSet = true

variable {pattern text front rest : List Char} {s t : Scan} {d : Draft} {c : Char} {offset : Nat} {first : Bool}

theorem Pending.of_none (h : Pending pattern d none text) : Partial pattern d.opened d.slots text := by
  cases h with
  | settled h => exact h

theorem rangeToken_eq_ok {lo : Char} {token : Token} (h : Scan.rangeToken lo c offset = .ok token) :
    lo < c ∧ .range lo c = token := by
  unfold Scan.rangeToken Token.range? at h
  split_ifs at h with hlt
  exact ⟨hlt, Except.ok.inj h⟩

theorem Pending.literal (h : Pending pattern s.draft s.range? text)
    (k : Literal s.draft.inSet (negatable s.draft.opened && s.draft.slots.isEmpty) text c rest)
    (hread : s.literal offset c = .ok t) : Pending pattern t.draft t.range? rest ∧ t.held? = s.held? := by
  unfold Scan.literal at hread
  split at hread
  · next hrange =>
    rw [hrange] at h
    obtain rfl := Except.ok.inj hread
    refine ⟨?_, rfl⟩
    rw [hrange]
    exact .settled (h.of_none.token (.literal k))
  · next r hrange =>
    rw [hrange] at h
    obtain ⟨token, htoken, hread⟩ := bind_eq_ok_iff.1 hread
    obtain ⟨lt, rfl⟩ := rangeToken_eq_ok htoken
    split_ifs at hread with hchained
    obtain rfl := Except.ok.inj hread
    cases h with
    | chained => contradiction
    | @range before _ mid lo _ h hslots klo =>
      -- The lower end is still the latest slot, so the upper end is not the first piece.
      rw [hslots, List.isEmpty_cons, Bool.and_false] at k
      have hrange := h.token (.range klo k lt)
      refine ⟨.settled ?_, rfl⟩
      rw [Draft.replaceLast, hslots]
      exact hrange

theorem Reached.of_pending (hheld : s.held? = none) (h : Pending pattern s.draft s.range? text) :
    Reached pattern s text := by
  refine ⟨?_, fun _ k => ?_⟩
  · rw [hheld]
    exact h
  · rw [hheld] at k
    contradiction

theorem Reached.structural {change : Except SyntaxError Draft} (h : Pending pattern s.draft s.range? front)
    (hheld : s.held? = none) (hread : s.structural offset change = .ok t)
    (hchange : ∀ d, change = .ok d → Partial pattern s.draft.opened s.draft.slots front →
      Partial pattern d.opened d.slots text) : Reached pattern t text := by
  obtain ⟨d, hd, hread⟩ := bind_eq_ok_iff.1 hread
  split at hread
  · next hrange =>
    rw [hrange] at h
    obtain rfl := Except.ok.inj hread
    have key : Pending pattern d s.range? text := by
      rw [hrange]
      exact .settled (hchange d hd h.of_none)
    exact of_pending hheld key
  · contradiction

theorem Reached.structural_ok (h : Pending pattern s.draft s.range? front) (hheld : s.held? = none)
    (hread : s.structural offset (.ok d) = .ok t)
    (hchange : Partial pattern s.draft.opened s.draft.slots front → Partial pattern d.opened d.slots text) :
    Reached pattern t text :=
  structural h hheld hread fun _ hd => Except.ok.inj hd ▸ hchange

theorem Reached.literal (h : Pending pattern s.draft s.range? front) (hheld : s.held? = none)
    (k : Literal s.draft.inSet (negatable s.draft.opened && s.draft.slots.isEmpty) front c text)
    (hread : s.literal offset c = .ok t) : Reached pattern t text := by
  obtain ⟨hpending, hnext⟩ := h.literal k hread
  exact of_pending (hnext.trans hheld) hpending

theorem Reached.dash (h : Pending pattern s.draft s.range? ('-' :: text)) (hheld : s.held? = none)
    (hread : s.dash offset = .ok t) : Reached pattern t text := by
  unfold Scan.dash at hread
  split at hread
  · obtain rfl := Except.ok.inj hread
    exact of_pending hheld .chained
  · next hrange =>
    rw [hrange] at h
    split at hread
    · next lo hlast =>
      obtain rfl := Except.ok.inj hread
      obtain ⟨slot, hhead, hslot⟩ := Option.bind_eq_some_iff.1 hlast
      obtain rfl := Slot.literal?_eq_some.1 hslot
      obtain ⟨before, hslots⟩ := List.head?_eq_some_iff.1 hhead
      have hread := h.of_none
      rw [hslots] at hread
      obtain ⟨mid, hbefore, hliteral⟩ := hread.lastLiteral
      exact of_pending hheld (.range hbefore hslots hliteral)
    · contradiction

theorem Reached.caret (h : Pending pattern s.draft s.range? ('^' :: text)) (hheld : s.held? = none)
    (hread : (match s.draft.negateSet? with
      | some draft => s.structural offset (.ok draft)
      | none => if s.draft.inSet then s.literal offset '^' else .error ⟨.unmatchedOperator, offset⟩) = .ok t) :
    Reached pattern t text := by
  split at hread
  · next hnegate => exact structural_ok h hheld hread fun k => k.negate hnegate
  · next hnegate =>
    split_ifs at hread with hset
    have k : Literal true false ('^' :: text) '^' text := .caretInSet
    rw [← hset, ← negatable_of_negateSet?_eq_none hnegate] at k
    exact literal h hheld k hread

theorem Reached.ampersand (h : Pending pattern s.draft s.range? ('&' :: text)) (hheld : s.held? = none)
    (hread : (if s.draft.inSet then .ok { s with held? := some (.ampersand offset) } else s.literal offset '&') = .ok t) :
    Reached pattern t text := by
  split_ifs at hread with hset
  · obtain rfl := Except.ok.inj hread
    exact ⟨h, fun _ _ => hset⟩
  · have k : Literal false (negatable s.draft.opened && s.draft.slots.isEmpty) ('&' :: text) '&' text := .ampersand
    rw [← Bool.eq_false_iff.2 hset] at k
    exact literal h hheld k hread

theorem Reached.read (h : Pending pattern s.draft s.range? (c :: text)) (hheld : s.held? = none)
    (hread : s.read offset c = .ok t) : Reached pattern t text := by
  cases hsign : Sign.ofChar c with
  | literal =>
    rw [Scan.read, hsign] at hread
    exact literal h hheld (.plain (Sign.not_mem_metacharacters hsign)) hread
  | operator op =>
    obtain ⟨hopen, hclose⟩ := Sign.ne_paren hsign
    rw [Scan.read, hsign] at hread
    obtain rfl := Sign.eq_of_char? hsign rfl
    exact structural_ok h hheld hread fun k => k.token (.operator hopen hclose)
  | escape =>
    obtain rfl := Sign.eq_of_char? hsign rfl
    obtain rfl := Except.ok.inj hread
    exact ⟨h, nofun⟩
  | wildcard =>
    obtain rfl := Sign.eq_of_char? hsign rfl
    exact structural_ok h hheld hread fun k => k.token .wildcard
  | openGroup =>
    obtain rfl := Sign.eq_of_char? hsign rfl
    exact structural_ok h hheld hread fun k => .enter .group offset k
  | closeGroup =>
    obtain rfl := Sign.eq_of_char? hsign rfl
    exact structural h hheld hread fun _ hd k => k.closeGroup hd
  | openSet =>
    obtain rfl := Sign.eq_of_char? hsign rfl
    exact structural_ok h hheld hread fun k => .enter (.set false) offset k
  | closeSet =>
    obtain rfl := Sign.eq_of_char? hsign rfl
    exact structural h hheld hread fun _ hd k => k.closeSet hd
  | openCount =>
    obtain rfl := Sign.eq_of_char? hsign rfl
    exact structural_ok h hheld hread fun k => .enter .count offset k
  | closeCount =>
    obtain rfl := Sign.eq_of_char? hsign rfl
    exact structural h hheld hread fun _ hd k => k.closeCount hd
  | caret =>
    obtain rfl := Sign.eq_of_char? hsign rfl
    exact caret h hheld hread
  | dash =>
    obtain rfl := Sign.eq_of_char? hsign rfl
    exact dash h hheld hread
  | ampersand =>
    obtain rfl := Sign.eq_of_char? hsign rfl
    exact ampersand h hheld hread

theorem Reached.step (h : Reached pattern s (c :: text)) (hstep : s.step c = .ok t) : Reached pattern t text := by
  have hpending := h.pending
  obtain ⟨next, key, rfl⟩ : ∃ next, Reached pattern next text ∧ { next with offset := s.offset + 1 } = t := by
    unfold Scan.step at hstep
    split at hstep
    · next hheld =>
      obtain ⟨next, hnext, ht⟩ := bind_eq_ok_iff.1 hstep
      rw [hheld] at hpending
      exact ⟨next, .read hpending hheld hnext, Except.ok.inj ht⟩
    · next hheld =>
      obtain ⟨next, hnext, ht⟩ := bind_eq_ok_iff.1 hstep
      rw [hheld] at hpending
      exact ⟨next, .literal (s := s.resume) hpending rfl .escaped hnext, Except.ok.inj ht⟩
    · next offset hheld =>
      have hset := h.inSet _ hheld
      rw [hheld] at hpending
      split_ifs at hstep with hc
      -- The second `&` makes a conjunction of both; any other character makes the first one a literal and is then read itself.
      · subst hc
        obtain ⟨next, hnext, ht⟩ := bind_eq_ok_iff.1 hstep
        have hchange (k : Partial pattern s.draft.opened s.draft.slots ('&' :: '&' :: text)) :
            Partial pattern s.draft.opened (.conjunction offset :: s.draft.slots) text :=
          k.conjunction hset offset
        exact ⟨next, .structural_ok (s := s.resume) hpending rfl hnext hchange, Except.ok.inj ht⟩
      · obtain ⟨before, hbefore, hstep⟩ := bind_eq_ok_iff.1 hstep
        obtain ⟨next, hnext, ht⟩ := bind_eq_ok_iff.1 hstep
        have k : Literal true (negatable s.draft.opened && s.draft.slots.isEmpty) ('&' :: c :: text) '&' (c :: text) :=
          .ampersandInSet (by simpa using hc)
        rw [← hset] at k
        obtain ⟨hliteral, hheld⟩ := Pending.literal (s := s.resume) hpending k hbefore
        exact ⟨next, .read hliteral hheld hnext, Except.ok.inj ht⟩
  exact ⟨key.pending, key.inSet⟩

theorem Reached.scanFrom (h : Reached pattern s text) (k : scanFrom s text = .ok t) : Reached pattern t [] := by
  induction text generalizing s with
  | nil =>
    obtain rfl := Except.ok.inj k
    exact h
  | cons c text ih =>
    unfold Pattern.scanFrom at k
    rw [List.foldlM_cons] at k
    obtain ⟨next, hnext, k⟩ := bind_eq_ok_iff.1 k
    exact ih (h.step hnext) k

theorem Reached.release (h : Reached pattern s []) (k : s.release = .ok t) : Pending pattern t.draft t.range? [] := by
  have hpending := h.pending
  unfold Scan.release at k
  split at k
  · next hheld =>
    rw [hheld] at hpending
    obtain rfl := Except.ok.inj k
    exact hpending
  · contradiction
  · next hheld =>
    have hset := h.inSet _ hheld
    rw [hheld] at hpending
    have hliteral : Literal true (negatable s.draft.opened && s.draft.slots.isEmpty) ['&'] '&' [] :=
      .ampersandInSet (by simp)
    rw [← hset] at hliteral
    exact (hpending.literal (s := s.resume) hliteral k).1

theorem Reached.finish (h : Reached pattern s []) (k : s.finish = .ok d) : Partial pattern d.opened d.slots [] := by
  obtain ⟨released, hrelease, k⟩ := bind_eq_ok_iff.1 k
  have hpending := h.release hrelease
  split at k
  · contradiction
  · next hrange =>
    obtain rfl := Except.ok.inj k
    rw [hrange] at hpending
    exact hpending.of_none

theorem partial_of_draft (h : draft pattern = .ok d) : Partial pattern d.opened d.slots [] := by
  obtain ⟨s, hscan, hfinish⟩ := bind_eq_ok_iff.1 h
  have initial : Reached pattern {} pattern := .of_pending rfl (.settled .start)
  exact (initial.scanFrom hscan).finish hfinish

end RegexSearch
