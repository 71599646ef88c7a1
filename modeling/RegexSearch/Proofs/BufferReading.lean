import RegexSearch.Proofs.FaultOffsets
import RegexSearch.Proofs.FlatDrafts

/-! Reading into a buffer and reading into a draft come to the same. The scan holds back what the buffer reads ahead, so the two
are compared where both have read one thing more, the upper end of a range being read a second time as if it stood alone. -/
namespace RegexSearch
open Slot Pattern

/-- The draft is what has been read of a pattern of `n` characters, all of it but the text. -/
structure Draft.Fits (n : Nat) (text : List Char) (d : Draft) : Prop where
  conjoined : Conjoined (fun _ => True) d.slots d.opened
  length_le : text.length ≤ n
  leadingGroupEnd_le : ∀ k, d.leadingGroupEnd? = some k → k + text.length ≤ n

/-- The scan takes the character for this change of the draft, whether a range is in progress or not. -/
def Draft.Changes (d : Draft) (offset : Nat) (c : Char) (change : Except SyntaxError Draft) : Prop :=
  ∀ range?, Scan.read ⟨d, offset, range?, none⟩ offset c = Scan.structural ⟨d, offset, range?, none⟩ offset change

/-- The last slot cannot be the upper end of a range that starts behind so many slots. -/
def Buffer.NoUpperEnd (before : Nat) (b : Buffer) : Prop :=
  ∀ lo offset, b.joinRange lo before offset = reject .characterRange offset

variable {d d' : Draft} {n : Nat} {text rest : List Char} {c lo : Char} {change : Except SyntaxError Draft} {slot : Slot}

/-- What becomes of reading one thing into the buffer of a draft, and of reading the same text into the draft. In the second
reading a range may be in progress, and then the thing is its upper end. -/
inductive Draft.Reads (n : Nat) (d : Draft) (text : List Char) : Except Stop (Buffer × List Char) → Prop
  | literal {first : Bool} {c : Char} {rest : List Char} (h : Literal d.inSet first text c rest)
    (hfirst : first = false → d.negateSet? = none) : Reads n d text (.ok ((d.emit (.literal c)).flat n, rest))
  | other {d' : Draft} {rest : List Char} (h : d'.Fits n rest) (hupper : (d'.flat n).NoUpperEnd (d.flat n).slots.length)
    (alone : d.resume none n text = d'.resume none n rest)
    (upperEnd : ∀ r, d.lastLiteral? = some r.lo →
      d.resume (some r) n text = .error ⟨.characterRange, n - text.length⟩) : Reads n d text (.ok (d'.flat n, rest))
  | rejected {e : SyntaxError} (alone : d.resume none n text = .error e)
    (upperEnd : ∀ r, d.lastLiteral? = some r.lo → d.resume (some r) n text = .error e) :
    Reads n d text (.error (.rejected e))

namespace Draft

namespace Fits

theorem start (pattern : List Char) : Fits pattern.length pattern {} :=
  ⟨fun _ => List.not_mem_nil, Nat.le_refl _, nofun⟩

theorem advance (h : d.Fits n text) (hlen : rest.length ≤ text.length)
    (conjoined : Conjoined (fun _ => True) d'.slots d'.opened) (hend : d'.leadingGroupEnd? = d.leadingGroupEnd?) :
    d'.Fits n rest := by
  refine ⟨conjoined, Nat.le_trans hlen h.length_le, fun k hk => ?_⟩
  have key := h.leadingGroupEnd_le k (hend ▸ hk)
  omega

theorem literal (h : d.Fits n text) (hlen : rest.length ≤ text.length) : (d.emit (.literal c)).Fits n rest :=
  h.advance hlen h.conjoined.token rfl

end Fits

theorem noUpperEnd_of_head? {before : Nat} (h : d.slots.head? = some slot) (hslot : slot.literal? = none) :
    (d.flat n).NoUpperEnd before := by
  obtain ⟨slots, hslots⟩ := List.head?_eq_some_iff.1 h
  have hlast : (d.flat n).lastLiteral? = none := by
    rw [lastLiteral?_flat (hslots ▸ List.cons_ne_nil slot slots), lastLiteral?, h]
    exact hslot
  intro lo offset
  rw [Buffer.joinRange, hlast]

theorem noUpperEnd_of_length {b : Buffer} {before : Nat} (h : b.slots.length ≠ before + 1) : b.NoUpperEnd before := by
  intro lo offset
  rw [Buffer.joinRange]
  split
  · rw [if_neg h]
  · rfl

theorem resume_dash (hlen : text.length < n) (h : d.lastLiteral? = some lo) : d.resume none n ('-' :: text) =
    d.resume (some ⟨lo, n - (text.length + 1), false⟩) n text := by
  have hsign : Sign.ofChar '-' = .dash := rfl
  refine resume_cons hlen ?_
  rw [Scan.read, hsign]
  dsimp only [Scan.dash]
  rw [h]

theorem resume_dash_chained {r : PendingRange} (hlen : text.length < n) : d.resume (some r) n ('-' :: text) =
    d.resume (some ⟨r.lo, n - (text.length + 1), true⟩) n text :=
  resume_cons hlen rfl

theorem literal_pending {r : PendingRange} {k offset : Nat} :
    Scan.literal ⟨d, k, some r, none⟩ offset c = match Token.range? r.lo c with
    | some t => if r.chained then .error ⟨.characterRange, r.dash⟩ else .ok ⟨d.replaceLast t, k, none, none⟩
    | none => .error ⟨.characterRange, offset⟩ := by
  unfold Scan.literal Scan.rangeToken
  dsimp only
  cases Token.range? r.lo c <;> rfl

theorem literal?_of_range? {t : Token} (h : Token.range? lo c = some t) : (Slot.token t).literal? = none := by
  unfold Token.range? at h
  split_ifs at h
  obtain rfl := Option.some.inj h
  rfl

theorem joinRange_emit {offset : Nat} (h : d.lastLiteral? = some lo) :
    ((d.emit (.literal c)).flat n).joinRange lo (d.flat n).slots.length offset = match Token.range? lo c with
    | some t => .ok ((d.replaceLast t).flat n)
    | none => Buffer.reject .characterRange offset := by
  obtain ⟨slot, hhead, -⟩ := Option.bind_eq_some_iff.1 h
  obtain ⟨slots, hslots⟩ := List.head?_eq_some_iff.1 hhead
  have hlast : ((d.emit (.literal c)).flat n).lastLiteral? = some c := lastLiteral?_flat (List.cons_ne_nil _ _)
  have hlength : ((d.emit (.literal c)).flat n).slots.length = (d.flat n).slots.length + 1 := by
    rw [← emit_flat]
    exact List.length_append
  have hbefore : (d.flat n).slots.length = (d.outer ++ slots.reverse).length + 1 := by
    rw [length_flat, hslots, List.length_append, List.length_reverse]
    rfl
  have hkept : ((d.emit (.literal c)).flat n).slots.take (d.outer ++ slots.reverse).length = d.outer ++ slots.reverse := by
    have hcat : ((d.emit (.literal c)).flat n).slots = (d.outer ++ slots.reverse) ++ [slot, .token (.literal c)] := by
      simp [slots_flat, emit, push, outer, hslots]
    rw [hcat, List.take_left]
  rw [Buffer.joinRange, hlast]
  dsimp only
  rw [if_pos hlength, hbefore, Buffer.minus, if_pos (Nat.le_add_left 1 _), Nat.add_sub_cancel]
  dsimp only [bind, Except.bind]
  rw [hkept]
  cases Token.range? lo c with
  | none => rfl
  | some t => simp [flat, buffer, outer, marks, emit, push, replaceLast, hslots]

namespace Reads

/-- A character that stands for a change of the draft. -/
theorem structural (h : d.Fits n (c :: text)) (hread : d.Changes (n - (text.length + 1)) c change)
    (hchange : ∀ d', change = .ok d' → d'.Fits n text ∧ (d'.flat n).NoUpperEnd (d.flat n).slots.length) :
    Reads n d (c :: text) (flatResult n change >>= fun b => .ok (b, text)) := by
  cases change with
  | error e =>
    have key (range? : Option PendingRange) : d.resume range? n (c :: text) = .error e := by
      apply resume_eq_error
      rw [hread]
      rfl
    exact .rejected (key none) fun r _ => key (some r)
  | ok d' =>
    obtain ⟨hfits, hupper⟩ := hchange d' rfl
    refine .other hfits hupper (resume_cons h.length_le ?_) fun r _ => resume_eq_error ?_
    · rw [hread]
      rfl
    · rw [hread]
      rfl

theorem structural_ok (h : d.Fits n (c :: text)) (hread : d.Changes (n - (text.length + 1)) c (.ok d'))
    (conjoined : Conjoined (fun _ => True) d'.slots d'.opened) (hend : d'.leadingGroupEnd? = d.leadingGroupEnd?)
    (hupper : (d'.flat n).NoUpperEnd (d.flat n).slots.length) : Reads n d (c :: text) (.ok (d'.flat n, text)) :=
  structural h hread fun _ hd => Except.ok.inj hd ▸ ⟨h.advance (Nat.le_succ _) conjoined hend, hupper⟩

theorem enter {bracket : Bracket} (h : d.Fits n (c :: text))
    (hread : d.Changes (n - (text.length + 1)) c (.ok (d.enter bracket (n - (text.length + 1))))) :
    Reads n d (c :: text) (.ok ((d.flat n).enter bracket (n - (text.length + 1)), text)) := by
  have hlength : ((d.flat n).enter bracket (n - (text.length + 1))).slots.length ≠ (d.flat n).slots.length + 1 :=
    Nat.ne_of_lt (Nat.lt_succ_self _)
  rw [enter_flat] at hlength ⊢
  exact structural_ok h hread h.conjoined.enter rfl (noUpperEnd_of_length hlength)

theorem closeGroup (h : d.Fits n (')' :: text)) : Reads n d (')' :: text)
    ((d.flat n).closeGroup n (n - (text.length + 1)) >>= fun b => .ok (b, text)) := by
  have hend : d.leadingGroupEnd? ≠ some n := by
    intro hn
    have key := h.leadingGroupEnd_le n hn
    rw [List.length_cons] at key
    omega
  rw [closeGroup_flat hend]
  refine structural h (fun _ => rfl) fun d' hd => ?_
  have conjoined := h.conjoined.closeGroup hd
  unfold Draft.closeGroup at hd
  split at hd
  · next start outside opened hopened =>
    obtain rfl := Except.ok.inj hd
    refine ⟨⟨conjoined, Nat.le_of_lt h.length_le, fun k hk => ?_⟩, noUpperEnd_of_head? rfl rfl⟩
    have hlen := h.length_le
    rw [List.length_cons] at hlen
    split_ifs at hk
    · obtain rfl := Option.some.inj hk
      omega
    · have key := h.leadingGroupEnd_le k hk
      rw [List.length_cons] at key
      omega
  · contradiction

theorem closeSet (h : d.Fits n (']' :: text)) : Reads n d (']' :: text)
    ((d.flat n).closeSet (n - (text.length + 1)) >>= fun b => .ok (b, text)) := by
  rw [closeSet_flat]
  refine structural h (fun _ => rfl) fun d' hd => ?_
  have conjoined := h.conjoined.closeSet hd
  unfold Draft.closeSet at hd
  split at hd
  · obtain ⟨members, -, hd⟩ := bind_eq_ok_iff.1 hd
    obtain rfl := Except.ok.inj hd
    exact ⟨h.advance (Nat.le_succ _) conjoined rfl, noUpperEnd_of_head? rfl rfl⟩
  · contradiction

theorem closeCount (h : d.Fits n ('}' :: text)) : Reads n d ('}' :: text)
    ((d.flat n).closeCount (n - (text.length + 1)) >>= fun b => .ok (b, text)) := by
  rw [closeCount_flat h.conjoined]
  refine structural h (fun _ => rfl) fun d' hd => ?_
  have conjoined := h.conjoined.closeCount hd
  unfold Draft.closeCount at hd
  split at hd
  · split_ifs at hd
    split at hd
    · next slots hrepeat =>
      obtain rfl := Except.ok.inj hd
      obtain ⟨_, _, _, before, expansion, -, -, -, hexpansion, rfl⟩ := repeatUnit?_eq_some_iff.1 hrepeat
      obtain ⟨inside, -, rfl⟩ := Option.map_eq_some_iff.1 hexpansion
      have hhead : (((Token.operator .openParen :: (inside ++ [.operator .closeParen])).map token).reverse ++
          before).head? = some (.token (.operator .closeParen)) := by
        simp
      exact ⟨h.advance (Nat.le_succ _) conjoined rfl, noUpperEnd_of_head? hhead rfl⟩
    · contradiction
  · contradiction

theorem negate (h : d.Fits n ('^' :: text)) (k : d.negateSet? = some d') : Reads n d ('^' :: text) (.ok (d'.flat n, text)) := by
  have hslots : (d'.flat n).slots = (d.flat n).slots := by
    have hnegate := negateSet?_flat (d := d) (n := n)
    rw [k] at hnegate
    unfold Buffer.negateSet? at hnegate
    split at hnegate
    · split at hnegate
      · have key := congrArg Buffer.slots (Option.some.inj hnegate).symm
        exact key
      · contradiction
    · contradiction
  have hend : d'.leadingGroupEnd? = d.leadingGroupEnd? := by
    unfold negateSet? at k
    split at k
    · have key := congrArg leadingGroupEnd? (Option.some.inj k).symm
      exact key
    · contradiction
  have hsign : Sign.ofChar '^' = .caret := rfl
  refine structural_ok h (fun range? => ?_) (h.conjoined.negate k) hend (noUpperEnd_of_length ?_)
  · rw [Scan.read, hsign]
    dsimp only
    rw [k]
  · rw [hslots]
    exact Nat.ne_of_lt (Nat.lt_succ_self _)

theorem caret (h : d.Fits n ('^' :: text)) : Reads n d ('^' :: text) ((d.flat n).read n '^' text) := by
  have hsign : Sign.ofChar '^' = .caret := rfl
  rw [Buffer.read.eq_def, hsign]
  dsimp only
  rw [negateSet?_flat, inSet_flat, emit_flat]
  cases hnegate : d.negateSet? with
  | some d' => exact negate h hnegate
  | none =>
    cases hset : d.inSet with
    | true =>
      have key : Literal d.inSet false ('^' :: text) '^' text := hset ▸ .caretInSet
      exact .literal key fun _ => hnegate
    | false =>
      have key (range? : Option PendingRange) :
          d.resume range? n ('^' :: text) = .error ⟨.unmatchedOperator, n - (text.length + 1)⟩ := by
        apply resume_eq_error
        rw [Scan.read, hsign]
        dsimp only
        rw [hnegate, hset]
        rfl
      exact .rejected (key none) fun r _ => key (some r)

theorem conjunction (h : d.Fits n ('&' :: '&' :: text)) (hset : d.inSet = true) :
    Reads n d ('&' :: '&' :: text) (.ok ((d.flat n).push (.conjunction (n - (text.length + 2))), text)) := by
  have hlen := h.length_le
  rw [List.length_cons, List.length_cons] at hlen
  have hfits : (d.push (.conjunction (n - (text.length + 2)))).Fits n text :=
    h.advance (Nat.le_add_right _ 2) (h.conjoined.conjunction hset trivial) rfl
  rw [push_flat]
  refine .other hfits (noUpperEnd_of_head? rfl rfl) (resume_conjunction hset hlen) fun r _ => ?_
  rw [resume_ampersand hset, Scan.outcome_cons]
  rfl

theorem ampersand (h : d.Fits n ('&' :: text)) : Reads n d ('&' :: text) ((d.flat n).read n '&' text) := by
  have hsign : Sign.ofChar '&' = .ampersand := rfl
  rw [Buffer.read.eq_def, hsign]
  dsimp only
  rw [inSet_flat, emit_flat]
  cases hset : d.inSet with
  | false =>
    have hliteral : Literal d.inSet true ('&' :: text) '&' text := hset ▸ .ampersand
    have key : Reads n d ('&' :: text) (.ok ((d.emit (.literal '&')).flat n, text)) :=
      .literal hliteral fun hfirst => Bool.noConfusion hfirst
    split
    · exact key
    · exact key
  | true =>
    split
    · exact conjunction h hset
    · next hnext =>
      have hhead : text.head? ≠ some '&' := by
        intro hhead
        obtain ⟨rest, rfl⟩ := List.head?_eq_some_iff.1 hhead
        exact hnext rest rfl
      have hliteral : Literal d.inSet true ('&' :: text) '&' text := hset ▸ .ampersandInSet hhead
      exact .literal hliteral fun hfirst => Bool.noConfusion hfirst

/-- A range whose upper end has been read makes the last two slots one; behind a further dash it is no upper end itself. -/
theorem dash_literal {first : Bool} (h : d.Fits n ('-' :: text)) (hlast : d.lastLiteral? = some lo)
    (hliteral : Literal d.inSet first text c rest) (hfirst : first = false → d.negateSet? = none) :
    Reads n d ('-' :: text) (((d.emit (.literal c)).flat n).joinRange lo (d.flat n).slots.length (n - text.length) >>=
      fun b => .ok (b, rest)) := by
  have hlen : text.length < n := h.length_le
  have lower := resume_dash hlen hlast
  have chained (r : PendingRange) := resume_dash_chained (d := d) (r := r) hlen
  rw [joinRange_emit hlast]
  cases hrange : Token.range? lo c with
  | none =>
    refine .rejected (lower.trans ?_) fun r hr => (chained r).trans ?_
    · refine resume_literal_eq_error hliteral hfirst (Nat.le_of_lt hlen) fun k => ?_
      rw [literal_pending, hrange]
    · obtain rfl : lo = r.lo := Option.some.inj (hlast.symm.trans hr)
      refine resume_literal_eq_error hliteral hfirst (Nat.le_of_lt hlen) fun k => ?_
      rw [literal_pending, hrange]
  | some t =>
    have hfits : (d.replaceLast t).Fits n rest :=
      h.advance (Nat.le_succ_of_le (Nat.le_of_lt hliteral.length_lt)) h.conjoined.replaceLast rfl
    refine .other hfits (noUpperEnd_of_head? rfl (literal?_of_range? hrange)) (lower.trans ?_) fun r hr =>
      (chained r).trans ?_
    · refine resume_literal hliteral hfirst (Nat.le_of_lt hlen) fun o k => ?_
      rw [literal_pending, hrange]
      rfl
    · obtain rfl : lo = r.lo := Option.some.inj (hlast.symm.trans hr)
      refine resume_literal_eq_error hliteral hfirst (Nat.le_of_lt hlen) fun k => ?_
      rw [literal_pending, hrange]
      rfl

theorem dash (h : d.Fits n ('-' :: text))
    (ih : ∀ next rest, text = next :: rest → Reads n d text ((d.flat n).read n next rest)) :
    Reads n d ('-' :: text) ((d.flat n).read n '-' text) := by
  have hsign : Sign.ofChar '-' = .dash := rfl
  rw [Buffer.read.eq_def, hsign]
  dsimp only
  rw [lowerEnd?_flat]
  cases hlast : d.lastLiteral? with
  | none =>
    have key : d.resume none n ('-' :: text) = .error ⟨.characterRange, n - (text.length + 1)⟩ := by
      apply resume_eq_error
      rw [Scan.read, hsign]
      dsimp only [Scan.dash]
      rw [hlast]
    refine .rejected key fun r hr => ?_
    rw [hlast] at hr
    contradiction
  | some lo =>
    have hlen : text.length < n := h.length_le
    have lower := resume_dash hlen hlast
    have chained (r : PendingRange) := resume_dash_chained (d := d) (r := r) hlen
    cases text with
    | nil => exact .rejected lower fun r _ => chained r
    | cons next rest =>
      have hread := ih next rest rfl
      dsimp only
      generalize (d.flat n).read n next rest = result at hread
      cases hread with
      | rejected alone upperEnd =>
        refine .rejected (lower.trans (upperEnd _ hlast)) fun r hr => (chained r).trans (upperEnd _ hr)
      | other hfits hupper alone upperEnd =>
        dsimp only [bind, Except.bind]
        rw [hupper]
        refine .rejected (lower.trans (upperEnd _ hlast)) fun r hr => (chained r).trans (upperEnd _ hr)
      | literal hliteral hfirst => exact dash_literal h hlast hliteral hfirst

theorem escape (h : d.Fits n ('\\' :: text)) : Reads n d ('\\' :: text) ((d.flat n).read n '\\' text) := by
  have hsign : Sign.ofChar '\\' = .escape := rfl
  rw [Buffer.read.eq_def, hsign]
  cases text with
  | nil => exact .rejected rfl fun _ _ => rfl
  | cons escaped rest =>
    dsimp only
    rw [emit_flat]
    have key : Literal d.inSet true ('\\' :: escaped :: rest) escaped rest := .escaped
    exact .literal key fun hfirst => Bool.noConfusion hfirst

/-- The upper end of a range is read by `ih`. -/
theorem of_upperEnd (h : d.Fits n (c :: text))
    (ih : ∀ next rest, text = next :: rest → Reads n d text ((d.flat n).read n next rest)) :
    Reads n d (c :: text) ((d.flat n).read n c text) := by
  cases hsign : Sign.ofChar c with
  | literal =>
    rw [Buffer.read.eq_def, hsign]
    dsimp only
    rw [emit_flat]
    have key : Literal d.inSet true (c :: text) c text := .plain (Sign.not_mem_metacharacters hsign)
    exact .literal key fun hfirst => Bool.noConfusion hfirst
  | operator op =>
    rw [Buffer.read.eq_def, hsign]
    dsimp only
    rw [emit_flat]
    refine structural_ok h (fun range? => ?_) h.conjoined.token rfl (noUpperEnd_of_head? rfl rfl)
    rw [Scan.read, hsign]
  | escape =>
    obtain rfl := Sign.eq_of_char? hsign rfl
    exact escape h
  | wildcard =>
    obtain rfl := Sign.eq_of_char? hsign rfl
    rw [Buffer.read.eq_def, hsign]
    dsimp only
    rw [emit_flat]
    exact structural_ok h (fun range? => rfl) h.conjoined.token rfl (noUpperEnd_of_head? rfl rfl)
  | openGroup =>
    obtain rfl := Sign.eq_of_char? hsign rfl
    rw [Buffer.read.eq_def, hsign]
    dsimp only
    rw [enter_flat, emit_flat]
    exact structural_ok h (fun range? => rfl) h.conjoined.enter.token rfl (noUpperEnd_of_head? rfl rfl)
  | closeGroup =>
    obtain rfl := Sign.eq_of_char? hsign rfl
    rw [Buffer.read.eq_def, hsign]
    exact closeGroup h
  | openSet =>
    obtain rfl := Sign.eq_of_char? hsign rfl
    rw [Buffer.read.eq_def, hsign]
    exact enter h fun range? => rfl
  | closeSet =>
    obtain rfl := Sign.eq_of_char? hsign rfl
    rw [Buffer.read.eq_def, hsign]
    exact closeSet h
  | openCount =>
    obtain rfl := Sign.eq_of_char? hsign rfl
    rw [Buffer.read.eq_def, hsign]
    exact enter h fun range? => rfl
  | closeCount =>
    obtain rfl := Sign.eq_of_char? hsign rfl
    rw [Buffer.read.eq_def, hsign]
    exact closeCount h
  | caret =>
    obtain rfl := Sign.eq_of_char? hsign rfl
    exact caret h
  | dash =>
    obtain rfl := Sign.eq_of_char? hsign rfl
    exact dash h ih
  | ampersand =>
    obtain rfl := Sign.eq_of_char? hsign rfl
    exact ampersand h

end Reads

theorem Fits.behind (h : d.Fits n (c :: text)) : d.Fits n text := h.advance (Nat.le_succ _) h.conjoined rfl

/-- One thing is read alike into a draft and into its buffer. -/
theorem Fits.reads (h : d.Fits n (c :: text)) : Reads n d (c :: text) ((d.flat n).read n c text) := by
  induction text generalizing c with
  | nil => exact .of_upperEnd h nofun
  | cons next text ih =>
    refine .of_upperEnd h ?_
    rintro _ _ ⟨⟩
    exact ih h.behind

end Draft
end RegexSearch
