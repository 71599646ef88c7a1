import RegexSearch.Proofs.Readings
import RegexSearch.Proofs.Units

/-! A derivation is followed by the scan: whatever the draft before it, the scan gets past each piece and has then added the
slots of the piece to the innermost open construct. -/
namespace RegexSearch.Pattern
open Slot

variable {inSet first : Bool} {length : Nat} {text mid rest : List Char} {d : Draft} {t : Token}

/-- What may become of the end of the leading group on the way: only a group that starts the pattern sets it. -/
def Leads (inSet : Bool) (length : Nat) (text : List Char) (before? after? : Option Nat) : Prop :=
  after? = before? ∨ text.length = length ∧ ∃ inner inside rest, text = '(' :: inner ∧
    Pieces inSet false inner inside (')' :: rest) ∧ after? = some (length - rest.length)

theorem Leads.eq_of_lt {before? after? : Option Nat} (h : Leads inSet length text before? after?)
    (hlen : text.length < length) : after? = before? := by
  obtain h | ⟨hstart, -⟩ := h
  · exact h
  · exact absurd hstart (Nat.ne_of_lt hlen)

/-- From the draft `d` the scan gets from `text` to `rest`, and the draft has then gained slots that stand for `xs`. -/
def Follows (d : Draft) (inSet : Bool) (length : Nat) (text : List Char) (xs : List (Option Token)) (rest : List Char) :
    Prop :=
  ∃ (slots : List Slot) (end? : Option Nat), slots.map token? = xs ∧ Leads inSet length text d.leadingGroupEnd? end? ∧
    d.resume none length text = Draft.resume ⟨slots.reverse ++ d.slots, d.opened, end?⟩ none length rest

theorem Follows.token (h : d.resume none length text = (d.emit t).resume none length rest) :
    Follows d inSet length text [some t] rest :=
  ⟨[.token t], d.leadingGroupEnd?, rfl, .inl rfl, h⟩

theorem Follows.append {xs ys : List (Option Token)} (hlen : mid.length < length)
    (h : Follows d inSet length text xs mid)
    (k : ∀ (slots : List Slot) (end? : Option Nat), slots.map token? = xs →
      Follows ⟨slots.reverse ++ d.slots, d.opened, end?⟩ inSet length mid ys rest) :
    Follows d inSet length text (xs ++ ys) rest := by
  obtain ⟨slots, end?, hslots, hleads, hresume⟩ := h
  obtain ⟨more, last?, hmore, hlast, hrest⟩ := k slots end? hslots
  obtain rfl := hlast.eq_of_lt hlen
  refine ⟨slots ++ more, _, ?_, hleads, ?_⟩
  · rw [List.map_append, hslots, hmore]
  · rw [hresume, hrest, List.reverse_append, List.append_assoc]

theorem resume_group {inside : List (Option Token)} {offset : Nat} (hoffset : offset + (text.length + 1) = length)
    (inner : Pieces inSet false text inside (')' :: rest))
    (h : Follows (d.openGroup offset) inSet length text inside (')' :: rest)) :
    ∃ slots : List Slot, slots.map token? = some (.operator .openParen) :: (inside ++ [some (.operator .closeParen)]) ∧
      d.resume none length ('(' :: text) = Draft.resume ⟨slots.reverse ++ d.slots, d.opened,
        if offset = 0 then some (length - rest.length) else d.leadingGroupEnd?⟩ none length rest := by
  obtain ⟨slots, end?, hslots, hleads, hresume⟩ := h
  have htext : text.length < length := by omega
  have hrest := Nat.lt_trans inner.length_lt htext
  have hopen : d.resume none length ('(' :: text) = (d.openGroup offset).resume none length text := by
    obtain rfl : offset = length - (text.length + 1) := by omega
    exact Draft.resume_cons htext rfl
  have hend : length - (rest.length + 1) + 1 = length - rest.length := by omega
  obtain rfl := hleads.eq_of_lt htext
  refine ⟨.token (.operator .openParen) :: (slots ++ [.token (.operator .closeParen)]), ?_, ?_⟩
  · rw [List.map_cons, List.map_append, hslots]
    rfl
  -- The closing parenthesis puts the slots of the group back behind those outside it.
  · rw [hopen, hresume, ← hend]
    refine (Draft.resume_cons hrest rfl).trans ?_
    simp [Draft.openGroup, Draft.enter, Draft.emit, Draft.push]

theorem Follows.group {inside : List (Option Token)} {offset : Nat} (hoffset : offset + (text.length + 1) = length)
    (inner : Pieces inSet false text inside (')' :: rest))
    (h : Follows (d.openGroup offset) inSet length text inside (')' :: rest)) :
    Follows d inSet length ('(' :: text)
      (some (.operator .openParen) :: (inside ++ [some (.operator .closeParen)])) rest := by
  obtain ⟨slots, hslots, hresume⟩ := resume_group hoffset inner h
  refine ⟨slots, _, hslots, ?_, hresume⟩
  by_cases hstart : offset = 0
  · rw [if_pos hstart]
    have hlen : ('(' :: text).length = length := by
      rw [List.length_cons]
      omega
    exact .inr ⟨hlen, text, inside, rest, rfl, inner, rfl⟩
  · rw [if_neg hstart]
    exact .inl rfl

theorem closeSet_eq_ok {slots outside : List Slot} {members : List Token} {negated : Bool} {offset start : Nat}
    {opened : List Opened} {end? : Option Nat} (h : foldConjunctions [] slots = .ok members) :
    Draft.closeSet ⟨slots.reverse ++ [], ⟨.set negated, start, outside⟩ :: opened, end?⟩ offset =
      .ok ⟨.token (.set members negated) :: outside, opened, end?⟩ := by
  show (foldConjunctions [] (slots.reverse ++ []).reverse >>= _) = _
  rw [List.append_nil, List.reverse_reverse, h]
  rfl

theorem closeCount_eq_ok {body before outside : List Slot} {offset start : Nat} {opened : List Opened}
    {end? : Option Nat} (hset : opened.any (·.bracket.isSet) = false)
    (h : repeatUnit? body.reverse outside = some before) :
    Draft.closeCount ⟨body.reverse ++ [], ⟨.count, start, outside⟩ :: opened, end?⟩ offset =
      .ok ⟨before, opened, end?⟩ := by
  rw [List.append_nil, Draft.closeCount]
  dsimp only
  rw [hset, h]
  rfl

theorem Follows.set {start : List Char} {inside : List (Option Token)} {chains : List (Token × List Token)}
    {negated : Bool} {offset : Nat} (hlen : text.length < length) (inner : Pieces true first text inside (']' :: rest))
    (hchains : Chains inside chains)
    (hopen : d.resume none length start =
      Draft.resume ⟨[], ⟨.set negated, offset, d.slots⟩ :: d.opened, d.leadingGroupEnd?⟩ none length text)
    (h : Follows ⟨[], ⟨.set negated, offset, d.slots⟩ :: d.opened, d.leadingGroupEnd?⟩ true length text inside
      (']' :: rest)) : Follows d inSet length start [some (.set (Chains.members chains) negated)] rest := by
  obtain ⟨slots, end?, hslots, hleads, hresume⟩ := h
  obtain rfl := hleads.eq_of_lt hlen
  have hrest := Nat.lt_trans inner.length_lt hlen
  have hmembers : foldConjunctions [] slots = .ok (Chains.members chains) := foldConjunctions_of_chains hchains hslots []
  apply Follows.token
  rw [hopen, hresume]
  exact Draft.resume_cons hrest (Scan.structural_eq_ok (length - (rest.length + 1)) (closeSet_eq_ok hmembers))

theorem Follows.counted {unit expansion : List Token} {body : List Char} {count : Repeat}
    (hset : d.inSet = false) (hlen : text.length ≤ length) (inner : Piece false first text (unit.map some) ('{' :: mid))
    (hunit : ∀ op, unit ≠ [.operator op]) (hbody : Literals mid body ('}' :: rest))
    (hcount : Repeat.parse? body = some count) (hexpansion : count.expand? unit = some expansion)
    (h : Follows d false length text (unit.map some) ('{' :: mid)) :
    Follows d false length text (expansion.map some) rest := by
  obtain ⟨slots, end?, hslots, hleads, hresume⟩ := h
  have hmid : mid.length < length := by
    have hlt := inner.length_lt
    rw [List.length_cons] at hlt
    omega
  have hrest := Nat.lt_trans hbody.length_lt hmid
  obtain rfl := map_token?_eq_some.1 hslots
  have key : FormsUnit (unit.map Slot.token) := by
    obtain key | ⟨op, -, -, hop⟩ | ⟨hinside, -⟩ := inner.formsUnit_or hslots
    · exact key
    · exact absurd (by simpa using hop) (hunit op)
    · contradiction
  have hrepeat := repeatUnit?_eq_some_iff.2
    ⟨body, count, unit, d.slots, expansion, List.reverse_reverse _, hcount, key.splitUnit? d.slots, hexpansion, rfl⟩
  let unread : Draft := ⟨(unit.map Slot.token).reverse ++ d.slots, d.opened, end?⟩
  let opened := unread.openCount (length - (mid.length + 1))
  refine ⟨expansion.map Slot.token, end?, map_token?_eq_some.2 rfl, hleads, ?_⟩
  calc d.resume none length text = unread.resume none length ('{' :: mid) := hresume
    _ = opened.resume none length mid := Draft.resume_cons hmid rfl
    _ = (opened.extend (body.map fun c => .token (.literal c))).resume none length ('}' :: rest) :=
      Draft.resume_literals hbody hset rfl (Nat.le_of_lt hmid)
    _ = Draft.resume ⟨(expansion.map Slot.token).reverse ++ d.slots, d.opened, end?⟩ none length rest :=
      Draft.resume_cons hrest (Scan.structural_eq_ok (length - (rest.length + 1)) (closeCount_eq_ok hset hrepeat))

mutual

theorem Piece.follows {inSet first : Bool} {length : Nat} {text rest : List Char} {xs : List (Option Token)} {d : Draft}
    (hset : d.inSet = inSet) (hfirst : first = false → d.negateSet? = none) (hlen : text.length ≤ length) :
    Piece inSet first text xs rest → Follows d inSet length text xs rest
  | .literal h => .token (Draft.resume_emit (hset ▸ h) hfirst hlen)
  | .wildcard => .token (Draft.resume_cons hlen rfl)
  | .operator hopen hclose => by
    apply Follows.token
    apply Draft.resume_cons hlen
    rw [Scan.read, Sign.ofChar_char hopen hclose]
    rfl
  | .range h k lt => .token (Draft.resume_range (hset ▸ h) (hset ▸ k) lt hfirst hlen)
  | .group h => by
    rw [List.length_cons] at hlen
    have hoffset := Nat.sub_add_cancel hlen
    exact .group hoffset h (h.follows hset (fun _ => Draft.negateSet?_of_ne_nil (List.cons_ne_nil _ _)) (by omega))
  | .set h k => by
    rw [List.length_cons] at hlen
    exact .set hlen h k (Draft.resume_cons hlen rfl) (h.follows rfl (fun h => Bool.noConfusion h) (by omega))
  | .negatedSet h k => by
    rw [List.length_cons, List.length_cons] at hlen
    refine .set (by omega) h k ((Draft.resume_cons hlen rfl).trans (Draft.resume_cons (by omega) rfl))
      (h.follows rfl (fun _ => rfl) (by omega))
  | .conjunction =>
    ⟨[.conjunction _], d.leadingGroupEnd?, rfl, .inl rfl, Draft.resume_conjunction hset hlen⟩
  | .counted h hunit hbody hcount hexpansion =>
    .counted hset hlen h hunit hbody hcount hexpansion (h.follows hset hfirst hlen)

theorem Pieces.follows {inSet first : Bool} {length : Nat} {text rest : List Char} {xs : List (Option Token)} {d : Draft}
    (hset : d.inSet = inSet) (hfirst : first = false → d.negateSet? = none) (hlen : text.length ≤ length) :
    Pieces inSet first text xs rest → Follows d inSet length text xs rest
  | .nil => ⟨[], d.leadingGroupEnd?, rfl, .inl rfl, rfl⟩
  | .cons h k => by
    have hmid := h.length_lt
    refine (h.follows hset hfirst hlen).append (by omega) fun slots end? hslots => ?_
    -- A piece leaves a slot behind, so no `^` after it can negate a set.
    have hne : slots.reverse ++ d.slots ≠ [] := by
      rintro hnil
      obtain ⟨hslots', -⟩ := List.append_eq_nil_iff.1 hnil
      rw [List.reverse_eq_nil_iff.1 hslots'] at hslots
      exact h.ne_nil hslots.symm
    exact k.follows hset (fun _ => Draft.negateSet?_of_ne_nil hne) (by omega)

end

end RegexSearch.Pattern
