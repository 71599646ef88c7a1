import RegexSearch.Pattern.Buffer
import RegexSearch.Proofs.SetConjunctions

/-! A draft as one buffer. The slots outside the innermost construct stand before its mark, so a cut at the mark splits the
buffer just where the draft is split already, and each change of the draft is the change of its buffer. -/
namespace RegexSearch
open Slot

namespace Slot

theorem exists_map_token {slots : List Slot} (h : ∀ i, .conjunction i ∉ slots) : ∃ ts : List Token, slots = ts.map token := by
  induction slots with
  | nil => exact ⟨[], rfl⟩
  | cons slot slots ih =>
    obtain ⟨ts, rfl⟩ := ih fun i hi => h i (List.mem_cons_of_mem _ hi)
    cases slot with
    | token t => exact ⟨t :: ts, rfl⟩
    | conjunction i => exact absurd List.mem_cons_self (h i)

theorem mapM_token?_map (ts : List Token) : (ts.map token).mapM token? = some ts := by
  rw [mapM_eq_some_iff]
  exact map_token?_eq_some.2 rfl

/-- Repeats the latest unit of the slots, latest first. -/
def expandUnit? (count : Repeat) (slots : List Slot) : Option (List Slot) := do
  let (unit, before) ← splitUnit? slots
  let tokens ← count.expand? (← unit.mapM token?)
  some ((tokens.map token).reverse ++ before)

theorem repeatUnit?_eq_bind (body slots : List Slot) :
    Slot.repeatUnit? body slots = ((body.reverse.mapM literal?).bind Repeat.parse?).bind (expandUnit? · slots) :=
  (Option.bind_assoc ..).symm

end Slot

namespace Buffer

theorem cut_append (xs ys : List Slot) : cut (xs ++ ys) xs.length = .ok (xs, ys) := by
  simp [cut]

theorem tokensOf_map (ts : List Token) : tokensOf (ts.map .token) = .ok ts := by
  induction ts with
  | nil => rfl
  | cons t ts ih =>
    rw [tokensOf] at ih ⊢
    rw [List.map_cons, List.mapM_cons, ih]
    rfl

theorem groupStart?_lt (depth : Nat) (slots : List Slot) :
    ∃ start?, groupStart? (depth + 1) slots = .ok start? ∧ ∀ start, start? = some start → start < slots.length := by
  induction slots generalizing depth with
  | nil => exact ⟨none, rfl, nofun⟩
  | cons slot before ih =>
    have further (depth : Nat) : ∃ start?, groupStart? (depth + 1) before = .ok start? ∧
        ∀ start, start? = some start → start < before.length + 1 := by
      obtain ⟨start?, hstart, hlt⟩ := ih depth
      exact ⟨start?, hstart, fun start h => Nat.lt_succ_of_lt (hlt start h)⟩
    unfold groupStart?
    split
    · exact further (depth + 1)
    · cases depth with
      | zero => exact ⟨some before.length, rfl, by simp⟩
      | succ depth => exact further depth
    · exact further depth

theorem groupStart?_append (depth : Nat) (taken slots more : List Slot) :
    ∃ start?, groupStart? (depth + 1) (slots ++ more) = .ok start? ∧
      match splitGroup? depth taken slots with
      | some (_, before) => start? = some (before.length + more.length)
      | none => ∀ start, start? = some start → start < more.length := by
  fun_induction splitGroup? depth taken slots with
  | case1 depth => exact groupStart?_lt depth more
  | case2 depth taken before ih => exact ih
  | case3 taken before =>
    refine ⟨some (before ++ more).length, rfl, ?_⟩
    simp
  | case4 taken before depth ih => exact ih
  | case5 depth taken slot before hclose hopen hnext ih =>
    rw [List.cons_append, groupStart?]
    · exact ih
    · exact hclose
    · intro h
      cases depth with
      | zero => exact hopen h rfl
      | succ depth => exact hnext depth h rfl

theorem unitStart?_concat (front : List Slot) (slot : Slot) : unitStart? (front ++ [slot]) =
    match slot with
    | .token (.operator .closeParen) => groupStart? 1 front.reverse
    | .token (.operator _) | .conjunction _ => .ok none
    | .token _ => .ok (some front.length) := by
  rw [unitStart?, List.getLast?_concat]
  split <;> simp_all [groupStart?, minus, bind, Except.bind]

theorem unitStart?_lt (slots : List Slot) :
    ∃ start?, unitStart? slots = .ok start? ∧ ∀ start, start? = some start → start < slots.length := by
  rcases List.eq_nil_or_concat' slots with rfl | ⟨front, slot, rfl⟩
  · exact ⟨none, rfl, nofun⟩
  rw [unitStart?_concat, List.length_append, List.length_singleton]
  split
  · obtain ⟨start?, hstart, hlt⟩ := groupStart?_lt 0 front.reverse
    refine ⟨start?, hstart, fun start h => ?_⟩
    have key := hlt start h
    rw [List.length_reverse] at key
    exact Nat.lt_succ_of_lt key
  · exact ⟨none, rfl, nofun⟩
  · exact ⟨none, rfl, nofun⟩
  · exact ⟨some front.length, rfl, by simp⟩

/-- The latest unit of the buffer is that of the draft, or else it starts outside the innermost construct. -/
theorem unitStart?_append (outer slots : List Slot) :
    ∃ start?, unitStart? (outer ++ slots.reverse) = .ok start? ∧
      match splitUnit? slots with
      | some (_, before) => start? = some (before.length + outer.length)
      | none => ∀ start, start? = some start → start < outer.length := by
  cases slots with
  | nil =>
    rw [List.reverse_nil, List.append_nil]
    exact unitStart?_lt outer
  | cons slot before =>
    rw [List.reverse_cons, ← List.append_assoc, unitStart?_concat]
    split
    · have key := groupStart?_append 0 [.token (.operator .closeParen)] before outer.reverse
      rw [List.length_reverse] at key
      rw [List.reverse_append, List.reverse_reverse]
      exact key
    · next hclose =>
      rw [splitUnit?_operator hclose]
      exact ⟨none, rfl, nofun⟩
    · exact ⟨none, rfl, nofun⟩
    · next t hclose hop =>
      have hsplit : splitUnit? (.token t :: before) = some ([.token t], before) := by
        rw [splitUnit?]
        · exact hclose
        · exact hop
      refine ⟨_, rfl, ?_⟩
      rw [hsplit, List.length_append, List.length_reverse, Nat.add_comm]

end Buffer

namespace Draft

variable {d d' : Draft} {o : Opened} {opened : List Opened} {slots : List Slot} {end? : Option Nat} {n offset : Nat}
  {P : Nat → Prop}

/-- The slots outside the innermost construct, first one first. -/
def outer (d : Draft) : List Slot := d.opened.reverse.flatMap fun o => o.outside.reverse

theorem buffer_eq_append (d : Draft) : d.buffer = d.outer ++ d.slots.reverse := rfl

theorem outer_cons : outer ⟨slots, o :: opened, end?⟩ = buffer ⟨o.outside, opened, end?⟩ := by
  simp [outer, buffer]

theorem marks_go_append (outside : Nat) (rest : List Opened) : marks.go outside (rest ++ [o]) =
    marks.go outside rest ++ [outside + (rest.flatMap fun o => o.outside.reverse).length + o.outside.length] := by
  induction rest generalizing outside with
  | nil => rfl
  | cons o rest ih =>
    rw [List.cons_append, marks.go, ih, marks.go, List.flatMap_cons, List.length_append, List.length_reverse,
      List.cons_append, Nat.add_assoc outside]

theorem marks_cons : marks ⟨slots, o :: opened, end?⟩ =
    marks ⟨o.outside, opened, end?⟩ ++ [(buffer ⟨o.outside, opened, end?⟩).length] := by
  have key := marks_go_append (o := o) 0 opened.reverse
  rw [← List.reverse_cons, Nat.zero_add] at key
  rw [marks, key, buffer, List.length_append, List.length_reverse]
  rfl

theorem flat_cons : flat n ⟨slots, o :: opened, end?⟩ =
    { slots := buffer ⟨o.outside, opened, end?⟩ ++ slots.reverse
      marks := ⟨o.bracket, (buffer ⟨o.outside, opened, end?⟩).length, o.offset⟩ :: (flat n ⟨o.outside, opened, end?⟩).marks
      whole := end? == some n } := by
  rw [flat, buffer_eq_append, outer_cons, marks_cons, List.reverse_append]
  rfl

theorem push_flat (slot : Slot) : (d.flat n).push slot = (d.push slot).flat n := by
  simp [flat, Buffer.push, push, buffer, marks]

theorem emit_flat (t : Token) : (d.flat n).emit t = (d.emit t).flat n := push_flat (.token t)

theorem enter_flat (bracket : Bracket) : (d.flat n).enter bracket offset = (d.enter bracket offset).flat n := by
  rw [enter, flat_cons]
  simp [flat, Buffer.enter]

theorem inSet_flat : (d.flat n).inSet = d.inSet := by
  obtain ⟨slots, opened, end?⟩ := d
  induction opened generalizing slots with
  | nil => rfl
  | cons o opened ih =>
    rw [flat_cons]
    exact congrArg (o.bracket.isSet || ·) (ih o.outside)

theorem floor_flat : (d.flat n).floor = d.outer.length := by
  obtain ⟨slots, opened, end?⟩ := d
  cases opened with
  | nil => rfl
  | cons o opened =>
    rw [flat_cons, outer_cons]
    rfl

theorem slots_flat : (d.flat n).slots = d.outer ++ d.slots.reverse := rfl

theorem length_flat : (d.flat n).slots.length = d.outer.length + d.slots.length := by
  rw [slots_flat, List.length_append, List.length_reverse]

theorem lowerEnd?_flat : (d.flat n).lowerEnd? = d.lastLiteral? := by
  rw [Buffer.lowerEnd?, floor_flat, length_flat, Buffer.lastLiteral?, lastLiteral?, slots_flat]
  cases d.slots with
  | nil => simp
  | cons slot slots => simp

theorem lastLiteral?_flat (h : d.slots ≠ []) : (d.flat n).lastLiteral? = d.lastLiteral? := by
  rw [← lowerEnd?_flat (n := n), Buffer.lowerEnd?, floor_flat, length_flat, if_pos]
  have hpos := List.length_pos_of_ne_nil h
  omega

theorem negateSet?_flat : (d.flat n).negateSet? = d.negateSet?.map (flat n) := by
  obtain ⟨slots, opened, end?⟩ := d
  cases opened with
  | nil => cases slots <;> rfl
  | cons o opened =>
    obtain ⟨bracket, start, outside⟩ := o
    rw [flat_cons]
    cases bracket with
    | group | count => cases slots <;> rfl
    | set negated =>
      cases negated with
      | true => cases slots <;> rfl
      | false =>
        cases slots with
        | nil => simp [Buffer.negateSet?, negateSet?, flat_cons]
        | cons slot slots => simp [Buffer.negateSet?, negateSet?]

/-- What a change of the draft does to the buffer. -/
def flatResult (n : Nat) (result : Except SyntaxError Draft) : Except Stop Buffer := (result.map (flat n)).mapError .rejected

theorem closeGroup_flat (h : d.leadingGroupEnd? ≠ some n) :
    (d.flat n).closeGroup n offset = flatResult n (d.closeGroup offset) := by
  obtain ⟨slots, opened, end?⟩ := d
  cases opened with
  | nil => rfl
  | cons o opened =>
    obtain ⟨bracket, start, outside⟩ := o
    rw [flat_cons]
    cases bracket with
    | set | count => rfl
    | group =>
      have hend : (end? == some n) = false := beq_eq_false_iff_ne.2 h
      by_cases hstart : start = 0
      · simp [Buffer.closeGroup, closeGroup, flatResult, Except.map, Except.mapError, flat, buffer, marks, hend, hstart]
      · simp [Buffer.closeGroup, closeGroup, flatResult, Except.map, Except.mapError, flat, buffer, marks, hend, hstart]

theorem closeSet_flat : (d.flat n).closeSet offset = flatResult n (d.closeSet offset) := by
  obtain ⟨slots, opened, end?⟩ := d
  cases opened with
  | nil => rfl
  | cons o opened =>
    obtain ⟨bracket, start, outside⟩ := o
    rw [flat_cons]
    cases bracket with
    | group | count => rfl
    | set negated =>
      dsimp only [Buffer.closeSet, closeSet]
      rw [Buffer.cut_append]
      dsimp only [bind, Except.bind]
      cases foldConjunctions [] slots.reverse with
      | error e => rfl
      | ok members => simp [flatResult, Except.map, Except.mapError, flat, buffer, marks]

theorem repeatUnit_of_inSet {count : Repeat} (hset : d.inSet = true) :
    (d.flat n).repeatUnit count offset = Buffer.reject .closure offset := by
  obtain ⟨start?, hstart, -⟩ := Buffer.unitStart?_append d.outer d.slots
  unfold Buffer.repeatUnit
  rw [slots_flat, hstart, inSet_flat, hset]
  cases start? <;> simp [bind, Except.bind]

theorem repeatUnit_flat {count : Repeat} (hset : d.inSet = false) (h : ∀ i, .conjunction i ∉ d.slots) :
    (d.flat n).repeatUnit count offset = match expandUnit? count d.slots with
    | some slots => .ok (flat n { d with slots })
    | none => Buffer.reject .closure offset := by
  obtain ⟨start?, hstart, key⟩ := Buffer.unitStart?_append d.outer d.slots
  unfold Buffer.repeatUnit expandUnit?
  rw [slots_flat, hstart, inSet_flat, floor_flat, hset]
  cases hsplit : splitUnit? d.slots with
  | none =>
    rw [hsplit] at key
    cases start? with
    | none => rfl
    | some start =>
      have hlt := key start rfl
      simp [bind, Except.bind, Nat.not_le_of_lt hlt]
  | some parts =>
    obtain ⟨unit, before⟩ := parts
    rw [hsplit] at key
    obtain rfl := key
    have hslots := splitUnit?_eq_some hsplit
    have hunit (i : Nat) : .conjunction i ∉ unit := fun hi =>
      h i (hslots ▸ List.mem_append_left _ (List.mem_reverse.2 hi))
    obtain ⟨ts, rfl⟩ := exists_map_token hunit
    have hcut : Buffer.cut (d.outer ++ d.slots.reverse) (before.length + d.outer.length) =
        .ok (d.outer ++ before.reverse, ts.map token) := by
      have key := Buffer.cut_append (d.outer ++ before.reverse) (ts.map token)
      rw [List.length_append, List.length_reverse, Nat.add_comm] at key
      rw [← hslots, List.reverse_append, List.reverse_reverse, ← List.append_assoc]
      exact key
    dsimp only [bind, Except.bind, Option.bind]
    rw [hcut, if_pos ⟨Nat.le_add_left _ _, rfl⟩]
    dsimp only
    rw [Buffer.tokensOf_map, mapM_token?_map]
    dsimp only
    cases count.expand? ts with
    | none => rfl
    | some tokens => simp [flat, buffer, outer, marks]

theorem closeCount_flat (h : Conjoined P d.slots d.opened) :
    (d.flat n).closeCount offset = flatResult n (d.closeCount offset) := by
  obtain ⟨slots, opened, end?⟩ := d
  cases opened with
  | nil => rfl
  | cons o opened =>
    obtain ⟨bracket, start, outside⟩ := o
    rw [flat_cons]
    cases bracket with
    | group | set => rfl
    | count =>
      dsimp only [Buffer.closeCount, closeCount]
      rw [Buffer.cut_append, repeatUnit?_eq_bind]
      dsimp only [bind, Except.bind]
      have outer : Buffer.mk (buffer ⟨outside, opened, end?⟩) (flat n ⟨outside, opened, end?⟩).marks (end? == some n) =
        flat n ⟨outside, opened, end?⟩ := rfl
      rw [outer]
      cases hset : opened.any (·.bracket.isSet) with
      | true =>
        cases (slots.reverse.mapM literal?).bind Repeat.parse? with
        | none => rfl
        | some count => exact repeatUnit_of_inSet hset
      | false =>
        cases (slots.reverse.mapM literal?).bind Repeat.parse? with
        | none => rfl
        | some count =>
          have hslots (i : Nat) (hi : .conjunction i ∈ outside) : False :=
            Bool.noConfusion (hset.symm.trans (h.2.of_mem hi).2)
          dsimp only
          rw [repeatUnit_flat (d := ⟨outside, opened, end?⟩) hset hslots]
          dsimp only [Option.bind]
          cases expandUnit? count outside <;> rfl

theorem disciplined_flat (h : Conjoined P d.slots d.opened) : (d.flat n).Disciplined := by
  obtain ⟨slots, opened, end?⟩ := d
  induction opened generalizing slots with
  | nil =>
    refine ⟨.nil, nofun, fun i offset hi => ?_⟩
    have hmem : .conjunction offset ∈ slots.reverse := List.mem_of_getElem? hi
    exact absurd (List.mem_reverse.1 hmem) (h offset)
  | cons o opened ih =>
    have around := ih o.outside h.2
    have hset : (flat n ⟨slots, o :: opened, end?⟩).inSet = anySet (o :: opened) := inSet_flat
    rw [flat_cons] at hset ⊢
    have position_le (mark : Mark) (hmark : mark ∈ ⟨o.bracket, (buffer ⟨o.outside, opened, end?⟩).length, o.offset⟩ ::
        (flat n ⟨o.outside, opened, end?⟩).marks) : mark.position ≤ (buffer ⟨o.outside, opened, end?⟩).length := by
      rcases List.mem_cons.1 hmark with rfl | hmark
      · exact Nat.le_refl _
      · exact around.le_length mark hmark
    refine ⟨List.pairwise_cons.2 ⟨around.le_length, around.ascending⟩, fun mark hmark => ?_, fun i offset hi => ?_⟩
    · rw [List.length_append]
      exact Nat.le_add_right_of_le (position_le mark hmark)
    · by_cases hlt : i < (buffer ⟨o.outside, opened, end?⟩).length
      · rw [List.getElem?_append_left hlt] at hi
        obtain ⟨mark, hmark, key⟩ := around.enclosed i offset hi
        exact ⟨mark, List.mem_cons_of_mem _ hmark, key⟩
      -- All the marks stand before a conjunction in the innermost construct, and one of them is that of a set.
      · have hle := Nat.le_of_not_lt hlt
        rw [List.getElem?_append_right hle] at hi
        have hany := hset.trans (h.1 offset (List.mem_reverse.1 (List.mem_of_getElem? hi))).2
        obtain ⟨mark, hmark, hbracket⟩ := List.any_eq_true.1 hany
        exact ⟨mark, hmark, hbracket, Nat.le_trans (position_le mark hmark) hle⟩

end Draft
end RegexSearch
