import RegexSearch.Pattern.Draft
import RegexSearch.Pattern.Sign

/-! Reading a pattern into one buffer, first slot first, where each open construct is a mark at a position. Whatever closes a
construct cuts the buffer at its mark, and a range reads its upper end like anything else and then cuts it off again. A step
may reject the pattern; it may also break down, when it asks of the buffer what is not there. -/
namespace RegexSearch

structure Mark where
  bracket : Bracket
  /-- The number of slots before the construct. -/
  position : Nat
  offset : Nat
deriving DecidableEq, Repr

inductive Breakdown where
  /-- A cut behind the end of the buffer. -/
  | cut
  /-- A number less than zero. -/
  | underflow
  /-- A conjunction where there can only be tokens. -/
  | conjunction
deriving DecidableEq, Repr

inductive Stop where
  | rejected (e : SyntaxError)
  | broken (b : Breakdown)
deriving DecidableEq, Repr

/-- `marks` lists the open constructs from the innermost out. `whole` says that the pattern is one group from its first
character to its last. -/
structure Buffer where
  slots : List Slot := []
  marks : List Mark := []
  whole : Bool := false
deriving DecidableEq, Repr

namespace Buffer

def reject {α : Type} (fault : Fault) (offset : Nat) : Except Stop α := .error (.rejected ⟨fault, offset⟩)

def cut (slots : List Slot) (position : Nat) : Except Stop (List Slot × List Slot) :=
  if position ≤ slots.length then .ok (slots.take position, slots.drop position) else .error (.broken .cut)

def minus (m n : Nat) : Except Stop Nat := if n ≤ m then .ok (m - n) else .error (.broken .underflow)

def tokensOf (slots : List Slot) : Except Stop (List Token) := slots.mapM fun
  | .token t => .ok t
  | .conjunction _ => .error (.broken .conjunction)

def push (b : Buffer) (slot : Slot) : Buffer := { b with slots := b.slots ++ [slot] }

def emit (b : Buffer) (t : Token) : Buffer := b.push (.token t)

def enter (b : Buffer) (bracket : Bracket) (offset : Nat) : Buffer :=
  { b with marks := ⟨bracket, b.slots.length, offset⟩ :: b.marks }

def inSet (b : Buffer) : Bool := b.marks.any (·.bracket.isSet)

/-- Where the innermost open construct starts. -/
def floor (b : Buffer) : Nat :=
  match b.marks with
  | [] => 0
  | mark :: _ => mark.position

def lastLiteral? (b : Buffer) : Option Char := b.slots.getLast?.bind Slot.literal?

def closeGroup (b : Buffer) (length offset : Nat) : Except Stop Buffer :=
  match b.marks with
  | ⟨.group, _, start⟩ :: marks => .ok {
      slots := b.slots ++ [.token (.operator .closeParen)]
      marks
      whole := b.whole || (start == 0 && offset + 1 == length) }
  | _ => reject .unmatchedOperator offset

def closeSet (b : Buffer) (offset : Nat) : Except Stop Buffer :=
  match b.marks with
  | ⟨.set negated, position, _⟩ :: marks => do
    let (before, inside) ← cut b.slots position
    let members ← (Slot.foldConjunctions [] inside).mapError .rejected
    .ok { b with slots := before ++ [.token (.set members negated)], marks }
  | _ => reject .unmatchedOperator offset

/-- Looks back from the latest slot for the `(` of the group around it, `depth` being the number of groups entered on the
way. -/
def groupStart? (depth : Nat) : List Slot → Except Stop (Option Nat)
  | [] => .ok none
  | slot :: before =>
    match slot with
    | .token (.operator .closeParen) => groupStart? (depth + 1) before
    | .token (.operator .openParen) => do
      let depth ← minus depth 1
      if depth = 0 then .ok (some before.length) else groupStart? depth before
    | _ => groupStart? depth before

/-- Where the latest unit starts, a whole group or a token other than an operator. -/
def unitStart? (slots : List Slot) : Except Stop (Option Nat) :=
  match slots.getLast? with
  | none => .ok none
  | some (.token (.operator .closeParen)) => groupStart? 0 slots.reverse
  | some (.token (.operator _)) | some (.conjunction _) => .ok none
  | some (.token _) => do .ok (some (← minus slots.length 1))

/-- Repeats the latest unit, which must belong to the innermost open construct; in a set nothing is repeated. -/
def repeatUnit (b : Buffer) (count : Repeat) (offset : Nat) : Except Stop Buffer := do
  match ← unitStart? b.slots with
  | some start =>
    if b.floor ≤ start ∧ b.inSet = false then do
      let (before, unit) ← cut b.slots start
      match count.expand? (← tokensOf unit) with
      | some tokens => .ok { b with slots := before ++ tokens.map .token }
      | none => reject .closure offset
    else reject .closure offset
  | none => reject .closure offset

def closeCount (b : Buffer) (offset : Nat) : Except Stop Buffer :=
  match b.marks with
  | ⟨.count, position, _⟩ :: marks => do
    let (slots, body) ← cut b.slots position
    match (body.mapM Slot.literal?).bind Repeat.parse? with
    | some count => ({ b with slots, marks } : Buffer).repeatUnit count offset
    | none => reject .closure offset
  | _ => reject .unmatchedOperator offset

/-- Negates the set that has just been opened, if there is one and nothing stands in it. -/
def negateSet? (b : Buffer) : Option Buffer :=
  match b.marks with
  | ⟨.set false, position, start⟩ :: marks =>
    if position = b.slots.length then some { b with marks := ⟨.set true, position, start⟩ :: marks } else none
  | _ => none

/-- The lower end of a range, which must stand in the innermost open construct. -/
def lowerEnd? (b : Buffer) : Option Char := if b.floor < b.slots.length then b.lastLiteral? else none

/-- Makes a range of the last two slots, of which the second must be all that has been read since the buffer held `before`
slots. -/
def joinRange (b : Buffer) (lo : Char) (before offset : Nat) : Except Stop Buffer :=
  match b.lastLiteral? with
  | some hi =>
    if b.slots.length = before + 1 then do
      let kept ← minus before 1
      match Token.range? lo hi with
      | some t => .ok { b with slots := b.slots.take kept ++ [.token t] }
      | none => reject .characterRange offset
    else reject .characterRange offset
  | none => reject .characterRange offset

/-- Reads the character `c` of a pattern of `length` characters, and of the text behind it as much as belongs to it. -/
def read (length : Nat) (b : Buffer) (c : Char) (text : List Char) : Except Stop (Buffer × List Char) :=
  let offset := length - (text.length + 1)
  match Sign.ofChar c with
  | .escape =>
    match text with
    | [] => reject .danglingEscape offset
    | escaped :: rest => .ok (b.emit (.literal escaped), rest)
  | .wildcard => .ok (b.emit .wildcard, text)
  | .operator op => .ok (b.emit (.operator op), text)
  | .openGroup => .ok ((b.enter .group offset).emit (.operator .openParen), text)
  | .closeGroup => do .ok (← b.closeGroup length offset, text)
  | .openSet => .ok (b.enter (.set false) offset, text)
  | .closeSet => do .ok (← b.closeSet offset, text)
  | .openCount => .ok (b.enter .count offset, text)
  | .closeCount => do .ok (← b.closeCount offset, text)
  | .caret =>
    match b.negateSet? with
    | some b => .ok (b, text)
    | none => if b.inSet then .ok (b.emit (.literal c), text) else reject .unmatchedOperator offset
  | .dash =>
    match b.lowerEnd?, text with
    | some lo, next :: rest => do
      let (above, left) ← read length b next rest
      .ok (← above.joinRange lo b.slots.length (length - (rest.length + 1)), left)
    | _, _ => reject .characterRange offset
  | .ampersand =>
    match text with
    | '&' :: rest => if b.inSet then .ok (b.push (.conjunction offset), rest) else .ok (b.emit (.literal c), text)
    | _ => .ok (b.emit (.literal c), text)
  | .literal => .ok (b.emit (.literal c), text)

theorem length_le_of_read {length : Nat} {b b' : Buffer} {c : Char} {text rest : List Char}
    (h : read length b c text = .ok (b', rest)) : rest.length ≤ text.length := by
  fun_induction read length b c text generalizing b' with
  | case1 | case13 | case15 => contradiction
  | case6 | case8 | case10 =>
    obtain ⟨_, -, h⟩ := bind_eq_ok_iff.1 h
    simp_all
  | case14 _ _ _ _ _ _ ih =>
    obtain ⟨⟨above, left⟩, habove, h⟩ := bind_eq_ok_iff.1 h
    obtain ⟨joined, -, h⟩ := bind_eq_ok_iff.1 h
    obtain ⟨rfl, rfl⟩ : joined = b' ∧ left = rest := by simpa using h
    exact Nat.le_succ_of_le (ih habove)
  | _ => simp_all

def readAll (length : Nat) (b : Buffer) (text : List Char) : Except Stop Buffer :=
  match text with
  | [] => .ok b
  | c :: text =>
    match _h : read length b c text with
    | .ok (b', rest) => readAll length b' rest
    | .error stop => .error stop
termination_by text.length
decreasing_by exact Nat.lt_succ_of_le (length_le_of_read _h)

/-- The tokens of a pattern, in a group. -/
def tokens (pattern : List Char) : Except Stop (List Token) := do
  let b ← readAll pattern.length {} pattern
  match b.marks with
  | [] =>
    let body ← tokensOf b.slots
    .ok (if b.whole then body else .operator .openParen :: (body ++ [.operator .closeParen]))
  | _ :: _ => reject .unmatchedOperator pattern.length

/-- The buffers that reading the pattern comes by, with the text behind them. What stands behind a dash is read from where the
dash stood. -/
inductive Visits (pattern : List Char) : Buffer → List Char → Prop
  | start : Visits pattern {} pattern
  | read {b b' : Buffer} {c : Char} {text rest : List Char} (h : Visits pattern b (c :: text))
    (k : b.read pattern.length c text = .ok (b', rest)) : Visits pattern b' rest
  | upperEnd {b : Buffer} {lo c : Char} {text : List Char} (h : Visits pattern b ('-' :: c :: text))
    (k : b.lowerEnd? = some lo) : Visits pattern b (c :: text)

/-- What the cuts rely on: no mark stands behind one further in or behind the end of the buffer, and every conjunction stands
behind the mark of a set. -/
structure Disciplined (b : Buffer) : Prop where
  ascending : b.marks.Pairwise fun inner outer => outer.position ≤ inner.position
  le_length : ∀ mark ∈ b.marks, mark.position ≤ b.slots.length
  enclosed : ∀ i offset, b.slots[i]? = some (.conjunction offset) →
    ∃ mark ∈ b.marks, mark.bracket.isSet = true ∧ mark.position ≤ i

end Buffer

/-- The buffer that a draft stands for, of a pattern of `length` characters. -/
def Draft.flat (length : Nat) (d : Draft) : Buffer where
  slots := d.buffer
  marks := d.opened.zipWith (fun o position => ⟨o.bracket, position, o.offset⟩) d.marks.reverse
  whole := d.leadingGroupEnd? == some length

end RegexSearch
