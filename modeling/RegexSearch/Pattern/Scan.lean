import RegexSearch.Pattern.Draft
import RegexSearch.Pattern.Sign

/-! Reading a pattern one character at a time. A character whose meaning hangs on the next one is held back, and so is the
lower end of a range, so that each step sees one character and the state before it: what a prefix of a pattern is read into
never depends on the rest. -/
namespace RegexSearch

inductive Held where
  | escape (offset : Nat)
  /-- A `&` inside a set, which may be the first half of a conjunction. -/
  | ampersand (offset : Nat)
deriving DecidableEq, Repr

/-- A range whose upper end is still to come; its lower end is also the latest slot. `dash` is the offset of the latest dash,
and `chained` says whether there was one before it. -/
structure PendingRange where
  lo : Char
  dash : Nat
  chained : Bool
deriving DecidableEq, Repr

/-- The state between two characters; `offset` is the number of characters read. -/
structure Scan where
  draft : Draft := {}
  offset : Nat := 0
  range? : Option PendingRange := none
  held? : Option Held := none
deriving DecidableEq, Repr

namespace Scan

def rangeToken (lo hi : Char) (offset : Nat) : Except SyntaxError Token :=
  match Token.range? lo hi with
  | some t => .ok t
  | none => .error ⟨.characterRange, offset⟩

def literal (s : Scan) (offset : Nat) (c : Char) : Except SyntaxError Scan :=
  match s.range? with
  | none => .ok { s with draft := s.draft.emit (.literal c) }
  | some r => do
    let t ← rangeToken r.lo c offset
    -- After a chain of dashes the innermost range is no lower end for the one around it.
    if r.chained then .error ⟨.characterRange, r.dash⟩
    else .ok { s with draft := s.draft.replaceLast t, range? := none }

/-- Takes in a character that is no literal. It cannot end a range, but a fault of its own comes first. -/
def structural (s : Scan) (offset : Nat) (change : Except SyntaxError Draft) : Except SyntaxError Scan := do
  let draft ← change
  match s.range? with
  | none => .ok { s with draft }
  | some _ => .error ⟨.characterRange, offset⟩

def dash (s : Scan) (offset : Nat) : Except SyntaxError Scan :=
  match s.range? with
  | some r => .ok { s with range? := some ⟨r.lo, offset, true⟩ }
  | none =>
    match s.draft.lastLiteral? with
    | some lo => .ok { s with range? := some ⟨lo, offset, false⟩ }
    | none => .error ⟨.characterRange, offset⟩

def read (s : Scan) (offset : Nat) (c : Char) : Except SyntaxError Scan :=
  match Sign.ofChar c with
  | .escape => .ok { s with held? := some (.escape offset) }
  | .wildcard => s.structural offset (.ok (s.draft.emit .wildcard))
  | .operator op => s.structural offset (.ok (s.draft.emit (.operator op)))
  | .openGroup => s.structural offset (.ok (s.draft.openGroup offset))
  | .closeGroup => s.structural offset (s.draft.closeGroup offset)
  | .openSet => s.structural offset (.ok (s.draft.openSet offset))
  | .closeSet => s.structural offset (s.draft.closeSet offset)
  | .openCount => s.structural offset (.ok (s.draft.openCount offset))
  | .closeCount => s.structural offset (s.draft.closeCount offset)
  | .caret =>
    match s.draft.negateSet? with
    | some draft => s.structural offset (.ok draft)
    | none => if s.draft.inSet then s.literal offset c else .error ⟨.unmatchedOperator, offset⟩
  | .dash => s.dash offset
  | .ampersand => if s.draft.inSet then .ok { s with held? := some (.ampersand offset) } else s.literal offset c
  | .literal => s.literal offset c

def resume (s : Scan) : Scan := { s with held? := none }

def step (s : Scan) (c : Char) : Except SyntaxError Scan := do
  let next ← match s.held? with
    | none => s.read s.offset c
    | some (.escape offset) => s.resume.literal offset c
    | some (.ampersand offset) =>
      if c = '&' then s.resume.structural offset (.ok (s.draft.push (.conjunction offset)))
      else do
        let before ← s.resume.literal offset '&'
        before.read s.offset c
  .ok { next with offset := s.offset + 1 }

def release (s : Scan) : Except SyntaxError Scan :=
  match s.held? with
  | none => .ok s
  | some (.escape offset) => .error ⟨.danglingEscape, offset⟩
  | some (.ampersand offset) => s.resume.literal offset '&'

def finish (s : Scan) : Except SyntaxError Draft := do
  let s ← s.release
  match s.range? with
  | some r => .error ⟨.characterRange, r.dash⟩
  | none => .ok s.draft

end Scan

namespace Pattern

def scanFrom (s : Scan) (pattern : List Char) : Except SyntaxError Scan := pattern.foldlM Scan.step s

def draft (pattern : List Char) : Except SyntaxError Draft := scanFrom {} pattern >>= Scan.finish

theorem scanFrom_append (s : Scan) (p q : List Char) :
    scanFrom s (p ++ q) = scanFrom s p >>= fun t => scanFrom t q := List.foldlM_append

/-- The tokens of a pattern as they are written, counts expanded. -/
def body (pattern : List Char) : Except SyntaxError (List Token) := do
  (← draft pattern).complete pattern.length

/-- The tokens of a pattern, in a group: the pattern itself if it is one group from its first character to its last, and a
group around it otherwise. -/
def tokens (pattern : List Char) : Except SyntaxError (List Token) := do
  let d ← draft pattern
  let body ← d.complete pattern.length
  .ok (if d.leadingGroupEnd? = some pattern.length then body
    else .operator .openParen :: (body ++ [.operator .closeParen]))

end Pattern
end RegexSearch
