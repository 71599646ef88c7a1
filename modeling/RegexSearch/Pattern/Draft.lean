import RegexSearch.Pattern.Slot

/-! The part of a pattern that has been read: the slots of the innermost construct that is still open, and for each open
construct what stands outside it. Nothing that happens inside a construct can reach the slots outside it, save that a count
takes its unit from the construct around it. -/
namespace RegexSearch

inductive Bracket where
  | group
  | set (negated : Bool)
  | count
deriving DecidableEq, Repr

namespace Bracket

def isSet : Bracket → Bool
  | set _ => true
  | _ => false

end Bracket

structure Opened where
  bracket : Bracket
  offset : Nat
  /-- The slots of the enclosing construct, latest first. -/
  outside : List Slot
deriving DecidableEq, Repr

/-- `opened` lists the open constructs from the innermost out. `leadingGroupEnd?` is the number of characters up to the end
of a group that starts the pattern, once it has been closed. -/
structure Draft where
  slots : List Slot := []
  opened : List Opened := []
  leadingGroupEnd? : Option Nat := none
deriving DecidableEq, Repr

namespace Draft

def buffer (d : Draft) : List Slot :=
  (d.opened.reverse.flatMap fun o => o.outside.reverse) ++ d.slots.reverse

/-- How many slots stand outside each open construct, from the outermost in. -/
def marks (d : Draft) : List Nat := go 0 d.opened.reverse
where
  go (outside : Nat) : List Opened → List Nat
    | [] => []
    | o :: rest => (outside + o.outside.length) :: go (outside + o.outside.length) rest

def inSet (d : Draft) : Bool := d.opened.any (·.bracket.isSet)

def push (d : Draft) (slot : Slot) : Draft := { d with slots := slot :: d.slots }

def emit (d : Draft) (t : Token) : Draft := d.push (.token t)

def replaceLast (d : Draft) (t : Token) : Draft := { d with slots := .token t :: d.slots.tail }

def lastLiteral? (d : Draft) : Option Char := d.slots.head?.bind Slot.literal?

def enter (d : Draft) (bracket : Bracket) (offset : Nat) : Draft :=
  { d with slots := [], opened := ⟨bracket, offset, d.slots⟩ :: d.opened }

def openGroup (d : Draft) (offset : Nat) : Draft := (d.enter .group offset).emit (.operator .openParen)

def openSet (d : Draft) (offset : Nat) : Draft := d.enter (.set false) offset

def openCount (d : Draft) (offset : Nat) : Draft := d.enter .count offset

def closeGroup (d : Draft) (offset : Nat) : Except SyntaxError Draft :=
  match d.opened with
  | ⟨.group, start, outside⟩ :: opened => .ok {
      slots := .token (.operator .closeParen) :: (d.slots ++ outside)
      opened
      leadingGroupEnd? := if start = 0 then some (offset + 1) else d.leadingGroupEnd? }
  | _ => .error ⟨.unmatchedOperator, offset⟩

def closeSet (d : Draft) (offset : Nat) : Except SyntaxError Draft :=
  match d.opened with
  | ⟨.set negated, _, outside⟩ :: opened => do
    let members ← Slot.foldConjunctions [] d.slots.reverse
    .ok { d with slots := .token (.set members negated) :: outside, opened }
  | _ => .error ⟨.unmatchedOperator, offset⟩

def closeCount (d : Draft) (offset : Nat) : Except SyntaxError Draft :=
  match d.opened with
  | ⟨.count, _, outside⟩ :: opened =>
    -- Inside a set nothing can be repeated.
    if opened.any (·.bracket.isSet) then .error ⟨.closure, offset⟩
    else match Slot.repeatUnit? d.slots outside with
      | some slots => .ok { d with slots, opened }
      | none => .error ⟨.closure, offset⟩
  | _ => .error ⟨.unmatchedOperator, offset⟩

/-- Negates the set that has just been opened, if there is one and nothing stands in it. -/
def negateSet? (d : Draft) : Option Draft :=
  match d.slots, d.opened with
  | [], ⟨.set false, start, outside⟩ :: opened => some { d with opened := ⟨.set true, start, outside⟩ :: opened }
  | _, _ => none

def complete (d : Draft) (length : Nat) : Except SyntaxError (List Token) :=
  match d.opened with
  | [] => d.slots.reverse.mapM fun
    | .token t => .ok t
    | .conjunction offset => .error ⟨.intersection, offset⟩
  | _ :: _ => .error ⟨.unmatchedOperator, length⟩

end Draft
end RegexSearch
