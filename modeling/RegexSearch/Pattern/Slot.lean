import RegexSearch.Repeat
import RegexSearch.SyntaxError

/-! What a pattern has been read into so far: tokens, and between set members the conjunctions that the closing bracket will
fold. Lists of slots that are still growing hold the latest slot first. -/
namespace RegexSearch

inductive Slot where
  | token (t : Token)
  /-- A `&&` with its offset. -/
  | conjunction (offset : Nat)
deriving DecidableEq, Repr

namespace Slot

def token? : Slot → Option Token
  | token t => some t
  | conjunction _ => none

def literal? : Slot → Option Char
  | token (.literal c) => some c
  | _ => none

/-- The members of a set, from its slots in reading order: each conjunction joins the member before it with the token after
it, and is at fault where one of them is missing. `members` are those found so far, latest first. -/
def foldConjunctions : List Token → List Slot → Except SyntaxError (List Token)
  | members, [] => .ok members.reverse
  | members, token t :: rest => foldConjunctions (t :: members) rest
  | left :: members, conjunction _ :: token right :: rest => foldConjunctions (.both left right :: members) rest
  | _, conjunction offset :: _ => .error ⟨.intersection, offset⟩

/-- Splits the slots before a `)` that has been taken at the `(` that matches it. `depth` counts the further groups entered,
and `taken` holds in reading order what follows. -/
def splitGroup? : Nat → List Slot → List Slot → Option (List Slot × List Slot)
  | _, _, [] => none
  | depth, taken, slot :: before =>
    match slot, depth with
    | token (.operator .closeParen), _ => splitGroup? (depth + 1) (slot :: taken) before
    | token (.operator .openParen), 0 => some (slot :: taken, before)
    | token (.operator .openParen), depth + 1 => splitGroup? depth (slot :: taken) before
    | _, _ => splitGroup? depth (slot :: taken) before

/-- Splits off the latest unit, a whole group or a token other than an operator. The unit comes in reading order. -/
def splitUnit? : List Slot → Option (List Slot × List Slot)
  | [] => none
  | slot :: before =>
    match slot with
    | token (.operator .closeParen) => splitGroup? 0 [slot] before
    | token (.operator _) | conjunction _ => none
    | token _ => some ([slot], before)

theorem splitGroup?_eq_some {depth : Nat} {taken slots unit before : List Slot}
    (h : splitGroup? depth taken slots = some (unit, before)) : unit.reverse ++ before = taken.reverse ++ slots := by
  fun_induction splitGroup? depth taken slots with
  | case1 => contradiction
  | case2 _ _ _ ih => simpa using ih h
  | case3 =>
    obtain ⟨rfl, rfl⟩ : _ ∧ _ := by simpa using h
    simp
  | case4 _ _ _ ih => simpa using ih h
  | case5 _ _ _ _ _ _ _ ih => simpa using ih h

theorem splitUnit?_eq_some {slots unit before : List Slot} (h : splitUnit? slots = some (unit, before)) :
    unit.reverse ++ before = slots := by
  cases slots with
  | nil => contradiction
  | cons slot rest =>
    unfold splitUnit? at h
    split at h
    · contradiction
    · next heq =>
      cases heq
      split at h
      · simpa using splitGroup?_eq_some h
      · contradiction
      · contradiction
      · obtain ⟨rfl, rfl⟩ : _ ∧ _ := by simpa using h
        simp

/-- Repeats the latest unit as the body of a count says; both come latest slot first. -/
def repeatUnit? (body slots : List Slot) : Option (List Slot) := do
  let count ← Repeat.parse? (← body.reverse.mapM literal?)
  let (unit, before) ← splitUnit? slots
  let tokens ← count.expand? (← unit.mapM token?)
  some ((tokens.map token).reverse ++ before)

end Slot
end RegexSearch
