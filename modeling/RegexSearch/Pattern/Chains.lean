import RegexSearch.Pattern.Slot

/-! Chains of set members joined by conjunctions. In a list of elements `none` stands for a conjunction. -/
namespace RegexSearch

namespace Token

/-- The elements of a chain that starts with `t`: a conjunction before each further member. -/
def chained (t : Token) (more : List Token) : List (Option Token) := some t :: more.flatMap fun u => [none, some u]

/-- The member that a chain becomes: conjunctions bind to the left. -/
def meet (t : Token) (more : List Token) : Token := more.foldl both t

theorem accepts_meet (c : Char) (t : Token) (more : List Token) :
    (meet t more).accepts c = (t.accepts c && more.all (·.accepts c)) := by
  induction more generalizing t with
  | nil => simp [meet]
  | cons u more ih =>
    have key : meet t (u :: more) = meet (both t u) more := rfl
    rw [key, ih, accepts, List.all_cons, Bool.and_assoc]

end Token

/-- Elements fall into maximal chains, each given by its first member and the rest. A conjunction that is first, last or next
to another one belongs to no chain. -/
inductive Chains : List (Option Token) → List (Token × List Token) → Prop
  | nil : Chains [] []
  | cons (t : Token) (more : List Token) {rest : List (Option Token)} {chains : List (Token × List Token)}
    (h : Chains rest chains) : Chains (t.chained more ++ rest) ((t, more) :: chains)

def Chains.members (chains : List (Token × List Token)) : List Token := chains.map fun chain => chain.1.meet chain.2

/-- A chain of the elements that a conjunction prolongs on neither side. -/
def MaximalChain (xs : List (Option Token)) (t : Token) (more : List Token) : Prop :=
  ∃ before after, xs = before ++ t.chained more ++ after ∧ before.getLast? ≠ some none ∧ after.head? ≠ some none

/-- A conjunction at the very start of the slots, at their very end, or directly followed by another one. -/
def Slot.Misplaced (slots : List Slot) (i : Nat) : Prop :=
  ∃ offset, slots[i]? = some (conjunction offset) ∧
    (i = 0 ∨ i + 1 = slots.length ∨ ∃ next, slots[i + 1]? = some (conjunction next))

end RegexSearch
