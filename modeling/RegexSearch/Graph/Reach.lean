import RegexSearch.Graph.Basic

/-! Reachability in a directed graph: the relation, and a depth-first search for it. -/
namespace RegexSearch.Graph

inductive Reaches (g : Graph) : Nat → Nat → Prop
  | refl (u : Nat) : Reaches g u u
  | step {u v w : Nat} (h : v ∈ g.successors u) (rest : Reaches g v w) : Reaches g u w

/-- Marks those of some vertices that are not marked yet, and puts them on the stack. A number that is no vertex is out of
range. -/
def mark? (marked : Array Bool) (stack : List Nat) : List Nat → Option (Array Bool × List Nat)
  | [] => some (marked, stack)
  | v :: rest =>
    if h : v < marked.size then
      if marked[v] then mark? marked stack rest
      else mark? (marked.set v true) (v :: stack) rest
    else none

theorem unmarked_add_length_mark? {marked next : Array Bool} {stack pushed vertices : List Nat}
    (h : mark? marked stack vertices = some (next, pushed)) :
    next.count false + pushed.length = marked.count false + stack.length := by
  fun_induction mark? marked stack vertices with
  | case1 =>
    obtain ⟨rfl, rfl⟩ : _ ∧ _ := by simpa using h
    rfl
  | case2 _ _ _ _ _ _ ih => exact ih h
  | case3 marked _ v _ hv hm ih =>
    have pos : 0 < marked.count false := Array.count_pos_iff.2 (by simpa [hm] using Array.getElem_mem hv)
    rw [ih h, Array.count_set, if_pos (by simp [hm]), if_neg (by decide), List.length_cons]
    omega
  | case4 => contradiction

/-- Takes the latest vertex off the stack and goes on with its successors, until the stack is empty. -/
def drain? (g : Graph) (marked : Array Bool) : List Nat → Option (Array Bool)
  | [] => some marked
  | v :: stack =>
    match g.rows[v]? with
    | none => none
    | some row =>
      match _h : mark? marked stack row with
      | none => none
      | some (next, pushed) => drain? g next pushed
termination_by stack => marked.count false + stack.length
decreasing_by
  rw [unmarked_add_length_mark? _h]
  exact Nat.lt_succ_self _

/-- Searches from the seeds one after the other. What one of them has marked is not visited again from the next. -/
def visit? (g : Graph) (marked : Array Bool) : List Nat → Option (Array Bool)
  | [] => some marked
  | s :: seeds => do
    let (next, stack) ← mark? marked [] [s]
    let next ← g.drain? next stack
    g.visit? next seeds

/-- The vertices reached from the seeds, in ascending order, unless a seed is no vertex. -/
def reach? (g : Graph) (seeds : List Nat) : Option (List Nat) := do
  let marked ← g.visit? (Array.replicate g.order false) seeds
  some ((List.range g.order).filter fun v => marked.getD v false)

/-- The vertices reached from the seeds, where seeds that are no vertices reach nothing. -/
def reach (g : Graph) (seeds : List Nat) : List Nat := (g.reach? (seeds.filter (· < g.order))).getD []

end RegexSearch.Graph
