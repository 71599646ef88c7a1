import Mathlib.Data.List.Permutation
import Mathlib.Logic.Relation
import RegexSearch.Graph.Reach

/-! The depth-first search finds exactly the vertices that are reached from its seeds, and never looks up a number that is no
vertex unless it is given one as a seed. -/
namespace RegexSearch.Graph

def Marked (marked : Array Bool) (v : Nat) : Prop := marked[v]? = some true

theorem Marked.lt_size {marked : Array Bool} {v : Nat} (h : Marked marked v) : v < marked.size :=
  (Array.getElem?_eq_some_iff.1 h).1

theorem marked_set {marked : Array Bool} {u v : Nat} (hu : u < marked.size) :
    Marked (marked.set u true) v ↔ u = v ∨ Marked marked v := by
  unfold Marked
  rw [Array.getElem?_set]
  by_cases h : u = v <;> simp [h]

theorem not_marked_replicate (n v : Nat) : ¬ Marked (Array.replicate n false) v := by
  unfold Marked
  rw [Array.getElem?_replicate]
  split <;> simp

section mark
variable {marked next : Array Bool} {stack pushed vertices : List Nat} {v : Nat}

theorem mark?_eq_none : mark? marked stack vertices = none ↔ ∃ v ∈ vertices, marked.size ≤ v := by
  fun_induction mark? marked stack vertices with
  | case1 => simp
  | case2 _ _ v _ hv _ ih => simp [ih, Nat.not_le.2 hv]
  | case3 _ _ v _ hv _ ih => simp [ih, Nat.not_le.2 hv]
  | case4 _ _ v _ hv => simp [Nat.le_of_not_lt hv]

theorem size_mark? (h : mark? marked stack vertices = some (next, pushed)) : next.size = marked.size := by
  fun_induction mark? marked stack vertices with
  | case1 => simp_all
  | case2 _ _ _ _ _ _ ih => exact ih h
  | case3 _ _ _ _ _ _ ih => rw [ih h, Array.size_set]
  | case4 => contradiction

theorem marked_mark? (h : mark? marked stack vertices = some (next, pushed)) :
    Marked next v ↔ Marked marked v ∨ v ∈ vertices := by
  fun_induction mark? marked stack vertices with
  | case1 => simp_all
  | case2 _ _ u _ hu hm ih =>
    have known : Marked _ u := Array.getElem?_eq_some_iff.2 ⟨hu, hm⟩
    rw [ih h, List.mem_cons]
    constructor
    · exact Or.imp_right .inr
    · rintro (hv | rfl | hv)
      · exact .inl hv
      · exact .inl known
      · exact .inr hv
  | case3 _ _ u _ hu _ ih =>
    rw [ih h, marked_set hu, List.mem_cons, @eq_comm _ u]
    exact or_assoc.trans or_left_comm
  | case4 => contradiction

/-- The stack grows by the vertices that have been marked. -/
theorem mem_mark? (h : mark? marked stack vertices = some (next, pushed)) :
    v ∈ pushed ↔ v ∈ stack ∨ v ∈ vertices ∧ ¬ Marked marked v := by
  fun_induction mark? marked stack vertices with
  | case1 => simp_all
  | case2 _ _ u _ hu hm ih =>
    have known : Marked _ u := Array.getElem?_eq_some_iff.2 ⟨hu, hm⟩
    rw [ih h, List.mem_cons]
    refine or_congr_right (and_congr_left fun hv => ⟨.inr, fun hmem => hmem.resolve_left ?_⟩)
    rintro rfl
    exact hv known
  | case3 _ _ u _ hu hm ih =>
    have fresh : ¬ Marked _ u := fun hmarked => hm (Array.getElem?_eq_some_iff.1 hmarked).2
    rw [ih h, marked_set hu, List.mem_cons, List.mem_cons]
    by_cases hv : v = u
    · subst hv
      simp [fresh]
    · simp [hv, Ne.symm hv]
  | case4 => contradiction

end mark

/-- The search between two steps: what is on the stack is marked, and from a marked vertex that is not on the stack each edge
leads to a marked one. -/
structure Explored (g : Graph) (marked : Array Bool) (stack : List Nat) : Prop where
  size : marked.size = g.order
  onStack : ∀ v ∈ stack, Marked marked v
  successors : ∀ u, Marked marked u → u ∈ stack ∨ ∀ v ∈ g.successors u, Marked marked v

variable {g : Graph} {marked : Array Bool} {stack seeds : List Nat} {s v : Nat}

theorem explored_replicate (g : Graph) : g.Explored (Array.replicate g.order false) [] where
  size := Array.size_replicate
  onStack _ hv := absurd hv List.not_mem_nil
  successors u hu := absurd hu (not_marked_replicate _ u)

/-- The successors of one vertex may still be missing, if they are what is marked next. -/
theorem exists_explored_mark? {vertices : List Nat} (size : marked.size = g.order) (onStack : ∀ v ∈ stack, Marked marked v)
    (successors : ∀ u, Marked marked u → u ∈ stack ∨ ∀ v ∈ g.successors u, Marked marked v ∨ v ∈ vertices)
    (inside : ∀ v ∈ vertices, v < g.order) :
    ∃ next pushed, mark? marked stack vertices = some (next, pushed) ∧ g.Explored next pushed := by
  obtain hnone | ⟨⟨next, pushed⟩, h⟩ := Option.eq_none_or_eq_some (mark? marked stack vertices)
  · obtain ⟨v, hv, hle⟩ := mark?_eq_none.1 hnone
    rw [size] at hle
    exact absurd (inside v hv) (Nat.not_lt.2 hle)
  · refine ⟨next, pushed, h, (size_mark? h).trans size, fun v hv => ?_, fun u hu => ?_⟩
    · rw [marked_mark? h]
      rcases (mem_mark? h).1 hv with hv | ⟨hv, -⟩
      · exact .inl (onStack v hv)
      · exact .inr hv
    · simp only [mem_mark? h, marked_mark? h] at hu ⊢
      by_cases known : Marked marked u
      · exact (successors u known).imp_left .inl
      · exact .inl (.inr ⟨hu.resolve_left known, known⟩)

theorem Explored.marked_of_reaches (h : g.Explored marked []) {u : Nat} (hr : g.Reaches u v) (hu : Marked marked u) :
    Marked marked v := by
  induction hr with
  | refl => exact hu
  | step hv _ ih => exact ih ((h.successors _ hu).resolve_left List.not_mem_nil _ hv)

theorem getElem?_rows (h : v < g.order) : g.rows[v]? = some (g.successors v) := by
  have hrow : g.rows[v]? = some g.rows[v] := Array.getElem?_eq_getElem h
  rw [successors, hrow]
  rfl

theorem Explored.pop (h : g.Explored marked (v :: stack)) :
    ∃ next pushed, mark? marked stack (g.successors v) = some (next, pushed) ∧ g.Explored next pushed := by
  refine exists_explored_mark? h.size (fun u hu => h.onStack u (List.mem_cons_of_mem v hu)) (fun u hu => ?_)
    fun _ => lt_order_of_mem_successors
  rcases h.successors u hu with hmem | hsuccessors
  · rcases List.mem_cons.1 hmem with rfl | hmem
    · exact .inr fun _ => .inr
    · exact .inl hmem
  · exact .inr fun w hw => .inl (hsuccessors w hw)

theorem Explored.seed (h : g.Explored marked []) (hs : s < g.order) :
    ∃ next pushed, mark? marked [] [s] = some (next, pushed) ∧ g.Explored next pushed := by
  refine exists_explored_mark? h.size h.onStack (fun u hu => (h.successors u hu).imp_right fun k w hw => .inl (k w hw)) ?_
  intro v hv
  rwa [List.mem_singleton.1 hv]

/-- The search ends, with just those vertices marked that are reached from the ones marked before. -/
theorem Explored.drain? (h : g.Explored marked stack) : ∃ found, g.drain? marked stack = some found ∧
    g.Explored found [] ∧ ∀ v, Marked found v ↔ ∃ u, Marked marked u ∧ g.Reaches u v := by
  fun_induction Graph.drain? g marked stack with
  | case1 marked =>
    refine ⟨marked, rfl, h, fun v => ⟨fun hv => ⟨v, hv, .refl v⟩, ?_⟩⟩
    rintro ⟨u, hu, hr⟩
    exact h.marked_of_reaches hr hu
  | case2 marked v stack hrow =>
    have hv : v < g.order := h.size ▸ (h.onStack v List.mem_cons_self).lt_size
    rw [getElem?_rows hv] at hrow
    contradiction
  | case3 marked v stack row hrow hnone =>
    have hv : v < g.order := h.size ▸ (h.onStack v List.mem_cons_self).lt_size
    obtain rfl := Option.some.inj ((getElem?_rows hv).symm.trans hrow)
    obtain ⟨next, pushed, hsome, -⟩ := h.pop
    rw [hnone] at hsome
    contradiction
  | case4 marked v stack row hrow next pushed hmark ih =>
    have hv : Marked marked v := h.onStack v List.mem_cons_self
    obtain rfl := Option.some.inj ((getElem?_rows (h.size ▸ hv.lt_size)).symm.trans hrow)
    obtain ⟨next', pushed', hsome, hexplored⟩ := h.pop
    obtain ⟨rfl, rfl⟩ : next = next' ∧ pushed = pushed' := by simpa [hmark] using hsome
    obtain ⟨found, hfound, hclosed, hmarked⟩ := ih hexplored
    refine ⟨found, hfound, hclosed, fun w => ?_⟩
    simp only [hmarked, marked_mark? hmark]
    constructor
    · rintro ⟨u, hu | hu, hr⟩
      · exact ⟨u, hu, hr⟩
      · exact ⟨v, hv, .step hu hr⟩
    · rintro ⟨u, hu, hr⟩
      exact ⟨u, .inl hu, hr⟩

theorem Explored.visit?_cons (h : g.Explored marked []) (hs : s < g.order) :
    ∃ found, (∀ seeds, g.visit? marked (s :: seeds) = g.visit? found seeds) ∧ g.Explored found [] ∧
      ∀ v, Marked found v ↔ Marked marked v ∨ g.Reaches s v := by
  obtain ⟨next, stack, hmark, hexplored⟩ := h.seed hs
  obtain ⟨found, hfound, hclosed, hmarked⟩ := hexplored.drain?
  refine ⟨found, fun seeds => ?_, hclosed, fun v => ?_⟩
  · rw [visit?, hmark]
    change (g.drain? next stack).bind _ = _
    rw [hfound]
    rfl
  · simp only [hmarked, marked_mark? hmark, List.mem_singleton]
    constructor
    · rintro ⟨u, hu | rfl, hr⟩
      · exact .inl (h.marked_of_reaches hr hu)
      · exact .inr hr
    · rintro (hv | hr)
      · exact ⟨v, .inl hv, .refl v⟩
      · exact ⟨s, .inr rfl, hr⟩

theorem Explored.visit? (h : g.Explored marked []) (inside : ∀ s ∈ seeds, s < g.order) :
    ∃ found, g.visit? marked seeds = some found ∧ g.Explored found [] ∧
      ∀ v, Marked found v ↔ Marked marked v ∨ ∃ s ∈ seeds, g.Reaches s v := by
  induction seeds generalizing marked with
  | nil => exact ⟨marked, rfl, h, by simp⟩
  | cons s seeds ih =>
    obtain ⟨next, hvisit, hnext, hmarked⟩ := h.visit?_cons (inside s List.mem_cons_self)
    obtain ⟨found, hfound, hclosed, hall⟩ := ih hnext fun t ht => inside t (List.mem_cons_of_mem s ht)
    refine ⟨found, (hvisit seeds).trans hfound, hclosed, fun v => ?_⟩
    simp only [hall, hmarked, List.mem_cons, exists_eq_or_imp, or_assoc]

theorem Explored.visit?_eq_none (h : g.Explored marked []) : g.visit? marked seeds = none ↔ ∃ s ∈ seeds, g.order ≤ s := by
  induction seeds generalizing marked with
  | nil => simp [Graph.visit?]
  | cons s seeds ih =>
    by_cases hs : s < g.order
    · obtain ⟨next, hvisit, hnext, -⟩ := h.visit?_cons hs
      simp [hvisit, ih hnext, Nat.not_le.2 hs]
    · have hle : g.order ≤ s := Nat.le_of_not_lt hs
      have hnone : mark? marked [] [s] = none := mark?_eq_none.2 ⟨s, List.mem_singleton_self s, Nat.le_trans (Nat.le_of_eq h.size) hle⟩
      simp [Graph.visit?, hnone, hle]

theorem reach?_eq_none : g.reach? seeds = none ↔ ∃ s ∈ seeds, g.order ≤ s := by
  rw [← g.explored_replicate.visit?_eq_none, reach?, Option.bind_eq_bind, Option.bind_eq_none_iff]
  simp [Option.eq_none_iff_forall_ne_some]

theorem exists_reach? (inside : ∀ s ∈ seeds, s < g.order) : ∃ found, g.reach? seeds = some found ∧
    found.Pairwise (· < ·) ∧ ∀ v, v ∈ found ↔ ∃ s ∈ seeds, g.Reaches s v := by
  obtain ⟨marked, hvisit, hclosed, hmarked⟩ := g.explored_replicate.visit? inside
  refine ⟨_, by rw [reach?, hvisit]; rfl, List.pairwise_lt_range.filter _, fun v => ?_⟩
  have known : Marked marked v ↔ ∃ s ∈ seeds, g.Reaches s v := by
    rw [hmarked, or_iff_right (not_marked_replicate _ v)]
  rw [← known, List.mem_filter, List.mem_range, ← hclosed.size, Array.getD_eq_getD_getElem?]
  constructor
  · rintro ⟨hlt, h⟩
    rw [Array.getElem?_eq_getElem hlt] at h
    exact Array.getElem?_eq_some_iff.2 ⟨hlt, h⟩
  · intro h
    refine ⟨h.lt_size, ?_⟩
    rw [show marked[v]? = some true from h]
    rfl

theorem reach?_eq_some (inside : ∀ s ∈ seeds, s < g.order) : g.reach? seeds = some (g.reach seeds) := by
  obtain ⟨found, hfound, -⟩ := exists_reach? inside
  have all : seeds.filter (· < g.order) = seeds := List.filter_eq_self.2 fun s hs => decide_eq_true (inside s hs)
  rw [reach, all, hfound]
  rfl

theorem mem_reach : v ∈ g.reach seeds ↔ ∃ s ∈ seeds, s < g.order ∧ g.Reaches s v := by
  have inside : ∀ s ∈ seeds.filter (· < g.order), s < g.order := fun s hs => of_decide_eq_true (List.mem_filter.1 hs).2
  obtain ⟨found, hfound, -, hmem⟩ := exists_reach? inside
  rw [reach, hfound, Option.getD_some, hmem]
  simp [and_assoc]

theorem reaches_iff_reflTransGen {u : Nat} : g.Reaches u v ↔ Relation.ReflTransGen (fun u w => (u, w) ∈ g.edges) u v := by
  constructor
  · intro h
    induction h with
    | refl => exact .refl
    | step h _ ih => exact .head (mem_edges.2 h) ih
  · intro h
    induction h using Relation.ReflTransGen.head_induction_on with
    | refl => exact .refl v
    | head h _ ih => exact .step (mem_edges.1 h) ih

theorem mem_edges_of_addEdge?_eq_some {next : Graph} {e : Nat × Nat} (h : g.addEdge? e.1 e.2 = some next) :
    next.order = g.order ∧ ∀ u w, (u, w) ∈ next.edges ↔ (u, w) ∈ g.edges ∨ (u, w) = e := by
  unfold addEdge? at h
  split at h
  · next inside =>
    obtain rfl := Option.some.inj h
    refine ⟨order_addEdge inside.2, fun u w => ?_⟩
    rw [mem_edges, mem_edges, successors_addEdge inside.1 inside.2, Prod.ext_iff]
    split
    · next hu => simp [← hu]
    · next hu => simp [Ne.symm hu]
  · contradiction

theorem mem_edges_of_foldlM_addEdge? {start : Graph} {edges : List (Nat × Nat)}
    (h : edges.foldlM (fun g e => g.addEdge? e.1 e.2) start = some g) :
    g.order = start.order ∧ ∀ u w, (u, w) ∈ g.edges ↔ (u, w) ∈ start.edges ∨ (u, w) ∈ edges := by
  induction edges generalizing start with
  | nil =>
    obtain rfl := Option.some.inj h
    simp
  | cons e edges ih =>
    rw [List.foldlM_cons, Option.bind_eq_bind, Option.bind_eq_some_iff] at h
    obtain ⟨next, hnext, h⟩ := h
    obtain ⟨horder, hedges⟩ := ih h
    obtain ⟨horder', hedges'⟩ := mem_edges_of_addEdge?_eq_some hnext
    refine ⟨horder.trans horder', fun u w => ?_⟩
    rw [hedges, hedges', List.mem_cons, or_assoc]

/-- In a graph that has been built edge by edge, the search fails just where a seed is no vertex, and otherwise lists in ascending
order the vertices that some seed is joined to by a path of these edges. -/
theorem reach_of_built {n : Nat} {edges : List (Nat × Nat)}
    (h : edges.foldlM (fun g e => g.addEdge? e.1 e.2) (empty n) = some g) (seeds : List Nat) :
    (g.reach? seeds = none ↔ ∃ s ∈ seeds, n ≤ s) ∧
      ((∀ s ∈ seeds, s < n) → ∃ found, g.reach? seeds = some found ∧ found.Pairwise (· < ·) ∧
        ∀ v, v ∈ found ↔ ∃ s ∈ seeds, Relation.ReflTransGen (fun u w => (u, w) ∈ edges) s v) := by
  obtain ⟨horder, hedges⟩ := mem_edges_of_foldlM_addEdge? h
  rw [order_empty] at horder
  have joined (u w : Nat) : (u, w) ∈ g.edges ↔ (u, w) ∈ edges := by rw [hedges, or_iff_right mem_edges_empty]
  subst horder
  refine ⟨reach?_eq_none, fun inside => ?_⟩
  obtain ⟨found, hfound, hascending, hmem⟩ := exists_reach? inside
  refine ⟨found, hfound, hascending, fun v => ?_⟩
  simp only [hmem, reaches_iff_reflTransGen, joined]

/-- A cycle, a loop, two edges side by side, and seeds out of order and given twice. -/
theorem reach_of_built_cycle : ∃ g,
    [(0, 1), (1, 2), (2, 0), (3, 3), (3, 4), (3, 4)].foldlM (fun g e => g.addEdge? e.1 e.2) (empty 6) = some g ∧
      g.reach? [3, 2, 3] = some [0, 1, 2, 3, 4] ∧ (∀ v, v ∈ [0, 1, 2, 3, 4] ↔ ∃ s ∈ [3, 2, 3],
        Relation.ReflTransGen (fun u w => (u, w) ∈ [(0, 1), (1, 2), (2, 0), (3, 3), (3, 4), (3, 4)]) s v) ∧
      g.reach? [3, 6] = none := by
  have h : [(0, 1), (1, 2), (2, 0), (3, 3), (3, 4), (3, 4)].foldlM (fun g e => g.addEdge? e.1 e.2) (empty 6) =
      some (ofEdges 6 [(0, 1), (1, 2), (2, 0), (3, 3), (3, 4), (3, 4)]) := by decide
  have value : (ofEdges 6 [(0, 1), (1, 2), (2, 0), (3, 3), (3, 4), (3, 4)]).reach? [3, 2, 3] = some [0, 1, 2, 3, 4] := by cbv
  obtain ⟨found, hfound, -, hmem⟩ := (reach_of_built h [3, 2, 3]).2 (by decide)
  obtain rfl := Option.some.inj (value.symm.trans hfound)
  exact ⟨_, h, value, hmem, (reach_of_built h [3, 6]).1.2 ⟨6, by decide, Nat.le_refl 6⟩⟩

end RegexSearch.Graph
