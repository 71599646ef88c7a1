/-! Directed graphs over the vertices `0 … n - 1`, with parallel edges, kept as a row of successors per vertex. `order` counts the
vertices and `size` the edges. -/
namespace RegexSearch

structure Graph where
  /-- The successors of each vertex in the order in which their edges were added. -/
  rows : Array (List Nat)
  lt_size : ∀ row ∈ rows, ∀ v ∈ row, v < rows.size
deriving DecidableEq

namespace Graph

def order (g : Graph) : Nat := g.rows.size

def empty (n : Nat) : Graph where
  rows := Array.replicate n []
  lt_size row h v hv := by rw [(Array.mem_replicate.1 h).2] at hv; contradiction

@[simp] theorem order_empty (n : Nat) : (empty n).order = n := Array.size_replicate

def successors (g : Graph) (u : Nat) : List Nat := g.rows[u]?.getD []

theorem lt_order_of_mem_successors {g : Graph} {u v : Nat} (h : v ∈ g.successors u) : v < g.order := by
  rw [successors] at h
  cases hu : g.rows[u]? with
  | none => simp [hu] at h
  | some row =>
    rw [hu, Option.getD_some] at h
    exact g.lt_size row (Array.mem_of_getElem? hu) v h

theorem successors_empty (n u : Nat) : (empty n).successors u = [] := by
  rw [successors, empty, Array.getElem?_replicate]
  split <;> rfl

def addEdge (g : Graph) (u v : Nat) (hv : v < g.order) : Graph where
  rows := g.rows.modify u (· ++ [v])
  lt_size row h w hw := by
    rw [Array.size_modify]
    obtain ⟨i, hi, rfl⟩ := Array.getElem_of_mem h
    rw [Array.size_modify] at hi
    rw [Array.getElem_modify] at hw
    split at hw
    · rcases List.mem_append.1 hw with hw | hw
      · exact g.lt_size _ (Array.getElem_mem hi) w hw
      · exact List.mem_singleton.1 hw ▸ hv
    · exact g.lt_size _ (Array.getElem_mem hi) w hw

@[simp] theorem order_addEdge {g : Graph} {u v : Nat} (hv : v < g.order) : (g.addEdge u v hv).order = g.order :=
  Array.size_modify

theorem successors_addEdge {g : Graph} {u v : Nat} (hu : u < g.order) (hv : v < g.order) (w : Nat) :
    (g.addEdge u v hv).successors w = if u = w then g.successors w ++ [v] else g.successors w := by
  rw [order] at hu
  simp only [successors, addEdge, Array.getElem?_modify]
  split
  · next h => simp [← h, hu]
  · rfl

def addEdge? (g : Graph) (u v : Nat) : Option Graph :=
  if h : u < g.order ∧ v < g.order then some (g.addEdge u v h.2) else none

def outsideMessage (g : Graph) (u v : Nat) : String :=
  "edge " ++ toString u ++ " -> " ++ toString v ++ " outside of " ++ toString g.order ++ " vertices"

/-- Adds edges one after the other, and leaves out those with an end that is no vertex. -/
def ofEdges (n : Nat) (edges : List (Nat × Nat)) : Graph :=
  edges.foldl (fun g e => (g.addEdge? e.1 e.2).getD g) (empty n)

/-- Adds edges one after the other, unless one of them has an end that is no vertex. -/
def addEdges? (g : Graph) (edges : List (Nat × Nat)) : Option Graph := edges.foldlM (fun g e => g.addEdge? e.1 e.2) g

@[simp] theorem order_ofEdges (n : Nat) (edges : List (Nat × Nat)) : (ofEdges n edges).order = n := by
  have key : ∀ g : Graph, (edges.foldl (fun g e => (g.addEdge? e.1 e.2).getD g) g).order = g.order := by
    induction edges with
    | nil => intro g; rfl
    | cons e rest ih =>
      intro g
      rw [List.foldl_cons, ih, addEdge?]
      split <;> simp
  rw [ofEdges, key, order_empty]

theorem addEdge?_eq_some {g : Graph} {u v : Nat} (hu : u < g.order) (hv : v < g.order) :
    g.addEdge? u v = some (g.addEdge u v hv) := dif_pos ⟨hu, hv⟩

/-- Where all ends are vertices, no edge is left out. -/
theorem addEdges?_empty {n : Nat} {edges : List (Nat × Nat)} (h : ∀ e ∈ edges, e.1 < n ∧ e.2 < n) :
    (empty n).addEdges? edges = some (ofEdges n edges) := by
  have key (g : Graph) (hg : g.order = n) :
      g.addEdges? edges = some (edges.foldl (fun g e => (g.addEdge? e.1 e.2).getD g) g) := by
    induction edges generalizing g with
    | nil => rfl
    | cons e edges ih =>
      obtain ⟨hu, hv⟩ := h e List.mem_cons_self
      have hedge := addEdge?_eq_some (hg ▸ hu) (hg ▸ hv)
      rw [addEdges?, List.foldlM_cons, List.foldl_cons, hedge, Option.getD_some]
      exact ih (fun e he => h e (List.mem_cons_of_mem _ he)) _ ((order_addEdge _).trans hg)
  exact key (empty n) (order_empty n)

theorem successors_ofEdges {n : Nat} {edges : List (Nat × Nat)} (h : ∀ e ∈ edges, e.1 < n ∧ e.2 < n) (u : Nat) :
    (ofEdges n edges).successors u = (edges.filter (·.1 == u)).map (·.2) := by
  have key (g : Graph) (hg : g.order = n) : (edges.foldl (fun g e => (g.addEdge? e.1 e.2).getD g) g).successors u =
      g.successors u ++ (edges.filter (·.1 == u)).map (·.2) := by
    induction edges generalizing g with
    | nil => exact (List.append_nil _).symm
    | cons e edges ih =>
      obtain ⟨hu, hv⟩ := h e List.mem_cons_self
      have hedge := addEdge?_eq_some (hg ▸ hu) (hg ▸ hv)
      rw [List.foldl_cons, hedge, Option.getD_some, ih (fun e he => h e (List.mem_cons_of_mem _ he)) _
        ((order_addEdge _).trans hg), successors_addEdge (hg ▸ hu), List.filter_cons]
      by_cases heq : e.1 = u
      · simp [heq]
      · simp [heq]
  rw [ofEdges, key (empty n) (order_empty n), successors_empty, List.nil_append]

theorem ext_successors {g g' : Graph} (horder : g.order = g'.order) (h : ∀ u, g.successors u = g'.successors u) : g = g' := by
  have rows : g.rows = g'.rows := by
    apply Array.ext horder
    intro u hu hu'
    have row := h u
    rwa [successors, successors, Array.getElem?_eq_getElem hu, Array.getElem?_eq_getElem hu'] at row
  cases g
  cases g'
  cases rows
  rfl

/-- Only the order of the edges of one vertex counts. -/
theorem ofEdges_congr {n : Nat} {edges edges' : List (Nat × Nat)} (h : ∀ e ∈ edges, e.1 < n ∧ e.2 < n)
    (h' : ∀ e ∈ edges', e.1 < n ∧ e.2 < n)
    (same : ∀ u, (edges.filter (·.1 == u)).map (·.2) = (edges'.filter (·.1 == u)).map (·.2)) :
    ofEdges n edges = ofEdges n edges' := by
  apply ext_successors
  · rw [order_ofEdges, order_ofEdges]
  · intro u
    rw [successors_ofEdges h, successors_ofEdges h', same]

def edges (g : Graph) : List (Nat × Nat) :=
  (List.range g.order).flatMap fun u => (g.successors u).map (u, ·)

def size (g : Graph) : Nat := g.edges.length

theorem mem_edges {g : Graph} {u v : Nat} : (u, v) ∈ g.edges ↔ v ∈ g.successors u := by
  simp only [edges, List.mem_flatMap, List.mem_range, List.mem_map, Prod.mk.injEq]
  constructor
  · rintro ⟨_, _, _, h, rfl, rfl⟩
    exact h
  · intro h
    refine ⟨u, ?_, v, h, rfl, rfl⟩
    rw [successors] at h
    rw [order]
    by_cases hu : u < g.rows.size
    · exact hu
    · rw [Array.getElem?_eq_none (Nat.le_of_not_lt hu)] at h
      contradiction

theorem mem_edges_empty {n u v : Nat} : (u, v) ∉ (empty n).edges := by
  rw [mem_edges, successors_empty]
  exact List.not_mem_nil

theorem mem_edges_addEdge? {g : Graph} {e : Nat × Nat} {u v : Nat} :
    (u, v) ∈ ((g.addEdge? e.1 e.2).getD g).edges ↔ (u, v) ∈ g.edges ∨ (u, v) = e ∧ u < g.order ∧ v < g.order := by
  obtain ⟨i, j⟩ := e
  rw [addEdge?, Prod.mk.injEq]
  split
  · next h =>
    rw [Option.getD_some, mem_edges, mem_edges, successors_addEdge h.1 h.2]
    split
    · next hu =>
      subst hu
      rw [List.mem_append, List.mem_singleton]
      constructor
      · exact Or.imp_right fun hv => ⟨⟨rfl, hv⟩, h.1, hv ▸ h.2⟩
      · exact Or.imp_right fun hv => hv.1.2
    · next hu =>
      constructor
      · exact .inl
      · exact fun hv => hv.resolve_right fun k => hu k.1.1.symm
  · next h =>
    constructor
    · exact .inl
    · rintro (hv | ⟨⟨rfl, rfl⟩, k⟩)
      · exact hv
      · exact absurd k h

theorem mem_edges_ofEdges {n : Nat} {edges : List (Nat × Nat)} {u v : Nat} :
    (u, v) ∈ (ofEdges n edges).edges ↔ (u, v) ∈ edges ∧ u < n ∧ v < n := by
  have key : ∀ g : Graph, g.order = n → ((u, v) ∈ (edges.foldl (fun g e => (g.addEdge? e.1 e.2).getD g) g).edges ↔
      (u, v) ∈ g.edges ∨ (u, v) ∈ edges ∧ u < n ∧ v < n) := by
    induction edges with
    | nil => simp
    | cons e rest ih =>
      intro g hg
      have order : ((g.addEdge? e.1 e.2).getD g).order = n := by
        rw [addEdge?]
        split <;> simp [hg]
      rw [List.foldl_cons, ih _ order, mem_edges_addEdge?, hg, List.mem_cons]
      constructor
      · rintro ((h | ⟨h, k⟩) | ⟨h, k⟩)
        · exact .inl h
        · exact .inr ⟨.inl h, k⟩
        · exact .inr ⟨.inr h, k⟩
      · rintro (h | ⟨h | h, k⟩)
        · exact .inl (.inl h)
        · exact .inl (.inr ⟨h, k⟩)
        · exact .inr ⟨h, k⟩
  rw [ofEdges, key (empty n) (order_empty n)]
  exact or_iff_right mem_edges_empty

end Graph
end RegexSearch
