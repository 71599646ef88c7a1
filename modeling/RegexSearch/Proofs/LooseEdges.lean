import RegexSearch.Automaton.Basic
import RegexSearch.Expr.Loose

/-! The epsilon edges of an expression that is written down behind a given position, and the walk over its tokens that finds
exactly these edges, whatever has been walked before. -/
namespace RegexSearch

namespace Quantifier

/-- The edges of a quantifier at `i` behind an item that starts at `start`. -/
def edges (q : Quantifier) (start i : Nat) : List (Nat × Nat) := Walk.quantifierEdges q.operator start i ++ [(i, i + 1)]

/-- The edges of several quantifiers from `i` on. Each of them but the first stands behind another one. -/
def edgesOf (start i : Nat) : List Quantifier → List (Nat × Nat)
  | [] => []
  | q :: qs => q.edges start i ++ edgesOf i (i + 1) qs

@[simp] theorem length_tokensOf (qs : List Quantifier) : (tokensOf qs).length = qs.length := List.length_map _

end Quantifier

/-- Where the bars stand that belong to the group around an expression. The expression comes right behind the position `door`,
which is that of a parenthesis or another bar. -/
def LooseExpr.bars (door : Nat) : LooseExpr → List Nat
  | .last _ _ => []
  | .alt lead b e =>
    (door + 1 + lead.length + b.tokens.length) :: e.bars (door + 1 + lead.length + b.tokens.length)

mutual

def LooseExpr.edges (door : Nat) : LooseExpr → List (Nat × Nat)
  | .last lead b => Quantifier.edgesOf door (door + 1) lead ++ b.edges (door + 1 + lead.length)
  | .alt lead b e => Quantifier.edgesOf door (door + 1) lead ++ (b.edges (door + 1 + lead.length) ++
      e.edges (door + 1 + lead.length + b.tokens.length))

def LooseBranch.edges (p : Nat) : LooseBranch → List (Nat × Nat)
  | .nil => []
  | .cons a qs rest => a.edges p ++ (Quantifier.edgesOf p (p + a.tokens.length) qs ++
      rest.edges (p + a.tokens.length + qs.length))

def LooseAtom.edges (p : Nat) : LooseAtom → List (Nat × Nat)
  | .token _ _ => []
  | .group e => (p, p + 1) :: (e.edges p ++ (Walk.barEdges ⟨p, (e.bars p).reverse⟩ (p + 1 + e.tokens.length) ++
      [(p + 1 + e.tokens.length, p + 1 + e.tokens.length + 1)]))

end

theorem LooseAtom.length_tokens_pos (a : LooseAtom) : 0 < a.tokens.length := by
  cases a <;> simp [LooseAtom.tokens]

theorem LooseAtom.length_tokens_group (e : LooseExpr) : (LooseAtom.group e).tokens.length = e.tokens.length + 2 := by
  simp [LooseAtom.tokens]

namespace Walk

theorem foldlM_append_of_ok {ts us : List Token} {w v : Walk} (h : ts.foldlM step w = .ok v) :
    (ts ++ us).foldlM step w = us.foldlM step v := by
  rw [List.foldlM_append, h]
  rfl

theorem foldlM_cons_of_ok {t : Token} {ts : List Token} {w v : Walk} (h : w.step t = .ok v) :
    (t :: ts).foldlM step w = ts.foldlM step v := by
  rw [List.foldlM_cons, h]
  rfl

theorem foldlM_singleton {t : Token} {w v : Walk} (h : w.step t = .ok v) : [t].foldlM step w = .ok v :=
  foldlM_cons_of_ok h

variable {p i : Nat} {item? : Option Nat} {groups : List OpenGroup} {stray : List Nat} {edges : List (Nat × Nat)}

theorem step_token {t : Token} (h : t.operator? = none) :
    step ⟨p, item?, groups, stray, edges⟩ t = .ok ⟨p + 1, some p, groups, stray, edges⟩ := by
  rw [step, h]
  rfl

theorem step_openParen : step ⟨p, item?, groups, stray, edges⟩ (.operator .openParen) =
    .ok ⟨p + 1, some p, ⟨p, []⟩ :: groups, stray, (p, p + 1) :: edges⟩ := rfl

theorem step_closeParen {g : OpenGroup} : step ⟨p, item?, g :: groups, stray, edges⟩ (.operator .closeParen) =
    .ok ⟨p + 1, some g.start, groups, stray, (p, p + 1) :: ((barEdges g p).reverse ++ edges)⟩ := rfl

theorem step_bar {g : OpenGroup} : step ⟨p, item?, g :: groups, stray, edges⟩ (.operator .bar) =
    .ok ⟨p + 1, some p, ⟨g.start, p :: g.bars⟩ :: groups, stray, edges⟩ := rfl

theorem step_quantifier (q : Quantifier) :
    step ⟨i, some p, groups, stray, edges⟩ (.operator q.operator) =
      .ok ⟨i + 1, some i, groups, stray, (q.edges p i).reverse ++ edges⟩ := by
  have key : (q.edges p i).reverse = (i, i + 1) :: (quantifierEdges q.operator p i).reverse := by
    rw [Quantifier.edges, List.reverse_append]
    rfl
  rw [key]
  cases q <;> rfl

theorem foldlM_quantifiers (qs : List Quantifier) (p i : Nat) (groups : List OpenGroup) (stray : List Nat)
    (edges : List (Nat × Nat)) : ∃ item'?,
    (Quantifier.tokensOf qs).foldlM step ⟨i, some p, groups, stray, edges⟩ =
      .ok ⟨i + qs.length, item'?, groups, stray, (Quantifier.edgesOf p i qs).reverse ++ edges⟩ := by
  induction qs generalizing p i edges with
  | nil => exact ⟨some p, rfl⟩
  | cons q qs ih =>
    obtain ⟨item'?, hqs⟩ := ih i (i + 1) ((q.edges p i).reverse ++ edges)
    refine ⟨item'?, ?_⟩
    change List.foldlM step _ (.operator q.operator :: Quantifier.tokensOf qs) = _
    rw [foldlM_cons_of_ok (step_quantifier q), hqs]
    simp [Quantifier.edgesOf, Nat.add_assoc, Nat.add_comm 1]

end Walk

section
open Walk

mutual

theorem LooseExpr.walk (e : LooseExpr) (door : Nat) (g : OpenGroup) (groups : List OpenGroup) (stray : List Nat)
    (edges : List (Nat × Nat)) : ∃ item'?,
    e.tokens.foldlM step ⟨door + 1, some door, g :: groups, stray, edges⟩ =
      .ok ⟨door + 1 + e.tokens.length, item'?, ⟨g.start, (e.bars door).reverse ++ g.bars⟩ :: groups, stray,
        (e.edges door).reverse ++ edges⟩ := by
  cases e with
  | last lead b =>
    obtain ⟨mid?, hlead⟩ := foldlM_quantifiers lead door (door + 1) (g :: groups) stray edges
    obtain ⟨item'?, hb⟩ := b.walk (door + 1 + lead.length) mid? (g :: groups) stray
      ((Quantifier.edgesOf door (door + 1) lead).reverse ++ edges)
    refine ⟨item'?, ?_⟩
    rw [LooseExpr.tokens, foldlM_append_of_ok hlead, hb]
    simp [LooseExpr.bars, LooseExpr.edges, Nat.add_assoc]
  | alt lead b e =>
    obtain ⟨bar, hbar⟩ : ∃ bar, bar = door + 1 + lead.length + b.tokens.length := ⟨_, rfl⟩
    obtain ⟨start?, hlead⟩ := foldlM_quantifiers lead door (door + 1) (g :: groups) stray edges
    obtain ⟨mid?, hb⟩ := b.walk (door + 1 + lead.length) start? (g :: groups) stray
      ((Quantifier.edgesOf door (door + 1) lead).reverse ++ edges)
    rw [← hbar] at hb
    obtain ⟨item'?, he⟩ := e.walk bar ⟨g.start, bar :: g.bars⟩ groups stray
      ((b.edges (door + 1 + lead.length)).reverse ++ ((Quantifier.edgesOf door (door + 1) lead).reverse ++ edges))
    have hlen : door + 1 + (LooseExpr.alt lead b e).tokens.length = bar + 1 + e.tokens.length := by
      simp [LooseExpr.tokens, hbar]
      omega
    refine ⟨item'?, ?_⟩
    rw [hlen, LooseExpr.tokens, foldlM_append_of_ok hlead, foldlM_append_of_ok hb, foldlM_cons_of_ok step_bar, he]
    simp [LooseExpr.bars, LooseExpr.edges, ← hbar]

theorem LooseBranch.walk (b : LooseBranch) (p : Nat) (item? : Option Nat) (groups : List OpenGroup)
    (stray : List Nat) (edges : List (Nat × Nat)) : ∃ item'?,
    b.tokens.foldlM step ⟨p, item?, groups, stray, edges⟩ =
      .ok ⟨p + b.tokens.length, item'?, groups, stray, (b.edges p).reverse ++ edges⟩ := by
  cases b with
  | nil => exact ⟨item?, rfl⟩
  | cons a qs rest =>
    have ha := a.walk p item? groups stray edges
    obtain ⟨mid?, hqs⟩ := foldlM_quantifiers qs p (p + a.tokens.length) groups stray ((a.edges p).reverse ++ edges)
    obtain ⟨item'?, hrest⟩ := rest.walk (p + a.tokens.length + qs.length) mid? groups stray
      ((Quantifier.edgesOf p (p + a.tokens.length) qs).reverse ++ ((a.edges p).reverse ++ edges))
    refine ⟨item'?, ?_⟩
    rw [LooseBranch.tokens, foldlM_append_of_ok ha, foldlM_append_of_ok hqs, hrest]
    simp [LooseBranch.edges, Nat.add_assoc]

theorem LooseAtom.walk (a : LooseAtom) (p : Nat) (item? : Option Nat) (groups : List OpenGroup)
    (stray : List Nat) (edges : List (Nat × Nat)) :
    a.tokens.foldlM step ⟨p, item?, groups, stray, edges⟩ =
      .ok ⟨p + a.tokens.length, some p, groups, stray, (a.edges p).reverse ++ edges⟩ := by
  cases a with
  | token t h => exact foldlM_singleton (step_token h)
  | group e =>
    obtain ⟨mid?, he⟩ := e.walk p ⟨p, []⟩ groups stray ((p, p + 1) :: edges)
    rw [LooseAtom.tokens, foldlM_cons_of_ok step_openParen, foldlM_append_of_ok he, foldlM_singleton step_closeParen]
    simp [LooseAtom.edges, Nat.add_assoc, Nat.add_comm 1]

end

end

/-- Edges that start at one of the `n` positions from `p` on and lead no further than to the position after them. -/
def Within (p n : Nat) (edges : List (Nat × Nat)) : Prop := ∀ e ∈ edges, p ≤ e.1 ∧ e.1 < p + n ∧ e.2 ≤ p + n

theorem Within.mono {p n q m : Nat} {edges : List (Nat × Nat)} (h : Within q m edges) (hp : p ≤ q)
    (hn : q + m ≤ p + n) : Within p n edges := by
  intro e he
  have key := h e he
  omega

theorem Within.append {p n : Nat} {xs ys : List (Nat × Nat)} (h : Within p n xs) (k : Within p n ys) :
    Within p n (xs ++ ys) := by
  intro e he
  rcases List.mem_append.1 he with he | he
  · exact h e he
  · exact k e he

theorem Within.not_mem {p n u v : Nat} {edges : List (Nat × Nat)} (h : Within p n edges) (hu : u < p ∨ p + n ≤ u) :
    (u, v) ∉ edges := by
  intro hmem
  have key := h _ hmem
  omega

namespace Quantifier

theorem mem_edges {q : Quantifier} {start i u v : Nat} :
    (u, v) ∈ q.edges start i ↔ (u = i ∧ v = i + 1) ∨ (q.skips = true ∧ u = start ∧ v = i) ∨
      (q.repeats = true ∧ u = i ∧ v = start) := by
  cases q <;> simp [edges, Walk.quantifierEdges, operator, skips, repeats] <;> tauto

theorem within_edgesOf (qs : List Quantifier) {start i : Nat} (h : start < i) :
    Within start (i - start + qs.length) (edgesOf start i qs) := by
  induction qs generalizing start i with
  | nil => exact fun e he => absurd he List.not_mem_nil
  | cons q qs ih =>
    rw [edgesOf, List.length_cons]
    have hqs := ih (Nat.lt_succ_self i)
    refine Within.append ?_ (hqs.mono (by omega) (by omega))
    rintro ⟨u, v⟩ huv
    rcases mem_edges.1 huv with ⟨rfl, rfl⟩ | ⟨-, rfl, rfl⟩ | ⟨-, rfl, rfl⟩ <;> dsimp only <;> omega

/-- Of several quantifiers only the first one adds an edge before them, around their item. -/
theorem mem_edgesOf_of_lt {qs : List Quantifier} {start i u v : Nat} (h : u < i) :
    (u, v) ∈ edgesOf start i qs ↔ qs.head?.any skips = true ∧ u = start ∧ v = i := by
  cases qs with
  | nil => simp [edgesOf]
  | cons q qs =>
    have hqs : (u, v) ∉ edgesOf i (i + 1) qs := (within_edgesOf qs (Nat.lt_succ_self i)).not_mem (.inl h)
    have hne : u ≠ i := Nat.ne_of_lt h
    simp [edgesOf, mem_edges, hqs, hne]

end Quantifier

theorem LooseExpr.lt_of_mem_bars {e : LooseExpr} {door bar : Nat} (h : bar ∈ e.bars door) :
    door < bar ∧ bar < door + 1 + e.tokens.length := by
  fun_induction LooseExpr.bars door e with
  | case1 => contradiction
  | case2 door lead b e ih =>
    rw [LooseExpr.tokens, List.length_append, List.length_append, List.length_cons, Quantifier.length_tokensOf]
    rcases List.mem_cons.1 h with rfl | h
    · omega
    · have key := ih h
      omega

theorem LooseExpr.not_mem_bars {e : LooseExpr} {door u : Nat} (hu : u ≤ door ∨ door + 1 + e.tokens.length ≤ u) :
    u ∉ e.bars door := by
  intro hmem
  have key := LooseExpr.lt_of_mem_bars hmem
  omega

mutual

-- A quantifier at the start of an expression may skip the door, so the door counts among the positions.
theorem LooseExpr.within_edges (e : LooseExpr) (door : Nat) : Within door (e.tokens.length + 1) (e.edges door) := by
  cases e with
  | last lead b =>
    have hlead := Quantifier.within_edgesOf lead (Nat.lt_succ_self door)
    have hb := b.within_edges (door + 1 + lead.length)
    rw [LooseExpr.tokens, LooseExpr.edges, List.length_append, Quantifier.length_tokensOf]
    exact (hlead.mono (by omega) (by omega)).append (hb.mono (by omega) (by omega))
  | alt lead b e =>
    have hlead := Quantifier.within_edgesOf lead (Nat.lt_succ_self door)
    have hb := b.within_edges (door + 1 + lead.length)
    have he := e.within_edges (door + 1 + lead.length + b.tokens.length)
    rw [LooseExpr.tokens, LooseExpr.edges, List.length_append, List.length_append, List.length_cons,
      Quantifier.length_tokensOf]
    exact (hlead.mono (by omega) (by omega)).append
      ((hb.mono (by omega) (by omega)).append (he.mono (by omega) (by omega)))

theorem LooseBranch.within_edges (b : LooseBranch) (p : Nat) : Within p b.tokens.length (b.edges p) := by
  cases b with
  | nil => exact fun e he => absurd he List.not_mem_nil
  | cons a qs rest =>
    have hpos := a.length_tokens_pos
    have ha := a.within_edges p
    have hqs := Quantifier.within_edgesOf qs (show p < p + a.tokens.length by omega)
    have hrest := rest.within_edges (p + a.tokens.length + qs.length)
    rw [LooseBranch.tokens, LooseBranch.edges, List.length_append, List.length_append, Quantifier.length_tokensOf]
    exact (ha.mono (by omega) (by omega)).append
      ((hqs.mono (by omega) (by omega)).append (hrest.mono (by omega) (by omega)))

theorem LooseAtom.within_edges (a : LooseAtom) (p : Nat) : Within p a.tokens.length (a.edges p) := by
  cases a with
  | token t h => exact fun e he => absurd he List.not_mem_nil
  | group e =>
    rw [LooseAtom.length_tokens_group, LooseAtom.edges]
    have he := (e.within_edges p).mono (p := p) (n := e.tokens.length + 2) (by omega) (by omega)
    rintro ⟨u, v⟩ huv
    simp only [List.mem_cons, List.mem_append, Walk.barEdges, List.mem_flatMap, List.mem_reverse, List.not_mem_nil,
      or_false, Prod.mk.injEq] at huv
    rcases huv with huv | huv | ⟨bar, hbar, huv⟩ | huv
    · omega
    · exact he _ huv
    · have key := LooseExpr.lt_of_mem_bars hbar
      omega
    · omega

end

end RegexSearch
