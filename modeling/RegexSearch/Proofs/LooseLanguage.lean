import RegexSearch.Proofs.Hosting

/-! The automaton of a group accepts the language of the expression in it. Each part of the expression is a stretch of states
that is crossed by reading the part's language: by recursion on the expression, with the edges of the automaton known exactly at
the positions of the part. -/
namespace RegexSearch
open Automaton

namespace LooseExpr

/-- Where the first alternative starts, past its quantifiers. -/
def entry (e : LooseExpr) (door : Nat) : Nat := door + 1 + e.lead.length

/-- What is read in the alternatives of an expression behind a door, up to the end `q` of the group: in the first one from its
entry on, in the others from behind their bars. -/
structure Crossed (e : LooseExpr) (a : Automaton) (door q : Nat) : Prop where
  lead : a.Drifts (door + 1) (e.entry door) door e.repeats
  first : a.Crosses (e.entry door) q e.first
  enters : ∀ s ∈ e.language, s ∈ e.first ∨ ∃ bar ∈ e.bars door, a.Run (bar + 1) s q
  leaves : ∀ bar ∈ e.bars door, a.Leaves (bar + 1) q e.language

theorem first_le_language (e : LooseExpr) : ∀ s ∈ e.first, s ∈ e.language := by
  cases e with
  | last lead b => exact fun s hs => hs
  | alt lead b e => exact fun s hs => .inl hs

theorem Crossed.last {lead : List Quantifier} {b : LooseBranch} {a : Automaton} {door q : Nat}
    (hlead : a.Drifts (door + 1) (door + 1 + lead.length) door (lead.head?.any Quantifier.repeats))
    (branch : a.Crosses (door + 1 + lead.length) q b.language) : (last lead b).Crossed a door q where
  lead := hlead
  first := branch
  enters _ hs := .inl hs
  leaves _ hbar := absurd hbar List.not_mem_nil

theorem Crossed.alt {lead : List Quantifier} {b : LooseBranch} {e : LooseExpr} {a : Automaton} {door bar q : Nat}
    (hbar : bar = door + 1 + lead.length + b.tokens.length)
    (hlead : a.Drifts (door + 1) (door + 1 + lead.length) door (lead.head?.any Quantifier.repeats))
    (branch : a.Crosses (door + 1 + lead.length) bar b.language) (beyond : a.Crosses bar q (onward e.skips e.first))
    (rest : e.Crossed a bar q) : (alt lead b e).Crossed a door q := by
  have through : a.Crosses (bar + 1) q (skippable e.repeats e.first) := rest.lead.crosses rest.first beyond
  have hbars : (LooseExpr.alt lead b e).bars door = bar :: e.bars bar := by rw [bars, ← hbar]
  have within : ∀ s ∈ skippable e.repeats e.language, s ∈ (LooseExpr.alt lead b e).language := fun s hs => .inr hs
  refine ⟨hlead, branch.mul beyond, ?_, ?_⟩
  · rw [hbars]
    rintro s (hs | hs)
    · exact .inl hs
    · right
      rcases mem_skippable.1 hs with ⟨hback, rfl⟩ | hs
      · exact ⟨bar, List.mem_cons_self, through.enters [] (mem_skippable.2 (.inl ⟨hback, rfl⟩))⟩
      · rcases rest.enters s hs with hs | ⟨later, hmem, hrun⟩
        · exact ⟨bar, List.mem_cons_self, through.enters s (mem_skippable.2 (.inr hs))⟩
        · exact ⟨later, List.mem_cons_of_mem bar hmem, hrun⟩
  · rw [hbars]
    intro later hlater
    rcases List.mem_cons.1 hlater with rfl | hlater
    · refine through.leaves.mono fun s hs => within s (mem_skippable.2 ?_)
      exact (mem_skippable.1 hs).imp_right (e.first_le_language s)
    · exact (rest.leaves later hlater).mono fun s hs => within s (mem_skippable.2 (.inr hs))

theorem mem_edges_last {lead : List Quantifier} {b : LooseBranch} {door u v : Nat} :
    (u, v) ∈ (last lead b).edges door ↔
      (u, v) ∈ Quantifier.edgesOf door (door + 1) lead ∨ (u, v) ∈ b.edges (door + 1 + lead.length) := List.mem_append

/-- The edges of several alternatives, with those that their bars get. -/
theorem mem_edges_alt {lead : List Quantifier} {b : LooseBranch} {e : LooseExpr} {door bar q u v : Nat}
    (hbar : bar = door + 1 + lead.length + b.tokens.length) :
    ((u, v) ∈ (alt lead b e).edges door ∨ u ∈ (alt lead b e).bars door ∧ v = q) ↔
      (u, v) ∈ Quantifier.edgesOf door (door + 1) lead ∨ (u, v) ∈ b.edges (door + 1 + lead.length) ∨
        u = bar ∧ v = q ∨ (u, v) ∈ e.edges bar ∨ u ∈ e.bars bar ∧ v = q := by
  simp only [edges, bars, ← hbar, List.mem_append, List.mem_cons]
  tauto

/-- An edge out of the door of an expression, as far as it belongs to the expression. -/
theorem mem_edges_door (e : LooseExpr) {door v : Nat} :
    (door, v) ∈ e.edges door ↔ e.skips = true ∧ v = door + 1 := by
  have hlead (lead : List Quantifier) : (door, v) ∈ Quantifier.edgesOf door (door + 1) lead ↔
      lead.head?.any Quantifier.skips = true ∧ v = door + 1 := by
    rw [Quantifier.mem_edgesOf_of_lt (Nat.lt_succ_self door)]
    simp
  have hb (b : LooseBranch) (lead : List Quantifier) : (door, v) ∉ b.edges (door + 1 + lead.length) :=
    (b.within_edges _).not_mem (.inl (by omega))
  cases e with
  | last lead b =>
    rw [mem_edges_last, or_iff_left (hb b lead)]
    exact hlead lead
  | alt lead b e =>
    have he : (door, v) ∉ e.edges (door + 1 + lead.length + b.tokens.length) :=
      (e.within_edges _).not_mem (.inl (by omega))
    rw [edges, List.mem_append, List.mem_append, or_iff_left (not_or.2 ⟨hb b lead, he⟩)]
    exact hlead lead

end LooseExpr

/-- The edges of a group, as far as they are no edges of the expression in it. -/
theorem LooseAtom.mem_edges_group {e : LooseExpr} {p q u v : Nat} (hq : q = p + 1 + e.tokens.length) :
    (u, v) ∈ (LooseAtom.group e).edges p ↔ (u = p ∧ (v = p + 1 ∨ v ∈ (e.bars p).map (· + 1))) ∨
      ((u, v) ∈ e.edges p ∨ u ∈ e.bars p ∧ v = q) ∨ (u = q ∧ v = q + 1) := by
  subst hq
  simp only [LooseAtom.edges, Walk.barEdges, List.mem_cons, List.mem_append, List.mem_flatMap, List.mem_reverse,
    List.mem_map, List.not_mem_nil, or_false, Prod.mk.injEq]
  constructor
  · rintro (⟨rfl, rfl⟩ | h | ⟨bar, hbar, ⟨rfl, rfl⟩ | ⟨rfl, rfl⟩⟩ | h)
    · exact .inl ⟨rfl, .inl rfl⟩
    · exact .inr (.inl (.inl h))
    · exact .inl ⟨rfl, .inr ⟨bar, hbar, rfl⟩⟩
    · exact .inr (.inl (.inr ⟨hbar, rfl⟩))
    · exact .inr (.inr h)
  · rintro (⟨rfl, rfl | ⟨bar, hbar, rfl⟩⟩ | (h | ⟨hbar, rfl⟩) | h)
    · exact .inl ⟨rfl, rfl⟩
    · exact .inr (.inr (.inl ⟨bar, hbar, .inl ⟨rfl, rfl⟩⟩))
    · exact .inr (.inl h)
    · exact .inr (.inr (.inl ⟨u, hbar, .inr ⟨rfl, rfl⟩⟩))
    · exact .inr (.inr (.inr h))

mutual

theorem LooseExpr.crossed {a : Automaton} (e : LooseExpr) {door q : Nat} (hq : q = door + 1 + e.tokens.length)
    (h : a.Hosts (door + 1) e.tokens fun u v => (u, v) ∈ e.edges door ∨ u ∈ e.bars door ∧ v = q) :
    e.Crossed a door q := by
  cases e with
  | last lead b =>
    have hlead := Quantifier.within_edgesOf lead (Nat.lt_succ_self door)
    have hb := b.within_edges (door + 1 + lead.length)
    have known := h.congr fun u v _ _ => by
      rw [LooseExpr.mem_edges_last, LooseExpr.bars, or_iff_left (b := _ ∧ _) (by simp)]
    have hbranch := known.append_right
    rw [Quantifier.length_tokensOf] at hbranch
    rw [LooseExpr.tokens, List.length_append, Quantifier.length_tokensOf, ← Nat.add_assoc] at hq
    refine .last ?_ ?_
    · refine drifts_of_hosts_quantifiers (Nat.lt_succ_self door) (known.append_left.congr fun u v _ hu => ?_)
      rw [Quantifier.length_tokensOf] at hu
      exact or_iff_left (hb.not_mem (.inl hu))
    · rw [hq]
      exact b.crosses (hbranch.congr fun u v hu _ => or_iff_right (hlead.not_mem (.inr (by omega))))
  | alt lead b e =>
    obtain ⟨bar, hbar⟩ : ∃ bar, bar = door + 1 + lead.length + b.tokens.length := ⟨_, rfl⟩
    have hlead := Quantifier.within_edgesOf lead (Nat.lt_succ_self door)
    have hb := b.within_edges (door + 1 + lead.length)
    have he := e.within_edges bar
    have hbars {u : Nat} (hu : u ≤ bar) : u ∉ e.bars bar := LooseExpr.not_mem_bars (.inl hu)
    have known := h.congr fun u v _ _ => LooseExpr.mem_edges_alt hbar
    have hbranch := known.append_right
    rw [Quantifier.length_tokensOf] at hbranch
    have hdoor := hbranch.append_right
    rw [← hbar] at hdoor
    have rest : e.Crossed a bar q := by
      refine e.crossed ?_ (hdoor.tail.congr fun u v hu _ => ?_)
      · simp only [LooseExpr.tokens, List.length_append, List.length_cons, Quantifier.length_tokensOf] at hq
        omega
      · have hne : u ≠ bar := by omega
        have outside : (u, v) ∉ Quantifier.edgesOf door (door + 1) lead := hlead.not_mem (.inr (by omega))
        have outside' : (u, v) ∉ b.edges (door + 1 + lead.length) := hb.not_mem (.inr (by omega))
        simp [hne, outside, outside']
    refine .alt hbar ?_ ?_ ?_ rest
    · refine drifts_of_hosts_quantifiers (Nat.lt_succ_self door) (known.append_left.congr fun u v _ hu => ?_)
      rw [Quantifier.length_tokensOf] at hu
      have hne : u ≠ bar := by omega
      have outside : (u, v) ∉ b.edges (door + 1 + lead.length) := hb.not_mem (.inl (by omega))
      have outside' : (u, v) ∉ e.edges bar := he.not_mem (.inl (by omega))
      have outside'' : u ∉ e.bars bar := hbars (by omega)
      simp [hne, outside, outside', outside'']
    · rw [hbar]
      refine b.crosses (hbranch.append_left.congr fun u v hp hu => ?_)
      have hne : u ≠ bar := by omega
      have outside : (u, v) ∉ Quantifier.edgesOf door (door + 1) lead := hlead.not_mem (.inr (by omega))
      have outside' : (u, v) ∉ e.edges bar := he.not_mem (.inl (by omega))
      have outside'' : u ∉ e.bars bar := hbars (by omega)
      simp [hne, outside, outside', outside'']
    · refine crosses_of_hosts_door hdoor (fun v => ?_) rest.lead rest.first
      have outside : (bar, v) ∉ Quantifier.edgesOf door (door + 1) lead := hlead.not_mem (.inr (by omega))
      have outside' : (bar, v) ∉ b.edges (door + 1 + lead.length) := hb.not_mem (.inr (by omega))
      simp [outside, outside', hbars, e.mem_edges_door]

theorem LooseBranch.crosses {a : Automaton} (b : LooseBranch) {p : Nat}
    (h : a.Hosts p b.tokens fun u v => (u, v) ∈ b.edges p) : a.Crosses p (p + b.tokens.length) b.language := by
  cases b with
  | nil => exact .refl a p
  | cons x qs rest =>
    obtain ⟨i, hi⟩ : ∃ i, i = p + x.tokens.length := ⟨_, rfl⟩
    have hpos := x.length_tokens_pos
    have hlt : p < i := by omega
    have hx := x.within_edges p
    have hqs := Quantifier.within_edgesOf qs hlt
    have hrest := rest.within_edges (i + qs.length)
    have known := h.congr fun u v _ _ => by rw [LooseBranch.edges, ← hi, List.mem_append, List.mem_append]
    have hlater := known.append_right
    rw [← hi] at hlater
    have last : a.Crosses (i + qs.length) (i + qs.length + rest.tokens.length) rest.language := by
      have hlast := hlater.append_right
      rw [Quantifier.length_tokensOf] at hlast
      refine rest.crosses (hlast.congr fun u v hu _ => ?_)
      have outside : (u, v) ∉ x.edges p := hx.not_mem (.inr (by omega))
      have outside' : (u, v) ∉ Quantifier.edgesOf p i qs := hqs.not_mem (.inr (by omega))
      simp [outside, outside']
    have stretch : a.Crosses p i (skippable (qs.head?.any Quantifier.skips) x.language) := by
      rw [hi]
      refine x.crosses _ (known.append_left.congr fun u v hp hu => ?_)
      have outside : (u, v) ∉ rest.edges (i + qs.length) := hrest.not_mem (.inl (by omega))
      rw [or_iff_left outside, Quantifier.mem_edgesOf_of_lt (by omega), ← hi]
    have item : a.Crosses p (i + qs.length) (Quantifier.language qs.head? x.language) := by
      refine crosses_of_hosts_quantifiers hlt (hlater.append_left.congr fun u v hu hu' => ?_) stretch
      rw [Quantifier.length_tokensOf] at hu'
      have outside : (u, v) ∉ x.edges p := hx.not_mem (.inr (by omega))
      have outside' : (u, v) ∉ rest.edges (i + qs.length) := hrest.not_mem (.inl (by omega))
      simp [outside, outside']
    have hlen : p + (LooseBranch.cons x qs rest).tokens.length = i + qs.length + rest.tokens.length := by
      simp only [LooseBranch.tokens, List.length_append, Quantifier.length_tokensOf]
      omega
    rw [hlen]
    exact item.mul last

theorem LooseAtom.crosses {a : Automaton} (x : LooseAtom) (skip : Bool) {p : Nat}
    (h : a.Hosts p x.tokens fun u v => (u, v) ∈ x.edges p ∨ skip = true ∧ u = p ∧ v = p + x.tokens.length) :
    a.Crosses p (p + x.tokens.length) (skippable skip x.language) := by
  cases x with
  | token t ht =>
    refine crosses_of_hosts_token h fun v => ?_
    simp [LooseAtom.edges, LooseAtom.tokens]
  | group e =>
    obtain ⟨q, hq⟩ : ∃ q, q = p + 1 + e.tokens.length := ⟨_, rfl⟩
    have hlen : p + (LooseAtom.group e).tokens.length = q + 1 := by rw [LooseAtom.length_tokens_group]; omega
    have he := e.within_edges p
    rw [hlen] at h ⊢
    have known := h.congr fun u v _ _ => or_congr_left (LooseAtom.mem_edges_group hq)
    have inner : e.Crossed a p q := by
      refine e.crossed hq (known.tail.append_left.congr fun u v hp hu => ?_)
      have hne : u ≠ p := by omega
      have hne' : u ≠ q := by omega
      simp [hne, hne']
    have close : a.Crosses q (q + 1) 1 := by
      have closing := known.tail.append_right
      rw [← hq] at closing
      refine crosses_of_hosts_operator closing fun v => ?_
      have hne : q ≠ p := by omega
      have hedges : (q, v) ∉ e.edges p := he.not_mem (.inr (by omega))
      have hbars : q ∉ e.bars p := LooseExpr.not_mem_bars (.inr hq.ge)
      simp [hne, hedges, hbars]
    refine crosses_of_hosts_openParen ((e.bars p).map (· + 1)) known (fun v => ?_) inner.lead ?_ ?_ ?_ close
    · have hne : p ≠ q := by omega
      have hbars : p ∉ e.bars p := LooseExpr.not_mem_bars (.inl le_rfl)
      simp only [true_and, hne, false_and, or_false, hbars, e.mem_edges_door]
      tauto
    · intro s hs
      rcases inner.enters s hs with hs | ⟨bar, hbar, hrun⟩
      · exact .inl (inner.first.enters s hs)
      · exact .inr ⟨bar + 1, List.mem_map_of_mem hbar, hrun⟩
    · exact inner.first.leaves.mono e.first_le_language
    · intro u hu
      obtain ⟨bar, hbar, rfl⟩ := List.mem_map.1 hu
      exact inner.leaves bar hbar

end

theorem Automaton.accepts_iff_of_crosses {a : Automaton} {l : Language Char} (h : a.Crosses a.start a.final l)
    (final : ∀ v, (a.final, v) ∉ a.graph.edges) (text : List Char) : a.accepts text = true ↔ text ∈ l := by
  have stuck : ∀ n text, a.RunIn n a.final text a.final → text = [] := by
    intro n text hrun
    cases hrun with
    | done => rfl
    | epsilon hedge _ => exact absurd hedge (final _)
    | consume hc _ => exact absurd (lt_final_of_consumes hc) (Nat.lt_irrefl _)
  rw [accepts_iff]
  constructor
  · intro hrun
    obtain ⟨n, hn⟩ := run_iff_exists_runIn.1 hrun
    obtain ⟨k, -, s, hs, rest, rfl, hrest⟩ := h.leaves n text hn
    obtain rfl := stuck k rest hrest
    rw [List.append_nil]
    exact hs
  · exact h.enters text

/-- Where the walk ends outside all groups, the automaton has just the edges that were found, and it accepts what is read on the
way across it. -/
theorem Automaton.exists_of_walk {ts : List Token} {item? : Option Nat} {edges : List (Nat × Nat)} {l : Language Char}
    (walk : Walk.ofTokens ts = .ok ⟨ts.length, item?, [], [], edges.reverse⟩) (within : Within 0 ts.length edges)
    (crosses : ∀ a : Automaton, a.Hosts 0 ts (fun u v => (u, v) ∈ edges) → a.Crosses 0 ts.length l) :
    ∃ a : Automaton, ofTokens ts = .ok a ∧ ∀ text, a.accepts text = true ↔ text ∈ l := by
  have found : epsilonEdges ts = .ok edges := by
    rw [epsilonEdges, walk]
    exact congrArg Except.ok (List.reverse_reverse _)
  have hedges (u v : Nat) : (u, v) ∈ (Graph.ofEdges (ts.length + 1) edges).edges ↔ (u, v) ∈ edges := by
    rw [Graph.mem_edges_ofEdges]
    constructor
    · exact And.left
    · intro h
      have bound := within _ h
      exact ⟨h, by omega, by omega⟩
  refine ⟨_, by rw [ofTokens, found]; rfl, accepts_iff_of_crosses ?_ fun v hedge => ?_⟩
  · exact crosses _ ⟨List.prefix_rfl, fun u v _ _ => hedges u v⟩
  · exact within.not_mem (.inr (Nat.zero_add _).le) ((hedges _ _).1 hedge)

/-- Every sequence of tokens whose groups nest has an automaton once it is put in a group, and this is what it accepts. -/
theorem LooseExpr.exists_automaton (e : LooseExpr) : ∃ a : Automaton,
    Automaton.ofTokens (.operator .openParen :: (e.tokens ++ [.operator .closeParen])) = .ok a ∧
      ∀ text, a.accepts text = true ↔ text ∈ e.language := by
  have walk := (LooseAtom.group e).walk 0 none [] [] []
  have within := (LooseAtom.group e).within_edges 0
  rw [Nat.zero_add, List.append_nil] at walk
  refine Automaton.exists_of_walk walk within fun a hosts => ?_
  have crosses := (LooseAtom.group e).crosses false (hosts.congr fun u v _ _ => by simp)
  rw [Nat.zero_add] at crosses
  exact crosses

end RegexSearch
