import Mathlib.Data.Nat.Find
import RegexSearch.Proofs.WalkInvariant

/-! Which token sequences have an automaton, and which position is at fault in the others: the first parenthesis that has nothing
to close or the first bar before it, or else the latest operator that still waits for its group to be closed. -/
namespace RegexSearch
open Token

variable {tokens : List Token} {w : Walk} {positions : List Nat} {i : Nat}

theorem isGreatest_head (h : positions.Pairwise (· > ·)) (k : positions.head? = some i) :
    IsGreatest {j | j ∈ positions} i := by
  obtain ⟨rest, rfl⟩ := List.head?_eq_some_iff.1 k
  refine ⟨List.mem_cons_self, fun j hj => ?_⟩
  rcases List.mem_cons.1 hj with rfl | hj
  · exact le_rfl
  · exact (List.rel_of_pairwise_cons h hj).le

theorem isLeast_getLast (h : positions.Pairwise (· > ·)) (k : positions.getLast? = some i) :
    IsLeast {j | j ∈ positions} i := by
  obtain ⟨before, rfl⟩ := List.getLast?_eq_some_iff.1 k
  refine ⟨List.mem_append_right before List.mem_cons_self, fun j hj => ?_⟩
  rcases List.mem_append.1 hj with hj | hj
  · exact ((List.pairwise_append.1 h).2.2 j hj i List.mem_cons_self).le
  · exact (List.mem_singleton.1 hj).ge

namespace Walk

/-- The walk stops at the first parenthesis that has nothing to close. -/
theorem ofTokens_eq_error (h : IsLeast (outside .closeParen tokens) i) : ∃ w, ofTokens (tokens.take i) = .ok w ∧
    ofTokens tokens = .error ⟨.grouping, w.stray.getLastD i⟩ := by
  obtain ⟨⟨hclose, hdepth⟩, hleast⟩ := h
  obtain ⟨hlt, hget⟩ := List.getElem?_eq_some_iff.1 hclose
  have hlength : (tokens.take i).length = i := List.length_take_of_le hlt.le
  have hsplit : tokens = tokens.take i ++ [operator .closeParen] ++ tokens.drop (i + 1) := by
    rw [List.append_assoc, List.singleton_append, ← hget, ← List.drop_eq_getElem_cons hlt, List.take_append_drop]
  have hbefore : outside .closeParen (tokens.take i) = ∅ := by
    rw [outside_take]
    exact Set.eq_empty_of_forall_notMem fun j hj => absurd (hleast hj.1) (Nat.not_le_of_lt hj.2)
  obtain ⟨w, hw⟩ := exists_ofTokens hbefore
  have hkeeps := keeps_of_ofTokens hw
  have hopen : w.groups = [] := by
    rw [← List.length_eq_zero_iff, hkeeps.depth, hlength, ← hdepth, depthAt, depthAt, List.take_take, Nat.min_self]
  refine ⟨w, hw, ?_⟩
  have hstop : ofTokens (tokens.take i ++ [operator .closeParen]) = .error ⟨.grouping, w.stray.getLastD i⟩ := by
    rw [ofTokens_append_singleton, hw]
    refine (hkeeps.step_closeParen_eq_error hopen).trans ?_
    rw [hlength]
  rw [hsplit, ofTokens, List.foldlM_append, ← ofTokens, hstop]
  rfl

theorem unclosed?_eq (w : Walk) : w.unclosed? = w.waiting.head? := by
  unfold unclosed? waiting
  split
  · next hopen =>
    rw [hopen, List.flatMap_cons]
    cases OpenGroup.bars _ <;> simp
  · next hopen => rw [hopen, List.flatMap_nil, List.nil_append]

end Walk

theorem Token.grouped_iff : Grouped tokens ↔ outside .closeParen tokens = ∅ ∧ unclosed tokens ∪ unclaimed tokens = ∅ := by
  rw [Set.union_empty_iff]
  constructor
  · rintro ⟨hclose, hopen, hbar⟩
    refine ⟨hclose, hopen, Set.eq_empty_of_forall_notMem ?_⟩
    rintro i ⟨htoken, hdepth | ⟨start, hstart, -⟩⟩
    · exact Set.notMem_empty i (hbar ▸ ⟨htoken, hdepth⟩)
    · exact Set.notMem_empty start (hopen ▸ hstart)
  · rintro ⟨hclose, hopen, hbar⟩
    refine ⟨hclose, hopen, Set.eq_empty_of_forall_notMem ?_⟩
    rintro i ⟨htoken, hdepth⟩
    exact Set.notMem_empty i (hbar ▸ ⟨htoken, .inl hdepth⟩)

/-- Before the place where the walk stops, the bars outside all groups are those it has kept. -/
theorem Walk.Keeps.mem_stray_iff (h : w.Keeps tokens) : i ∈ w.stray ↔ i ∈ outside .bar tokens := by
  rw [(h.stray i).2]
  constructor
  · intro hwaits
    have hdepth := hwaits.depth_eq
    rw [depthAt_bar hwaits.token] at hdepth
    exact ⟨hwaits.token, hdepth⟩
  · rintro ⟨htoken, hdepth⟩
    exact ⟨htoken, (depthAt_bar htoken).trans hdepth, fun _ _ _ => Nat.zero_le _⟩

theorem epsilonEdges_eq (h : Walk.ofTokens tokens = .ok w) : epsilonEdges tokens =
    match w.waiting.head? with
    | some position => .error ⟨.grouping, position⟩
    | none => .ok w.edges.reverse := by
  rw [epsilonEdges, h, ← Walk.unclosed?_eq]
  rfl

namespace Automaton

theorem ofTokens_eq_error {e : SyntaxError} (h : epsilonEdges tokens = .error e) : ofTokens tokens = .error e := by
  rw [ofTokens, h]
  rfl

theorem exists_ofTokens_of_edges {edges : List (Nat × Nat)} (h : epsilonEdges tokens = .ok edges) :
    ∃ a, ofTokens tokens = .ok a := by
  rw [ofTokens, h]
  exact ⟨_, rfl⟩

theorem ofTokens_of_outside (h : IsLeast (outside .closeParen tokens) i) : ∃ k, ofTokens tokens = .error ⟨.grouping, k⟩ ∧
    (IsLeast (outside .bar tokens ∩ Set.Iio i) k ∨ outside .bar tokens ∩ Set.Iio i = ∅ ∧ k = i) := by
  obtain ⟨w, hw, hstop⟩ := Walk.ofTokens_eq_error h
  have hkeeps := Walk.keeps_of_ofTokens hw
  have hstray : {j | j ∈ w.stray} = outside .bar tokens ∩ Set.Iio i := by
    rw [← outside_take]
    exact Set.ext fun j => hkeeps.mem_stray_iff
  have hedges : epsilonEdges tokens = .error ⟨.grouping, w.stray.getLastD i⟩ := by
    rw [epsilonEdges, hstop]
    rfl
  refine ⟨_, ofTokens_eq_error hedges, ?_⟩
  rw [← hstray, List.getLastD_eq_getLast?]
  cases hlast : w.stray.getLast? with
  | none =>
    rw [List.getLast?_eq_none_iff.1 hlast]
    exact .inr ⟨Set.eq_empty_of_forall_notMem fun j => List.not_mem_nil, rfl⟩
  | some k => exact .inl (isLeast_getLast (hkeeps.latest.sublist (List.sublist_append_right _ _)) hlast)

/-- What waits at the end: nothing, and then the sequence has an automaton, or else the latest of it is at fault. -/
theorem ofTokens_of_closed (h : outside .closeParen tokens = ∅) :
    (unclosed tokens ∪ unclaimed tokens = ∅ ∧ ∃ a, ofTokens tokens = .ok a) ∨
      ∃ k, ofTokens tokens = .error ⟨.grouping, k⟩ ∧ IsGreatest (unclosed tokens ∪ unclaimed tokens) k := by
  obtain ⟨w, hw⟩ := Walk.exists_ofTokens h
  have hkeeps := Walk.keeps_of_ofTokens hw
  have hwaiting : {j | j ∈ w.waiting} = unclosed tokens ∪ unclaimed tokens := Set.ext fun j => hkeeps.mem_waiting_iff
  have hedges := epsilonEdges_eq hw
  rw [← hwaiting]
  cases hhead : w.waiting.head? with
  | none =>
    rw [hhead] at hedges
    rw [List.head?_eq_none_iff.1 hhead]
    exact .inl ⟨Set.eq_empty_of_forall_notMem fun j => List.not_mem_nil, exists_ofTokens_of_edges hedges⟩
  | some k =>
    rw [hhead] at hedges
    exact .inr ⟨k, ofTokens_eq_error hedges, isGreatest_head hkeeps.latest hhead⟩

theorem exists_ofTokens_iff : (∃ a, ofTokens tokens = .ok a) ↔ Grouped tokens := by
  rw [grouped_iff]
  constructor
  · rintro ⟨a, ha⟩
    have hclose : outside .closeParen tokens = ∅ := by
      by_contra hne
      classical
      have hsome : ∃ i, i ∈ outside .closeParen tokens := Set.nonempty_iff_ne_empty.2 hne
      obtain ⟨k, herror, -⟩ := ofTokens_of_outside ⟨Nat.find_spec hsome, fun j => Nat.find_min' hsome⟩
      rw [ha] at herror
      contradiction
    refine ⟨hclose, ?_⟩
    obtain ⟨hwaiting, -⟩ | ⟨k, herror, -⟩ := ofTokens_of_closed hclose
    · exact hwaiting
    · rw [ha] at herror
      contradiction
  · rintro ⟨hclose, hwaiting⟩
    obtain ⟨-, hok⟩ | ⟨k, -, hk⟩ := ofTokens_of_closed hclose
    · exact hok
    · rw [hwaiting] at hk
      exact absurd hk.1 (Set.notMem_empty k)

/-- Just the sequences whose groups nest and whose bars stand in groups have an automaton. Otherwise the first parenthesis that
has nothing to close is at fault, or the first bar outside all groups if that comes before it; and where there is no such
parenthesis, the last of the parentheses that are never closed and of the bars that belong to no closed group. On the way, a
position that is kept for a parenthesis or a bar always holds one. -/
theorem ofTokens_grouping (tokens : List Token) :
    ((∃ a, ofTokens tokens = .ok a) ↔ Grouped tokens) ∧
    (∀ i, IsLeast (outside .closeParen tokens) i → ∃ k, ofTokens tokens = .error ⟨.grouping, k⟩ ∧
      (IsLeast (outside .bar tokens ∩ Set.Iio i) k ∨ outside .bar tokens ∩ Set.Iio i = ∅ ∧ k = i)) ∧
    (outside .closeParen tokens = ∅ → ¬ Grouped tokens →
      ∃ k, ofTokens tokens = .error ⟨.grouping, k⟩ ∧ IsGreatest (unclosed tokens ∪ unclaimed tokens) k) ∧
    ∀ before w, before <+: tokens → Walk.ofTokens before = .ok w → w.Placed tokens := by
  refine ⟨exists_ofTokens_iff, fun i => ofTokens_of_outside, fun hclose hgrouped => ?_, fun before w hbefore hw => ?_⟩
  · rw [grouped_iff] at hgrouped
    obtain ⟨hwaiting, -⟩ | hk := ofTokens_of_closed hclose
    · exact absurd ⟨hclose, hwaiting⟩ hgrouped
    · exact hk
  · exact Walk.placed_of_prefix hw hbefore

/-- A bar outside all groups before a parenthesis that has nothing to close, and a bar in a group that is never closed. -/
theorem ofTokens_grouping_bars :
    (IsLeast (outside .closeParen [.literal 'a', .operator .bar, .operator .closeParen]) 2 ∧
      ofTokens [.literal 'a', .operator .bar, .operator .closeParen] = .error ⟨.grouping, 1⟩) ∧
    outside .closeParen [.operator .openParen, .literal 'a', .operator .bar] = ∅ ∧
      IsGreatest (unclosed [.operator .openParen, .literal 'a', .operator .bar] ∪
        unclaimed [.operator .openParen, .literal 'a', .operator .bar]) 2 := by
  have hleast : IsLeast (outside .closeParen [.literal 'a', .operator .bar, .operator .closeParen]) 2 := by
    have before : ∀ j < 2, [.literal 'a', .operator .bar, .operator .closeParen][j]? ≠
        some (Token.operator .closeParen) := by decide
    exact ⟨⟨rfl, rfl⟩, fun j hj => Nat.le_of_not_lt fun hlt => before j hlt hj.1⟩
  have hnone : outside .closeParen [.operator .openParen, .literal 'a', .operator .bar] = ∅ := by
    have all : ∀ j < 3, [.operator .openParen, .literal 'a', .operator .bar][j]? ≠
        some (Token.operator .closeParen) := by decide
    exact Set.eq_empty_of_forall_notMem fun j hj => all j (lt_length_of_getElem? hj.1) hj.1
  refine ⟨⟨hleast, ?_⟩, hnone, ?_⟩
  · have hbar : 1 ∈ outside .bar [.literal 'a', .operator .bar, .operator .closeParen] ∩ Set.Iio 2 :=
      ⟨⟨rfl, rfl⟩, Nat.one_lt_two⟩
    obtain ⟨k, herror, hk | ⟨hempty, -⟩⟩ := (ofTokens_grouping _).2.1 2 hleast
    · obtain rfl : k = 1 := by
        have hle : k ≤ 1 := hk.2 hbar
        have hne : k ≠ 0 := by
          rintro rfl
          exact absurd hk.1.1.1 nofun
        omega
      exact herror
    · exact absurd (hempty ▸ hbar) (Set.notMem_empty 1)
  · have hfault : ofTokens [.operator .openParen, .literal 'a', .operator .bar] = .error ⟨.grouping, 2⟩ := rfl
    obtain ⟨hgrouped, -, hlatest, -⟩ := ofTokens_grouping [.operator .openParen, .literal 'a', .operator .bar]
    obtain ⟨k, herror, hk⟩ := hlatest hnone fun h => by
      obtain ⟨a, ha⟩ := hgrouped.2 h
      rw [hfault] at ha
      contradiction
    rw [hfault] at herror
    obtain rfl : 2 = k := by simpa using herror
    exact hk

end Automaton
end RegexSearch
