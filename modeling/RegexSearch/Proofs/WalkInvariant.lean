import Mathlib.Data.List.Induction
import RegexSearch.Automaton.Basic
import RegexSearch.Proofs.Depth

/-! The invariant of the walk over a token sequence: depth by depth it keeps just the operators that wait for their group to be
closed. -/
namespace RegexSearch
open Token

/-- What is kept of one depth, the parenthesis of its group and its bars, is all that waits there. -/
def Holds (tokens : List Token) (depth : Nat) (start? : Option Nat) (bars : List Nat) : Prop :=
  ∀ i, (start? = some i ↔ Waits .openParen tokens depth i) ∧ (i ∈ bars ↔ Waits .bar tokens depth i)

variable {tokens : List Token} {t : Token} {op : Operator} {depth i : Nat} {start? : Option Nat} {bars : List Nat}

theorem Token.operator?_eq_some : t.operator? = some op ↔ t = operator op := by
  cases t <;> simp [operator?]

theorem Token.Waits.depth_le (h : Waits op tokens depth i) : depth ≤ depthAt tokens tokens.length :=
  h.le tokens.length (lt_length_of_getElem? h.token) (Nat.le_refl _)

theorem Token.waits_append_singleton : Waits op (tokens ++ [t]) depth i ↔
    Waits op tokens depth i ∧ depth ≤ deepen (depthAt tokens tokens.length) t ∨
      i = tokens.length ∧ t = operator op ∧ depth = deepen (depthAt tokens tokens.length) t := by
  have hlast := depthAt_append_singleton tokens t
  constructor
  · rintro ⟨htoken, hdepth, hle⟩
    have hlt := lt_length_of_getElem? htoken
    rw [List.length_append, List.length_singleton] at hlt hle
    rcases Nat.lt_succ_iff_lt_or_eq.1 hlt with hlt | rfl
    · rw [List.getElem?_append_left hlt] at htoken
      rw [depthAt_append hlt] at hdepth
      refine .inl ⟨⟨htoken, hdepth, fun k hk hk' => ?_⟩, ?_⟩
      · have hbefore : depthAt (tokens ++ [t]) k = depthAt tokens k := depthAt_append hk'
        rw [← hbefore]
        exact hle k hk (Nat.le_succ_of_le hk')
      · rw [← hlast]
        exact hle _ (Nat.lt_succ_of_lt hlt) (Nat.le_refl _)
    · rw [List.getElem?_concat_length] at htoken
      exact .inr ⟨rfl, Option.some.inj htoken, by rw [← hdepth, hlast]⟩
  · rintro (⟨h, hle⟩ | ⟨rfl, rfl, rfl⟩)
    · have hlt := lt_length_of_getElem? h.token
      refine ⟨by rw [List.getElem?_append_left hlt, h.token], by rw [depthAt_append hlt, h.depth_eq], fun k hk hk' => ?_⟩
      rw [List.length_append, List.length_singleton] at hk'
      rcases Nat.le_succ_iff.1 hk' with hk' | rfl
      · rw [depthAt_append hk']
        exact h.le k hk hk'
      · rw [hlast]
        exact hle
    · refine ⟨List.getElem?_concat_length, hlast, fun k hk hk' => ?_⟩
      rw [List.length_append, List.length_singleton] at hk'
      obtain rfl : k = tokens.length + 1 := by omega
      exact hlast.ge

namespace Holds

theorem append_singleton (h : Holds tokens depth start? bars) (hle : depth ≤ deepen (depthAt tokens tokens.length) t)
    (hne : ∀ op ∈ [Operator.openParen, .bar], t = operator op → depth ≠ deepen (depthAt tokens tokens.length) t) :
    Holds (tokens ++ [t]) depth start? bars := by
  have key {op : Operator} (hop : op ∈ [Operator.openParen, .bar]) (i : Nat) :
      Waits op (tokens ++ [t]) depth i ↔ Waits op tokens depth i := by
    rw [waits_append_singleton, or_iff_left fun hlast => hne op hop hlast.2.1 hlast.2.2, and_iff_left hle]
  intro i
  rw [key (by simp), key (by simp)]
  exact h i

theorem openParen (tokens : List Token) : Holds (tokens ++ [operator .openParen])
    (depthAt tokens tokens.length + 1) (some tokens.length) [] := by
  have none {op : Operator} {i : Nat} : ¬ Waits op tokens (depthAt tokens tokens.length + 1) i :=
    fun h => Nat.not_succ_le_self _ h.depth_le
  intro i
  simp [waits_append_singleton, none, deepen, eq_comm]

theorem bar (h : Holds tokens (depthAt tokens tokens.length) start? bars) :
    Holds (tokens ++ [operator .bar]) (depthAt tokens tokens.length) start? (tokens.length :: bars) := by
  intro i
  rw [waits_append_singleton, waits_append_singleton, ← (h i).1, List.mem_cons, ← (h i).2]
  simp [deepen, or_comm]

end Holds

namespace Walk

/-- The operators whose groups are still open, and the bars outside all groups, from the latest to the first. -/
def waiting (w : Walk) : List Nat := w.groups.flatMap (fun g => g.bars ++ [g.start]) ++ w.stray

/-- The positions that are kept hold the operators that they are kept for. -/
structure Placed (tokens : List Token) (w : Walk) : Prop where
  start : ∀ g ∈ w.groups, tokens[g.start]? = some (operator .openParen)
  bars : ∀ g ∈ w.groups, ∀ i ∈ g.bars, tokens[i]? = some (operator .bar)
  stray : ∀ i ∈ w.stray, tokens[i]? = some (operator .bar)

theorem Placed.append {w : Walk} (h : w.Placed tokens) (more : List Token) : w.Placed (tokens ++ more) := by
  have key {i : Nat} {t : Token} (ht : tokens[i]? = some t) : (tokens ++ more)[i]? = some t := by
    rw [List.getElem?_append_left (lt_length_of_getElem? ht), ht]
  exact ⟨fun g hg => key (h.start g hg), fun g hg i hi => key (h.bars g hg i hi), fun i hi => key (h.stray i hi)⟩

/-- The invariant of the walk. -/
structure Keeps (tokens : List Token) (w : Walk) : Prop where
  position : w.position = tokens.length
  depth : w.groups.length = depthAt tokens tokens.length
  groups : ∀ g rest, g :: rest <:+ w.groups → Holds tokens (rest.length + 1) (some g.start) g.bars
  stray : Holds tokens 0 none w.stray
  latest : w.waiting.Pairwise (· > ·)

variable {w v : Walk}

theorem waiting_addBar (w : Walk) : w.addBar.waiting = w.position :: w.waiting := by
  unfold addBar waiting
  split
  · next hopen =>
    rw [hopen]
    rfl
  · next hopen =>
    rw [hopen]
    rfl

theorem mem_waiting : i ∈ w.waiting ↔ (∃ g ∈ w.groups, i = g.start ∨ i ∈ g.bars) ∨ i ∈ w.stray := by
  simp [waiting, or_comm]

namespace Keeps

theorem start : Keeps [] {} where
  position := rfl
  depth := rfl
  groups g rest h := absurd (List.suffix_nil.1 h) (List.cons_ne_nil g rest)
  stray _ := ⟨⟨nofun, fun h => absurd h.token nofun⟩, ⟨nofun, fun h => absurd h.token nofun⟩⟩
  latest := .nil

theorem exists_holds (h : Keeps tokens w) {g : OpenGroup} (hg : g ∈ w.groups) :
    ∃ depth, Holds tokens depth (some g.start) g.bars := by
  obtain ⟨outer, rest, hgroups⟩ := List.append_of_mem hg
  exact ⟨_, h.groups g rest ⟨outer, hgroups.symm⟩⟩

theorem exists_group (h : Keeps tokens w) (hdepth : depth < depthAt tokens tokens.length) :
    ∃ g ∈ w.groups, Holds tokens (depth + 1) (some g.start) g.bars := by
  rw [← h.depth] at hdepth
  have hdrop := List.drop_eq_getElem_cons (show w.groups.length - (depth + 1) < w.groups.length by omega)
  have holds := h.groups _ _ (hdrop ▸ List.drop_suffix _ w.groups)
  have hlength : w.groups.length - (w.groups.length - (depth + 1) + 1) + 1 = depth + 1 := by omega
  rw [List.length_drop, hlength] at holds
  exact ⟨_, List.getElem_mem _, holds⟩

theorem mem_waiting_iff (h : Keeps tokens w) : i ∈ w.waiting ↔ i ∈ unclosed tokens ∪ unclaimed tokens := by
  rw [Set.mem_union, mem_unclosed_iff, mem_unclaimed_iff, mem_waiting]
  constructor
  · rintro (⟨g, hg, hi⟩ | hi)
    · obtain ⟨depth, holds⟩ := h.exists_holds hg
      exact hi.imp (fun hi => ⟨depth, (holds i).1.1 (congrArg some hi.symm)⟩) fun hi => ⟨depth, (holds i).2.1 hi⟩
    · exact .inr ⟨0, (h.stray i).2.1 hi⟩
  · rintro (⟨depth, hwaits⟩ | ⟨depth, hwaits⟩)
    · cases depth with
      | zero => exact absurd ((h.stray i).1.2 hwaits) nofun
      | succ depth =>
        obtain ⟨g, hg, holds⟩ := h.exists_group hwaits.depth_le
        exact .inl ⟨g, hg, .inl (Option.some.inj ((holds i).1.2 hwaits)).symm⟩
    · cases depth with
      | zero => exact .inr ((h.stray i).2.2 hwaits)
      | succ depth =>
        obtain ⟨g, hg, holds⟩ := h.exists_group hwaits.depth_le
        exact .inl ⟨g, hg, .inr ((holds i).2.2 hwaits)⟩

theorem placed (h : Keeps tokens w) : w.Placed tokens := by
  refine ⟨fun g hg => ?_, fun g hg i hi => ?_, fun i hi => ((h.stray i).2.1 hi).token⟩
  · obtain ⟨depth, holds⟩ := h.exists_holds hg
    exact ((holds g.start).1.1 rfl).token
  · obtain ⟨depth, holds⟩ := h.exists_holds hg
    exact ((holds i).2.1 hi).token

/-- Whatever comes next is later than all that waits. -/
theorem latest_cons (h : Keeps tokens w) : (w.position :: w.waiting).Pairwise (· > ·) := by
  refine List.pairwise_cons.2 ⟨fun i hi => ?_, h.latest⟩
  rw [h.position]
  obtain hmem | hmem := h.mem_waiting_iff.1 hi
  · exact lt_length_of_getElem? hmem.1
  · exact lt_length_of_getElem? hmem.1

theorem snoc (h : Keeps tokens w) (hposition : v.position = w.position + 1)
    (hdepth : v.groups.length = deepen w.groups.length t)
    (groups : ∀ g rest, g :: rest <:+ v.groups → Holds (tokens ++ [t]) (rest.length + 1) (some g.start) g.bars)
    (stray : Holds (tokens ++ [t]) 0 none v.stray) (latest : v.waiting.Pairwise (· > ·)) : Keeps (tokens ++ [t]) v where
  position := by rw [hposition, h.position, List.length_append, List.length_singleton]
  depth := by rw [hdepth, h.depth, List.length_append, List.length_singleton, depthAt_append_singleton]
  groups := groups
  stray := stray
  latest := latest

/-- A depth that is still open and to which the token adds nothing. -/
theorem level (h : Keeps tokens w) (holds : Holds tokens depth start? bars) (hle : depth ≤ deepen w.groups.length t)
    (hne : ∀ op ∈ [Operator.openParen, .bar], t = operator op → depth ≠ deepen w.groups.length t) :
    Holds (tokens ++ [t]) depth start? bars := by
  rw [h.depth] at hle hne
  exact holds.append_singleton hle hne

theorem idle (h : Keeps tokens w) (ht : ∀ op ∈ [Operator.openParen, .closeParen, .bar], t ≠ operator op)
    (hposition : v.position = w.position + 1) (hgroups : v.groups = w.groups) (hstray : v.stray = w.stray) :
    Keeps (tokens ++ [t]) v := by
  have hdeepen : deepen w.groups.length t = w.groups.length :=
    deepen_eq (ht .openParen (by simp)) (ht .closeParen (by simp))
  have hlevel {depth : Nat} {start? : Option Nat} {bars : List Nat} (hle : depth ≤ w.groups.length)
      (holds : Holds tokens depth start? bars) : Holds (tokens ++ [t]) depth start? bars := by
    refine h.level holds (by rwa [hdeepen]) fun op hop heq => absurd heq (ht op ?_)
    simp only [List.mem_cons, List.not_mem_nil, or_false] at hop ⊢
    exact hop.imp_right .inr
  refine h.snoc hposition (by rw [hgroups, hdeepen]) (fun g rest hsuffix => ?_) ?_ ?_
  · rw [hgroups] at hsuffix
    exact hlevel hsuffix.length_le (h.groups g rest hsuffix)
  · rw [hstray]
    exact hlevel (Nat.zero_le _) h.stray
  · rw [waiting, hgroups, hstray]
    exact h.latest

theorem openParen (h : Keeps tokens w) (hposition : v.position = w.position + 1)
    (hgroups : v.groups = ⟨w.position, []⟩ :: w.groups) (hstray : v.stray = w.stray) :
    Keeps (tokens ++ [operator .openParen]) v := by
  have hlevel {depth : Nat} {start? : Option Nat} {bars : List Nat} (hle : depth ≤ w.groups.length)
      (holds : Holds tokens depth start? bars) : Holds (tokens ++ [operator .openParen]) depth start? bars :=
    h.level holds (Nat.le_succ_of_le hle) fun _ _ _ => Nat.ne_of_lt (Nat.lt_succ_of_le hle)
  refine h.snoc hposition (by rw [hgroups]; rfl) (fun g rest hsuffix => ?_) ?_ ?_
  · rw [hgroups] at hsuffix
    rcases List.suffix_cons_iff.1 hsuffix with heq | hsuffix
    · obtain ⟨rfl, rfl⟩ := List.cons.inj heq
      rw [h.depth, h.position]
      exact .openParen tokens
    · exact hlevel hsuffix.length_le (h.groups g rest hsuffix)
  · rw [hstray]
    exact hlevel (Nat.zero_le _) h.stray
  · rw [waiting, hgroups, hstray]
    exact h.latest_cons

theorem closeParen {g : OpenGroup} (h : Keeps tokens w) (hposition : v.position = w.position + 1)
    (hgroups : w.groups = g :: v.groups) (hstray : v.stray = w.stray) : Keeps (tokens ++ [operator .closeParen]) v := by
  have hdeepen : deepen w.groups.length (operator .closeParen) = v.groups.length := by
    rw [hgroups]
    rfl
  have hlevel {depth : Nat} {start? : Option Nat} {bars : List Nat} (hle : depth ≤ v.groups.length)
      (holds : Holds tokens depth start? bars) : Holds (tokens ++ [operator .closeParen]) depth start? bars := by
    refine h.level holds (by rwa [hdeepen]) fun op hop heq => ?_
    obtain rfl := Token.operator.inj heq
    simp at hop
  refine h.snoc hposition hdeepen.symm (fun g' rest hsuffix => hlevel hsuffix.length_le (h.groups g' rest ?_)) ?_ ?_
  · rw [hgroups]
    exact hsuffix.trans (List.suffix_cons g v.groups)
  · rw [hstray]
    exact hlevel (Nat.zero_le _) h.stray
  · refine h.latest.sublist ?_
    rw [waiting, waiting, hgroups, hstray, List.flatMap_cons, List.append_assoc]
    exact List.sublist_append_right _ _

/-- Below the depth of a bar nothing changes. -/
theorem level_bar (h : Keeps tokens w) (holds : Holds tokens depth start? bars) (hlt : depth < w.groups.length) :
    Holds (tokens ++ [operator .bar]) depth start? bars := h.level holds hlt.le fun _ _ _ => hlt.ne

theorem bar {g : OpenGroup} {groups : List OpenGroup} (h : Keeps tokens w) (hposition : v.position = w.position + 1)
    (hopen : w.groups = g :: groups) (hgroups : v.groups = ⟨g.start, w.position :: g.bars⟩ :: groups)
    (hstray : v.stray = w.stray) : Keeps (tokens ++ [operator .bar]) v := by
  have hlength : w.groups.length = groups.length + 1 := by rw [hopen, List.length_cons]
  refine h.snoc hposition (by rw [hgroups, hlength]; rfl) (fun g' rest hsuffix => ?_) ?_ ?_
  · rw [hgroups] at hsuffix
    rcases List.suffix_cons_iff.1 hsuffix with heq | hsuffix
    · obtain ⟨rfl, rfl⟩ := List.cons.inj heq
      have top := h.groups g rest (hopen ▸ List.suffix_rfl)
      rw [← hlength, h.depth] at top ⊢
      rw [h.position]
      exact top.bar
    · have hlt : rest.length + 1 < w.groups.length := hlength ▸ Nat.lt_succ_of_le hsuffix.length_le
      exact h.level_bar (h.groups g' rest (hopen ▸ hsuffix.trans (List.suffix_cons g groups))) hlt
  · rw [hstray]
    exact h.level_bar h.stray (hlength ▸ Nat.succ_pos _)
  · have key := h.latest_cons
    rw [waiting, hopen] at key
    rw [waiting, hgroups, hstray]
    exact key

theorem strayBar (h : Keeps tokens w) (hposition : v.position = w.position + 1) (hopen : w.groups = [])
    (hgroups : v.groups = []) (hstray : v.stray = w.position :: w.stray) : Keeps (tokens ++ [operator .bar]) v := by
  have hzero : 0 = depthAt tokens tokens.length := by rw [← h.depth, hopen, List.length_nil]
  refine h.snoc hposition (by rw [hgroups, hopen]; rfl) (fun g rest hsuffix => ?_) ?_ ?_
  · rw [hgroups] at hsuffix
    exact absurd (List.suffix_nil.1 hsuffix) (List.cons_ne_nil g rest)
  · have top := h.stray
    rw [hzero] at top ⊢
    rw [hstray, h.position]
    exact top.bar
  · have key := h.latest_cons
    rw [waiting, hopen] at key
    rw [waiting, hgroups, hstray]
    exact key

theorem step_closeParen_eq_error (h : Keeps tokens w) (hopen : w.groups = []) :
    w.step (operator .closeParen) = .error ⟨.grouping, w.stray.getLastD tokens.length⟩ := by
  obtain ⟨position, item?, groups, stray, edges⟩ := w
  obtain rfl : groups = [] := hopen
  obtain rfl : position = tokens.length := h.position
  rfl

theorem step (h : Keeps tokens w) (ht : t = operator .closeParen → 0 < depthAt tokens tokens.length) :
    ∃ v, w.step t = .ok v ∧ Keeps (tokens ++ [t]) v := by
  unfold Walk.step
  split
  · next hop =>
    refine ⟨_, rfl, h.idle ?_ rfl rfl rfl⟩
    rintro op - rfl
    contradiction
  · next hop =>
    obtain rfl := operator?_eq_some.1 hop
    exact ⟨_, rfl, h.openParen rfl rfl rfl⟩
  · next hop =>
    obtain rfl := operator?_eq_some.1 hop
    refine ⟨_, rfl, ?_⟩
    unfold Walk.addBar
    split
    · next hopen => exact h.bar rfl hopen rfl rfl
    · next hopen => exact h.strayBar rfl hopen hopen rfl
  · next hop =>
    obtain rfl := operator?_eq_some.1 hop
    split
    · next hopen => exact ⟨_, rfl, h.closeParen rfl hopen rfl⟩
    · next hopen =>
      have hpos := ht rfl
      rw [← h.depth, hopen] at hpos
      exact absurd hpos (Nat.lt_irrefl 0)
  · next op hopen hbar hclose hop =>
    obtain rfl := operator?_eq_some.1 hop
    have hquantifier : ∀ other ∈ [Operator.openParen, .closeParen, .bar], operator op ≠ operator other := by
      rintro other hother heq
      obtain rfl := Token.operator.inj heq
      simp_all
    split
    · exact ⟨_, rfl, h.idle hquantifier rfl rfl rfl⟩
    · exact ⟨_, rfl, h.idle hquantifier rfl rfl rfl⟩

theorem of_step (h : Keeps tokens w) (hstep : w.step t = .ok v) : Keeps (tokens ++ [t]) v := by
  have ht : t = operator .closeParen → 0 < depthAt tokens tokens.length := by
    rintro rfl
    rw [← h.depth, List.length_pos_iff]
    intro hopen
    rw [h.step_closeParen_eq_error hopen] at hstep
    contradiction
  obtain ⟨u, hu, key⟩ := h.step ht
  rwa [Except.ok.inj (hstep.symm.trans hu)]

end Keeps

theorem ofTokens_append_singleton (tokens : List Token) (t : Token) :
    ofTokens (tokens ++ [t]) = ofTokens tokens >>= fun w => w.step t := by
  rw [ofTokens, List.foldlM_append, ofTokens]
  congr
  funext w
  rw [List.foldlM_cons]
  exact bind_pure _

theorem keeps_of_ofTokens (h : ofTokens tokens = .ok w) : Keeps tokens w := by
  induction tokens using List.reverseRecOn generalizing w with
  | nil =>
    obtain rfl := Except.ok.inj h
    exact .start
  | append_singleton tokens t ih =>
    rw [ofTokens_append_singleton] at h
    obtain ⟨u, hu, hstep⟩ := bind_eq_ok_iff.1 h
    exact (ih hu).of_step hstep

theorem placed_of_prefix {before : List Token} (h : ofTokens before = .ok w) (hbefore : before <+: tokens) : w.Placed tokens := by
  rcases hbefore with ⟨more, rfl⟩
  exact (keeps_of_ofTokens h).placed.append more

theorem exists_ofTokens (h : outside .closeParen tokens = ∅) : ∃ w, ofTokens tokens = .ok w := by
  induction tokens using List.reverseRecOn with
  | nil => exact ⟨{}, rfl⟩
  | append_singleton tokens t ih =>
    obtain ⟨w, hw⟩ := ih (Set.subset_eq_empty (outside_subset_append _ _ _) h)
    have ht : t = operator .closeParen → 0 < depthAt tokens tokens.length := by
      rintro rfl
      exact depthAt_pos h
    obtain ⟨v, hv, -⟩ := (keeps_of_ofTokens hw).step ht
    refine ⟨v, ?_⟩
    rw [ofTokens_append_singleton, hw]
    exact hv

end Walk
end RegexSearch
