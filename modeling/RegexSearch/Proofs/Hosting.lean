import RegexSearch.Proofs.Crossing
import RegexSearch.Proofs.LooseEdges

/-! Tokens that stand somewhere in an automaton, with the edges out of their positions known exactly, and how a single token or
a row of quantifiers among them is crossed. -/
namespace RegexSearch

/-- An automaton whose tokens from `p` on are `ts`, and the epsilon edges out of their positions. -/
structure Automaton.Hosts (a : Automaton) (p : Nat) (ts : List Token) (edge : Nat → Nat → Prop) : Prop where
  tokens : ts <+: a.tokens.toList.drop p
  edges : ∀ u v, p ≤ u → u < p + ts.length → ((u, v) ∈ a.graph.edges ↔ edge u v)

namespace Automaton.Hosts

variable {a : Automaton} {p : Nat} {t : Token} {ts us : List Token} {edge : Nat → Nat → Prop}

theorem congr (h : a.Hosts p ts edge) {other : Nat → Nat → Prop}
    (k : ∀ u v, p ≤ u → u < p + ts.length → (edge u v ↔ other u v)) : a.Hosts p ts other where
  tokens := h.tokens
  edges u v hp hu := (h.edges u v hp hu).trans (k u v hp hu)

theorem append_left (h : a.Hosts p (ts ++ us) edge) : a.Hosts p ts edge where
  tokens := (List.prefix_append ts us).trans h.tokens
  edges u v hp hu := h.edges u v hp (by rw [List.length_append]; omega)

theorem append_right (h : a.Hosts p (ts ++ us) edge) : a.Hosts (p + ts.length) us edge where
  tokens := by
    obtain ⟨rest, hrest⟩ := h.tokens
    refine ⟨rest, ?_⟩
    rw [← List.drop_drop, ← hrest, List.append_assoc, List.drop_left]
  edges u v hp hu := h.edges u v (by omega) (by rw [List.length_append]; omega)

theorem tail (h : a.Hosts p (t :: ts) edge) : a.Hosts (p + 1) ts edge := by
  have key : a.Hosts p ([t] ++ ts) edge := h
  exact key.append_right

theorem getElem? (h : a.Hosts p (t :: ts) edge) : a.tokens[p]? = some t := by
  obtain ⟨rest, hrest⟩ := h.tokens
  have key : (a.tokens.toList.drop p)[0]? = some t := by rw [← hrest]; rfl
  rw [List.getElem?_drop, Nat.add_zero, Array.getElem?_toList] at key
  exact key

theorem ne_final (h : a.Hosts p (t :: ts) edge) : p ≠ a.final := by
  obtain ⟨hlt, -⟩ := Array.getElem?_eq_some_iff.1 h.getElem?
  exact Nat.ne_of_lt hlt

theorem consumes (h : a.Hosts p (t :: ts) edge) (c : Char) : a.consumes p c = t.accepts c := by
  rw [Automaton.consumes, h.getElem?]
  rfl

theorem head_edges (h : a.Hosts p (t :: ts) edge) (v : Nat) : (p, v) ∈ a.graph.edges ↔ edge p v :=
  h.edges p v le_rfl (by simp)

theorem silent {op : Operator} (h : a.Hosts p (.operator op :: ts) edge) (c : Char) : a.consumes p c = false := by
  rw [h.consumes, Token.accepts]

end Automaton.Hosts

namespace Automaton

variable {a : Automaton} {p q r f : Nat} {l : Language Char}

/-- An operator with no edge but the one to the next position. -/
theorem crosses_of_hosts_operator {op : Operator} {ts : List Token} {edge : Nat → Nat → Prop}
    (h : a.Hosts p (.operator op :: ts) edge) (k : ∀ v, edge p v ↔ v = q) : a.Crosses p q 1 := by
  have out (v : Nat) : (p, v) ∈ a.graph.edges ↔ v = q := (h.head_edges v).trans (k v)
  have enters : a.Enters p q (repeatable false 1) :=
    (Enters.refl a p).loop (.epsilon ((out q).2 rfl) (.done q)) fun hback => absurd hback Bool.false_ne_true
  have leaves : a.Leaves p q (repeatable false 1) :=
    (Leaves.refl a p).loop h.ne_final (fun v hv => .inl ((out v).1 hv)) h.silent (.refl a q p)
  exact ⟨enters, leaves⟩

theorem crosses_of_hosts_token {skip : Bool} {t : Token} {ts : List Token} {edge : Nat → Nat → Prop}
    (h : a.Hosts p (t :: ts) edge) (k : ∀ v, edge p v ↔ skip = true ∧ v = p + 1) :
    a.Crosses p (p + 1) (skippable skip t.language) := by
  have out (v : Nat) : (p, v) ∈ a.graph.edges ↔ skip = true ∧ v = p + 1 := (h.head_edges v).trans (k v)
  constructor
  · intro s hs
    rcases mem_skippable.1 hs with ⟨hskip, rfl⟩ | ⟨c, rfl, hc⟩
    · exact .epsilon ((out (p + 1)).2 ⟨hskip, rfl⟩) (.done (p + 1))
    · exact .consume ((h.consumes c).trans hc) (.done (p + 1))
  · intro n text hrun
    obtain ⟨m, hm, ⟨v, hv, hstep⟩ | ⟨c, rest, rfl, hc, hstep⟩⟩ := hrun.first h.ne_final
    · obtain ⟨hskip, rfl⟩ := (out v).1 hv
      exact ⟨m, hm.le, [], mem_skippable.2 (.inl ⟨hskip, rfl⟩), text, rfl, hstep⟩
    · rw [h.consumes c] at hc
      exact ⟨m, hm.le, [c], mem_skippable.2 (.inr ⟨c, rfl, hc⟩), rest, rfl, hstep⟩

/-- The language read from a door on that has an edge to the end of the group, and perhaps one into the alternative behind it,
which reads `l`. -/
def onward (skip : Bool) (l : Language Char) : Language Char := if skip then 1 + l else 1

theorem nil_mem_onward (skip : Bool) : [] ∈ onward skip l := by
  cases skip
  · exact Language.nil_mem_one
  · exact .inl Language.nil_mem_one

theorem mem_onward {skip : Bool} {s : List Char} : s ∈ onward skip l ↔ s = [] ∨ skip = true ∧ s ∈ l := by
  cases skip
  · simp [onward]
  · change s ∈ 1 + l ↔ _
    rw [Language.mem_add, Language.mem_one]
    simp

theorem crosses_of_hosts_door {skip back : Bool} {op : Operator} {ts : List Token} {edge : Nat → Nat → Prop}
    (h : a.Hosts p (.operator op :: ts) edge) (k : ∀ v, edge p v ↔ v = q ∨ skip = true ∧ v = p + 1)
    (lead : a.Drifts (p + 1) f p back) (first : a.Crosses f q l) : a.Crosses p q (onward skip l) := by
  have out (v : Nat) : (p, v) ∈ a.graph.edges ↔ v = q ∨ skip = true ∧ v = p + 1 := (h.head_edges v).trans (k v)
  constructor
  · intro s hs
    rcases mem_onward.1 hs with rfl | ⟨hskip, hs⟩
    · exact .epsilon ((out q).2 (.inl rfl)) (.done q)
    · exact .epsilon ((out (p + 1)).2 (.inr ⟨hskip, rfl⟩)) (lead.run.append (first.enters s hs))
  · refine .of_door h.ne_final h.silent fun v hv => ?_
    rcases (out v).1 hv with rfl | ⟨hskip, rfl⟩
    · refine .inl ((Leaves.refl a v).mono fun s hs => ?_)
      obtain rfl := (Language.mem_one s).1 hs
      exact nil_mem_onward skip
    · exact .inr ⟨f, back, lead, first.leaves.mono fun s hs => mem_onward.2 (.inr ⟨hskip, hs⟩)⟩

/-- The way into an alternative that stands behind a door. -/
theorem Drifts.crosses {skip back : Bool} {door : Nat} (lead : a.Drifts p f door back) (first : a.Crosses f q l)
    (beyond : a.Crosses door q (onward skip l)) : a.Crosses p q (skippable back l) := by
  constructor
  · intro s hs
    rcases mem_skippable.1 hs with ⟨hback, rfl⟩ | hs
    · exact (lead.run_back hback).append (beyond.enters [] (nil_mem_onward skip))
    · exact lead.run.append (first.enters s hs)
  · intro n text hrun
    obtain ⟨i, hi, hrest | ⟨hback, hdoor⟩⟩ := lead.leaves n text hrun
    · obtain ⟨j, hj, s, hs, found⟩ := first.leaves i text hrest
      exact ⟨j, hj.trans hi, s, mem_skippable.2 (.inr hs), found⟩
    · obtain ⟨j, hj, s, hs, found⟩ := beyond.leaves i text hdoor
      refine ⟨j, hj.trans hi, s, mem_skippable.2 ?_, found⟩
      exact (mem_onward.1 hs).imp (fun h => ⟨hback, h⟩) And.right

/-- A parenthesis at `p` with an edge to each alternative, and an edge around the group if it may be skipped. The first
alternative stands right behind the parenthesis, and its quantifiers may lead back there. -/
theorem crosses_of_hosts_openParen {skip back : Bool} (starts : List Nat) {ts : List Token} {edge : Nat → Nat → Prop}
    (h : a.Hosts p (.operator .openParen :: ts) edge)
    (k : ∀ v, edge p v ↔ v = p + 1 ∨ v ∈ starts ∨ skip = true ∧ v = r) (lead : a.Drifts (p + 1) f p back)
    (enters : ∀ s ∈ l, a.Run f s q ∨ ∃ u ∈ starts, a.Run u s q) (first : a.Leaves f q l)
    (leaves : ∀ u ∈ starts, a.Leaves u q l) (close : a.Crosses q r 1) : a.Crosses p r (skippable skip l) := by
  have out (v : Nat) : (p, v) ∈ a.graph.edges ↔ v = p + 1 ∨ v ∈ starts ∨ skip = true ∧ v = r :=
    (h.head_edges v).trans (k v)
  have through {u : Nat} (hu : a.Leaves u q l) : a.Leaves u r (skippable skip l) :=
    (mul_one l ▸ hu.mul close.leaves).mono fun s hs => mem_skippable.2 (.inr hs)
  constructor
  · intro s hs
    rcases mem_skippable.1 hs with ⟨hskip, rfl⟩ | hs
    · exact .epsilon ((out r).2 (.inr (.inr ⟨hskip, rfl⟩))) (.done r)
    · have key : a.Run p s q := by
        rcases enters s hs with hrun | ⟨u, hu, hrun⟩
        · exact .epsilon ((out (p + 1)).2 (.inl rfl)) (lead.run.append hrun)
        · exact .epsilon ((out u).2 (.inr (.inl hu))) hrun
      rw [← List.append_nil s]
      exact key.append (close.enters [] Language.nil_mem_one)
  · refine .of_door h.ne_final h.silent fun v hv => ?_
    rcases (out v).1 hv with rfl | hv | ⟨hskip, rfl⟩
    · exact .inr ⟨f, back, lead, through first⟩
    · exact .inl (through (leaves v hv))
    · refine .inl ((Leaves.refl a v).mono fun s hs => ?_)
      exact mem_skippable.2 (.inl ⟨hskip, (Language.mem_one s).1 hs⟩)

section quantifiers

variable {qs : List Quantifier} {quantifier : Quantifier} {door i : Nat}

/-- The first of several quantifiers leads on to the next position, and perhaps back to where its item starts. -/
theorem Hosts.quantifier_edges (hdoor : door < i)
    (h : a.Hosts i (Quantifier.tokensOf (quantifier :: qs)) fun u v =>
      (u, v) ∈ Quantifier.edgesOf door i (quantifier :: qs)) (v : Nat) :
    (i, v) ∈ a.graph.edges ↔ v = i + 1 ∨ quantifier.repeats = true ∧ v = door := by
  have hne : i ≠ door := Nat.ne_of_gt hdoor
  rw [Hosts.head_edges h, Quantifier.edgesOf, List.mem_append, Quantifier.mem_edges,
    Quantifier.mem_edgesOf_of_lt (Nat.lt_succ_self i)]
  simp only [hne, true_and, false_and, and_false, false_or]
  tauto

theorem Hosts.quantifiers_tail (hdoor : door < i)
    (h : a.Hosts i (Quantifier.tokensOf (quantifier :: qs)) fun u v =>
      (u, v) ∈ Quantifier.edgesOf door i (quantifier :: qs)) :
    a.Hosts (i + 1) (Quantifier.tokensOf qs) fun u v => (u, v) ∈ Quantifier.edgesOf i (i + 1) qs := by
  refine (Hosts.tail h).congr fun u v hu _ => ?_
  rw [Quantifier.edgesOf, List.mem_append]
  refine or_iff_right fun hmem => ?_
  rcases Quantifier.mem_edges.1 hmem with ⟨rfl, -⟩ | ⟨-, rfl, -⟩ | ⟨-, rfl, -⟩ <;> omega

/-- Quantifiers in a row read nothing, and only the first of them leads back to what stands before them. -/
theorem drifts_of_hosts_quantifiers (hdoor : door < i)
    (h : a.Hosts i (Quantifier.tokensOf qs) fun u v => (u, v) ∈ Quantifier.edgesOf door i qs) :
    a.Drifts i (i + qs.length) door (qs.head?.any Quantifier.repeats) := by
  induction qs generalizing door i with
  | nil => exact .refl a i door
  | cons quantifier qs ih =>
    have out := h.quantifier_edges hdoor
    have rest := ih (Nat.lt_succ_self i) (h.quantifiers_tail hdoor)
    rw [List.length_cons, Nat.add_comm qs.length, ← Nat.add_assoc]
    refine ⟨.epsilon ((out (i + 1)).2 (.inl rfl)) rest.run, fun hback => ?_, fun n text hrun => ?_⟩
    · exact .epsilon ((out door).2 (.inr ⟨hback, rfl⟩)) (.done door)
    · refine hrun.of_door (P := fun n text => ∃ k ≤ n, a.RunIn k (i + 1 + qs.length) text a.final ∨
        quantifier.repeats = true ∧ a.RunIn k door text a.final) (Hosts.ne_final h) (Hosts.silent h)
        (fun hle ⟨k, hk, found⟩ => ⟨k, hk.trans hle, found⟩) fun v hv m rest' hstep => ?_
      rcases (out v).1 hv with rfl | ⟨hback, rfl⟩
      · obtain ⟨k, hk, hend | ⟨-, hagain⟩⟩ := rest.leaves m rest' hstep
        · exact .inl ⟨k, hk, .inl hend⟩
        · exact .inr ⟨k, hk, hagain⟩
      · exact .inl ⟨m, le_rfl, .inr ⟨hback, hstep⟩⟩

/-- Quantifiers behind a stretch. The edge of the first one around the stretch belongs to the stretch. -/
theorem crosses_of_hosts_quantifiers (hlt : p < i)
    (h : a.Hosts i (Quantifier.tokensOf qs) fun u v => (u, v) ∈ Quantifier.edgesOf p i qs)
    (stretch : a.Crosses p i (skippable (qs.head?.any Quantifier.skips) l)) :
    a.Crosses p (i + qs.length) (Quantifier.language qs.head? l) := by
  cases qs with
  | nil => exact stretch
  | cons quantifier qs =>
    have out := h.quantifier_edges hlt
    have rest := drifts_of_hosts_quantifiers (Nat.lt_succ_self i) (h.quantifiers_tail hlt)
    have enters := stretch.enters.loop (.epsilon ((out (i + 1)).2 (.inl rfl)) rest.run) fun hback =>
      (out p).2 (.inr ⟨hback, rfl⟩)
    have leaves := stretch.leaves.loop (Hosts.ne_final h) (fun v hv => (out v).1 hv) (Hosts.silent h) rest
    rw [List.length_cons, Nat.add_comm qs.length, ← Nat.add_assoc]
    change a.Crosses p (i + 1 + qs.length) (Quantifier.language (some quantifier) l)
    rw [← quantifier.skippable_mul_repeatable l]
    exact stretch.mul ⟨enters, leaves⟩

end quantifiers

end Automaton
end RegexSearch
