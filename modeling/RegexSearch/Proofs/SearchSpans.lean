import RegexSearch.Proofs.Runs
import RegexSearch.Search.Leftmost

/-! The one pass over a text finds each span that the automaton accepts, and finds it once. Between two rounds the attempts that
go on are known by the states that the automaton is in after each part of the text that ends there. -/
namespace RegexSearch

/-- What a fold gathers, where what a step adds does not depend on what has been gathered before. -/
theorem foldl_iff {α β : Type} {f : β → α → β} {P : β → Prop} {Q : α → Prop} (step : ∀ b x, P (f b x) ↔ P b ∨ Q x)
    (xs : List α) (b : β) : P (xs.foldl f b) ↔ P b ∨ ∃ x ∈ xs, Q x := by
  induction xs generalizing b with
  | nil => simp
  | cons x xs ih => rw [List.foldl_cons, ih, step, or_assoc, List.exists_mem_cons_iff]

namespace Span

variable {s : Span} {text : List Char}

theorem slice_append (rest : List Char) (h : s.start ≤ s.stop) (hstop : s.stop ≤ text.length) :
    s.slice (text ++ rest) = s.slice text := by
  have hlen : s.stop - s.start ≤ (text.drop s.start).length := by
    rw [List.length_drop]
    exact Nat.sub_le_sub_right hstop _
  rw [slice, slice, List.drop_append_of_le_length (h.trans hstop), List.take_append_of_le_length hlen]

theorem slice_of_stop (h : s.stop = text.length) : s.slice text = text.drop s.start := by
  apply List.take_of_length_le
  rw [List.length_drop, h]

end Span

namespace Automaton

variable {a : Automaton} {text spelled : List Char} {spans : List Span} {live : List Attempt} {t u : Attempt} {s : Span}
  {position start v k : Nat} {char? : Option Char} {c : Char} {r : Round}

/-- The spans that an attempt finds in one round. -/
inductive Finds (a : Automaton) (position : Nat) (char? : Option Char) (t : Attempt) : Span → Prop
  | ended (h : t.state = a.final) : Finds a position char? t ⟨t.start?.getD position, position⟩
  | arrived {c : Char} (hc : char? = some c) (h : a.consumes t.state c = true) (k : a.final ∈ a.closure [t.state + 1]) :
    Finds a position char? t ⟨t.start?.getD position, position + 1⟩

/-- The attempts that an attempt goes on as. -/
inductive GoesOn (a : Automaton) (position : Nat) (char? : Option Char) (t : Attempt) : Attempt → Prop
  | arrived {c : Char} {v : Nat} (hc : char? = some c) (h : a.consumes t.state c = true)
    (k : v ∈ a.closure [t.state + 1]) (hv : v ≠ a.final) : GoesOn a position char? t ⟨v, some (t.start?.getD position)⟩

theorem ne_final_of_consumes (h : a.consumes v c = true) : v ≠ a.final := (lt_final_of_consumes h).ne

theorem mem_spans_arrive : s ∈ (a.arrive start position r v).spans ↔ s ∈ r.spans ∨ v = a.final ∧ s = ⟨start, position⟩ := by
  unfold arrive
  split
  · next h => simp [Round.record, h, or_comm]
  · next h => simp [Round.keep, h]

theorem mem_next_arrive : t ∈ (a.arrive start position r v).next ↔ t ∈ r.next ∨ v ≠ a.final ∧ t = ⟨v, some start⟩ := by
  unfold arrive
  split
  · next h => simp [Round.record, h]
  · next h => simp [Round.keep, h, or_comm]

theorem mem_spans_visit : s ∈ (a.visit position char? r t).spans ↔ s ∈ r.spans ∨ a.Finds position char? t s := by
  unfold visit
  dsimp only
  split
  · next h =>
    rw [Round.record, List.mem_insert_iff, or_comm]
    apply or_congr_right
    constructor
    · rintro rfl
      exact .ended h
    · rintro (_ | ⟨-, hc, -⟩)
      · rfl
      · exact absurd h (ne_final_of_consumes hc)
  · next h =>
    cases char? with
    | none =>
      refine (or_iff_left ?_).symm
      rintro (ended | ⟨hc, -, -⟩)
      · exact h ended
      · cases hc
    | some c =>
      dsimp only
      split
      · next hc =>
        rw [foldl_iff (f := a.arrive _ _) (P := fun r : Round => s ∈ r.spans) fun _ _ => mem_spans_arrive]
        apply or_congr_right
        constructor
        · rintro ⟨_, hv, rfl, rfl⟩
          exact .arrived rfl hc hv
        · rintro (ended | ⟨-, -, hv⟩)
          · exact absurd ended h
          · exact ⟨_, hv, rfl, rfl⟩
      · next hc =>
        refine (or_iff_left ?_).symm
        rintro (ended | ⟨⟨⟩, hc', -⟩)
        · exact h ended
        · exact hc hc'

theorem mem_next_visit : u ∈ (a.visit position char? r t).next ↔ u ∈ r.next ∨ a.GoesOn position char? t u := by
  unfold visit
  dsimp only
  split
  · next h =>
    refine (or_iff_left ?_).symm
    rintro ⟨-, hc, -, -⟩
    exact ne_final_of_consumes hc h
  · next h =>
    cases char? with
    | none =>
      refine (or_iff_left ?_).symm
      rintro ⟨hc, -, -, -⟩
      cases hc
    | some c =>
      dsimp only
      split
      · next hc =>
        rw [foldl_iff (f := a.arrive _ _) (P := fun r : Round => u ∈ r.next) fun _ _ => mem_next_arrive]
        apply or_congr_right
        constructor
        · rintro ⟨v, hv, hne, rfl⟩
          exact .arrived rfl hc hv hne
        · rintro ⟨-, -, hv, hne⟩
          exact ⟨_, hv, hne, rfl⟩
      · next hc =>
        refine (or_iff_left ?_).symm
        rintro ⟨⟨⟩, hc', -, -⟩
        exact hc hc'

theorem nodup_arrive (h : r.spans.Nodup) : (a.arrive start position r v).spans.Nodup := by
  unfold arrive
  split
  · exact h.insert
  · exact h

theorem nodup_visit (h : r.spans.Nodup) : (a.visit position char? r t).spans.Nodup := by
  unfold visit
  dsimp only
  split
  · exact h.insert
  · cases char? with
    | none => exact h
    | some c =>
      dsimp only
      split
      · exact List.foldlRecOn (motive := fun r : Round => r.spans.Nodup) _ _ h fun _ hr _ _ => nodup_arrive hr
      · exact h

theorem mem_spans_round : s ∈ (a.round spans live position char?).spans ↔
    s ∈ spans ∨ ∃ t ∈ live, a.Finds position char? t s :=
  foldl_iff (f := a.visit position char?) (P := fun r : Round => s ∈ r.spans) (fun _ _ => mem_spans_visit) live { spans }

theorem mem_next_round : u ∈ (a.round spans live position char?).next ↔ ∃ t ∈ live, a.GoesOn position char? t u :=
  (foldl_iff (f := a.visit position char?) (P := fun r : Round => u ∈ r.next) (fun _ _ => mem_next_visit) live
    { spans }).trans (or_iff_right List.not_mem_nil)

theorem nodup_round (h : spans.Nodup) : (a.round spans live position char?).spans.Nodup :=
  List.foldlRecOn (motive := fun r : Round => r.spans.Nodup) live _ h fun _ hr _ _ => nodup_visit hr

theorem mem_advance {states : List Nat} : v ∈ a.advance states c ↔
    ∃ u ∈ states, a.consumes u c = true ∧ v ∈ a.closure [u + 1] := by
  simp only [advance, mem_closure, List.mem_map, List.mem_filter]
  constructor
  · rintro ⟨_, ⟨u, ⟨hu, hc⟩, rfl⟩, hle, hr⟩
    exact ⟨u, hu, hc, u + 1, List.mem_singleton_self _, hle, hr⟩
  · rintro ⟨u, hu, hc, w, hw, hle, hr⟩
    obtain rfl := List.mem_singleton.1 hw
    exact ⟨u + 1, ⟨u, ⟨hu, hc⟩, rfl⟩, hle, hr⟩

theorem after_drop_append_singleton (a : Automaton) (hk : k ≤ text.length) (c : Char) :
    a.after ((text ++ [c]).drop k) = a.advance (a.after (text.drop k)) c := by
  rw [List.drop_append_of_le_length hk, after_append_singleton]

/-- What is known before the round behind a text. The empty span there is found in that round only. -/
structure Tracks (a : Automaton) (text : List Char) (spans : List Span) (live : List Attempt) : Prop where
  mem_spans : ∀ s, s ∈ spans ↔ a.MatchesAt text s ∧ s.start < text.length
  fresh : ∀ v, ⟨v, none⟩ ∈ live ↔ v ∈ a.initial
  started : ∀ v k, ⟨v, some k⟩ ∈ live ↔ v ≠ a.final ∧ k < text.length ∧ v ∈ a.after (text.drop k)

theorem mem_fresh : t ∈ a.fresh ↔ t.start? = none ∧ t.state ∈ a.initial := by
  rw [fresh, List.mem_map]
  constructor
  · rintro ⟨v, hv, rfl⟩
    exact ⟨rfl, hv⟩
  · rcases t with ⟨v, start?⟩
    rintro ⟨rfl, hv⟩
    exact ⟨v, hv, rfl⟩

theorem tracks_nil (a : Automaton) : a.Tracks [] [] a.fresh where
  mem_spans s := ⟨nofun, fun h => absurd h.2 (Nat.not_lt_zero _)⟩
  fresh v := by simp [mem_fresh]
  started v k := by simp [mem_fresh]

theorem Tracks.live_iff (h : a.Tracks text spans live) (hv : v ≠ a.final) :
    (∃ t ∈ live, t.state = v ∧ t.start?.getD text.length = k) ↔ k ≤ text.length ∧ v ∈ a.after (text.drop k) := by
  constructor
  · rintro ⟨⟨_, _ | i⟩, ht, rfl, rfl⟩
    · rw [Option.getD_none, List.drop_length]
      exact ⟨le_rfl, (h.fresh _).1 ht⟩
    · rcases (h.started _ _).1 ht with ⟨-, hlt, hafter⟩
      exact ⟨hlt.le, hafter⟩
  · rintro ⟨hle, hafter⟩
    rcases hle.lt_or_eq with hlt | rfl
    · exact ⟨_, (h.started v k).2 ⟨hv, hlt, hafter⟩, rfl, rfl⟩
    · rw [List.drop_length] at hafter
      exact ⟨_, (h.fresh v).2 hafter, rfl, rfl⟩

/-- The states that are come to in a round, by where the attempts started, are those that the automaton is in then. -/
theorem Tracks.arrives_iff (h : a.Tracks text spans live) :
    (∃ t ∈ live, t.start?.getD text.length = k ∧ a.consumes t.state c = true ∧ v ∈ a.closure [t.state + 1]) ↔
      k ≤ text.length ∧ v ∈ a.after ((text ++ [c]).drop k) := by
  constructor
  · rintro ⟨t, ht, hstart, hc, hv⟩
    rcases (h.live_iff (ne_final_of_consumes hc)).1 ⟨t, ht, rfl, hstart⟩ with ⟨hle, hafter⟩
    rw [a.after_drop_append_singleton hle, mem_advance]
    exact ⟨hle, _, hafter, hc, hv⟩
  · rintro ⟨hle, hafter⟩
    rw [a.after_drop_append_singleton hle, mem_advance] at hafter
    rcases hafter with ⟨u, hu, hc, hv⟩
    rcases (h.live_iff (ne_final_of_consumes hc)).2 ⟨hle, hu⟩ with ⟨t, ht, rfl, hstart⟩
    exact ⟨t, ht, hstart, hc, hv⟩

/-- Only an attempt that has read nothing is still under way in the final state. -/
theorem Tracks.ended_iff (h : a.Tracks text spans live) :
    (∃ t ∈ live, t.state = a.final ∧ s = ⟨t.start?.getD text.length, text.length⟩) ↔
      a.final ∈ a.initial ∧ s = ⟨text.length, text.length⟩ := by
  constructor
  · rintro ⟨⟨v, _ | i⟩, ht, hv, rfl⟩
    · exact ⟨(h.fresh _).1 (hv ▸ ht), rfl⟩
    · exact absurd hv ((h.started _ _).1 ht).1
  · rintro ⟨hfinal, rfl⟩
    exact ⟨_, (h.fresh _).2 hfinal, rfl, rfl⟩

theorem accepts_iff_mem_after : a.accepts spelled = true ↔ a.final ∈ a.after spelled := by
  rw [accepts_eq, List.contains_iff_mem]

theorem matchesAt_iff_of_stop (hstop : s.stop = text.length) :
    a.MatchesAt text s ↔ s.start ≤ text.length ∧ a.final ∈ a.after (text.drop s.start) := by
  rw [MatchesAt, Span.slice_of_stop hstop, accepts_iff_mem_after, hstop]
  exact and_congr_right fun _ => and_iff_right le_rfl

theorem matchesAt_append_iff (rest : List Char) (hstop : s.stop ≤ text.length) :
    a.MatchesAt (text ++ rest) s ↔ a.MatchesAt text s := by
  apply and_congr_right
  intro hle
  rw [Span.slice_append rest hle hstop, List.length_append]
  exact and_congr_left fun _ => ⟨fun _ => hstop, fun _ => Nat.le_add_right_of_le hstop⟩

/-- Of the spans of a text only the empty one at its end starts there. -/
theorem matchesAt_iff_or : a.MatchesAt text s ↔
    (a.MatchesAt text s ∧ s.start < text.length) ∨ a.final ∈ a.initial ∧ s = ⟨text.length, text.length⟩ := by
  have last : a.MatchesAt text ⟨text.length, text.length⟩ ↔ a.final ∈ a.initial := by
    rw [matchesAt_iff_of_stop rfl, and_iff_right le_rfl, List.drop_length]
    rfl
  constructor
  · intro h
    rcases Nat.lt_or_ge s.start text.length with hlt | hge
    · exact .inl ⟨h, hlt⟩
    · obtain rfl : s = ⟨text.length, text.length⟩ := by
        rcases s with ⟨start, stop⟩
        rcases h with ⟨hle, hstop, -⟩
        rw [Span.mk.injEq]
        exact ⟨le_antisymm (hle.trans hstop) hge, le_antisymm hstop (hge.trans hle)⟩
      exact .inr ⟨last.1 h, rfl⟩
  · rintro (⟨h, -⟩ | ⟨hfinal, rfl⟩)
    · exact h
    · exact last.2 hfinal

theorem matchesAt_append_singleton_iff : a.MatchesAt (text ++ [c]) s ∧ s.start < (text ++ [c]).length ↔
    a.MatchesAt text s ∨ s.stop = text.length + 1 ∧ s.start ≤ text.length ∧
      a.final ∈ a.after ((text ++ [c]).drop s.start) := by
  have hlen : (text ++ [c]).length = text.length + 1 := List.length_append
  rcases Nat.lt_trichotomy s.stop (text.length + 1) with hlt | heq | hgt
  · rw [matchesAt_append_iff [c] (Nat.le_of_lt_succ hlt), or_iff_left fun h => hlt.ne h.1, hlen]
    exact and_iff_left_of_imp fun h => h.1.trans_lt hlt
  · rw [matchesAt_iff_of_stop (heq.trans hlen.symm), hlen, Nat.lt_succ_iff, or_iff_right fun h => by
      have := h.2.1
      omega]
    constructor
    · rintro ⟨⟨-, hfinal⟩, hle⟩
      exact ⟨heq, hle, hfinal⟩
    · rintro ⟨-, hle, hfinal⟩
      exact ⟨⟨Nat.le_succ_of_le hle, hfinal⟩, hle⟩
  · constructor
    · rintro ⟨⟨-, hstop, -⟩, -⟩
      omega
    · rintro (⟨-, hstop, -⟩ | ⟨hstop, -⟩) <;> omega

theorem finds_iff : a.Finds position char? t s ↔ t.state = a.final ∧ s = ⟨t.start?.getD position, position⟩ ∨
    ∃ c ∈ char?, s.stop = position + 1 ∧
      t.start?.getD position = s.start ∧ a.consumes t.state c = true ∧ a.final ∈ a.closure [t.state + 1] := by
  constructor
  · rintro (hended | ⟨hc, h, k⟩)
    · exact .inl ⟨hended, rfl⟩
    · exact .inr ⟨_, hc, rfl, rfl, h, k⟩
  · rintro (⟨hended, rfl⟩ | ⟨c, hc, hstop, hstart, h, k⟩)
    · exact .ended hended
    · rcases s with ⟨_, _⟩
      subst hstop hstart
      exact .arrived hc h k

theorem Tracks.finds_iff_of_none (h : a.Tracks text spans live) :
    (s ∈ spans ∨ ∃ t ∈ live, a.Finds text.length none t s) ↔ a.MatchesAt text s := by
  rw [matchesAt_iff_or, h.mem_spans, ← h.ended_iff]
  simp [finds_iff]

theorem Tracks.finds_iff_of_some (h : a.Tracks text spans live) :
    (s ∈ spans ∨ ∃ t ∈ live, a.Finds text.length (some c) t s) ↔
      a.MatchesAt (text ++ [c]) s ∧ s.start < (text ++ [c]).length := by
  have split : (∃ t ∈ live, a.Finds text.length (some c) t s) ↔
      (∃ t ∈ live, t.state = a.final ∧ s = ⟨t.start?.getD text.length, text.length⟩) ∨ s.stop = text.length + 1 ∧
        ∃ t ∈ live, t.start?.getD text.length = s.start ∧ a.consumes t.state c = true ∧ a.final ∈ a.closure [t.state + 1] := by
    constructor
    · rintro ⟨t, ht, hfinds⟩
      rcases finds_iff.1 hfinds with hended | ⟨_, ⟨⟩, hstop, harrived⟩
      · exact .inl ⟨t, ht, hended⟩
      · exact .inr ⟨hstop, t, ht, harrived⟩
    · rintro (⟨t, ht, hended⟩ | ⟨hstop, t, ht, harrived⟩)
      · exact ⟨t, ht, finds_iff.2 (.inl hended)⟩
      · exact ⟨t, ht, finds_iff.2 (.inr ⟨c, rfl, hstop, harrived⟩)⟩
  rw [split, matchesAt_append_singleton_iff, matchesAt_iff_or, h.mem_spans, h.ended_iff, h.arrives_iff, or_assoc]

theorem goesOn_iff : a.GoesOn position (some c) t u ↔ u.state ≠ a.final ∧ u.start? = some (t.start?.getD position) ∧
    a.consumes t.state c = true ∧ u.state ∈ a.closure [t.state + 1] := by
  constructor
  · rintro ⟨⟨⟩, h, k, hv⟩
    exact ⟨hv, rfl, h, k⟩
  · rcases u with ⟨v, start?⟩
    rintro ⟨hv, rfl, h, k⟩
    exact .arrived rfl h k hv

/-- One round, with the attempts that start behind it. -/
theorem Tracks.step (h : a.Tracks text spans live) (c : Char) :
    a.Tracks (text ++ [c]) (a.round spans live text.length (some c)).spans
      ((a.round spans live text.length (some c)).next.reverse ++ a.fresh).eraseDups where
  mem_spans s := mem_spans_round.trans h.finds_iff_of_some
  fresh v := by
    rw [List.mem_eraseDups, List.mem_append, mem_fresh, List.mem_reverse, mem_next_round]
    simp [goesOn_iff]
  started v k := by
    have hlen : (text ++ [c]).length = text.length + 1 := List.length_append
    rw [List.mem_eraseDups, List.mem_append, mem_fresh, List.mem_reverse, mem_next_round, or_iff_left (fun h => nomatch h.1),
      hlen, Nat.lt_succ_iff, ← h.arrives_iff]
    simp only [goesOn_iff, Option.some.injEq]
    constructor
    · rintro ⟨t, ht, hv, hstart, harrived⟩
      exact ⟨hv, t, ht, hstart.symm, harrived⟩
    · rintro ⟨hv, t, ht, hstart, harrived⟩
      exact ⟨t, ht, hv, hstart.symm, harrived⟩

theorem mem_searchFrom {rest : List Char} (h : a.Tracks text spans live) :
    s ∈ a.searchFrom spans live text.length rest ↔ a.MatchesAt (text ++ rest) s := by
  induction rest generalizing text spans live with
  | nil => rw [searchFrom, List.append_nil, mem_spans_round, h.finds_iff_of_none]
  | cons c rest ih =>
    have hlen : text.length + 1 = (text ++ [c]).length := by rw [List.length_append, List.length_singleton]
    rw [searchFrom, hlen, ih (h.step c), List.append_assoc, List.singleton_append]

theorem nodup_searchFrom {rest : List Char} (h : spans.Nodup) : (a.searchFrom spans live position rest).Nodup := by
  induction rest generalizing spans live position with
  | nil => exact nodup_round h
  | cons c rest ih => exact ih (nodup_round h)

theorem mem_search {text : List Char} : s ∈ a.search text ↔ a.MatchesAt text s := mem_searchFrom a.tracks_nil

theorem nodup_search (a : Automaton) (text : List Char) : (a.search text).Nodup := nodup_searchFrom .nil

end Automaton
end RegexSearch
