import RegexSearch.CommandLine.Highlighting
import RegexSearch.Proofs.Matches

/-! A highlighted text has the matches marked that do not overlap, and nothing else, whether it was made from them or from all
matches: of those that overlap, highlighting leaves out the same ones. -/
namespace RegexSearch

namespace Style

variable {x y text : List Char}

theorem Unstyled.of_infix (h : Unstyled text) (hx : x <:+: text) : Unstyled x := fun inside => h (inside.trans hx)

theorem strip_append (hx : Unstyled x) (hy : y.head? ≠ some '[') : strip (x ++ y) = x ++ strip y := by
  induction x with
  | nil => rfl
  | cons c x ih =>
    have hrest : Unstyled x := hx.of_infix (List.suffix_cons c x).isInfix
    rw [List.cons_append, strip, ih hrest, List.cons_append]
    rintro more rfl hmore
    cases x with
    | nil => exact hy (by rw [← List.nil_append y, hmore]; rfl)
    | cons d x =>
      obtain ⟨rfl, -⟩ := List.cons.inj hmore
      exact hx ⟨[], x, rfl⟩

theorem strip_eq_self (h : Unstyled x) : strip x = x := by
  have key := strip_append (y := []) h (by simp)
  rwa [List.append_nil, strip, List.append_nil] at key

theorem skip_append {codes : List Char} (h : 'm' ∉ codes) (rest : List Char) : skip (codes ++ 'm' :: rest) = strip rest := by
  induction codes with
  | nil => rfl
  | cons c codes ih =>
    rw [List.mem_cons, not_or] at h
    rw [List.cons_append, skip, ih h.2]
    exact fun hm => h.1 hm.symm

/-- A sequence ends a stretch of plain text, and nothing is left of it. -/
theorem Sequence.strip_append (h : Sequence y) (hx : Unstyled x) (rest : List Char) :
    strip (x ++ (y ++ rest)) = x ++ strip rest := by
  rcases h with ⟨codes, hcodes, rfl⟩
  have head : ('\x1b' :: '[' :: (codes ++ ['m']) ++ rest).head? ≠ some '[' := by
    show some '\x1b' ≠ some '['
    decide
  rw [Style.strip_append hx head, List.cons_append, List.cons_append, List.append_assoc, strip]
  exact congrArg (x ++ ·) (skip_append hcodes rest)

theorem sequence_reset : Sequence reset := ⟨['0'], by decide, rfl⟩

theorem sequence_start (s : Style) : Sequence s.start := ⟨s.codes, by cases s <;> decide, rfl⟩

end Style

namespace Palette

theorem plain_encloses (s : Style) : plain.Encloses s [] [] where
  brackets := .off
  paint text _ := (List.append_nil text).symm

theorem ansi_encloses (s : Style) : ansi.Encloses s s.start Style.reset where
  brackets := .on s.sequence_start Style.sequence_reset
  paint text h := by
    show s.start ++ reopen s.start text ++ Style.reset = _
    rw [reopen_eq_self h]

theorem exists_encloses (force off wish : Option String) (terminal : Bool) (s : Style) :
    ∃ start stop, (ofEnvironment force off wish terminal).Encloses s start stop := by
  unfold ofEnvironment
  split_ifs
  · exact ⟨_, _, ansi_encloses s⟩
  · exact ⟨_, _, plain_encloses s⟩
  · exact ⟨_, _, ansi_encloses s⟩
  · exact ⟨_, _, plain_encloses s⟩

end Palette

namespace Span

variable {text : List Char} {position : Nat} {last : Option Span} {s : Span} {spans : List Span}

theorem slice_append_drop {start stop : Nat} (h : start ≤ stop) (text : List Char) :
    slice ⟨start, stop⟩ text ++ text.drop stop = text.drop start := by
  have rest : text.drop stop = (text.drop start).drop (stop - start) := by
    rw [List.drop_drop, Nat.add_sub_cancel' h]
  rw [slice, rest, List.take_append_drop]

theorem length_slice (h : s.stop ≤ text.length) : (s.slice text).length = s.stop - s.start := by
  rw [slice, List.length_take, List.length_drop]
  omega

theorem slice_isInfix (s : Span) (text : List Char) : s.slice text <:+: text :=
  (List.take_prefix _ _).isInfix.trans (List.drop_suffix _ _).isInfix

/-- Spans that stand in a text one after the other, from a position on. -/
inductive Lined (length : Nat) : Nat → List Span → Prop
  | nil {position : Nat} (h : position ≤ length) : Lined length position []
  | cons {position : Nat} {s : Span} {rest : List Span} (h : position ≤ s.start) (k : s.start ≤ s.stop)
    (more : Lined length s.stop rest) : Lined length position (s :: rest)

theorem Lined.le {length : Nat} (h : Lined length position spans) : position ≤ length := by
  induction h with
  | nil h => exact h
  | cons h k _ ih => exact (h.trans k).trans ih

/-- The spans that highlighting does not leave out. -/
def kept (position : Nat) : List Span → List Span
  | [] => []
  | s :: rest => if s.start < position then kept position rest else s :: kept s.stop rest

theorem lined_kept {length : Nat} (h : position ≤ length) (proper : ∀ s ∈ spans, s.start ≤ s.stop ∧ s.stop ≤ length) :
    Lined length position (kept position spans) := by
  induction spans generalizing position with
  | nil => exact .nil h
  | cons s rest ih =>
    have others : ∀ t ∈ rest, t.start ≤ t.stop ∧ t.stop ≤ length := fun t ht => proper t (List.mem_cons_of_mem s ht)
    obtain ⟨hle, hstop⟩ := proper s List.mem_cons_self
    rw [kept]
    split
    · exact ih h others
    · next hlt => exact .cons (Nat.le_of_not_lt hlt) hle (ih hstop others)

theorem Lined.kept_eq {length : Nat} (h : Lined length position spans) : kept position spans = spans := by
  induction h with
  | nil => rfl
  | cons h _ _ ih => rw [kept, if_neg (Nat.not_lt.2 h), ih]

theorem kept_zero_eq_nil_iff : kept 0 spans = [] ↔ spans = [] := by
  cases spans with
  | nil => exact Iff.rfl
  | cons s rest =>
    rw [kept, if_neg (Nat.not_lt_zero _)]
    simp

-- Where a span starts with the one kept before it, that one is longer and not empty, so the span starts before its end.
theorem follows_iff_stop_le (h : ∀ l ∈ last, l.start < s.start ∨ l.start = s.start ∧ s.stop < l.stop)
    (proper : s.start ≤ s.stop) : s.follows last = true ↔ ¬ s.start < last.elim 0 Span.stop := by
  cases last with
  | none => simp [follows]
  | some l =>
    have before := h l rfl
    simp only [follows, Option.all_some, Bool.and_eq_true, decide_eq_true_eq, bne_iff_ne, Option.elim]
    omega

theorem kept_eq_greedy (h : ∀ l ∈ last, ∀ s ∈ spans, l.start < s.start ∨ l.start = s.start ∧ s.stop < l.stop)
    (sorted : spans.Pairwise fun x y => x.start < y.start ∨ x.start = y.start ∧ y.stop < x.stop)
    (proper : ∀ s ∈ spans, s.start ≤ s.stop) : kept (last.elim 0 Span.stop) spans = greedy last spans := by
  induction spans generalizing last with
  | nil => rfl
  | cons s rest ih =>
    obtain ⟨first, sorted⟩ := List.pairwise_cons.1 sorted
    have others : ∀ t ∈ rest, t.start ≤ t.stop := fun t ht => proper t (List.mem_cons_of_mem s ht)
    have follows := follows_iff_stop_le (fun l hl => h l hl s List.mem_cons_self) (proper s List.mem_cons_self)
    rw [kept, greedy]
    by_cases hs : s.start < last.elim 0 Span.stop
    · rw [if_pos hs, if_neg fun hf => follows.1 hf hs]
      exact ih (fun l hl t ht => h l hl t (List.mem_cons_of_mem s ht)) sorted others
    · rw [if_neg hs, if_pos (follows.2 hs)]
      have after : ∀ l ∈ some s, ∀ t ∈ rest, l.start < t.start ∨ l.start = t.start ∧ t.stop < l.stop := by
        rintro l ⟨⟩
        exact first
      exact congrArg (s :: ·) (ih after sorted others)

theorem kept_select {overlapping : Bool} (distinct : spans.Nodup)
    (proper : ∀ s ∈ spans, s.start ≤ s.stop ∧ s.stop ≤ text.length) :
    kept 0 (select overlapping spans) = select false spans := by
  have sorted := pairwise_select_true distinct
  have members : ∀ s ∈ select true spans, s.start ≤ s.stop ∧ s.stop ≤ text.length := fun s hs =>
    proper s (mem_select_true.1 hs)
  have start : ∀ l ∈ (none : Option Span), ∀ s ∈ select true spans, l.start < s.start ∨ l.start = s.start ∧ s.stop < l.stop :=
    fun _ hl => nomatch hl
  have all : kept 0 (select true spans) = select false spans := kept_eq_greedy start sorted fun s hs => (members s hs).1
  cases overlapping with
  | true => exact all
  | false =>
    rw [← all]
    exact (lined_kept (Nat.zero_le _) members).kept_eq

end Span

namespace Piece

variable {text : List Char} {position : Nat} {s : Span} {spans : List Span}

theorem highlight?_kept (text : List Char) (position : Nat) (spans : List Span) :
    highlight? text position (Span.kept position spans) = highlight? text position spans := by
  induction spans generalizing position with
  | nil => rfl
  | cons s rest ih =>
    rw [Span.kept, highlight?]
    split
    · exact ih position
    · next hlt => rw [highlight?, if_neg hlt, ih]

theorem highlight_kept (text : List Char) (position : Nat) (spans : List Span) :
    highlight text position (Span.kept position spans) = highlight text position spans := by
  induction spans generalizing position with
  | nil => rfl
  | cons s rest ih =>
    rw [Span.kept, highlight]
    split
    · exact ih position
    · next hlt => rw [highlight, if_neg hlt, ih]

theorem highlight_cons (h : position ≤ s.start) (spans : List Span) : highlight text position (s :: spans) =
    plain (Span.slice ⟨position, s.start⟩ text) :: marked (s.slice text) :: highlight text s.stop spans := by
  rw [highlight, if_neg (Nat.not_lt.2 h)]

theorem highlight?_eq (h : Span.Lined text.length position spans) :
    highlight? text position spans = some (highlight text position spans) := by
  induction h with
  | @nil position h =>
    have slice : Span.slice? ⟨position, text.length⟩ text = some (text.drop position) := by
      rw [Span.slice?, if_pos ⟨h, Nat.le_refl _⟩, Span.slice, List.take_of_length_le (by simp)]
    rw [highlight?, slice]
    rfl
  | @cons position s rest h k more ih =>
    have stop := more.le
    have before : Span.slice? ⟨position, s.start⟩ text = some _ := if_pos ⟨h, k.trans stop⟩
    have inside : s.slice? text = some _ := if_pos ⟨k, stop⟩
    rw [highlight?, if_neg (Nat.not_lt.2 h), before, inside, ih, highlight_cons h]
    rfl

theorem flatMap_text_highlight (h : Span.Lined text.length position spans) :
    (highlight text position spans).flatMap Piece.text = text.drop position := by
  induction h with
  | nil => exact List.append_nil _
  | cons h k more ih =>
    rw [highlight_cons h, List.flatMap_cons, List.flatMap_cons, ih]
    change Span.slice _ text ++ (Span.slice _ text ++ text.drop _) = _
    rw [Span.slice_append_drop k, Span.slice_append_drop h]

theorem filterMap_marked?_highlight (h : Span.Lined text.length position spans) :
    (highlight text position spans).filterMap marked? = spans.map (Span.slice · text) := by
  induction h with
  | nil => rfl
  | cons h k more ih =>
    rw [highlight_cons h, List.map_cons, ← ih]
    rfl

theorem markedSpans_highlight (h : Span.Lined text.length position spans) :
    markedSpans position (highlight text position spans) = spans := by
  induction h with
  | nil => rfl
  | @cons position s rest h k more ih =>
    have before : position + (Span.slice ⟨position, s.start⟩ text).length = s.start := by
      rw [Span.length_slice (k.trans more.le), Nat.add_sub_cancel' h]
    have inside : s.start + (s.slice text).length = s.stop := by
      rw [Span.length_slice more.le, Nat.add_sub_cancel' k]
    rw [highlight_cons h, markedSpans, markedSpans, before, inside, ih]

theorem infix_of_mem_highlight {piece : Piece} (h : piece ∈ highlight text position spans) : piece.text <:+: text := by
  induction spans generalizing position with
  | nil =>
    obtain rfl := List.mem_singleton.1 h
    exact (List.drop_suffix _ _).isInfix
  | cons s rest ih =>
    rw [highlight] at h
    split at h
    · exact ih h
    · rcases List.mem_cons.1 h with rfl | h
      · exact Span.slice_isInfix _ text
      · rcases List.mem_cons.1 h with rfl | h
        · exact s.slice_isInfix text
        · exact ih h

theorem map_render_highlight {p : Palette} {start stop : List Char} (hp : p.Encloses .marked start stop)
    (unstyled : Style.Unstyled text) (position : Nat) (spans : List Span) :
    (highlight text position spans).map (render p) = (highlight text position spans).map (enclosed start stop) := by
  apply List.map_congr_left
  intro piece hpiece
  cases piece with
  | plain x => rfl
  | marked x => exact hp.paint x (unstyled.of_infix (infix_of_mem_highlight hpiece))

theorem flatMap_enclosed_nil (pieces : List Piece) : pieces.flatMap (enclosed [] []) = pieces.flatMap Piece.text := by
  apply congrArg (pieces.flatMap ·)
  funext piece
  cases piece with
  | plain x => rfl
  | marked x => exact List.append_nil x

/-- Where the text has no style sequences of its own, taking out those of the marks gives it back. -/
theorem strip_enclosed_highlight {start stop : List Char} (hb : Style.Brackets start stop)
    (h : Span.Lined text.length position spans) (unstyled : Style.Unstyled text) :
    Style.strip ((highlight text position spans).flatMap (enclosed start stop)) = text.drop position := by
  cases hb with
  | off =>
    rw [flatMap_enclosed_nil, flatMap_text_highlight h]
    exact Style.strip_eq_self (unstyled.of_infix (List.drop_suffix _ _).isInfix)
  | on hstart hstop =>
    induction h with
    | @nil position _ =>
      show Style.strip (text.drop position ++ []) = _
      rw [List.append_nil]
      exact Style.strip_eq_self (unstyled.of_infix (List.drop_suffix _ _).isInfix)
    | @cons position s rest h k more ih =>
      have shown : (highlight text position (s :: rest)).flatMap (enclosed start stop) =
          Span.slice ⟨position, s.start⟩ text ++ (start ++ (s.slice text ++ (stop ++
            (highlight text s.stop rest).flatMap (enclosed start stop)))) := by
        rw [highlight_cons h, List.flatMap_cons, List.flatMap_cons]
        show Span.slice _ text ++ ((start ++ s.slice text ++ stop) ++ _) = _
        rw [List.append_assoc, List.append_assoc]
      rw [shown, hstart.strip_append (unstyled.of_infix (Span.slice_isInfix _ text)),
        hstop.strip_append (unstyled.of_infix (s.slice_isInfix text)), ih, Span.slice_append_drop k, Span.slice_append_drop h]

end Piece

namespace Matcher

theorem matchWhole_automaton (m : Matcher) : m.matchWhole.2.automaton = m.automaton := by
  unfold matchWhole
  split <;> rfl

theorem matchWhole_text (m : Matcher) : m.matchWhole.2.text = m.text := by
  unfold matchWhole
  split <;> rfl

theorem collect_matchWhole_search (m : Matcher) (overlapping : Bool) : (m.matchWhole.2.search overlapping).2.collect =
    .ok ((Span.select overlapping (m.automaton.search m.text)).map fun s => ⟨s, s.slice m.text⟩) := by
  rw [collect_eq, pending_search, matchWhole_automaton, matchWhole_text]

end Matcher

theorem Regex.find_eq (r : Regex) (text : String) : r.find text =
    (Span.select false (r.automaton.search text.toList)).map fun s => ⟨s, s.slice text.toList⟩ := Matcher.toList_eq _

namespace CommandLine

theorem report_eq (p : Palette) (r : Regex) (overlapping : Bool) (text : String) {found : List Match}
    (h : ((r.matcher text).matchWhole.2.search overlapping).2.collect = .ok found) :
    report p r overlapping text.toList = .ok (verdictLine p text.toList (r.accepts text) ++ found.flatMap matchLine ++
      if found.isEmpty then [] else highlightLine p text.toList (found.map Match.span)) := by
  change ((r.matcher text).matchWhole.2.search overlapping).2.collect >>= _ = _
  rw [h]
  rfl

/-- With or without overlapping matches the pieces of a highlighted line are the same. They are cut out of the text without
leaving it and make it up again, and the marked ones are the matches that do not overlap. What is printed around these is the
same for each, and taking it out of the line gives the text back, if the text has no style sequences of its own. -/
theorem report_highlighted {p : Palette} {start stop : List Char} (hp : p.Encloses .marked start stop) (r : Regex)
    (text : String) : ∃ pieces : List Piece,
    (∀ overlapping, ∃ found : List Match,
      ((r.matcher text).matchWhole.2.search overlapping).2.collect = .ok found ∧ (found = [] ↔ r.find text = []) ∧
      Piece.highlight? text.toList 0 (found.map Match.span) = some pieces ∧
      report p r overlapping text.toList = .ok (verdictLine p text.toList (r.accepts text) ++ found.flatMap matchLine ++
        if found.isEmpty then [] else [' ', ' '] ++ pieces.flatMap (Piece.render p) ++ ['\n'])) ∧
    pieces.flatMap Piece.text = text.toList ∧
    pieces.filterMap Piece.marked? = (r.find text).map Match.text ∧
    Piece.markedSpans 0 pieces = (r.find text).map Match.span ∧
    (Style.Unstyled text.toList → pieces.map (Piece.render p) = pieces.map (Piece.enclosed start stop) ∧
      Style.strip (pieces.flatMap (Piece.render p)) = text.toList) := by
  have proper : ∀ s ∈ r.automaton.search text.toList, s.start ≤ s.stop ∧ s.stop ≤ text.toList.length := fun s hs => by
    obtain ⟨hle, hstop, -⟩ := Automaton.mem_search.1 hs
    exact ⟨hle, hstop⟩
  have kept (overlapping : Bool) : Span.kept 0 (Span.select overlapping (r.automaton.search text.toList)) =
      Span.select false (r.automaton.search text.toList) := Span.kept_select (r.automaton.nodup_search _) proper
  have lined : Span.Lined text.toList.length 0 (Span.select false (r.automaton.search text.toList)) := by
    rw [← kept true]
    exact Span.lined_kept (Nat.zero_le _) fun s hs => proper s (Span.mem_select_true.1 hs)
  have highlighted (overlapping : Bool) :
      Piece.highlight text.toList 0 (Span.select overlapping (r.automaton.search text.toList)) =
        Piece.highlight text.toList 0 (Span.select false (r.automaton.search text.toList)) := by
    rw [← Piece.highlight_kept, kept]
  refine ⟨Piece.highlight text.toList 0 (Span.select false (r.automaton.search text.toList)), fun overlapping => ?_,
    Piece.flatMap_text_highlight lined, ?_, ?_, fun unstyled => ?_⟩
  · have collected := (r.matcher text).collect_matchWhole_search overlapping
    refine ⟨_, collected, ?_, ?_, ?_⟩
    · rw [r.find_eq, List.map_eq_nil_iff, List.map_eq_nil_iff, ← kept overlapping, Span.kept_zero_eq_nil_iff]
      rfl
    · rw [Matcher.map_span_entries, ← Piece.highlight?_kept]
      exact (congrArg _ (kept overlapping)).trans (Piece.highlight?_eq lined)
    · rw [report_eq p r overlapping text collected, Matcher.map_span_entries, ← highlighted overlapping]
      rfl
  · rw [Piece.filterMap_marked?_highlight lined, r.find_eq, List.map_map]
    rfl
  · rw [Piece.markedSpans_highlight lined, r.find_eq, Matcher.map_span_entries]
  · have rendered := Piece.map_render_highlight hp unstyled 0 (Span.select false (r.automaton.search text.toList))
    refine ⟨rendered, ?_⟩
    rw [List.flatMap_def, rendered, ← List.flatMap_def]
    exact Piece.strip_enclosed_highlight hp.brackets lined unstyled

/-- The empty match behind a longer one is marked, the one inside it is not. -/
theorem report_highlighted_empty_matches : Palette.ansi.Encloses .marked Style.marked.start Style.reset ∧
    ∃ r, Regex.compile "a*" = .ok r ∧ ∃ pieces : List Piece,
      Piece.markedSpans 0 pieces = [⟨0, 0⟩, ⟨1, 2⟩, ⟨2, 2⟩] ∧ Style.Unstyled ['b', 'a'] ∧
      pieces.map (Piece.render .ansi) = pieces.map (Piece.enclosed Style.marked.start Style.reset) ∧
      Style.strip (pieces.flatMap (Piece.render .ansi)) = ['b', 'a'] := by
  obtain ⟨a, built, found⟩ : ∃ a, Automaton.ofPattern ['a', '*'] = .ok a ∧
      Span.select false (a.search ['b', 'a']) = [⟨0, 0⟩, ⟨1, 2⟩, ⟨2, 2⟩] := ⟨_, rfl, by cbv⟩
  have compiled : Regex.compile "a*" = .ok ⟨"a*", a⟩ := by
    have chars : "a*".toList = ['a', '*'] := rfl
    rw [Regex.compile, chars, built]
  have unstyled : Style.Unstyled ['b', 'a'] := by
    unfold Style.Unstyled
    decide
  have enclosed := Palette.ansi_encloses .marked
  obtain ⟨pieces, -, -, -, spans, rendered⟩ := report_highlighted enclosed ⟨"a*", a⟩ (String.ofList ['b', 'a'])
  rw [Regex.find_eq, Matcher.map_span_entries, String.toList_ofList, found] at spans
  rw [String.toList_ofList] at rendered
  exact ⟨enclosed, _, compiled, pieces, spans, unstyled, rendered unstyled⟩

end CommandLine
end RegexSearch
