import RegexSearch.CommandLine.Outcome
import RegexSearch.Proofs.Highlighting
import RegexSearch.Proofs.MatcherHistory
import RegexSearch.Regex.Language

/-! Every call of the program is settled by its arguments and its standard input, and no report of a text fails. -/
namespace RegexSearch

namespace Matcher

end Matcher

namespace Text

theorem linesOfBytes?_toUTF8 (text : String) : linesOfBytes? text.toUTF8 = some (lines text.toList) := by
  rw [linesOfBytes?, String.fromUTF8?, String.toUTF8_eq_toByteArray, dif_pos text.isValidUTF8]
  rfl

end Text

theorem Regex.exists_syntaxError {pattern : String} {e : SearchError} (h : compile pattern = .error e) :
    ∃ s, e = .pattern s := by
  unfold compile at h
  split at h
  · cases h
  · cases h
    exact ⟨_, rfl⟩

namespace CommandLine

variable {a : String} {arguments : List String}

theorem isHelp_iff : isHelp a = true ↔ a ∈ ["-h", "--help"] := by simp [isHelp]

theorem isFlag_iff : isFlag a = true ↔ a ∈ ["--all", "--dot"] := by simp [isFlag]

theorem not_plain_of_isHelp (h : isHelp a = true) : ¬ Plain a := by
  have all : ∀ b ∈ ["-h", "--help"], ¬ Plain b := by decide
  exact all a (isHelp_iff.1 h)

theorem not_plain_of_isFlag (h : isFlag a = true) : ¬ Plain a := by
  have all : ∀ b ∈ ["--all", "--dot"], ¬ Plain b := by decide
  exact all a (isFlag_iff.1 h)

theorem not_isFlag_of_isHelp (h : isHelp a = true) : isFlag a = false := by
  have all : ∀ b ∈ ["-h", "--help"], isFlag b = false := by decide
  exact all a (isHelp_iff.1 h)

/-- Of the options only the short call for help does not begin with two dashes. -/
theorem isUnknown_iff : isUnknown a = true ↔ ¬ Plain a ∧ isHelp a = false ∧ isFlag a = false := by
  rw [isUnknown, Bool.and_eq_true, Bool.and_eq_true, Bool.not_eq_true', Bool.not_eq_true', List.isPrefixOf_iff_prefix,
    and_assoc]
  refine and_congr_left fun ⟨noHelp, _⟩ => ?_
  have ne : a ≠ "-h" := by
    rintro rfl
    exact absurd noHelp (by decide)
  simp [Plain, ne]

theorem stops_iff : Stops a ↔ (isHelp a || isUnknown a) = true := by
  rw [Bool.or_eq_true, isUnknown_iff, Stops, ← isFlag_iff, Bool.not_eq_true]
  constructor
  · rintro ⟨option, noFlag⟩
    cases hhelp : isHelp a with
    | true => exact .inl rfl
    | false => exact .inr ⟨option, rfl, noFlag⟩
  · rintro (help | ⟨option, -, noFlag⟩)
    · exact ⟨not_plain_of_isHelp help, not_isFlag_of_isHelp help⟩
    · exact ⟨option, noFlag⟩

theorem isPositional_iff : isPositional a = true ↔ Plain a := by
  rw [isPositional, Bool.and_eq_true, Bool.and_eq_true, Bool.not_eq_true', Bool.not_eq_true', Bool.not_eq_true']
  constructor
  · rintro ⟨⟨noHelp, noFlag⟩, known⟩
    by_contra option
    exact Bool.false_ne_true (known.symm.trans (isUnknown_iff.2 ⟨option, noHelp, noFlag⟩))
  · intro plain
    refine ⟨⟨?_, ?_⟩, ?_⟩
    · exact Bool.eq_false_iff.2 fun help => not_plain_of_isHelp help plain
    · exact Bool.eq_false_iff.2 fun flag => not_plain_of_isFlag flag plain
    · exact Bool.eq_false_iff.2 fun unknown => (isUnknown_iff.1 unknown).1 plain

theorem filter_isPositional (arguments : List String) :
    arguments.filter isPositional = arguments.filter (fun a => Plain a) :=
  congrArg (arguments.filter ·) (funext fun _ => Bool.eq_iff_iff.2 (isPositional_iff.trans decide_eq_true_iff.symm))

theorem find?_stops (h : ∀ a ∈ arguments, ¬ Stops a) : arguments.find? (fun a => isHelp a || isUnknown a) = none :=
  List.find?_eq_none.2 fun a ha stops => h a ha (stops_iff.2 stops)

theorem Asks.request {pattern : String} {texts : List String} (h : Asks arguments pattern texts) :
    request arguments = .search
      { pattern, texts, overlapping := decide ("--all" ∈ arguments), dot := decide ("--dot" ∈ arguments) } := by
  have positional : arguments.filter isPositional = pattern :: texts := (filter_isPositional _).trans h.plain
  rw [CommandLine.request, find?_stops h.not_stops, positional]
  simp only [List.contains_eq_mem]

variable {p : Palette} {input : ByteArray} {pattern : String} {texts : List String} {r : Regex}

theorem Asks.run_error {e : SyntaxError} (h : Asks arguments pattern texts)
    (k : Regex.compile pattern = .error (.pattern e)) :
    run p arguments input = { exit := 1, stderr := e.render p pattern.toList ++ "\n" } := by
  rw [run, plan, h.request]
  simp only [k]
  rfl

theorem Asks.run_dot (h : Asks arguments pattern texts) (k : Regex.compile pattern = .ok r)
    (dot : "--dot" ∈ arguments) : run p arguments input = { exit := 0, stdout := r.dot ++ "\n" } := by
  rw [run, plan, h.request]
  simp only [k, dot, decide_true, if_true]
  rfl

theorem Asks.plan_search (h : Asks arguments pattern texts) (k : Regex.compile pattern = .ok r)
    (dot : "--dot" ∉ arguments) : plan p arguments =
      if texts = [] then .searchInput r (decide ("--all" ∈ arguments))
      else .search r (decide ("--all" ∈ arguments)) (texts.map String.toList) := by
  rw [plan, h.request]
  simp only [k, dot, decide_false, Bool.false_eq_true, if_false]
  cases texts <;> rfl

theorem Asks.run_searches {searched : List (List Char)} (h : Asks arguments pattern texts)
    (k : Regex.compile pattern = .ok r) (dot : "--dot" ∉ arguments) (hs : Searches input texts searched) :
    run p arguments input = reportAll p r (decide ("--all" ∈ arguments)) searched := by
  rw [run, h.plan_search k dot]
  cases hs with
  | given given => rw [if_neg given, Plan.run]
  | lines decoded => rw [if_pos rfl, Plan.run, decoded, Text.linesOfBytes?_toUTF8]

theorem Lists.reports {overlapping : Bool} {text : List Char} {found : List Match} (h : Lists r overlapping text found) :
    Reports p r overlapping text (verdictLine p text (r.automaton.accepts text) ++ found.flatMap matchLine ++
      if found.isEmpty then [] else highlightLine p text (found.map Match.span)) := by
  cases found with
  | nil =>
    rw [List.flatMap_nil, List.append_nil, List.isEmpty_nil, if_pos rfl, List.append_nil]
    exact .unmatched h
  | cons x more => exact .matched h

end CommandLine
end RegexSearch
