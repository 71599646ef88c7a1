import RegexSearch.Proofs.Outcomes

/-! Texts given as arguments are searched like the lines of standard input, and flags may stand anywhere among them. -/
namespace RegexSearch

namespace Text

variable {c : Char} {text rest : List Char}

/-- A character that neither ends a line nor belongs to its end goes in front of the first line. -/
theorem lines_cons_of_lines {line : List Char} {more : List (List Char)} (hc : c ≠ '\n')
    (inner : c = '\r' → rest.head? ≠ some '\n') (h : lines rest = line :: more) : lines (c :: rest) = (c :: line) :: more := by
  rw [lines, h]
  · exact hc
  · rintro tail rfl rfl
    exact inner rfl rfl

-- The induction is on the line. A carriage return in it stays, since what stands behind it is another character of the line.
theorem lines_append_newline (h : '\n' ∉ text) (stays : text.getLast? ≠ some '\r') :
    lines (text ++ '\n' :: rest) = text :: lines rest := by
  induction text with
  | nil => rfl
  | cons c text ih =>
    have hc : c ≠ '\n' := fun heq => h (heq ▸ List.mem_cons_self)
    have others : '\n' ∉ text := fun hmem => h (List.mem_cons_of_mem c hmem)
    cases text with
    | nil =>
      have noReturn : c ≠ '\r' := fun heq => stays (congrArg some heq)
      exact lines_cons_of_lines hc (fun heq => absurd heq noReturn) rfl
    | cons d text =>
      have next : d ≠ '\n' := fun heq => others (heq ▸ List.mem_cons_self)
      refine lines_cons_of_lines hc (fun _ heq => next (Option.some.inj heq)) (ih others ?_)
      rwa [List.getLast?_cons_cons] at stays

theorem lines_join {texts : List String}
    (h : ∀ text ∈ texts, '\n' ∉ text.toList ∧ text.toList.getLast? ≠ some '\r') :
    lines (String.join (texts.map (· ++ "\n"))).toList = texts.map String.toList := by
  induction texts with
  | nil => rfl
  | cons text texts ih =>
    obtain ⟨inside, stays⟩ := h text List.mem_cons_self
    have split : (String.join ((text :: texts).map (· ++ "\n"))).toList =
        text.toList ++ '\n' :: (String.join (texts.map (· ++ "\n"))).toList := by
      simp [String.toList_join]
    rw [split, lines_append_newline inside stays, ih fun other hmem => h other (List.mem_cons_of_mem text hmem)]
    rfl

end Text

namespace CommandLine

variable {a : String} {arguments other : List String}

theorem not_isFlag_of_stops (h : (isHelp a || isUnknown a) = true) : isFlag a = false :=
  Bool.eq_false_iff.2 fun flag => (stops_iff.2 h).2 (isFlag_iff.1 flag)

theorem not_isFlag_of_isPositional (h : isPositional a = true) : isFlag a = false :=
  Bool.eq_false_iff.2 fun flag => not_plain_of_isFlag flag (isPositional_iff.1 h)

theorem not_isFlag_and {q : String → Bool} (hq : ∀ {a}, q a = true → isFlag a = false) (a : String) :
    (!isFlag a && q a) = q a := by
  cases h : q a with
  | true =>
    rw [hq h]
    rfl
  | false => exact Bool.and_false _

/-- What does not hold of flags is searched for among the other arguments. -/
theorem find?_filter_not_isFlag {q : String → Bool} (hq : ∀ {a}, q a = true → isFlag a = false) (arguments : List String) :
    (arguments.filter (!isFlag ·)).find? q = arguments.find? q := by
  rw [List.find?_filter]
  simp only [Bool.decide_and, Bool.decide_eq_true, not_isFlag_and hq]

theorem filter_filter_not_isFlag {q : String → Bool} (hq : ∀ {a}, q a = true → isFlag a = false) (arguments : List String) :
    (arguments.filter (!isFlag ·)).filter q = arguments.filter q := by
  rw [List.filter_filter]
  exact congrArg (arguments.filter ·) (funext fun a => (Bool.and_comm _ _).trans (not_isFlag_and hq a))

theorem request_eq_of_sameFlags (same : arguments.filter (!isFlag ·) = other.filter (!isFlag ·))
    (flags : SameFlags arguments other) : request arguments = request other := by
  have all : arguments.contains "--all" = other.contains "--all" := by
    simpa using flags "--all" (by decide)
  have dot : arguments.contains "--dot" = other.contains "--dot" := by
    simpa using flags "--dot" (by decide)
  have stop := find?_filter_not_isFlag not_isFlag_of_stops
  have positional := filter_filter_not_isFlag not_isFlag_of_isPositional
  rw [request, request, ← stop arguments, ← positional arguments, same, stop, positional, all, dot]

variable {piped texts : List String} {pattern : String} {p : Palette} {input : ByteArray}

theorem Asks.run_eq_piped (h : Asks arguments pattern texts) (k : Asks piped pattern []) (flags : SameFlags arguments piped)
    (given : texts ≠ []) (lined : ∀ text ∈ texts, '\n' ∉ text.toList ∧ text.toList.getLast? ≠ some '\r') :
    run p arguments input = run p piped (String.join (texts.map (· ++ "\n"))).toUTF8 := by
  cases compiled : Regex.compile pattern with
  | error e =>
    obtain ⟨e, rfl⟩ := Regex.exists_syntaxError compiled
    rw [h.run_error compiled, k.run_error compiled]
  | ok r =>
    by_cases dot : "--dot" ∈ arguments
    · rw [h.run_dot compiled dot, k.run_dot compiled ((flags "--dot" (by decide)).1 dot)]
    · have noDot : "--dot" ∉ piped := fun hmem => dot ((flags "--dot" (by decide)).2 hmem)
      have all : decide ("--all" ∈ arguments) = decide ("--all" ∈ piped) := decide_eq_decide.2 (flags "--all" (by decide))
      rw [h.run_searches compiled dot (.given given), k.run_searches compiled noDot (.lines rfl), Text.lines_join lined, all]

/-- Texts given as arguments come to the same as the lines of a standard input that is made of them, and a call comes to the same
wherever its flags stand. -/
theorem run_eq_run_lines (p : Palette) :
    (∀ {arguments piped pattern texts} input, Asks arguments pattern texts → texts ≠ [] →
      (∀ text ∈ texts, '\n' ∉ text.toList ∧ text.toList.getLast? ≠ some '\r') →
      Asks piped pattern [] → SameFlags arguments piped →
      run p arguments input = run p piped (String.join (texts.map (· ++ "\n"))).toUTF8) ∧
    ∀ {arguments other} input, arguments.filter (!isFlag ·) = other.filter (!isFlag ·) → SameFlags arguments other →
      run p arguments input = run p other input := by
  refine ⟨fun input asks given lined piped flags => asks.run_eq_piped piped flags given lined,
    fun input same flags => ?_⟩
  rw [run, run, plan, plan, request_eq_of_sameFlags same flags]

/-- An empty text, and one with a carriage return and a character of two bytes, with flags around them. -/
theorem run_eq_run_lines_empty_text : run .plain ["--all", "é*", "", "--all", "a\ré"] .empty =
    run .plain ["é*", "--all"] "\na\ré\n".toUTF8 := by
  have asks : Asks ["--all", "é*", "", "--all", "a\ré"] "é*" ["", "a\ré"] := ⟨by decide, by decide⟩
  have piped : Asks ["é*", "--all"] "é*" [] := ⟨by decide, by decide⟩
  exact (run_eq_run_lines .plain).1 .empty asks (by decide) (by decide) piped (by decide)

end CommandLine
end RegexSearch
