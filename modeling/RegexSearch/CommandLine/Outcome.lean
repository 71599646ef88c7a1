import Mathlib.Data.List.Forall2
import RegexSearch.CommandLine
import RegexSearch.Search.Leftmost

/-! What a call of the program comes to, said by its arguments and its standard input. -/
namespace RegexSearch.CommandLine

/-- An argument that is no option. -/
def Plain (argument : String) : Prop := argument ≠ "-h" ∧ ¬ ['-', '-'] <+: argument.toList

instance (argument : String) : Decidable (Plain argument) := inferInstanceAs (Decidable (_ ∧ _))

/-- An option that ends the program where it stands: a call for help, or an unknown option. -/
def Stops (argument : String) : Prop := ¬ Plain argument ∧ argument ∉ ["--all", "--dot"]

instance (argument : String) : Decidable (Stops argument) := inferInstanceAs (Decidable (_ ∧ _))

/-- The first of the arguments that end the program. -/
structure FirstStop (arguments : List String) (a : String) : Prop where
  stops : Stops a
  exists_eq : ∃ before after, arguments = before ++ a :: after ∧ ∀ b ∈ before, ¬ Stops b

/-- Arguments that make up a search: a pattern, maybe some texts, and flags anywhere among them. -/
structure Asks (arguments : List String) (pattern : String) (texts : List String) : Prop where
  not_stops : ∀ a ∈ arguments, ¬ Stops a
  plain : arguments.filter (fun a => Plain a) = pattern :: texts

/-- The same flags, wherever they stand and however often. -/
def SameFlags (arguments other : List String) : Prop := ∀ flag ∈ ["--all", "--dot"], flag ∈ arguments ↔ flag ∈ other

instance (arguments other : List String) : Decidable (SameFlags arguments other) := List.decidableBAll _ _

/-- The texts that are searched: those given as arguments, or the lines of standard input if there are none. -/
inductive Searches (input : ByteArray) : List String → List (List Char) → Prop
  | given {texts : List String} (h : texts ≠ []) : Searches input texts (texts.map String.toList)
  | lines {text : String} (h : input = text.toUTF8) : Searches input [] (Text.lines text.toList)

/-- The matches that a report lists: all of them, leftmost and then longest first, or those that do not overlap. -/
structure Lists (r : Regex) (overlapping : Bool) (text : List Char) (found : List Match) : Prop where
  text_eq : ∀ x ∈ found, x.text = x.span.slice text
  all : overlapping = true → (∀ s, s ∈ found.map Match.span ↔ r.automaton.MatchesAt text s) ∧
    (found.map Match.span).Pairwise fun x y => x.start < y.start ∨ x.start = y.start ∧ y.stop < x.stop
  apart : overlapping = false → Span.Leftmost (r.automaton.MatchesAt text) none (found.map Match.span)

/-- The report of a text: whether it matches as a whole, and if there are matches in it, a line for each of them and the text with
the matches marked. -/
inductive Reports (p : Palette) (r : Regex) (overlapping : Bool) (text : List Char) : List Char → Prop
  | unmatched (h : Lists r overlapping text []) :
    Reports p r overlapping text (verdictLine p text (r.automaton.accepts text))
  | matched {x : Match} {more : List Match} (h : Lists r overlapping text (x :: more)) :
    Reports p r overlapping text (verdictLine p text (r.automaton.accepts text) ++
      (x :: more).flatMap matchLine ++ highlightLine p text ((x :: more).map Match.span))

/-- What a call comes to. The first option that ends the program decides; without one the pattern does, and then the texts. -/
structure Settled (p : Palette) (arguments : List String) (input : ByteArray) (o : Outcome) : Prop where
  help : ∀ {a}, FirstStop arguments a → a ∈ ["-h", "--help"] → o.exit = 0 ∧ o.stdout = ""
  unknownOption : ∀ {a}, FirstStop arguments a → a ∉ ["-h", "--help"] → o.exit = 2
  noPattern : (∀ a ∈ arguments, ¬ Stops a) → (∀ a ∈ arguments, ¬ Plain a) → o.exit = 2
  rejected : ∀ {pattern texts}, Asks arguments pattern texts → (o.exit = 1 ↔ ∀ r, Regex.compile pattern ≠ .ok r)
  drawn : ∀ {pattern texts r}, Asks arguments pattern texts → Regex.compile pattern = .ok r → "--dot" ∈ arguments →
    o = { exit := 0, stdout := r.dot ++ "\n" }
  unreadable : ∀ {pattern texts r}, Asks arguments pattern texts → Regex.compile pattern = .ok r → "--dot" ∉ arguments →
    (o.exit = 2 ∧ o.stdout = "" ↔ texts = [] ∧ ¬ input.IsValidUTF8)
  reported : ∀ {pattern texts r searched}, Asks arguments pattern texts → Regex.compile pattern = .ok r →
    "--dot" ∉ arguments → Searches input texts searched → ∃ reports : List (List Char),
      List.Forall₂ (Reports p r (decide ("--all" ∈ arguments))) searched reports ∧
      o = { exit := 0, stdout := String.ofList reports.flatten }

end RegexSearch.CommandLine
