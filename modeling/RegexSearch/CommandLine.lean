import RegexSearch.Regex
import RegexSearch.Text.Lines
import RegexSearch.Text.Quoted

/-! The command line: arguments and standard input to output and exit code. -/
namespace RegexSearch

inductive Piece where
  | plain (text : List Char)
  | marked (text : List Char)
deriving DecidableEq, Repr

namespace Piece

def text : Piece → List Char
  | plain text => text
  | marked text => text

def render (p : Palette) : Piece → List Char
  | plain text => text
  | marked text => p.paint .marked text

/-- Marks spans in the part of a text from `position` on, leaving out those that start before the piece they would follow
has ended. -/
def highlight (text : List Char) (position : Nat) : List Span → List Piece
  | [] => [plain (text.drop position)]
  | s :: rest =>
    if s.start < position then highlight text position rest
    else plain (Span.slice ⟨position, s.start⟩ text) :: marked (s.slice text) :: highlight text s.stop rest

end Piece

namespace CommandLine

def usage : String :=
  "Usage: epsilon_regex [OPTIONS] <pattern> [text]...\n\n" ++
  "Prints whether each text matches the pattern as a whole and every match\n" ++
  "found in it. Texts are read from stdin, one per line, when none are given.\n\n" ++
  "Options:\n" ++
  "  --all        Report overlapping matches too\n" ++
  "  --dot        Print the automaton as Graphviz DOT and exit\n" ++
  "  -h, --help   Print this help message\n"

structure Options where
  pattern : String
  texts : List String
  overlapping : Bool
  dot : Bool
deriving DecidableEq, Repr

inductive Request where
  | help
  | unknownOption (argument : String)
  | noPattern
  | search (options : Options)
deriving DecidableEq, Repr

def isHelp (argument : String) : Bool := argument == "-h" || argument == "--help"

def isFlag (argument : String) : Bool := argument == "--all" || argument == "--dot"

/-- Any argument that starts with two dashes is an option. -/
def isUnknown (argument : String) : Bool :=
  ['-', '-'].isPrefixOf argument.toList && !isHelp argument && !isFlag argument

def isPositional (argument : String) : Bool := !isHelp argument && !isFlag argument && !isUnknown argument

/-- The first call for help or unknown option decides; without one, the first positional argument is the pattern and the others
are texts, wherever the flags stand. -/
def request (arguments : List String) : Request :=
  match arguments.find? fun a => isHelp a || isUnknown a with
  | some a => if isHelp a then .help else .unknownOption a
  | none =>
    match arguments.filter isPositional with
    | [] => .noPattern
    | pattern :: texts =>
      .search { pattern, texts, overlapping := arguments.contains "--all", dot := arguments.contains "--dot" }

structure Outcome where
  exit : Nat
  stdout : String := ""
  stderr : String := ""
deriving DecidableEq, Repr

inductive Plan where
  | finished (outcome : Outcome)
  | search (regex : Regex) (overlapping : Bool) (texts : List (List Char))
  /-- The texts are the lines of standard input. -/
  | searchInput (regex : Regex) (overlapping : Bool)

def plan (p : Palette) (arguments : List String) : Plan :=
  match request arguments with
  | .help => .finished { exit := 0, stderr := usage }
  | .unknownOption a => .finished { exit := 2, stderr := "error: unknown option: " ++ a ++ "\n" ++ usage }
  | .noPattern => .finished { exit := 2, stderr := usage }
  | .search o =>
    match Regex.compile o.pattern with
    | .error (.pattern e) => .finished { exit := 1, stderr := e.render p o.pattern.toList ++ "\n" }
    | .error e => .finished { exit := 1, stderr := "error: " ++ e.message p ++ "\n" }
    | .ok r =>
      if o.dot then .finished { exit := 0, stdout := r.dot ++ "\n" }
      else match o.texts with
        | [] => .searchInput r o.overlapping
        | texts => .search r o.overlapping (texts.map String.toList)

def verdictLine (p : Palette) (text : List Char) (accepted : Bool) : List Char :=
  Text.quoted text ++ [':', ' '] ++
    (if accepted then p.paint .green "matches".toList else p.paint .red "no match".toList) ++ ['\n']

def matchLine (x : Match) : List Char :=
  "  [".toList ++ Nat.toDigits 10 x.span.start ++ [',', ' '] ++ Nat.toDigits 10 x.span.stop ++ [')', ' '] ++
    Text.quoted x.text ++ ['\n']

def highlightLine (p : Palette) (text : List Char) (spans : List Span) : List Char :=
  [' ', ' '] ++ (Piece.highlight text 0 spans).flatMap (Piece.render p) ++ ['\n']

def report (p : Palette) (r : Regex) (overlapping : Bool) (text : List Char) : Except SearchError (List Char) := do
  let (accepted, m) := Matcher.matchWhole ⟨r.automaton, text, none⟩
  let found ← (m.search overlapping).2.collect
  .ok (verdictLine p text accepted ++ found.flatMap matchLine ++
    (if found.isEmpty then [] else highlightLine p text (found.map Match.span)))

def reportAll (p : Palette) (r : Regex) (overlapping : Bool) (texts : List (List Char)) : Outcome :=
  match texts.mapM (report p r overlapping) with
  | .ok reports => { exit := 0, stdout := String.ofList reports.flatten }
  | .error e => { exit := 1, stderr := "error: " ++ e.message p ++ "\n" }

def Plan.run (p : Palette) (input : ByteArray) : Plan → Outcome
  | finished outcome => outcome
  | search r overlapping texts => reportAll p r overlapping texts
  | searchInput r overlapping =>
    match Text.linesOfBytes? input with
    | some texts => reportAll p r overlapping texts
    | none => { exit := 2, stderr := "error: failed to read stdin: stream did not contain valid UTF-8\n" }

def run (p : Palette) (arguments : List String) (input : ByteArray) : Outcome := (plan p arguments).run p input

end CommandLine
end RegexSearch
