import RegexSearch.CommandLine

/-! What can be told from a highlighted text: which pieces it has and where the marked ones stand, whether each of them was cut
out of the text, and what is left when the style sequences are taken out of it. -/
namespace RegexSearch

namespace Style

mutual

/-- Text without its style sequences. They begin with an escape character and a bracket and end at the next `m`. -/
def strip : List Char → List Char
  | [] => []
  | '\x1b' :: '[' :: rest => skip rest
  | c :: rest => c :: strip rest

/-- What is left behind the end of a style sequence. -/
def skip : List Char → List Char
  | [] => []
  | 'm' :: rest => strip rest
  | _ :: rest => skip rest

end

/-- One style sequence. -/
def Sequence (x : List Char) : Prop := ∃ codes, 'm' ∉ codes ∧ x = '\x1b' :: '[' :: (codes ++ ['m'])

/-- Text in which no style sequence begins. -/
def Unstyled (text : List Char) : Prop := ¬ ['\x1b', '['] <:+: text

/-- What stands around a styled piece: nothing where styles are off, and else one sequence on each side. -/
inductive Brackets : List Char → List Char → Prop
  | off : Brackets [] []
  | on {start stop : List Char} (h : Sequence start) (k : Sequence stop) : Brackets start stop

end Style

/-- What is relied on of a palette in one style: what it puts around a text is always the same, unless the text has style
sequences of its own. -/
structure Palette.Encloses (p : Palette) (s : Style) (start stop : List Char) : Prop where
  brackets : Style.Brackets start stop
  paint : ∀ text, Style.Unstyled text → p.paint s text = start ++ text ++ stop

/-- The slice of a text that a span takes, where the span lies in the text. -/
def Span.slice? (s : Span) (text : List Char) : Option (List Char) :=
  if s.start ≤ s.stop ∧ s.stop ≤ text.length then some (s.slice text) else none

namespace Piece

def marked? : Piece → Option (List Char)
  | plain _ => none
  | marked text => some text

/-- A piece as it is printed if `start` and `stop` stand around the marked ones. -/
def enclosed (start stop : List Char) : Piece → List Char
  | plain text => text
  | marked text => start ++ text ++ stop

/-- Where the marked pieces stand, if the first piece begins at `position`. -/
def markedSpans (position : Nat) : List Piece → List Span
  | [] => []
  | plain text :: rest => markedSpans (position + text.length) rest
  | marked text :: rest => ⟨position, position + text.length⟩ :: markedSpans (position + text.length) rest

/-- Marks spans like `highlight`, if all slices that it takes lie in the text. -/
def highlight? (text : List Char) (position : Nat) : List Span → Option (List Piece)
  | [] => do
    let rest ← Span.slice? ⟨position, text.length⟩ text
    some [plain rest]
  | s :: rest =>
    if s.start < position then highlight? text position rest
    else do
      let before ← Span.slice? ⟨position, s.start⟩ text
      let inside ← s.slice? text
      let more ← highlight? text s.stop rest
      some (plain before :: marked inside :: more)

end Piece

end RegexSearch
