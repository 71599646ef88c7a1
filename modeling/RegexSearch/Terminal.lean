/-! Styled terminal text: the sequences around a styled piece, and when styling is on. -/
namespace RegexSearch

inductive Style where
  | boldRed
  | green
  | red
  /-- Black on yellow. -/
  | marked
deriving DecidableEq, Repr

namespace Style

def codes : Style → List Char
  | boldRed => ['1', ';', '3', '1']
  | green => ['3', '2']
  | red => ['3', '1']
  | marked => ['4', '3', ';', '3', '0']

def reset : List Char := ['\x1b', '[', '0', 'm']

def start (s : Style) : List Char := '\x1b' :: '[' :: s.codes ++ ['m']

end Style

/-- How styled pieces of text are written. -/
structure Palette where
  paint : Style → List Char → List Char

namespace Palette

def plain : Palette where
  paint _ text := text

/-- Puts `start` after each reset sequence of a text, so that a reset inside a styled piece does not end its style. -/
def reopen (start : List Char) : List Char → List Char
  | [] => []
  | '\x1b' :: '[' :: '0' :: 'm' :: rest => Style.reset ++ start ++ reopen start rest
  | c :: rest => c :: reopen start rest

def ansi : Palette where
  paint s text := s.start ++ reopen s.start text ++ Style.reset

theorem reopen_eq_self {start text : List Char} (h : ¬ ['\x1b', '['] <:+: text) : reopen start text = text := by
  induction text with
  | nil => rfl
  | cons c rest ih =>
    rw [reopen, ih fun hrest => h (List.infix_cons hrest)]
    rintro more rfl rfl
    exact h ⟨[], '0' :: 'm' :: more, rfl⟩

def requested : Option String → Bool
  | some value => value != "0"
  | none => false

/-- Whether colours are on: `CLICOLOR_FORCE` turns them on, else `NO_COLOR` off; else a terminal decides, unless `CLICOLOR`
is `0`. -/
def ofEnvironment (force off wish : Option String) (terminal : Bool) : Palette :=
  if requested force then ansi
  else if off.isSome then plain
  else if wish ≠ some "0" ∧ terminal then ansi
  else plain

end Palette
end RegexSearch
