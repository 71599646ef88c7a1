/-! Spans of a text, their order, and the choice of matches that do not overlap. -/
namespace RegexSearch

/-- A stretch of a text from `start` up to but not including `stop`. -/
structure Span where
  start : Nat
  stop : Nat
deriving DecidableEq, Repr

namespace Span

def slice (s : Span) (text : List Char) : List Char := (text.drop s.start).take (s.stop - s.start)

/-- The order of matches: leftmost first, and of those with one start the longest first. -/
def before (x y : Span) : Bool := x.start < y.start || (x.start == y.start && y.stop ≤ x.stop)

theorem before_iff {x y : Span} : x.before y = true ↔ x.start < y.start ∨ x.start = y.start ∧ y.stop ≤ x.stop := by
  simp [before]

theorem before_trans {x y z : Span} (h : x.before y = true) (k : y.before z = true) : x.before z = true := by
  rw [before_iff] at *
  omega

theorem before_total (x y : Span) : (x.before y || y.before x) = true := by
  rw [Bool.or_eq_true, before_iff, before_iff]
  omega

theorem before_antisymm {x y : Span} (h : x.before y = true) (k : y.before x = true) : x = y := by
  rw [before_iff] at *
  cases x
  cases y
  simp only [mk.injEq]
  simp only at h k
  omega

/-- Whether a span may come after a match: it starts later, and not before the match has ended. -/
def follows (x : Span) (last : Option Span) : Bool := last.all fun l => l.stop ≤ x.start && l.start != x.start

def greedy : Option Span → List Span → List Span
  | _, [] => []
  | last, x :: rest => if x.follows last then x :: greedy (some x) rest else greedy last rest

def select (overlapping : Bool) (spans : List Span) : List Span :=
  let sorted := spans.mergeSort before
  if overlapping then sorted else greedy none sorted

theorem greedy_sublist (last : Option Span) (spans : List Span) : (greedy last spans).Sublist spans := by
  induction spans generalizing last with
  | nil => exact .slnil
  | cons x rest ih =>
    rw [greedy]
    split
    · exact (ih _).cons_cons x
    · exact (ih _).cons x

end Span
end RegexSearch
