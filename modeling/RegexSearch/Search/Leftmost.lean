import RegexSearch.Search.Attempt

/-! What the greedy matches of a text are, said without a search: from one match to the next, the leftmost span that may follow,
and of those with one start the longest. -/
namespace RegexSearch

def Automaton.MatchesAt (a : Automaton) (text : List Char) (s : Span) : Prop :=
  s.start ≤ s.stop ∧ s.stop ≤ text.length ∧ a.accepts (s.slice text) = true

namespace Span

def Follows (x : Span) (last : Option Span) : Prop := ∀ l ∈ last, l.stop ≤ x.start ∧ l.start < x.start

/-- The list of matches after `last`, each the first in order of those that may follow the one before it. -/
inductive Leftmost (M : Span → Prop) : Option Span → List Span → Prop
  | done {last : Option Span} (h : ∀ x, M x → ¬ x.Follows last) : Leftmost M last []
  | next {last : Option Span} {x : Span} {xs : List Span} (hx : M x) (hf : x.Follows last)
    (first : ∀ y, M y → y.Follows last → x.before y = true) (rest : Leftmost M (some x) xs) : Leftmost M last (x :: xs)

theorem Leftmost.unique {M : Span → Prop} {last : Option Span} {xs ys : List Span} (h : Leftmost M last xs)
    (k : Leftmost M last ys) : xs = ys := by
  induction h generalizing ys with
  | done h =>
    cases k with
    | done => rfl
    | next hy hf _ _ => exact absurd hf (h _ hy)
  | next hx hf first _ ih =>
    cases k with
    | done k => exact absurd hf (k _ hx)
    | next hy kf kfirst rest =>
      obtain rfl := before_antisymm (first _ hy kf) (kfirst _ hx hf)
      rw [ih rest]

end Span
end RegexSearch
