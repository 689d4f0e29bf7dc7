import Highlighter.Regex.Matching

/-!
Searching for a pattern: the first place from which it matches, and the preferred match there.  What
stands before the place where the search begins is seen but never part of a match.
-/
namespace Highlighter

/-- What was searched through, split at the match. -/
structure Match where
  skipped : Text
  matched : Text
  rest : Text
  deriving DecidableEq, Repr

inductive Search where
  | found (m : Match)
  | nowhere
  /-- The search met more dead ends than it was allowed. -/
  | gaveUp
  deriving DecidableEq, Repr

namespace Search

/-- The answer of a search that began one character earlier. -/
def skipping (c : Char) : Search → Search
  | found m => found { m with skipped := c :: m.skipped }
  | s => s

end Search

namespace Regex

variable {origin : Place}

/-- What comes of trying the pattern at `p`.  Dead ends count only for a pattern that is not
regular. -/
def attempt (r : Regex) (p : Point origin) : Counted (Point origin) :=
  if r.isRegular then ⟨0, r.run .regular p some⟩ else r.run .last p Answer.found

/-- The search from a point on, with the number of dead ends it may still meet. -/
def searchFrom (r : Regex) : (before after : Text) → (index : Int) →
    before.reverseAux after = origin.text → before.length = index + origin.before.length →
    (allowed : Nat) → Search
  | b, a, i, ht, hi, allowed =>
    let p : Point origin := ⟨b, a, i, [], ht, hi⟩
    let tried := r.attempt p
    if allowed < tried.deadEnds then .gaveUp
    else match tried.answer, a with
      | some q, a => .found ⟨[], a.take (p.distance q), a.drop (p.distance q)⟩
      | none, [] => .nowhere
      | none, c :: a =>
        (searchFrom r (c :: b) a (i + 1) ht (Point.length_next c hi)
          (allowed - tried.deadEnds)).skipping c
  termination_by structural _ a => a

/-- The first match of the pattern at a place or after it, with at most so many dead ends. -/
def search (r : Regex) (origin : Place) (allowed : Nat) : Search :=
  r.searchFrom origin.before origin.after 0 (rfl : _ = origin.text) (Point.length_origin origin)
    allowed

end Regex

end Highlighter
