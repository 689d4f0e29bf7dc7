/-!
Sets of code points written as ranges in increasing order.
-/
namespace Highlighter.Unicode

/-- Ranges of code points, both ends included, in increasing order. -/
abbrev Ranges := List (Nat × Nat)

/-- Does a range hold the code point `n`?  The search ends at the first range that begins above
it. -/
def Ranges.covers : Ranges → Nat → Bool
  | [], _ => false
  | (first, last) :: rs, n => if n < first then false else n ≤ last || covers rs n

end Highlighter.Unicode
