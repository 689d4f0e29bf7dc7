import Highlighter.Regex.Reading
import Highlighter.Regex.Search

/-!
A pattern together with the text that wrote it.
-/
namespace Highlighter

structure Pattern where
  source : Text
  regex : Regex
  deriving DecidableEq, Repr

namespace Pattern

/-- The pattern that `source` writes, if it writes one. -/
def ofText? (source : Text) : Option Pattern := (Regex.ofText? source).map (⟨source, ·⟩)

/-- The dead ends that one search may meet. -/
def searchLimit : Nat := 1000000

/-- The first match in `right`, where `left` (nearest character first) stands before it. -/
def search (p : Pattern) (left right : Text) : Search :=
  p.regex.search ⟨left, right⟩ searchLimit

end Pattern

end Highlighter
