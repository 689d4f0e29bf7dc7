import Highlighter.Regex.Basic
import Highlighter.Text

/-!
Points of a text.  A point knows what stands before it (nearest character first) and after it, how
many characters it lies beyond the place where the search began, and which texts are remembered
there.
-/
namespace Highlighter

/-- Remembered texts by number, the latest first. -/
abbrev Groups := List (Nat × Text)

/-- A place in a text: what stands before it, nearest character first, and what stands after it. -/
structure Place where
  before : Text
  after : Text
  deriving DecidableEq, Repr

/-- The whole text around a place. -/
def Place.text (o : Place) : Text := o.before.reverseAux o.after

/-- A point of the text in which the search began at `origin`. -/
structure Point (origin : Place) where
  before : Text
  after : Text
  index : Int
  groups : Groups
  reverseAux_before : before.reverseAux after = origin.text
  length_before : before.length = index + origin.before.length

namespace Point

variable {origin : Place}

/-- One more character before a place is one more character beyond the origin. -/
theorem length_next {b : Text} {i : Int} (c : Char) (h : b.length = i + origin.before.length) :
    (c :: b).length = i + 1 + origin.before.length := by
  rw [List.length_cons]
  omega

/-- One character less before a place is one character less beyond the origin. -/
theorem length_previous {c : Char} {b : Text} {i : Int}
    (h : (c :: b).length = i + origin.before.length) : b.length = i - 1 + origin.before.length := by
  rw [List.length_cons] at h
  omega

/-- The origin lies no characters beyond itself. -/
theorem length_origin (origin : Place) : origin.before.length = (0 : Int) + origin.before.length :=
  (Int.zero_add _).symm

/-- The next character and the point after it. -/
def next? : Point origin → Option (Char × Point origin)
  | ⟨_, [], _, _, _, _⟩ => none
  | ⟨b, c :: a, i, g, ht, hi⟩ => some (c, ⟨c :: b, a, i + 1, g, ht, length_next c hi⟩)

/-- The point `n` characters back. -/
def back? : Nat → Point origin → Option (Point origin)
  | 0, p => some p
  | _ + 1, ⟨[], _, _, _, _, _⟩ => none
  | n + 1, ⟨c :: b, a, i, g, ht, hi⟩ => back? n ⟨b, c :: a, i - 1, g, ht, length_previous hi⟩

/-- The points that are reached from a place over members of `set` alone, from near to far. -/
def stopsFrom (set : CharSet) (groups : Groups) : (before after : Text) → (index : Int) →
    before.reverseAux after = origin.text → before.length = index + origin.before.length →
    List (Point origin)
  | b, [], i, ht, hi => [⟨b, [], i, groups, ht, hi⟩]
  | b, c :: a, i, ht, hi =>
    ⟨b, c :: a, i, groups, ht, hi⟩ ::
      if set.has c then stopsFrom set groups (c :: b) a (i + 1) ht (length_next c hi) else []

/-- The points that are reached from `p` over members of `set` alone, from near to far. -/
def stops (set : CharSet) (p : Point origin) : List (Point origin) :=
  stopsFrom set p.groups p.before p.after p.index p.reverseAux_before p.length_before

/-- How many characters a later point `q` lies beyond `p`. -/
def distance (p q : Point origin) : Nat := (q.index - p.index).toNat

/-- The text between `p` and a later point `q`. -/
def textUpTo (p q : Point origin) : Text := p.after.take (p.distance q)

/-- The point `q`, where the text since `p` is remembered under the number `n`. -/
def remember (p : Point origin) (n : Nat) (q : Point origin) : Point origin :=
  { q with groups := (n, p.textUpTo q) :: q.groups }

/-- The point `p` with what is remembered at `q`. -/
def withGroupsOf (p q : Point origin) : Point origin := { p with groups := q.groups }

/-- The point after `word`, if `word` comes next. -/
def over? (anyCase : Bool) : Text → Point origin → Option (Point origin)
  | [], p => some p
  | w :: word, p =>
    match p.next? with
    | some (c, q) =>
      if c = w || anyCase && Unicode.foldCase c == Unicode.foldCase w then over? anyCase word q
      else none
    | none => none

end Point

namespace Edge

/-- Is the character a word character?  There is none beyond the ends of the text. -/
def isWordSide (c : Option Char) : Bool := c.any Unicode.isWord

/-- Does the condition hold between what stands before and what stands after? -/
def holds (e : Edge) (before after : Text) : Bool :=
  match e with
  | textStart => before.isEmpty
  | textEnd => after.isEmpty
  | lineStart => before.head?.all (· = '\n')
  | lineEnd => after.head?.all (· = '\n')
  | wordEdge => isWordSide before.head? != isWordSide after.head?
  | noWordEdge => isWordSide before.head? == isWordSide after.head?

end Edge

end Highlighter
