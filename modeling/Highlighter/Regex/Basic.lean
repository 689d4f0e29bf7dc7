import Highlighter.Regex.CharSet

/-!
Patterns as trees.  A pattern is tried at one place of a text, from left to right; where it offers
a choice, the first alternative that leads to a match wins.
-/
namespace Highlighter

/-- A condition on a place between two characters. -/
inductive Edge where
  | textStart
  | textEnd
  | lineStart
  | lineEnd
  /-- A word character on exactly one side. -/
  | wordEdge
  /-- A word character on both sides or on none. -/
  | noWordEdge
  deriving DecidableEq, Repr

inductive Regex where
  | empty
  /-- One character of the set. -/
  | one (set : CharSet)
  /-- Any number of characters of the set, as many as possible or as few. -/
  | many (set : CharSet) (greedy : Bool)
  | edge (e : Edge)
  /-- Steps back over `n` characters. -/
  | back (n : Nat)
  | seq (a b : Regex)
  /-- The first alternative goes before the second. -/
  | alt (a b : Regex)
  /-- Any number of rounds of `a`, each but over the empty text. -/
  | loop (a : Regex) (greedy : Bool)
  /-- Remembers the text that `a` matched under the number `n`. -/
  | group (n : Nat) (a : Regex)
  /-- The text remembered under the number `n` once more. -/
  | same (n : Nat) (anyCase : Bool)
  /-- Only the first way in which `a` matches. -/
  | atomic (a : Regex)
  /-- A match of `a` begins here; none of it is consumed. -/
  | ahead (a : Regex)
  /-- No match of `a` begins here. -/
  | notAhead (a : Regex)
  deriving DecidableEq, Repr

namespace Regex

/-- The pattern of one given character. -/
def char (c : Char) : Regex := one (.single c)

/-- The parts one after another. -/
def concat : List Regex → Regex
  | [] => empty
  | [a] => a
  | a :: as => seq a (concat as)

/-- The alternatives, the first one first. -/
def choice : List Regex → Regex
  | [] => empty
  | [a] => a
  | a :: as => alt a (choice as)

/-- Once or not at all; greedily, once is tried first. -/
def optional (a : Regex) (greedy : Bool) : Regex := if greedy then alt a empty else alt empty a

/-- Any number of times. -/
def star : Regex → Bool → Regex
  | one set, greedy => many set greedy
  | a, greedy => loop a greedy

/-- At most `n` times. -/
def upTo (a : Regex) (greedy : Bool) : Nat → Regex
  | 0 => empty
  | 1 => optional a greedy
  | n + 1 => optional (seq a (upTo a greedy n)) greedy

/-- `n` times. -/
def times (a : Regex) : Nat → Regex
  | 0 => empty
  | 1 => a
  | n + 1 => seq a (times a n)

/-- At least `least` times, and at most `most` times if that is given. -/
def repeated (a : Regex) (least : Nat) (most : Option Nat) (greedy : Bool) : Regex :=
  match least, most with
  | 0, none => star a greedy
  | n, none => seq (times a n) (star a greedy)
  | 0, some m => upTo a greedy m
  | n, some m => if n = m then times a n else seq (times a n) (upTo a greedy (m - n))

/-- Does the pattern do without steps back, word edges, remembered texts, atomic parts and
conditions on what follows?  Such a pattern can be searched for in time linear in the text. -/
def isRegular : Regex → Bool
  | empty | one _ | many _ _ => true
  | edge e => e ≠ .wordEdge && e ≠ .noWordEdge
  | back _ | same _ _ | atomic _ | ahead _ | notAhead _ => false
  | seq a b | alt a b => a.isRegular && b.isRegular
  | loop a _ | group _ a => a.isRegular

/-- The role of a part in its pattern.  It decides what becomes of a round of a loop over the empty
text: in a regular part such a round ends the loop, elsewhere it is a dead end. -/
inductive Role where
  | regular
  /-- Nothing in the pattern follows the part. -/
  | last
  /-- More of the pattern follows the part, or the part once more. -/
  | inner
  deriving DecidableEq, Repr

/-- The role of a part that nothing follows. -/
def lastRole (a : Regex) : Role := if a.isRegular then .regular else .last

namespace Role

/-- The role of a part that something else follows in a part of this role. -/
def followed : Role → Role
  | last => inner
  | role => role

/-- The role of `a` at the end of a part of this role. -/
def ending (a : Regex) : Role → Role
  | last => a.lastRole
  | role => role

end Role

/-- How many characters before the place where it is tried the pattern can depend on. -/
def reach : Regex → Nat
  | empty | one _ | many _ _ | same _ _ => 0
  | edge _ => 1
  | back n => n
  | seq a b => a.reach + b.reach
  | alt a b => max a.reach b.reach
  | loop a _ | group _ a | atomic a | ahead a | notAhead a => a.reach

/-- The number of characters of every match, if all have the same number. -/
def width? : Regex → Option Nat
  | empty | edge _ | ahead _ | notAhead _ => some 0
  | one _ => some 1
  | many _ _ | back _ | loop _ _ | same _ _ => none
  | seq a b => return (← a.width?) + (← b.width?)
  | alt a b =>
    match a.width?, b.width? with
    | some n, some m => if n = m then some n else none
    | _, _ => none
  | group _ a | atomic a => a.width?

/-- `a` matches a text that ends here.  Each alternative of `a` must have matches of one length. -/
def behind? : Regex → Option Regex
  | alt a b =>
    match (alt a b).width? with
    | some n => some (seq (back n) (alt a b))
    | none => return alt (← a.behind?) (← b.behind?)
  | a => a.width?.map fun n => seq (back n) a

/-- Does the pattern ask for a remembered text? -/
def remembers : Regex → Bool
  | same _ _ => true
  | empty | one _ | many _ _ | edge _ | back _ => false
  | seq a b | alt a b => a.remembers || b.remembers
  | loop a _ | group _ a | atomic a | ahead a | notAhead a => a.remembers

/-- The pattern without remembering any text. -/
def forget : Regex → Regex
  | group _ a => a.forget
  | seq a b => seq a.forget b.forget
  | alt a b => alt a.forget b.forget
  | loop a greedy => star a.forget greedy
  | atomic a => atomic a.forget
  | ahead a => ahead a.forget
  | notAhead a => notAhead a.forget
  | a => a

/-- The greatest number under which the pattern asks for a remembered text. -/
def lastAsked : Regex → Nat
  | same n _ => n
  | empty | one _ | many _ _ | edge _ | back _ => 0
  | seq a b | alt a b => max a.lastAsked b.lastAsked
  | loop a _ | group _ a | atomic a | ahead a | notAhead a => a.lastAsked

end Regex

end Highlighter
