import Highlighter.Unicode.CaseFolding
import Highlighter.Unicode.DecimalDigit
import Highlighter.Unicode.WhiteSpace
import Highlighter.Unicode.Word

/-!
Sets of characters, as a pattern writes them.
-/
namespace Highlighter

inductive CharSet where
  | none
  | range (first last : Char)
  | digit
  | word
  | blank
  | union (a b : CharSet)
  | inverse (a : CharSet)
  /-- The characters that differ from a member of `a` at most in case. -/
  | anyCase (a : CharSet)
  deriving DecidableEq, Repr

namespace CharSet

/-- Is `c` in the set? -/
def has : CharSet → Char → Bool
  | none, _ => false
  | range first last, c => first ≤ c && c ≤ last
  | digit, c => Unicode.isDecimalDigit c
  | word, c => Unicode.isWord c
  | blank, c => Unicode.isWhiteSpace c
  | union a b, c => a.has c || b.has c
  | inverse a, c => !a.has c
  | anyCase a, c => a.has c || (Unicode.caseVariants c).any a.has

/-- The set of one character. -/
def single (c : Char) : CharSet := range c c

/-- All characters. -/
def any : CharSet := inverse none

/-- All characters but the newline. -/
def notNewline : CharSet := inverse (single '\n')

/-- The members of any of the sets. -/
def anyOf : List CharSet → CharSet
  | [] => none
  | [a] => a
  | a :: as => union a (anyOf as)

@[simp] theorem has_single (a c : Char) : (single a).has c = decide (c = a) := by
  have h : (a ≤ c ∧ c ≤ a) ↔ c = a :=
    ⟨fun h => Char.le_antisymm h.2 h.1, fun h => h ▸ ⟨Char.le_refl _, Char.le_refl _⟩⟩
  simp only [single, has, ← Bool.decide_and, h]

@[simp] theorem has_any (c : Char) : any.has c = true := rfl

@[simp] theorem has_notNewline (c : Char) : notNewline.has c = !decide (c = '\n') := by
  simp [notNewline, has]

@[simp] theorem has_anyOf (as : List CharSet) (c : Char) :
    (anyOf as).has c = as.any (·.has c) := by
  induction as with
  | nil => rfl
  | cons a as ih =>
    cases as with
    | nil => simp [anyOf]
    | cons b bs => simp_all [anyOf, has]

end CharSet

end Highlighter
