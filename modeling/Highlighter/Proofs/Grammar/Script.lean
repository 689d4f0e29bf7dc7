import Highlighter.Language

/-! Texts made of numbers, names, strings, operators, calls and comments, and their rendering. Every
part is rendered by itself, whatever stands beside it. -/
namespace Highlighter

namespace Grammar

def isNumeric (c : Char) : Bool := c.isDigit || c ∈ ['.', ',', '$', '¥', '€', '£']

def isLetter (c : Char) : Bool := c.isAlpha || c = '_'

def isNameChar (c : Char) : Bool := c.isAlphanum || c = '_'

def isOperatorChar (c : Char) : Bool := c ∈ "+-*=<>|&^!?:;%~[]\x7b\x7d".toList

/-- A character that can stand in a string. -/
def isContent (c : Char) : Bool := c ∉ ['"', '\'', '\\', '/', '@', '(', ')']

/-- A zero, or a text of digits, points, commas and signs of currencies that begins with no zero. -/
def IsNumber (t : Text) : Prop :=
  t = ['0'] ∨ t ≠ [] ∧ t.head? ≠ some '0' ∧ ∀ c ∈ t, isNumeric c = true

/-- A letter or underscore, and then letters, underscores and digits other than zero. -/
def IsIdentifier (t : Text) : Prop :=
  t.head?.any isLetter = true ∧ ∀ c ∈ t, isNameChar c = true ∧ c ≠ '0'

/-- A zero and then letters and digits. -/
def IsRadix (t : Text) : Prop :=
  t.head? = some '0' ∧ t.tail ≠ [] ∧ ∀ c ∈ t, c.isAlphanum = true

def IsName (t : Text) : Prop := t ≠ [] ∧ ∀ c ∈ t, isNameChar c = true

def IsOperator (t : Text) : Prop := t ≠ [] ∧ ∀ c ∈ t, isOperatorChar c = true

instance (t : Text) : Decidable (IsNumber t) := inferInstanceAs (Decidable (_ ∨ _))

instance (t : Text) : Decidable (IsIdentifier t) := inferInstanceAs (Decidable (_ ∧ _))

instance (t : Text) : Decidable (IsRadix t) := inferInstanceAs (Decidable (_ ∧ _))

instance (t : Text) : Decidable (IsName t) := inferInstanceAs (Decidable (_ ∧ _))

instance (t : Text) : Decidable (IsOperator t) := inferInstanceAs (Decidable (_ ∧ _))

end Grammar

open Grammar

/-- Is the name a word of the language itself? -/
def Language.isKeyword : Language → Text → Bool
  | lavendeux, _ => false
  | javascript, name => name ∈ ["return".toList, "function".toList]

/-- A term with no terms in it. -/
inductive Atom (l : Language) where
  | number (t : Text) (h : IsNumber t)
  | identifier (t : Text) (h : IsIdentifier t)
  | radix (t : Text) (h : IsRadix t)
  | decorator (name : Text) (h : IsName name) (hl : l = .lavendeux)
  | string (quote : Char) (content : Text) (hq : quote = '"' ∨ quote = '\'')
    (h : ∀ c ∈ content, isContent c = true)
  | operator (t : Text) (h : IsOperator t)

inductive Term (l : Language) where
  | atom (a : Atom l)
  | call (name : Text) (h : IsName name) (args : List (Term l))

/-- The rest of a line behind two slashes. It does not end in white space. -/
structure Comment where
  text : Text
  oneLine : '\n' ∉ text
  trimmed : text.getLast?.any Unicode.isWhiteSpace = false

inductive Line (l : Language) where
  /-- One or more terms, with a comment or without. -/
  | terms (first : Term l) (more : List (Term l)) (comment : Option Comment)
  | comment (c : Comment)

/-- One or more lines. -/
structure Script (l : Language) where
  first : Line l
  more : List (Line l)

variable {l : Language}

namespace Atom

def text : Atom l → Text
  | number t _ | identifier t _ | radix t _ | operator t _ => t
  | decorator name _ _ => '@' :: name
  | string quote content _ _ => quote :: content ++ [quote]

/-- The category of the span around an atom. Operators stand in no span. -/
def category? : Atom l → Option Category
  | number .. => some .data
  | identifier t _ => some (if l.isKeyword t then .decorator else .data)
  | radix .. => some .radix
  | decorator .. => some .decorator
  | string .. => some .string
  | operator .. => none

def render (s : Styler) (a : Atom l) : Text :=
  match a.category? with
  | some c => s.span c a.text
  | none => a.text

end Atom

namespace Term

@[induction_eliminator]
theorem induction {motive : Term l → Prop} (atom : ∀ a, motive (atom a))
    (call : ∀ name h args, (∀ t ∈ args, motive t) → motive (call name h args)) : ∀ t, motive t
  | .atom a => atom a
  | .call name h args => call name h args fun t _ => induction atom call t

def text : Term l → Text
  | atom a => a.text
  | call name _ args => name ++ ['('] ++ [' '].intercalate (args.map fun t => t.text) ++ [')']

/-- A call is a span from the name to the closing parenthesis. -/
def render (s : Styler) : Term l → Text
  | atom a => a.render s
  | call name _ args =>
    s.openSpan .function (name ++ ['(']) ++ [' '].intercalate (args.map fun t => t.render s) ++
      Styler.closeSpan [')']

end Term

namespace Comment

def source (c : Comment) : Text := "//" ++ c.text

end Comment

namespace Line

def text : Line l → Text
  | terms first more none => [' '].intercalate ((first :: more).map Term.text)
  | terms first more (some c) => [' '].intercalate ((first :: more).map Term.text) ++ [' '] ++ c.source
  | comment c => c.source

def render (s : Styler) : Line l → Text
  | terms first more none => [' '].intercalate ((first :: more).map (Term.render s))
  | terms first more (some c) =>
    [' '].intercalate ((first :: more).map (Term.render s)) ++ [' '] ++ s.span .comment c.source
  | comment c => s.span .comment c.source

end Line

namespace Script

def lines (t : Script l) : List (Line l) := t.first :: t.more

def text (t : Script l) : Text := Text.unlines (t.lines.map Line.text)

def render (s : Styler) (t : Script l) : Text := Text.unlines (t.lines.map (Line.render s))

end Script

end Highlighter
