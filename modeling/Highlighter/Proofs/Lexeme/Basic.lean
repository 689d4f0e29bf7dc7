import Highlighter.Language
import Mathlib.Tactic.Common

/-! What each pattern of the languages finds at a place, without any search among alternatives. A
recognizer reads a list of things through the character that each of them shows and divides it into
what it finds at the front and the rest; it may look at the character before. It does not matter to
it whether a thing that shows a space stands there for one space or for many
(`Recognizer.Sound.spread`). -/
namespace Highlighter

/-- What a pattern finds at the front of a list, and the rest. -/
abbrev Recognizer : Type 1 :=
  {α : Type} → (sym : α → Char) → (prev : Option Char) → List α → Option (List α × List α)

namespace Lexeme

variable {α : Type}

/-- The division with more things in front. -/
def prepend (front : List α) (w : List α × List α) : List α × List α := (front ++ w.1, w.2)

/-- One thing that shows a character of the kind `first` and what `later` finds after it. -/
def after? (first : Char → Bool) (sym : α → Char)
    (later : Char → List α → Option (List α × List α)) : List α → Option (List α × List α)
  | a :: l => if first (sym a) then (later (sym a) l).map (prepend [a]) else none
  | [] => none

/-- A nonempty longest run of members of a set. -/
def run? (set : CharSet) (sym : α → Char) (l : List α) : Option (List α × List α) :=
  if l.takeWhile (set.has ∘ sym) = [] then none
  else some (l.takeWhile (set.has ∘ sym), l.dropWhile (set.has ∘ sym))

/-- The rest of a line. -/
def line (sym : α → Char) (l : List α) : List α × List α :=
  (l.takeWhile (CharSet.notNewline.has ∘ sym), l.dropWhile (CharSet.notNewline.has ∘ sym))

/-- `//` and what follows on the line. -/
def lineComment (sym : α → Char) (_ : Option Char) : List α → Option (List α × List α) :=
  after? (· = '/') sym fun _ => after? (· = '/') sym fun _ l => some (line sym l)

/-- The end of a block comment. -/
def close? (sym : α → Char) : List α → Option (List α × List α) :=
  after? (· = '*') sym fun _ => after? (· = '/') sym fun _ l => some ([], l)

/-- Everything up to the end of the first `*/`. -/
def upToClose (sym : α → Char) : List α → Option (List α × List α)
  | [] => none
  | a :: l => (close? sym (a :: l)).or ((upToClose sym l).map (prepend [a]))

/-- `/*` and everything up to the end of the first `*/` after it. -/
def blockComment (sym : α → Char) (_ : Option Char) : List α → Option (List α × List α) :=
  after? (· = '/') sym fun _ => after? (· = '*') sym fun _ => upToClose sym

/-- `@` and a name. -/
def decorator (sym : α → Char) (_ : Option Char) : List α → Option (List α × List α) :=
  after? (· = '@') sym fun _ => run? Pattern.nameSet sym

/-- A name and an opening parenthesis right after it. -/
def functionOpen (sym : α → Char) (_ : Option Char) (l : List α) : Option (List α × List α) :=
  (run? Pattern.nameSet sym l).bind fun (u, v) =>
    (after? (· = '(') sym (fun _ v => some ([], v)) v).map (prepend u)

/-- A closing parenthesis. -/
def closingParen (sym : α → Char) (_ : Option Char) : List α → Option (List α × List α) :=
  after? (· = ')') sym fun _ l => some ([], l)

/-- Everything up to a closing quote. A backslash takes the character after it along, unless that
leads to no closing quote at all. -/
def upToQuote (quote : Char) (sym : α → Char) : List α → Option (List α × List α)
  | [] => none
  | [a] => if sym a = quote then some ([a], []) else none
  | a :: b :: l =>
    if sym a = quote then some ([a], b :: l)
    else if sym a = '\\' ∧ sym b ≠ '\n' then
      ((upToQuote quote sym l).map (prepend [a, b])).or
        ((upToQuote quote sym (b :: l)).map (prepend [a]))
    else (upToQuote quote sym (b :: l)).map (prepend [a])

def isQuote (c : Char) : Bool := c = '"' || c = '\''

/-- A quote and everything up to the closing quote of its kind. -/
def string (sym : α → Char) (_ : Option Char) : List α → Option (List α × List α) :=
  after? isQuote sym fun quote => upToQuote quote sym

/-- A zero, where no number goes on, and a run of letters and digits. -/
def radix (sym : α → Char) (prev : Option Char) : List α → Option (List α × List α) :=
  after? (fun c => c = '0' && !prev.any Pattern.numberSet.has) sym fun _ =>
    run? Pattern.alphanumeric sym

/-- The word, where no word character follows. -/
def word? (sym : α → Char) : Text → List α → Option (List α × List α)
  | [], l => if l.head?.any (Unicode.isWord ∘ sym) then none else some ([], l)
  | c :: w, l => after? (· = c) sym (fun _ => word? sym w) l

/-- The word `return` or `function`, where no word character comes before or after. -/
def keyword (sym : α → Char) (prev : Option Char) (l : List α) : Option (List α × List α) :=
  if prev.any Unicode.isWord then none else (word? sym "return" l).or (word? sym "function" l)

def isSign (c : Char) : Bool := c = '-' || c = '+'

def isOctal : Char → Bool := (CharSet.range '0' '7').has

/-- A sign and a digit. -/
def exponent? (sym : α → Char) : List α → Option (List α × List α) :=
  after? isSign sym fun _ => after? isOctal sym fun _ l => some ([], l)

/-- A run of characters of names and numbers, with the sign and digit of an exponent if they come
next. -/
def data (sym : α → Char) (_ : Option Char) (l : List α) : Option (List α × List α) :=
  (run? Pattern.dataSet sym l).map fun (u, v) => prepend u ((exponent? sym v).getD ([], v))

/-- The division of a text that shows the things of this one. -/
def widen (seen : α → Text) (w : List α × List α) : Text × Text :=
  (w.1.flatMap seen, w.2.flatMap seen)

end Lexeme

/-- Each thing is seen as its character, or as some spaces where its character is a space. -/
def Spread {α : Type} (sym : α → Char) (seen : α → Text) : Prop :=
  ∀ a, ∃ k, seen a = List.replicate (k + 1) (sym a) ∧ (k = 0 ∨ sym a = ' ')

/-- A recognizer divides the list that it reads, never begins with a space, and finds the same
however many spaces a thing stands for. -/
structure Recognizer.Sound (R : Recognizer) : Prop where
  divides : ∀ {α : Type} {sym : α → Char} {prev : Option Char} {l u v : List α},
    R sym prev l = some (u, v) → l = u ++ v ∧ ∃ a, u.head? = some a ∧ sym a ≠ ' '
  spread : ∀ {α : Type} {sym : α → Char} {seen : α → Text}, Spread sym seen →
    ∀ (prev : Option Char) (l : List α), R id prev (l.flatMap seen) =
      (R sym prev l).map (Lexeme.widen seen)

/-- What a recognizer finds never ends with a space. -/
structure Recognizer.Firm (R : Recognizer) : Prop where
  last : ∀ {α : Type} {sym : α → Char} {prev : Option Char} {l u v : List α},
    R sym prev l = some (u, v) → ∃ a, u.getLast? = some a ∧ sym a ≠ ' '

end Highlighter
