import Highlighter.Engine
import Highlighter.Style

/-!
The languages that can be highlighted.  Each is a fixed list of rules; their order matters, since
what an earlier rule has replaced is blank for the later ones.
-/
namespace Highlighter

namespace Pattern

open Regex

/-- `//` and the rest of the line. -/
def lineComment : Pattern where
  source := "(?m)//.*?$"
  regex := concat [char '/', char '/', many .notNewline false, edge .lineEnd]

/-- From `/*` to the next `*/`. -/
def blockComment : Pattern where
  source := "(?s)/\\*.*?\\*/"
  regex := concat [char '/', char '*', many .any false, char '*', char '/']

def nameSet : CharSet := .anyOf [.range '0' '9', .range 'A' 'Z', .range 'a' 'z', .single '_']

/-- `@` and a name. -/
def decorator : Pattern where
  source := "@[0-9A-Za-z_]+"
  regex := concat [char '@', seq (one nameSet) (many nameSet true)]

/-- A name right before an opening parenthesis. -/
def functionOpen : Pattern where
  source := "[0-9A-Za-z_]+\\("
  regex := seq (seq (one nameSet) (many nameSet true)) (char '(')

def closingParen : Pattern where
  source := "\\)"
  regex := char ')'

/-- A backslash and the character after it. -/
def escaped : Regex := seq (char '\\') (one .notNewline)

def notQuote : CharSet := .inverse (.anyOf [.single '"', .single '\''])

/-- A quote, what stands between quotes, and the same quote; the other kind of quote may stand
between. -/
def quotedText (quote other : Char) : Regex :=
  concat [char quote, loop (choice [escaped, one notQuote, char other]) false, char quote]

def string : Pattern where
  source := "(?:\"(?:\\\\.|[^\"']|')*?\")|(?:'(?:\\\\.|[^\"']|\")*?')"
  regex := alt (quotedText '"' '\'') (quotedText '\'' '"')

/-- A number cannot go on after one of these characters. -/
def numberSet : CharSet :=
  .anyOf [.range '0' '9', .single '.', .single ',', .single '$', .single '¥', .single '€',
    .single '£']

def radixLetter : CharSet :=
  .anyOf [.single 'x', .single 'X', .single 'b', .single 'B', .single 'o', .single 'O']

def alphanumeric : CharSet := .anyOf [.range 'a' 'z', .range 'A' 'Z', .range '0' '9']

/-- A zero, where no number goes on, with letters and digits after it. -/
def radix : Pattern where
  source := "(?<![0-9.,$¥€£])0[xXbBoO]?[a-zA-Z0-9]+"
  regex := concat [notAhead (seq (back 1) (one numberSet)), char '0',
    optional (one radixLetter) true, seq (one alphanumeric) (many alphanumeric true)]

/-- The words `return` and `function`. -/
def keyword : Pattern where
  source := "\\b(?:return|function)\\b"
  regex := concat [edge .wordEdge,
    alt (concat ("return".toList.map char)) (concat ("function".toList.map char)), edge .wordEdge]

def dataSet : CharSet :=
  .anyOf [.single '$', .single '¥', .single '€', .single '£', .range '0' '9', .range 'A' 'Z',
    .range 'a' 'z', .single '.', .single '_', .single ',']

/-- The end of an exponent. -/
def exponentEnd : Regex :=
  concat [optional (one (.anyOf [.single 'e', .single 'E'])) true,
    optional (one (.anyOf [.single '-', .single '+'])) true, one (.range '0' '7')]

/-- A name or a number. -/
def data : Pattern where
  source := "[$¥€£0-9A-Za-z._,]+(?:[eE]?[-+]?[0-7])?"
  regex := seq (seq (one dataSet) (many dataSet true)) (optional exponentEnd true)

theorem ofText?_lineComment : ofText? lineComment.source = some lineComment := by decide +kernel
theorem ofText?_blockComment : ofText? blockComment.source = some blockComment := by decide +kernel
theorem ofText?_decorator : ofText? decorator.source = some decorator := by decide +kernel
theorem ofText?_functionOpen : ofText? functionOpen.source = some functionOpen := by decide +kernel
theorem ofText?_closingParen : ofText? closingParen.source = some closingParen := by decide +kernel
theorem ofText?_string : ofText? string.source = some string := by decide +kernel
theorem ofText?_radix : ofText? radix.source = some radix := by decide +kernel
theorem ofText?_keyword : ofText? keyword.source = some keyword := by decide +kernel
theorem ofText?_data : ofText? data.source = some data := by decide +kernel

end Pattern

inductive Language where
  | lavendeux
  | javascript
  deriving DecidableEq, Repr

namespace Language

def all : List Language := [lavendeux, javascript]

/-- What an unknown language is taken for. -/
def default : Language := lavendeux

def name : Language → Text
  | lavendeux => "lavendeux"
  | javascript => "javascript"

/-- The language of exactly this name. -/
def ofName? (name : Text) : Option Language := all.find? (·.name = name)

/-- Wraps each match in a span. -/
def spanRule (s : Styler) (p : Pattern) (c : Category) : Rule := .regex p (s.span c)

/-- Opens a span that the next unmatched closing parenthesis closes. -/
def functionOpenRule (s : Styler) : Rule := .regex .functionOpen (s.openSpan .function)

def closingParenRule : Rule := .regex .closingParen Styler.closeSpan

def outerRule (s : Styler) : Rule := .wholeText s.outer

/-- The rules of a language but for the last one, which wraps the whole sample. -/
def regexRules (s : Styler) : Language → List Rule
  | lavendeux =>
    [spanRule s .lineComment .comment, spanRule s .blockComment .comment,
      spanRule s .decorator .decorator, functionOpenRule s, closingParenRule,
      spanRule s .string .string, spanRule s .radix .radix, spanRule s .data .data]
  | javascript =>
    [spanRule s .lineComment .comment, spanRule s .blockComment .comment,
      functionOpenRule s, closingParenRule,
      spanRule s .string .string, spanRule s .radix .radix, spanRule s .keyword .decorator,
      spanRule s .data .data]

def engine (s : Styler) (l : Language) : Engine := ⟨l.regexRules s ++ [outerRule s]⟩

end Language

end Highlighter
