import Highlighter.Toml.Scalar

/-!
Reading TOML documents.
-/
namespace Highlighter.Toml

/-- Takes what it reads off the front of the text. -/
abbrev Reader := StateT Text Option

namespace Reader

/-- Takes `word` if it comes next. -/
def accept (word : Text) : Reader Bool := do
  let t ← get
  if word.isPrefixOf t then
    set (t.drop word.length)
    return true
  else return false

/-- Takes `word`, which has to come next. -/
def expect (word : Text) : Reader Unit := do
  if !(← accept word) then failure

def takeWhile (p : Char → Bool) : Reader Text := do
  let t ← get
  set (t.dropWhile p)
  return t.takeWhile p

/-- Spaces and tabs. -/
def blanks : Reader Unit := do
  let _ ← takeWhile fun c => c = ' ' || c = '\t'

/-- A line break, if one comes next. -/
def newline : Reader Bool := do
  if ← accept "\n" then return true else accept "\r\n"

/-- May the character stand in a comment or between quotes? -/
def isTextChar (c : Char) : Bool := c = '\t' || 0x20 ≤ c.toNat && c.toNat ≠ 0x7f

/-- A comment up to the end of its line, if one comes next. -/
def comment : Reader Unit := do
  if ← accept "#" then
    let _ ← takeWhile isTextChar

/-- Blanks and a comment up to the end of the line or of the text. -/
def lineEnd : Reader Unit := do
  blanks
  comment
  if (← get) ≠ [] && !(← newline) then failure

/-- Blanks, comments and line breaks. -/
def gap : Nat → Reader Unit
  | 0 => failure
  | fuel + 1 => do
    blanks
    comment
    if ← newline then gap fuel

/-- The character whose code point the next `n` hexadecimal digits give. -/
def codePoint (n : Nat) : Reader Char := do
  let t ← get
  let digits := t.take n
  if digits.length < n || !digits.all isHexDigit then failure
  set (t.drop n)
  let c := numeral 16 digits
  if c.isValidChar then return Char.ofNat c else failure

/-- The characters that a backslash and a letter stand for. -/
def escapes : List (Char × Char) :=
  [('b', '\x08'), ('t', '\t'), ('n', '\n'), ('f', '\x0c'), ('r', '\r'), ('e', '\x1b'), ('"', '"'),
    ('\\', '\\')]

/-- What stands for a character, after its backslash. -/
def escape : Reader Char := do
  let c :: t ← get | failure
  set t
  if c = 'x' then codePoint 2
  else if c = 'u' then codePoint 4
  else if c = 'U' then codePoint 8
  else match escapes.lookup c with
    | some d => return d
    | none => failure

/-- The rest of a text in double quotes on one line. -/
def basic : Nat → Reader Text
  | 0 => failure
  | fuel + 1 => do
    match ← get with
    | '"' :: t => set t; return []
    | '\\' :: t =>
      set t
      let c ← escape
      return c :: (← basic fuel)
    | c :: t => if isTextChar c then do set t; return c :: (← basic fuel) else failure
    | [] => failure

/-- The rest of a text in single quotes on one line. -/
def literal : Reader Text := do
  let t ← takeWhile fun c => isTextChar c && c ≠ '\''
  expect "'"
  return t

/-- The end of a text in triple quotes, where three quotes come next: up to two more of them belong
to the text. -/
def closingQuotes (quote : Char) (t : Text) : Text × Text :=
  match t.takeWhile (· = quote) with
  | [_, _, _, _] => ([quote], t.drop 4)
  | _ :: _ :: _ :: _ :: _ => ([quote, quote], t.drop 5)
  | _ => ([], t.drop 3)

/-- The rest of a text in triple quotes.  Only in double quotes does a backslash escape, also a line
break and the white space around it. -/
def multiline (quote : Char) (escapesToo : Bool) : Nat → Reader Text
  | 0 => failure
  | fuel + 1 => do
    let t ← get
    if [quote, quote, quote].isPrefixOf t then
      let (last, rest) := closingQuotes quote t
      set rest
      return last
    else if ← newline then return '\n' :: (← multiline quote escapesToo fuel)
    else if escapesToo && (← accept "\\") then
      let t ← get
      blanks
      if ← newline then
        let _ ← takeWhile fun c => c = ' ' || c = '\t' || c = '\n' || c = '\r'
        multiline quote escapesToo fuel
      else
        -- No line break comes, so that the backslash escapes what stands right behind it.
        set t
        let c ← escape
        return c :: (← multiline quote escapesToo fuel)
    else
      match t with
      | c :: t =>
        if isTextChar c then do
          set t
          return c :: (← multiline quote escapesToo fuel)
        else failure
      | [] => failure

def isBare (c : Char) : Bool := c.isAlphanum || c = '_' || c = '-'

/-- One part of a key. -/
def simpleKey : Reader Text := do
  if ← accept "\"" then basic ((← get).length + 1)
  else if ← accept "'" then literal
  else
    let word ← takeWhile isBare
    if word = [] then failure
    return word

/-- A dotted key with the blanks around it. -/
def key : Nat → Reader (List Text)
  | 0 => failure
  | fuel + 1 => do
    blanks
    let first ← simpleKey
    blanks
    if ← accept "." then return first :: (← key fuel) else return [first]

/-- May the character stand in an unquoted scalar? -/
def isScalarChar (c : Char) : Bool :=
  c.isAlphanum || c = '_' || c = '+' || c = '-' || c = '.' || c = ':'

/-- An unquoted scalar.  A blank may stand between a date and a time. -/
def scalar : Reader Toml := do
  let word ← takeWhile isScalarChar
  let t ← get
  let word ← match date? word, t with
    | some (_, []), ' ' :: c :: _ =>
      if c.isDigit then
        set (t.drop 1)
        pure (word ++ ' ' :: (← takeWhile isScalarChar))
      else pure word
    | _, _ => pure word
  match scalar? word with
  | some v => return v
  | none => failure

/-- All but the last part of a key, and the last part. -/
def splitLast : List Text → Option (List Text × Text)
  | [] => none
  | [k] => some ([], k)
  | k :: ks => (splitLast ks).map fun (path, last) => (k :: path, last)

/-- The arrays and inline tables that may stand one in another, and the parts that may come before
the last one of a key. -/
def depthLimit : Nat := 80

/-- A key as the path to a table and a name in it. -/
def keyPath : Reader (List Text × Text) := do
  let k ← key ((← get).length + 1)
  let (path, last) ← StateT.lift (splitLast k)
  if depthLimit < path.length then failure
  return (path, last)

mutual

/-- A value; `depth` more arrays and inline tables may be opened in it. -/
def value (depth : Nat) : Nat → Reader Toml
  | 0 => failure
  | fuel + 1 => do
    let t ← get
    let length := t.length + 1
    if ← accept "\"\"\"" then
      let _ ← newline
      return .string (← multiline '"' true length)
    else if ← accept "'''" then
      let _ ← newline
      return .string (← multiline '\'' false length)
    else if ← accept "\"" then return .string (← basic length)
    else if ← accept "'" then return .string (← literal)
    else if ← accept "[" then
      if depth = 0 then failure
      return .array (← items (depth - 1) fuel)
    else if ← accept "\x7b" then
      if depth = 0 then failure
      return (← members (depth - 1) fuel .start).finish
    else scalar

/-- The items of an array up to its closing bracket. -/
def items (depth : Nat) : Nat → Reader (List Toml)
  | 0 => failure
  | fuel + 1 => do
    gap ((← get).length + 1)
    if ← accept "]" then return []
    let v ← value depth fuel
    gap ((← get).length + 1)
    if ← accept "," then return v :: (← items depth fuel)
    expect "]"
    return [v]

/-- The entries of an inline table up to its closing brace. -/
def members (depth : Nat) : Nat → Draft → Reader Draft
  | 0, _ => failure
  | fuel + 1, d => do
    gap ((← get).length + 1)
    if ← accept "\x7d" then return d
    let (path, last) ← keyPath
    expect "="
    blanks
    let v ← value depth fuel
    let d ← StateT.lift (d.enter path last v)
    gap ((← get).length + 1)
    if ← accept "," then members depth fuel d
    else
      expect "\x7d"
      return d

end

/-- A document from the beginning of a line on; `header` is the path of the table that is open. -/
def lines : Nat → List Text → Draft → Reader Draft
  | 0, _, _ => failure
  | fuel + 1, header, d => do
    blanks
    match ← get with
    | [] => return d
    | '\n' :: _ | '\r' :: _ | '#' :: _ =>
      lineEnd
      lines fuel header d
    | '[' :: '[' :: t =>
      set t
      let (path, last) ← keyPath
      expect "]]"
      let d ← StateT.lift (d.openNext path last)
      lineEnd
      lines fuel (path ++ [last]) d
    | '[' :: t =>
      set t
      let (path, last) ← keyPath
      expect "]"
      let d ← StateT.lift (d.openTable path last)
      lineEnd
      lines fuel (path ++ [last]) d
    | t =>
      let (path, last) ← keyPath
      expect "="
      blanks
      -- No character of a value takes more than two steps: a bracket opens a value and its items.
      let v ← value depthLimit (2 * t.length + 2)
      let d ← StateT.lift (d.within .implicit (·.enter path last v) header)
      lineEnd
      lines fuel header d

end Reader

/-- The table that a document writes, if it is a document. -/
def ofText? (t : Text) : Option Toml := do
  let t := match t with
    | '\uFEFF' :: t => t
    | t => t
  let (d, _) ← (Reader.lines (t.length + 1) [] .start).run t
  return d.finish

end Highlighter.Toml
