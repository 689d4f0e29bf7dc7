import Highlighter.Json.Number
import Highlighter.Json.String

/-!
Reading a JSON text from left to right.  What cannot be read becomes a break in the value, and
nothing behind it is looked at.
-/
namespace Highlighter.Json

def isBlank (c : Char) : Bool := c = ' ' || c = '\n' || c = '\t' || c = '\r'

def dropBlanks (t : Text) : Text := t.dropWhile isBlank

/-- A value and what follows it, if reading goes on. -/
abbrev Reading := Json × Option Text

/-- The value `v`, if the rest of its word comes next. -/
def readWord (v : Json) : (word t : Text) → Reading
  | [], t => (v, some t)
  | _ :: _, [] => (broken .endOfText, none)
  | w :: word, c :: t => if c = w then readWord v word t else (broken .malformed, none)

def readNumber (negative : Bool) (t : Text) : Reading :=
  match Number.read negative t with
  | .ok (n, t) => (number n, some t)
  | .error b => (broken b, none)

/-- The break in place of a comma or a closing mark. -/
def noSeparator : Text → Break
  | [] => .endOfText
  | _ => .malformed

mutual

/-- A value, and what follows. -/
def readValue : Nat → Text → Reading
  | 0, _ => (broken .malformed, none)
  | fuel + 1, t =>
    match dropBlanks t with
    | [] => (broken .endOfText, none)
    | 'n' :: t => readWord null "ull" t
    | 't' :: t => readWord (bool true) "rue" t
    | 'f' :: t => readWord (bool false) "alse" t
    | '-' :: t => readNumber true t
    | '"' :: t =>
      match String.read t with
      | .ok (s, t) => (string s, some t)
      | .error b => (broken b, none)
    | '[' :: t =>
      match dropBlanks t with
      | [] => (array [] (some .endOfText), none)
      | ']' :: t => (array [] none, some t)
      | t =>
        let (items, b, rest) := readItems fuel t
        (array items b, rest)
    | '\x7b' :: t =>
      match dropBlanks t with
      | [] => (object [] (some .endOfText), none)
      | '\x7d' :: t => (object [] none, some t)
      | t =>
        let (members, b, rest) := readMembers fuel t
        (object members b, rest)
    | c :: t => if c.isDigit then readNumber false (c :: t) else (broken .malformed, none)

/-- The items of an array from the next one on. -/
def readItems : Nat → Text → List Json × Option Break × Option Text
  | 0, _ => ([], some .malformed, none)
  | fuel + 1, t =>
    match readValue fuel t with
    | (v, none) => ([v], some .malformed, none)
    | (v, some t) =>
      match dropBlanks t with
      | ']' :: t => ([v], none, some t)
      | ',' :: t =>
        let (items, b, rest) := readItems fuel t
        (v :: items, b, rest)
      | t => ([v], some (noSeparator t), none)

/-- The members of an object from the next one on. -/
def readMembers : Nat → Text → List (Except Fault Text × Json) × Option Break × Option Text
  | 0, _ => ([], some .malformed, none)
  | fuel + 1, t =>
    match dropBlanks t with
    | '"' :: t =>
      match String.read t with
      | .error b => ([], some b, none)
      | .ok (key, t) =>
        match dropBlanks t with
        | ':' :: t =>
          match readValue fuel t with
          | (v, none) => ([(key, v)], some .malformed, none)
          | (v, some t) =>
            match dropBlanks t with
            | '\x7d' :: t => ([(key, v)], none, some t)
            | ',' :: t =>
              let (members, b, rest) := readMembers fuel t
              ((key, v) :: members, b, rest)
            | t => ([(key, v)], some (noSeparator t), none)
        | t => ([(key, broken (noSeparator t))], some .malformed, none)
    | t => ([], some (noSeparator t), none)

end

/-- Decodes a text that is one value and nothing else. -/
def decode {α : Type} (decoder : Decoder α) (t : Text) : Except Problem α := do
  -- No character takes more than two steps: a bracket opens a value and its items.
  let (v, rest) := readValue (2 * t.length + 2) t
  let a ← decoder v
  match rest with
  | some rest => if dropBlanks rest = [] then return a else throw (.fault .malformed)
  | none => throw (.fault .malformed)

end Highlighter.Json
