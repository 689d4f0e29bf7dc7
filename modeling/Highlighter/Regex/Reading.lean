import Highlighter.Regex.Basic
import Highlighter.Text

/-!
Reading patterns.  A reader takes what it reads off the front of the text and fails where the text
is no pattern.  Options such as `(?i)` hold to the end of the group in which they stand.
-/
namespace Highlighter.Regex

/-- What the letters of an option group switch. -/
structure Options where
  anyCase : Bool
  multiLine : Bool
  dotAll : Bool
  /-- Repetitions are as short as possible unless a question mark says otherwise. -/
  lazyFirst : Bool

/-- How far a pattern has been read. -/
structure Reading where
  rest : Text
  options : Options
  /-- The number of groups opened so far. -/
  groups : Nat
  names : List (Text × Nat)

abbrev Reader := StateT Reading Option

namespace Reader

def peek : Reader (Option Char) := return (← get).rest.head?

/-- Takes the next character. -/
def next : Reader Char := do
  match (← get).rest with
  | c :: rest => modify ({ · with rest }); return c
  | [] => failure

/-- Takes `word` if it comes next. -/
def accept (word : Text) : Reader Bool := do
  let s ← get
  if word.isPrefixOf s.rest then
    set { s with rest := s.rest.drop word.length }
    return true
  else return false

/-- Takes `word`, which has to come next. -/
def expect (word : Text) : Reader Unit := do
  if !(← accept word) then failure

/-- Takes all that comes next and fulfils `p`. -/
def takeWhile (p : Char → Bool) : Reader Text := do
  let s ← get
  set { s with rest := s.rest.dropWhile p }
  return s.rest.takeWhile p

/-- The value of a hexadecimal digit. -/
def hexValue? (c : Char) : Option Nat :=
  if c.isDigit then some (c.toNat - '0'.toNat)
  else if 'a' ≤ c && c ≤ 'f' then some (c.toNat - 'a'.toNat + 10)
  else if 'A' ≤ c && c ≤ 'F' then some (c.toNat - 'A'.toNat + 10)
  else none

/-- The character whose code point the digits give. -/
def charOfHex (digits : Text) : Reader Char := do
  if digits = [] || digits.length > 8 then failure
  let values ← digits.mapM fun d => StateT.lift (hexValue? d)
  let n := values.foldl (fun n v => 16 * n + v) 0
  if n.isValidChar then return Char.ofNat n else failure

/-- The code point after `\x`, `\u` or `\U`: as many digits as usual for the letter, or any number
in braces. -/
def hexEscape (usual : Nat) : Reader Char := do
  if ← accept "\x7b" then
    let digits ← takeWhile (· ≠ '\x7d')
    expect "\x7d"
    charOfHex digits
  else
    let s ← get
    if s.rest.length < usual then failure
    set { s with rest := s.rest.drop usual }
    charOfHex (s.rest.take usual)

/-- A number in decimal digits. -/
def number? : Reader (Option Nat) := do
  let digits ← takeWhile Char.isDigit
  if digits = [] then return none
  else return some (digits.foldl (fun n d => 10 * n + (d.toNat - '0'.toNat)) 0)

/-- A group name up to the closing mark. -/
def name (closing : Text) : Reader Text := do
  let word ← takeWhile Unicode.isWord
  expect closing
  if word = [] then failure
  return word

/-- The characters that a backslash and a letter stand for. -/
def controlEscapes : List (Char × Char) :=
  [('n', '\n'), ('t', '\t'), ('r', '\r'), ('f', '\x0c'), ('v', '\x0b'), ('a', '\x07'),
    ('e', '\x1b')]

def hexDigits : CharSet := .anyOf [.range '0' '9', .range 'A' 'F', .range 'a' 'f']

/-- The sets that a backslash and a letter stand for. -/
def setEscapes : List (Char × CharSet) :=
  [('d', .digit), ('D', .inverse .digit), ('w', .word), ('W', .inverse .word), ('s', .blank),
    ('S', .inverse .blank), ('h', hexDigits), ('H', .inverse hexDigits)]

/-- A single character written with a backslash, whose letter is `c`. -/
def charEscape (c : Char) : Reader Char := do
  if c = 'x' then hexEscape 2
  else if c = 'u' then hexEscape 4
  else if c = 'U' then hexEscape 8
  else match controlEscapes.lookup c with
    | some d => return d
    -- Angle brackets behind a backslash are edges of words, which no part stands for.
    | none => if c.isAlphanum || c = '<' || c = '>' then failure else return c

/-- The sets that stand under a name between colons in a bracketed set. -/
def namedSets : List (Text × CharSet) :=
  let digits := CharSet.range '0' '9'
  let capitals := CharSet.range 'A' 'Z'
  let smalls := CharSet.range 'a' 'z'
  [("alnum".toList, .anyOf [digits, capitals, smalls]), ("alpha".toList, .anyOf [capitals, smalls]),
    ("ascii".toList, .range '\x00' '\x7f'), ("blank".toList, .anyOf [.single '\t', .single ' ']),
    ("cntrl".toList, .anyOf [.range '\x00' '\x1f', .single '\x7f']), ("digit".toList, digits),
    ("graph".toList, .range '!' '\x7e'), ("lower".toList, smalls), ("print".toList, .range ' ' '\x7e'),
    ("punct".toList,
      .anyOf [.range '!' '/', .range ':' '@', .range '[' '\x60', .range '\x7b' '\x7e']),
    ("space".toList, .anyOf [.range '\t' '\r', .single ' ']), ("upper".toList, capitals),
    ("word".toList, .anyOf [digits, capitals, .single '_', smalls]), ("xdigit".toList, hexDigits)]

/-- The set, in either case if so said. -/
def inCase (set : CharSet) : Reader CharSet :=
  return if (← get).options.anyCase then .anyCase set else set

/-- A named set after its opening bracket, if one comes next: a name between colons, perhaps with a
caret before it for all other characters. -/
def namedSet? : Reader (Option CharSet) := do
  let s ← get
  let (inverted, t) := match s.rest with
    | ':' :: '^' :: t => (true, t)
    | t => (false, t.drop 1)
  match s.rest.head?, namedSets.lookup (t.takeWhile (· ≠ ':')), t.dropWhile (· ≠ ':') with
  | some ':', some members, ':' :: ']' :: rest =>
    set { s with rest }
    let members ← inCase members
    return some (if inverted then .inverse members else members)
  | _, _, _ => return none

/-- What can be made of two sets within brackets. -/
inductive SetOperation where
  | intersection
  | difference
  | symmetricDifference

def SetOperation.apply : SetOperation → CharSet → CharSet → CharSet
  | intersection, a, b => .inverse (.union (.inverse a) (.inverse b))
  | difference, a, b => .inverse (.union (.inverse a) b)
  | symmetricDifference, a, b =>
    .union (.inverse (.union (.inverse a) b)) (.inverse (.union (.inverse b) a))

/-- A mark for an operation, if one comes next. -/
def setOperation? : Reader (Option SetOperation) := do
  if ← accept "&&" then return some .intersection
  else if ← accept "--" then return some .difference
  else if ← accept "~~" then return some .symmetricDifference
  else return none

/-- One member of a bracketed set: a character, or a set of its own. -/
def setItem : Reader (Char ⊕ CharSet) := do
  let c ← next
  if c = '\\' then
    let c ← next
    match setEscapes.lookup c with
    | some set => return .inr set
    | none => return .inl (← charEscape c)
  else return .inl c

/-- What follows a hyphen in a bracketed set, if the hyphen stands for a range. -/
def rangeEnd? : Reader (Option (Char ⊕ CharSet)) := do
  match (← get).rest with
  | '-' :: ']' :: _ | '-' :: '-' :: _ => return none
  | '-' :: _ => let _ ← next; return some (← setItem)
  | _ => return none

/-- A bracketed set after its opening bracket. -/
def bracketed : Nat → Reader CharSet
  | 0 => failure
  | fuel + 1 => do
    let inverted ← accept "^"
    -- Hyphens at the beginning stand for themselves, and so does a bracket that comes first.
    let hyphens ← takeWhile (· = '-')
    let first := if hyphens = [] && (← accept "]") then [CharSet.single ']'] else []
    let (items, next?) ← members fuel
    let set ← inCase (.anyOf (hyphens.map CharSet.single ++ first ++ items))
    let set ← operations fuel set next?
    return if inverted then .inverse set else set
where
  /-- The members up to the closing bracket or the mark of an operation. -/
  members : Nat → Reader (List CharSet × Option SetOperation)
    | 0 => failure
    | fuel + 1 => do
      if ← accept "]" then return ([], none)
      match ← setOperation? with
      | some operation => return ([], some operation)
      | none =>
        let member ← member fuel
        let (more, next?) ← members fuel
        return (member :: more, next?)
  /-- A member: a character, a range, or a set of its own. -/
  member : Nat → Reader CharSet
    | 0 => failure
    | fuel + 1 => do
      if ← accept "[" then
        match ← namedSet? with
        | some set => return set
        | none => bracketed fuel
      else
        match ← setItem, ← rangeEnd? with
        | .inl c, none => return .single c
        | .inr set, none => return set
        | .inl c, some (.inl d) => if d < c then failure else return .range c d
        | _, some _ => failure
  /-- The operations on a set, from left to right, each with the members that follow its mark. -/
  operations : Nat → CharSet → Option SetOperation → Reader CharSet
    | 0, _, _ => failure
    | _, set, none => return set
    | fuel + 1, set, some operation => do
      let (items, next?) ← members fuel
      let other ← inCase (.anyOf items)
      operations fuel (operation.apply set other) next?

/-- How often a part may be repeated at most by a number in braces. -/
def repeatLimit : Nat := 10000

/-- The bounds in braces, after the opening brace. -/
def bounds : Reader (Nat × Option Nat) := do
  let least? ← number?
  if ← accept "\x7d" then
    match least? with
    | some n => return (n, some n)
    | none => failure
  else
    expect ","
    let most? ← number?
    expect "\x7d"
    if least? = none && most? = none then failure
    return (least?.getD 0, most?)

/-- How often the part before may be repeated, if anything is said about it. -/
def repetition? : Reader (Option (Nat × Option Nat)) := do
  if ← accept "?" then return some (0, some 1)
  else if ← accept "*" then return some (0, none)
  else if ← accept "+" then return some (1, none)
  else
    let s ← get
    match s.rest with
    | '\x7b' :: rest =>
      match bounds.run { s with rest } with
      | some (b, s) => set s; return some b
      -- A brace that begins no bounds stands for itself.
      | none => return none
    | _ => return none

/-- May the part be repeated? -/
def repeatable : Regex → Bool
  | .empty | .edge _ | .ahead _ | .notAhead _ => false
  | _ => true

/-- The part `a` with the repetition that is said after it. -/
def withRepetition (a : Regex) : Reader Regex := do
  match ← repetition? with
  | none => return a
  | some (least, most) =>
    if !repeatable a || least > repeatLimit || most.any (fun m => m < least || m > repeatLimit) then
      failure
    let short ← accept "?"
    let greedy := short == (← get).options.lazyFirst
    let r := repeated a least most greedy
    if ← accept "+" then return .atomic r else return r

/-- One character of the set, in either case if so said. -/
def literal (c : Char) : Reader Regex := do
  if (← get).options.anyCase then return .one (.anyCase (.single c)) else return .char c

/-- The text remembered under a name or a number. -/
def sameAs (word : Text) : Reader Regex := do
  let s ← get
  let n ← match s.names.lookup word with
    | some n => pure n
    | none =>
      if word.all Char.isDigit then pure (word.foldl (fun n d => 10 * n + (d.toNat - '0'.toNat)) 0)
      else failure
  return .same n s.options.anyCase

/-- What a backslash stands for outside of brackets. -/
def escape : Reader Regex := do
  let c ← next
  match setEscapes.lookup c with
  | some set => return .one set
  | none =>
    if c = 'b' then
      -- With braces it is the edge of a word on one side, which no part stands for.
      if (← peek) = some '\x7b' then failure
      return .edge .wordEdge
    else if c = 'B' then return .edge .noWordEdge
    else if c = 'A' then return .edge .textStart
    else if c = 'z' then return .edge .textEnd
    else if c = 'Z' then return .ahead (.seq (.many (.single '\n') true) (.edge .textEnd))
    else if c = 'O' then return .one .any
    else if c = 'k' then
      expect "<"
      sameAs (← name ">")
    else if c.isDigit && c ≠ '0' then
      let digits ← takeWhile Char.isDigit
      sameAs (c :: digits)
    else literal (← charEscape c)

/-- Switches the options that a list of letters names. -/
def switch (on : Bool) (o : Options) : Text → Option Options
  | [] => some o
  | 'i' :: t => switch on { o with anyCase := on } t
  | 'm' :: t => switch on { o with multiLine := on } t
  | 's' :: t => switch on { o with dotAll := on } t
  | 'U' :: t => switch on { o with lazyFirst := on } t
  | 'u' :: t => if on then switch on o t else none
  | '-' :: t => if on && t ≠ [] then switch false o t else none
  | _ :: _ => none

/-- Numbers the group that was just opened. -/
def openGroup : Reader Nat := do
  let s ← get
  set { s with groups := s.groups + 1 }
  return s.groups + 1

mutual

/-- Alternatives, up to a closing parenthesis or the end. -/
def alternatives : Nat → Reader Regex
  | 0 => failure
  | fuel + 1 => return choice (← branches fuel)

def branches : Nat → Reader (List Regex)
  | 0 => failure
  | fuel + 1 => do
    let a := concat (← parts fuel)
    if ← accept "|" then return a :: (← branches fuel) else return [a]

/-- The parts of one alternative. -/
def parts : Nat → Reader (List Regex)
  | 0 => failure
  | fuel + 1 => do
    match ← peek with
    | none | some '|' | some ')' => return []
    | some _ =>
      let a ← withRepetition (← part fuel)
      if a = .empty then parts fuel else return a :: (← parts fuel)

/-- One part without its repetition.  Nothing is read where a repetition stands alone. -/
def part : Nat → Reader Regex
  | 0 => failure
  | fuel + 1 => do
    match ← peek with
    | some '*' | some '+' | some '?' => return .empty
    | _ =>
      let c ← next
      let o := (← get).options
      if c = '.' then return .one (if o.dotAll then .any else .notNewline)
      else if c = '^' then return .edge (if o.multiLine then .lineStart else .textStart)
      else if c = '$' then return .edge (if o.multiLine then .lineEnd else .textEnd)
      else if c = '\\' then escape
      else if c = '[' then return .one (← bracketed (3 * (← get).rest.length + 3))
      else if c = '(' then
        group fuel
      else literal c

/-- A group, after its opening parenthesis. -/
def group : Nat → Reader Regex
  | 0 => failure
  | fuel + 1 => do
    if ← accept "?:" then inGroup fuel
    else if ← accept "?=" then return .ahead (← inGroup fuel)
    else if ← accept "?!" then return .notAhead (← inGroup fuel)
    -- To look behind is to step back by the length of the inside and then to look ahead.
    else if ← accept "?<=" then return .ahead (← StateT.lift (← inGroup fuel).behind?)
    else if ← accept "?<!" then return .notAhead (← StateT.lift (← inGroup fuel).behind?)
    else if ← accept "?>" then return .atomic (← inGroup fuel)
    else if ← accept "?#" then
      let _ ← takeWhile (· ≠ ')')
      expect ")"
      return .empty
    else if ← accept "?P=" then sameAs (← name ")")
    else if (← accept "?P<") || (← accept "?<") then
      let word ← name ">"
      let n ← openGroup
      modify fun s => { s with names := (word, n) :: s.names }
      return .group n (← inGroup fuel)
    else if ← accept "?" then
      let letters ← takeWhile fun c => c ≠ ')' && c ≠ ':'
      if letters = [] then failure
      let s ← get
      let options ← StateT.lift (switch true s.options letters)
      if ← accept ")" then
        modify ({ · with options })
        return .empty
      else
        expect ":"
        modify ({ · with options })
        let r ← inGroup fuel
        modify ({ · with options := s.options })
        return r
    else
      let n ← openGroup
      return .group n (← inGroup fuel)

/-- The inside of a group and its closing parenthesis.  Options set inside end with it. -/
def inGroup : Nat → Reader Regex
  | 0 => failure
  | fuel + 1 => do
    let options := (← get).options
    let r ← alternatives fuel
    expect ")"
    modify ({ · with options })
    return r

end

end Reader

/-- The pattern that a text writes, if it writes one. -/
def ofText? (source : Text) : Option Regex := do
  -- A parenthesis takes six steps from alternatives to alternatives, other characters take fewer.
  let (r, s) ← (Reader.alternatives (6 * source.length + 6)).run
    ⟨source, ⟨false, false, false, false⟩, 0, []⟩
  -- Only groups that the pattern opens can be asked for.
  if s.rest ≠ [] || r.lastAsked > s.groups then none
  else some (if r.remembers then r else r.forget)

end Highlighter.Regex
