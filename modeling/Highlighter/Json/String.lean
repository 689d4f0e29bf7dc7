import Highlighter.Json

/-!
Reading the strings of a JSON text.
-/
namespace Highlighter.Json.String

/-- The value of a hexadecimal digit. -/
def hexValue? (c : Char) : Option Nat :=
  if c.isDigit then some (c.toNat - '0'.toNat)
  else if 'a' ≤ c && c ≤ 'f' then some (c.toNat - 'a'.toNat + 10)
  else if 'A' ≤ c && c ≤ 'F' then some (c.toNat - 'A'.toNat + 10)
  else none

/-- The value of four hexadecimal digits, and what follows.  The text ends too early where fewer
than four bytes are left. -/
def readUnit (t : Text) : Except Fault (Nat × Text) :=
  match t with
  | a :: b :: c :: d :: rest =>
    match [a, b, c, d].mapM hexValue? with
    | some values => .ok (values.foldl (fun n v => 16 * n + v) 0, rest)
    | none => .error .malformed
  | t => .error (if t.byteLength < 4 then .endOfText else .malformed)

/-- The characters that a backslash and a letter stand for. -/
def escapes : List (Char × Char) :=
  [('"', '"'), ('\\', '\\'), ('/', '/'), ('b', '\x08'), ('f', '\x0c'), ('n', '\n'), ('r', '\r'),
    ('t', '\t')]

/-- The character of two halves of a surrogate pair. -/
def ofPair (high low : Nat) : Char :=
  Char.ofNat (0x10000 + (high - 0xD800) * 0x400 + (low - 0xDC00))

/-- A string as it is used: the unescaped text. -/
def readUsed : Nat → Text → Except Fault (Text × Text)
  | 0, _ => .error .malformed
  | fuel + 1, t =>
    match t with
    | [] => .error .endOfText
    | '"' :: rest => .ok ([], rest)
    | '\\' :: 'u' :: rest => do
      let (high, rest) ← readUnit rest
      if 0xDC00 ≤ high && high ≤ 0xDFFF then throw .malformed
      else if 0xD800 ≤ high && high ≤ 0xDBFF then
        match rest with
        | [] => throw .endOfText
        | '\\' :: [] => throw .endOfText
        | '\\' :: 'u' :: rest =>
          let (low, rest) ← readUnit rest
          if low < 0xDC00 || 0xDFFF < low then throw .malformed
          let (s, rest) ← readUsed fuel rest
          return (ofPair high low :: s, rest)
        | _ => throw .malformed
      else
        let (s, rest) ← readUsed fuel rest
        return (Char.ofNat high :: s, rest)
    | '\\' :: [] => .error .endOfText
    | '\\' :: c :: rest =>
      match escapes.lookup c with
      | none => .error .malformed
      | some d => do
        let (s, rest) ← readUsed fuel rest
        return (d :: s, rest)
    | c :: rest =>
      if c.toNat < 0x20 then .error .malformed
      else do
        let (s, rest) ← readUsed fuel rest
        return (c :: s, rest)

/-- A string as it is skipped: what follows it. -/
def readSkipped : Nat → Text → Except Fault Text
  | 0, _ => .error .malformed
  | fuel + 1, t =>
    match t with
    | [] => .error .endOfText
    | '"' :: rest => .ok rest
    | '\\' :: 'u' :: rest => do
      let (_, rest) ← readUnit rest
      readSkipped fuel rest
    | '\\' :: [] => .error .endOfText
    | '\\' :: c :: rest =>
      if (escapes.lookup c).isSome then readSkipped fuel rest else .error .malformed
    | c :: rest => if c.toNat < 0x20 then .error .malformed else readSkipped fuel rest

/-- A string after its opening quote, and what follows. -/
def read (t : Text) : Except Break (Except Fault Text × Text) :=
  let used := readUsed (t.length + 1) t
  match readSkipped (t.length + 1) t, used with
  | .ok rest, used => .ok (used.map (·.1), rest)
  | .error skipped, .error used => .error ⟨used, skipped⟩
  | .error skipped, .ok _ => .error ⟨skipped, skipped⟩

end Highlighter.Json.String
