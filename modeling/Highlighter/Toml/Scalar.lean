import Highlighter.Toml

/-!
The scalars of TOML that are written without quotes: numbers, truth values, dates and times.
-/
namespace Highlighter.Toml

def digitValue (c : Char) : Nat :=
  if c.isDigit then c.toNat - '0'.toNat
  else if 'a' ≤ c && c ≤ 'f' then c.toNat - 'a'.toNat + 10
  else c.toNat - 'A'.toNat + 10

/-- The number that digits write in a base. -/
def numeral (base : Nat) (digits : Text) : Nat :=
  digits.foldl (fun n c => base * n + digitValue c) 0

/-- The digits of a group in which single underscores may stand between two digits. -/
def plainDigits? (isDigit : Char → Bool) : Text → Option Text
  | [] => none
  | [c] => if isDigit c then some [c] else none
  | c :: '_' :: t => if isDigit c then (plainDigits? isDigit t).map (c :: ·) else none
  | c :: t => if isDigit c then (plainDigits? isDigit t).map (c :: ·) else none

def isHexDigit (c : Char) : Bool := c.isDigit || 'a' ≤ c && c ≤ 'f' || 'A' ≤ c && c ≤ 'F'

/-- The decimal digits of a whole number without a superfluous zero. -/
def wholeDigits? (t : Text) : Option Text :=
  match t with
  | '0' :: _ :: _ => none
  | t => plainDigits? Char.isDigit t

/-- The sign of a number and what follows it. -/
def splitSign : Text → Bool × Text
  | '+' :: t => (false, t)
  | '-' :: t => (true, t)
  | t => (false, t)

/-- A whole number of at most 128 bits. -/
def integer? (t : Text) : Option Int :=
  let bounded := fun (n : Int) =>
    if -(Nat.pow 2 127 : Int) ≤ n && n < (Nat.pow 2 128 : Int) then some n else none
  match t with
  | '0' :: 'x' :: t => do bounded (numeral 16 (← plainDigits? isHexDigit t))
  | '0' :: 'o' :: t => do bounded (numeral 8 (← plainDigits? (fun c => '0' ≤ c && c ≤ '7') t))
  | '0' :: 'b' :: t => do bounded (numeral 2 (← plainDigits? (fun c => c = '0' || c = '1') t))
  | t => do
    let (negative, t) := splitSign t
    let n : Int := numeral 10 (← wholeDigits? t)
    bounded (if negative then -n else n)

/-- A floating-point number: the nearest one to what is written. -/
def float? (t : Text) : Option Float := do
  let (negative, t) := splitSign t
  let signed := fun (x : Float) => if negative then -x else x
  if t = "inf".toList then return signed (1 / 0)
  if t = "nan".toList then return 0 / 0
  let isMark := fun (c : Char) => c = '.' || c = 'e' || c = 'E'
  let whole ← wholeDigits? (t.takeWhile (!isMark ·))
  let t := t.dropWhile (!isMark ·)
  let (fraction, t) ← match t with
    | '.' :: t => do
      let digits ← plainDigits? Char.isDigit (t.takeWhile (!isMark ·))
      pure (digits, t.dropWhile (!isMark ·))
    | t => pure ([], t)
  let exponent : Int ← match t with
    | [] => if fraction = [] then none else pure 0
    | '.' :: _ => none
    | _ :: t => do
      let (down, t) := splitSign t
      let e : Int := numeral 10 (← plainDigits? Char.isDigit t)
      pure (if down then -e else e)
  let digits := numeral 10 (whole ++ fraction)
  let shift := exponent - fraction.length
  if digits = 0 then return signed 0
  if shift > 400 then return signed (1 / 0)
  if shift < -(400 + (whole ++ fraction).length : Int) then return signed 0
  return signed (Float.ofScientific digits (shift < 0) shift.natAbs)

/-- The value of two decimal digits. -/
def twoDigits? : Text → Option (Nat × Text)
  | a :: b :: t => if a.isDigit && b.isDigit then some (numeral 10 [a, b], t) else none
  | _ => none

def isLeapYear (year : Nat) : Bool := year % 4 = 0 && (year % 100 ≠ 0 || year % 400 = 0)

def daysOfMonth (year month : Nat) : Nat :=
  if month = 2 then (if isLeapYear year then 29 else 28)
  else if month = 4 || month = 6 || month = 9 || month = 11 then 30
  else 31

/-- A date and what follows it. -/
def date? (t : Text) : Option (Text × Text) := do
  let (century, r) ← twoDigits? t
  let (year, r) ← twoDigits? r
  let '-' :: r := r | none
  let (month, r) ← twoDigits? r
  let '-' :: r := r | none
  let (day, r) ← twoDigits? r
  if 1 ≤ month && month ≤ 12 && 1 ≤ day && day ≤ daysOfMonth (100 * century + year) month then
    some (t.take 10, r)
  else none

/-- Hours and minutes, and what follows. -/
def hourMinute? (t : Text) : Option (Text × Text) := do
  let (hour, r) ← twoDigits? t
  let ':' :: r := r | none
  let (minute, r) ← twoDigits? r
  if hour < 24 && minute < 60 then some (t.take 5, r) else none

/-- A time and what follows it.  Seconds may be missing. -/
def time? (t : Text) : Option (Text × Text) := do
  let (start, r) ← hourMinute? t
  match r with
  | ':' :: r =>
    let (second, r') ← twoDigits? r
    if second > 60 then none
    match r' with
    | '.' :: f =>
      let digits := f.takeWhile Char.isDigit
      if digits = [] then none
      some (start ++ ":" ++ r.take 2 ++ "." ++ digits, f.dropWhile Char.isDigit)
    | r' => some (start ++ ":" ++ r.take 2, r')
  | r => some (start, r)

/-- The offset of a time, if there is one, as the whole of a text. -/
def offset? (t : Text) : Option Text :=
  match t with
  | [] => some []
  | ['Z'] | ['z'] => some ['Z']
  | sign :: t => do
    if sign ≠ '+' && sign ≠ '-' then none
    let (clock, rest) ← hourMinute? t
    if rest = [] then some (sign :: clock) else none

/-- A date, a time or both. -/
def datetime? (t : Text) : Option Text :=
  match date? t with
  | some (date, []) => some date
  | some (date, separator :: t) => do
    if separator ≠ 'T' && separator ≠ 't' && separator ≠ ' ' then none
    let (time, rest) ← time? t
    return date ++ "T" ++ time ++ (← offset? rest)
  | none =>
    match time? t with
    | some (time, []) => some time
    | _ => none

/-- The scalar that an unquoted word writes. -/
def scalar? (t : Text) : Option Toml :=
  if t = "true".toList then some (.bool true)
  else if t = "false".toList then some (.bool false)
  else ((integer? t).map .integer).or (((float? t).map .float).or ((datetime? t).map .datetime))

end Highlighter.Toml
