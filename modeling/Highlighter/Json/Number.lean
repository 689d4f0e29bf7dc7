import Highlighter.Json

/-!
Reading the numbers of a JSON text.  Whole numbers of up to 64 bits are kept as such; every other
number becomes a floating-point number, computed from as many leading digits as fit in 64 bits.
-/
namespace Highlighter.Json.Number

def digitValue (c : Char) : Nat := c.toNat - '0'.toNat

/-- Adds a digit to a significand, if the sum still has 64 bits. -/
def addDigit? (significand : Nat) (c : Char) : Option Nat :=
  let n := 10 * significand + digitValue c
  if n < Nat.pow 2 64 then some n else none

/-- The digits that go into a significand: its value, how many went in, and the digits left over. -/
def addDigits (significand : Nat) : Text → Nat × Nat × Text
  | [] => (significand, 0, [])
  | c :: digits =>
    match addDigit? significand c with
    | none => (significand, 0, c :: digits)
    | some n =>
      let (s, count, left) := addDigits n digits
      (s, count + 1, left)

/-- The value `significand · 10 ^ exponent`, if it is finite. -/
def scale? (significand : Nat) (exponent : Int) : Option Float :=
  let power := fun (n : Nat) => Float.ofScientific 1 false n
  let x := significand.toUInt64.toFloat
  if 0 ≤ exponent then
    if significand = 0 then some 0
    else if 308 < exponent then none
    else
      let y := x * power exponent.toNat
      if y.isInf then none else some y
  else if significand = 0 then some 0
  else some (down x (-exponent).toNat ((-exponent).toNat / 308 + 1))
where
  /-- Divides by `10 ^ n`, in steps of at most `10 ^ 308`. -/
  down (x : Float) (n : Nat) : Nat → Float
    | 0 => x
    | steps + 1 =>
      if n ≤ 308 then x / Float.ofScientific 1 false n
      else if x == 0 then x
      else down (x / Float.ofScientific 1 false 308) (n - 308) steps

/-- The parts of a number: the sign, the digits before and after the point, and the exponent. -/
structure Parts where
  negative : Bool
  whole : Text
  fraction : Option Text
  exponent : Option (Bool × Text)

/-- The greatest exponent that is computed with. -/
def exponentLimit : Nat := 2147483647

/-- The value of the parts, if it is not too great. -/
def Parts.value? (p : Parts) : Option Number :=
  let (significand, _, left) := addDigits 0 p.whole
  let signed := fun (x : Float) => if p.negative then -x else x
  if left = [] && p.fraction.isNone && p.exponent.isNone then
    if p.negative then
      if significand = 0 || Nat.pow 2 63 < significand then
        some (.float (signed significand.toUInt64.toFloat))
      else some (.integer (-significand))
    else some (.integer significand)
  else
    let (significand, places, _) := addDigits significand (p.fraction.getD [])
    let shift : Int := (left.length : Int) - (places : Int)
    match p.exponent with
    | none => (scale? significand shift).map fun x => .float (signed x)
    | some (down, digits) =>
      let e := digits.foldl (fun n c => 10 * n + digitValue c) 0
      if exponentLimit < e then
        if significand ≠ 0 && !down then none else some (.float (signed 0))
      else
        (scale? significand (if down then shift - e else shift + e)).map fun x => .float (signed x)

/-- Why a number ends where a digit has to stand.  Only a number in use minds that the text ends. -/
def missingDigit : Text → Break
  | [] => ⟨.endOfText, .malformed⟩
  | _ => .malformed

/-- The exponent of a number, if there is one, and what follows. -/
def readExponent (t : Text) : Except Break (Option (Bool × Text) × Text) :=
  let afterLetter := fun (t : Text) =>
    let (down, t) : Bool × Text := match t with
      | '+' :: t => (false, t)
      | '-' :: t => (true, t)
      | t => (false, t)
    let digits := t.takeWhile Char.isDigit
    if digits = [] then .error (missingDigit t)
    else .ok (some (down, digits), t.dropWhile Char.isDigit)
  match t with
  | 'e' :: t | 'E' :: t => afterLetter t
  | t => .ok (none, t)

/-- The fraction of a number, if there is one, and what follows. -/
def readFraction : Text → Except Break (Option Text × Text)
  | '.' :: t =>
    let digits := t.takeWhile Char.isDigit
    if digits = [] then .error (missingDigit t)
    else .ok (some digits, t.dropWhile Char.isDigit)
  | t => .ok (none, t)

/-- The digits before the point, without a superfluous zero, and what follows. -/
def readWhole (t : Text) : Except Break (Text × Text) :=
  match t.takeWhile Char.isDigit with
  | [] => .error (missingDigit t)
  | '0' :: _ :: _ => .error .malformed
  | digits => .ok (digits, t.dropWhile Char.isDigit)

/-- A number after its sign, and what follows. -/
def read (negative : Bool) (t : Text) : Except Break (Except Fault Number × Text) := do
  let (whole, t) ← readWhole t
  let (fraction, t) ← readFraction t
  let (exponent, t) ← readExponent t
  let value : Except Fault Number :=
    match (Parts.mk negative whole fraction exponent).value? with
    | some n => .ok n
    | none => .error .malformed
  return (value, t)

end Highlighter.Json.Number
