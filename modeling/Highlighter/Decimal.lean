import Highlighter.Text

/-!
Decimal numbers and how they are written.  A floating-point number is written with the fewest digits
that are read back as the same number; of several such decimals the nearest one is taken.
-/
namespace Highlighter

/-- The number `digits · 10 ^ exponent`, or its negative. -/
structure Decimal where
  negative : Bool
  digits : Nat
  exponent : Int
  deriving DecidableEq, Repr

namespace Decimal

/-- The value `n · 2 ^ q` as a quotient. -/
def binaryQuotient (n : Nat) (q : Int) : Nat × Nat := (n * Nat.pow 2 q.toNat, Nat.pow 2 (-q).toNat)

/-- The exponent of the leading digit of `a / b`. -/
def leadingExponent (a b : Nat) : Int :=
  if b ≤ a then ((Nat.toDigits 10 (a / b)).length : Int) - 1
  else
    -- The first shift that brings the quotient to one or more.
    match (List.range 400).find? fun j => b ≤ a * Nat.pow 10 j with
    | some j => -j
    | none => 0

/-- The nearest multiple of `10 ^ e` to `mid`, if one of the two beside it lies between `low` and
`high`, all three over `den`.  The bounds count only if `closed`. -/
def gridPoint? (low mid high den : Nat) (closed : Bool) (e : Int) : Option Nat :=
  let s := Nat.pow 10 (-e).toNat
  let unit := den * Nat.pow 10 e.toNat
  let inside := fun (c : Nat) =>
    if closed then low * s ≤ c * unit && c * unit ≤ high * s
    else low * s < c * unit && c * unit < high * s
  let c := mid * s / unit
  let down := mid * s - c * unit
  let up := (c + 1) * unit - mid * s
  match inside c, inside (c + 1) with
  | true, true => some (if down < up || down == up && c % 2 == 0 then c else c + 1)
  | true, false => some c
  | false, true => some (c + 1)
  | false, false => none

/-- The shortest decimal among the numbers that round to `m · 2 ^ q`.  `close` says that the number
below is only half as far away as the number above. -/
def shortest (m : Nat) (q : Int) (close : Bool) : Nat × Int :=
  let (mid, den) := binaryQuotient (4 * m) (q - 2)
  let (low, _) := binaryQuotient (4 * m - if close then 1 else 2) (q - 2)
  let (high, _) := binaryQuotient (4 * m + 2) (q - 2)
  let lead := leadingExponent mid den
  let hit := (List.range 17).findSome? fun (n : Nat) =>
    let e := lead - (n : Int)
    (gridPoint? low mid high den (m % 2 == 0) e).map fun c => (c, e)
  hit.getD (0, 0)

/-- The decimal without zeros at the end of its digits. -/
def normal (d : Decimal) : Decimal :=
  let zeros := ((Nat.toDigits 10 d.digits).reverse.takeWhile (· == '0')).length
  if d.digits = 0 then { d with exponent := 0 }
  else { d with digits := d.digits / Nat.pow 10 zeros, exponent := d.exponent + zeros }

/-- The shortest decimal that is read back as a finite floating-point number. -/
def ofFloat (x : Float) : Decimal :=
  let bits := x.toBits.toNat
  let fraction : Nat := bits % Nat.pow 2 52
  let e : Nat := bits / Nat.pow 2 52 % Nat.pow 2 11
  let negative := bits / Nat.pow 2 63 == 1
  if e = 0 && fraction = 0 then ⟨negative, 0, 0⟩
  else
    let (m, q) : Nat × Int :=
      if e = 0 then (fraction, -1074) else (Nat.pow 2 52 + fraction, (e : Int) - 1075)
    let (digits, exponent) := shortest m q (fraction == 0 && e > 1)
    normal ⟨negative, digits, exponent⟩

/-- The number with a point and without an exponent; a whole number gets one place. -/
def positional (d : Decimal) : Text :=
  let digits := Text.ofNat d.digits
  let sign : Text := if d.negative then "-" else ""
  let point := (digits.length : Int) + d.exponent
  let body : Text :=
    if 0 ≤ d.exponent then digits ++ List.replicate d.exponent.toNat '0' ++ ".0"
    else if 0 < point then digits.take point.toNat ++ "." ++ digits.drop point.toNat
    else "0." ++ List.replicate (-point).toNat '0' ++ digits
  sign ++ body

/-- The number with one digit before the point and an exponent. -/
def scientific (d : Decimal) : Text :=
  let digits := Text.ofNat d.digits
  let sign : Text := if d.negative then "-" else ""
  let exponent := (digits.length : Int) + d.exponent - 1
  let fraction : Text := if digits.length = 1 then "" else "." ++ digits.drop 1
  let exponentSign : Text := if exponent < 0 then "-" else ""
  sign ++ digits.take 1 ++ fraction ++ "e" ++ exponentSign ++ Text.ofNat exponent.natAbs

/-- Positional within sixteen places before the point and five after it, else with an exponent. -/
def compact (d : Decimal) : Text :=
  let point := ((Text.ofNat d.digits).length : Int) + d.exponent
  if d.digits = 0 || -5 < point && point ≤ 16 then d.positional else d.scientific

end Decimal

end Highlighter
