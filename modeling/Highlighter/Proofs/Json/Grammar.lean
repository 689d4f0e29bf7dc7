import Highlighter.Json.Number

/-! The grammar of JSON texts: which texts spell a value, said without reading them. A string is
spelled with the characters that it stands for; one in which half of a surrogate pair stands alone
stands for no text, but is a string all the same. -/
namespace Highlighter.Json

/-- White space between the parts of a text. -/
def Blank (t : Text) : Prop := ∀ c ∈ t, c = ' ' ∨ c = '\n' ∨ c = '\t' ∨ c = '\r'

namespace String

/-- A hexadecimal digit, small or capital, and its value. -/
def HexDigit (c : Char) (n : Nat) : Prop :=
  n < 16 ∧ (c = Nat.digitChar n ∨ c = (Nat.digitChar n).toUpper)

/-- Four hexadecimal digits and their value. -/
inductive CodeUnit : Text → Nat → Prop
  | digits {a b c d : Char} {i j k l : Nat} (ha : HexDigit a i) (hb : HexDigit b j)
      (hc : HexDigit c k) (hd : HexDigit d l) :
      CodeUnit [a, b, c, d] (0x1000 * i + 0x100 * j + 0x10 * k + l)

/-- A letter that stands behind a backslash, and the character that both stand for. -/
inductive Escape : Char → Char → Prop
  | quote : Escape '"' '"'
  | backslash : Escape '\\' '\\'
  | slash : Escape '/' '/'
  | backspace : Escape 'b' '\x08'
  | formFeed : Escape 'f' '\x0c'
  | newline : Escape 'n' '\n'
  | carriageReturn : Escape 'r' '\r'
  | tab : Escape 't' '\t'

/-- A character that stands for itself. -/
def Plain (c : Char) : Prop := c ≠ '"' ∧ c ≠ '\\' ∧ 0x20 ≤ c.toNat

/-- `Spells w t`: between quotes, `w` stands for `t`. -/
inductive Spells : Text → Text → Prop
  | nil : Spells [] []
  | plain {c : Char} {w t : Text} (hc : Plain c) (h : Spells w t) : Spells (c :: w) (c :: t)
  | escape {e c : Char} {w t : Text} (he : Escape e c) (h : Spells w t) :
      Spells ('\\' :: e :: w) (c :: t)
  | unit {u w t : Text} {n : Nat} (hu : CodeUnit u n) (hn : n < 0xD800 ∨ 0xDFFF < n)
      (h : Spells w t) : Spells ('\\' :: 'u' :: (u ++ w)) (Char.ofNat n :: t)
  | pair {u v w t : Text} {high low : Nat} (hu : CodeUnit u high) (hv : CodeUnit v low)
      (hhigh : 0xD800 ≤ high ∧ high ≤ 0xDBFF) (hlow : 0xDC00 ≤ low ∧ low ≤ 0xDFFF)
      (h : Spells w t) :
      Spells ('\\' :: 'u' :: (u ++ '\\' :: 'u' :: (v ++ w)))
        (Char.ofNat (0x10000 + (high - 0xD800) * 0x400 + (low - 0xDC00)) :: t)

/-- Between quotes, `w` is a string. The halves of surrogate pairs may stand alone in it. -/
inductive Formed : Text → Prop
  | nil : Formed []
  | plain {c : Char} {w : Text} (hc : Plain c) (h : Formed w) : Formed (c :: w)
  | escape {e c : Char} {w : Text} (he : Escape e c) (h : Formed w) : Formed ('\\' :: e :: w)
  | unit {u w : Text} {n : Nat} (hu : CodeUnit u n) (h : Formed w) :
      Formed ('\\' :: 'u' :: (u ++ w))

/-- A text with its quotes, and what it stands for if it stands for anything. -/
inductive Quoted : Text → Except Fault Text → Prop
  | text {w t : Text} (h : Spells w t) : Quoted ('"' :: (w ++ ['"'])) (.ok t)
  | unpaired {w : Text} (h : Formed w) (hnone : ∀ t, ¬ Spells w t) :
      Quoted ('"' :: (w ++ ['"'])) (.error .malformed)

theorem Spells.formed {w t : Text} (h : Spells w t) : Formed w := by
  induction h with
  | nil => exact .nil
  | plain hc _ ih => exact .plain hc ih
  | escape he _ ih => exact .escape he ih
  | unit hu _ _ ih => exact .unit hu ih
  | pair hu hv _ _ _ ih => exact .unit hu (.unit hv ih)

end String

namespace Number

def Digits (ds : Text) : Prop := ds ≠ [] ∧ ∀ c ∈ ds, c.isDigit = true

/-- The digits before the point: a zero stands first only if it stands alone. -/
def Whole (ds : Text) : Prop := Digits ds ∧ (ds.head? = some '0' → ds = ['0'])

inductive Fraction : Text → Option Text → Prop
  | none : Fraction [] none
  | some {ds : Text} (h : Digits ds) : Fraction ('.' :: ds) (some ds)

/-- The sign of an exponent, and whether it is negative. -/
inductive Sign : Text → Bool → Prop
  | none : Sign [] false
  | plus : Sign ['+'] false
  | minus : Sign ['-'] true

inductive Exponent : Text → Option (Bool × Text) → Prop
  | none : Exponent [] none
  | some {e : Char} {sign ds : Text} {down : Bool} (he : e = 'e' ∨ e = 'E') (hs : Sign sign down)
      (h : Digits ds) : Exponent (e :: (sign ++ ds)) (some (down, ds))

/-- The number that the parts give, if it is not too great. -/
def Parts.number (p : Parts) : Except Fault Number :=
  match p.value? with
  | some n => .ok n
  | none => .error .malformed

/-- `Spells negative w n`: behind its sign, `w` is the number `n`. -/
inductive Spells (negative : Bool) : Text → Except Fault Number → Prop
  | parts {whole f e : Text} {fraction : Option Text} {exponent : Option (Bool × Text)}
      (hw : Whole whole) (hf : Fraction f fraction) (he : Exponent e exponent) :
      Spells negative (whole ++ (f ++ e)) (Parts.mk negative whole fraction exponent).number

end Number

/-- What a part of a text can be. -/
inductive Phrase where
  | value (v : Json)
  /-- A value with white space around it. -/
  | padded (v : Json)
  /-- The items of an array, with its closing bracket. -/
  | items (vs : List Json)
  /-- The members of an object, with its closing brace. -/
  | members (ms : List (Except Fault Text × Json))

inductive Spells : Text → Phrase → Prop
  | null : Spells ['n', 'u', 'l', 'l'] (.value null)
  | true : Spells ['t', 'r', 'u', 'e'] (.value (bool true))
  | false : Spells ['f', 'a', 'l', 's', 'e'] (.value (bool false))
  | number {w : Text} {n : Except Fault Number} (h : Number.Spells false w n) :
      Spells w (.value (number n))
  | negative {w : Text} {n : Except Fault Number} (h : Number.Spells true w n) :
      Spells ('-' :: w) (.value (number n))
  | string {w : Text} {t : Except Fault Text} (h : String.Quoted w t) :
      Spells w (.value (string t))
  | emptyArray {b : Text} (hb : Blank b) : Spells ('[' :: (b ++ [']'])) (.value (array [] none))
  | array {w : Text} {vs : List Json} (h : Spells w (.items vs)) :
      Spells ('[' :: w) (.value (array vs none))
  | emptyObject {b : Text} (hb : Blank b) :
      Spells ('\x7b' :: (b ++ ['\x7d'])) (.value (object [] none))
  | object {w : Text} {ms : List (Except Fault Text × Json)} (h : Spells w (.members ms)) :
      Spells ('\x7b' :: w) (.value (object ms none))
  | padded {b w b' : Text} {v : Json} (hb : Blank b) (h : Spells w (.value v)) (hb' : Blank b') :
      Spells (b ++ (w ++ b')) (.padded v)
  | lastItem {w : Text} {v : Json} (h : Spells w (.padded v)) : Spells (w ++ [']']) (.items [v])
  | item {w ws : Text} {v : Json} {vs : List Json} (h : Spells w (.padded v))
      (later : Spells ws (.items vs)) : Spells (w ++ ',' :: ws) (.items (v :: vs))
  | lastMember {b k b' w : Text} {key : Except Fault Text} {v : Json} (hb : Blank b)
      (hk : String.Quoted k key) (hb' : Blank b') (h : Spells w (.padded v)) :
      Spells (b ++ (k ++ (b' ++ ':' :: (w ++ ['\x7d'])))) (.members [(key, v)])
  | member {b k b' w ws : Text} {key : Except Fault Text} {v : Json}
      {ms : List (Except Fault Text × Json)} (hb : Blank b) (hk : String.Quoted k key)
      (hb' : Blank b') (h : Spells w (.padded v)) (later : Spells ws (.members ms)) :
      Spells (b ++ (k ++ (b' ++ ':' :: (w ++ ',' :: ws)))) (.members ((key, v) :: ms))

/-- The text is one value and nothing else. -/
abbrev IsText (t : Text) (v : Json) : Prop := Spells t (.padded v)

end Highlighter.Json
