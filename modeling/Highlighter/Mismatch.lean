import Highlighter.Text.Quoted

/-!
What is wrong with a value in a document that does not have the form that is asked for.
-/
namespace Highlighter

/-- What was found in place of what was asked for. -/
inductive Found where
  | null
  | bool (b : Bool)
  | integer (n : Int)
  /-- A whole number beyond 64 bits. -/
  | wideInteger (n : Int) (type : Text)
  | float (text : Text)
  | string (t : Text)
  | sequence
  | map
  deriving DecidableEq, Repr

inductive Mismatch where
  | invalidType (found : Found) (expected : Text)
  | invalidLength (count : Nat) (expected : Text)
  | missingField (name : Text)
  | duplicateField (name : Text)
  /-- The name of a variant is none of those expected. -/
  | unknownVariant (name : Text) (expected : Text)
  deriving DecidableEq, Repr

/-- A whole number in decimal digits. -/
def Text.ofInt (n : Int) : Text :=
  if n < 0 then "-" ++ Text.ofNat n.natAbs else Text.ofNat n.natAbs

namespace Found

def describe : Found → Text
  | null => "null"
  | bool b => "boolean `" ++ (if b then "true" else "false" : Text) ++ "`"
  | integer n => "integer `" ++ Text.ofInt n ++ "`"
  | wideInteger n type => "integer `" ++ Text.ofInt n ++ "` as " ++ type
  | float text => "floating point `" ++ text ++ "`"
  | string t => "string " ++ t.quoted
  | sequence => "sequence"
  | map => "map"

end Found

namespace Mismatch

def message : Mismatch → Text
  | invalidType found expected => "invalid type: " ++ found.describe ++ ", expected " ++ expected
  | invalidLength count expected =>
    "invalid length " ++ Text.ofNat count ++ ", expected " ++ expected
  | missingField name => "missing field `" ++ name ++ "`"
  | duplicateField name => "duplicate field `" ++ name ++ "`"
  | unknownVariant name expected => "unknown variant `" ++ name ++ "`, expected " ++ expected

end Mismatch

end Highlighter
