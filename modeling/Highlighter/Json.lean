import Highlighter.Decimal
import Highlighter.Mismatch

/-!
JSON values as far as a text can be read.  Reading never fails: where the text is no JSON, the value
holds a break that tells why.  What is wrong can depend on whether the value is used or skipped,
since less is asked of a skipped value.
-/
namespace Highlighter

/-- Why a text cannot be read on. -/
inductive Json.Fault where
  | malformed
  /-- The text ended too early. -/
  | endOfText
  deriving DecidableEq, Repr

/-- The place where reading ended: what is wrong with it in a value that is used, and in one that is
skipped. -/
structure Json.Break where
  used : Json.Fault
  skipped : Json.Fault
  deriving DecidableEq, Repr

namespace Json.Break

def malformed : Break := ⟨.malformed, .malformed⟩

def endOfText : Break := ⟨.endOfText, .endOfText⟩

end Json.Break

/-- A number in the widest type that holds it. -/
inductive Json.Number where
  | integer (n : Int)
  | float (x : Float)

inductive Json where
  | null
  | bool (b : Bool)
  /-- A number that is too great can only be skipped. -/
  | number (n : Except Json.Fault Json.Number)
  /-- A string with half of a surrogate pair can only be skipped. -/
  | string (t : Except Json.Fault Text)
  /-- The items, and the break in place of the closing bracket if there is one. -/
  | array (items : List Json) (ending : Option Json.Break)
  /-- The members, and the break in place of a further key or the closing brace if there is one. -/
  | object (members : List (Except Json.Fault Text × Json)) (ending : Option Json.Break)
  | broken (b : Json.Break)

namespace Json

/-- What the number is in a message. -/
def Number.found : Number → Found
  | integer n => .integer n
  | float x => .float (Decimal.ofFloat x).compact

/-- Why a document is not accepted. -/
inductive Problem where
  | fault (f : Fault)
  | mismatch (m : Mismatch)
  deriving DecidableEq, Repr

/-- What is wrong where something else was asked for.  A scalar is read to its end first. -/
def problem (expected : Text) : Json → Problem
  | null => .mismatch (.invalidType .null expected)
  | bool b => .mismatch (.invalidType (.bool b) expected)
  | number (.ok n) => .mismatch (.invalidType n.found expected)
  | number (.error f) => .fault f
  | string (.ok t) => .mismatch (.invalidType (.string t) expected)
  | string (.error f) => .fault f
  | array _ _ => .mismatch (.invalidType .sequence expected)
  | object _ _ => .mismatch (.invalidType .map expected)
  | broken b => .fault b.used

mutual

/-- The first fault in a value that is skipped. -/
def skipFault? : Json → Option Fault
  | array items ending => (skipItems? items).or (ending.map (·.skipped))
  | object members ending => (skipMembers? members).or (ending.map (·.skipped))
  | broken b => some b.skipped
  | null | bool _ | number _ | string _ => none

def skipItems? : List Json → Option Fault
  | [] => none
  | v :: items => v.skipFault?.or (skipItems? items)

def skipMembers? : List (Except Fault Text × Json) → Option Fault
  | [] => none
  | (_, v) :: members => v.skipFault?.or (skipMembers? members)

end

/-- Reading a value for use. -/
abbrev Decoder (α : Type) := Json → Except Problem α

def skip : Decoder Unit := fun v =>
  match v.skipFault? with
  | some f => .error (.fault f)
  | none => .ok ()

/-- What comes of the break in place of a closing bracket or brace. -/
def close (ending : Option Break) : Except Problem Unit :=
  match ending with
  | some b => .error (.fault b.used)
  | none => .ok ()

def text : Decoder Text
  | string (.ok t) => .ok t
  | v => .error (v.problem "a string")

/-- An array whose items are all read by `item`. -/
def list {α : Type} (item : Decoder α) : Decoder (List α)
  | array items ending => do
    let all ← items.mapM item
    close ending
    return all
  | v => .error (v.problem "a sequence")

end Json

end Highlighter
