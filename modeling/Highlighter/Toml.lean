import Highlighter.Decimal
import Highlighter.Dictionary
import Highlighter.Mismatch

/-!
TOML values.  The entries of a table stand in increasing order of their keys.
-/
namespace Highlighter

inductive Toml where
  | string (t : Text)
  | integer (n : Int)
  | float (x : Float)
  | bool (b : Bool)
  /-- A date, a time or both, in its written form. -/
  | datetime (t : Text)
  | array (items : List Toml)
  | table (entries : List (Text × Toml))

namespace Toml

/-- What a floating-point number is in a message. -/
def floatText (x : Float) : Text :=
  if x.isNaN then "NaN"
  else if x.isInf then (if x < 0 then "-inf" else "inf")
  else (Decimal.ofFloat x).positional

/-- What the value is in a message. -/
def found : Toml → Found
  | string t => .string t
  | integer n =>
    if n < (Nat.pow 2 64 : Int) && -(Nat.pow 2 63 : Int) ≤ n then .integer n
    else .wideInteger n (if n < (Nat.pow 2 127 : Int) then "i128" else "u128")
  | float x => .float (floatText x)
  | bool b => .bool b
  | datetime _ => .map
  | array _ => .sequence
  | table _ => .map

/-- The entries of a value that has some.  A date has itself under a name of its own. -/
def entries? : Toml → Option (List (Text × Toml))
  | table entries => some entries
  | datetime t => some [("$__toml_private_datetime", .string t)]
  | _ => none

end Toml

/-- How a table came to be while its document is read. -/
inductive Toml.Origin where
  /-- As a part of the name of another table. -/
  | implicit
  /-- As a part of a dotted key. -/
  | dotted
  /-- By a header of its own, or as the document or an inline table. -/
  | header
  deriving DecidableEq, Repr

mutual

/-- What stands under a key while the document is read. -/
inductive Toml.Item where
  | value (v : Toml)
  | table (t : Toml.Draft)
  /-- An array of tables that grows by headers; the latest table comes first. -/
  | tables (latest : Toml.Draft) (earlier : List Toml.Draft)

/-- A table while the document is read. -/
inductive Toml.Draft where
  | mk (origin : Toml.Origin) (entries : List (Text × Toml.Item))

end

namespace Toml.Draft

def origin : Draft → Origin
  | mk origin _ => origin

def entries : Draft → List (Text × Item)
  | mk _ entries => entries

/-- The table before any entry. -/
def start : Draft := mk .header []

/-- The table with an item under a key, in place of the item that is there. -/
def put (key : Text) (item : Item) (t : Draft) : Draft :=
  mk t.origin (Dictionary.insertInto key item t.entries)

/-- Changes the table that a path of keys leads to.  Tables on the way that do not exist yet are
made with the given origin.  A dotted key does not lead into a table that has a header. -/
def within (origin : Origin) (change : Draft → Option Draft) : List Text → Draft → Option Draft
  | [], t => change t
  | key :: path, t =>
    match t.entries.lookup key with
    | none => do return t.put key (.table (← within origin change path (mk origin [])))
    | some (.table s) =>
      if origin = .dotted && s.origin = .header then none
      else do return t.put key (.table (← within origin change path s))
    | some (.tables latest earlier) => do
      return t.put key (.tables (← within origin change path latest) earlier)
    | some (.value _) => none

/-- Enters a value under a dotted key. -/
def enter (path : List Text) (key : Text) (v : Toml) (t : Draft) : Option Draft :=
  within .dotted (fun s =>
    if path ≠ [] && s.origin ≠ .dotted then none
    else if (s.entries.lookup key).isSome then none
    else some (s.put key (.value v))) path t

/-- Opens a table by a header. -/
def openTable (path : List Text) (key : Text) (t : Draft) : Option Draft :=
  within .implicit (fun s =>
    match s.entries.lookup key with
    | none => some (s.put key (.table start))
    | some (.table (mk .implicit entries)) => some (s.put key (.table (mk .header entries)))
    | some _ => none) path t

/-- Opens a further table of an array of tables by a header. -/
def openNext (path : List Text) (key : Text) (t : Draft) : Option Draft :=
  within .implicit (fun s =>
    match s.entries.lookup key with
    | none => some (s.put key (.tables start []))
    | some (.tables latest earlier) => some (s.put key (.tables start (latest :: earlier)))
    | some _ => none) path t

end Toml.Draft

namespace Toml

mutual

/-- The value that stands under a key when the document has been read. -/
def Item.finish : Item → Toml
  | .value v => v
  | .table t => t.finish
  | .tables latest earlier => .array (Draft.finishAll earlier [latest.finish])

/-- The table when the document has been read. -/
def Draft.finish : Draft → Toml
  | .mk _ entries => .table (Draft.finishEntries entries)

def Draft.finishEntries : List (Text × Item) → List (Text × Toml)
  | [] => []
  | (key, item) :: entries => (key, item.finish) :: Draft.finishEntries entries

/-- The tables in order of the document, before those that are finished already. -/
def Draft.finishAll : List Draft → List Toml → List Toml
  | [], done => done
  | t :: earlier, done => Draft.finishAll earlier (t.finish :: done)

end

end Toml

end Highlighter
