import Highlighter.Json.Reading
import Highlighter.Registry

/-!
Samples: a described piece of code with the tag of its language.
-/
namespace Highlighter

structure Sample where
  name : Text
  format : Text
  description : Text
  code : Text
  deriving DecidableEq, Repr

namespace Json

/-- The next item of an array that has to have a certain number of items; `count` items came
before. -/
def nextItem {α : Type} (item : Decoder α) (expected : Text) (ending : Option Break) (count : Nat) :
    List Json → Except Problem (α × List Json)
  | v :: items => (item v).map (·, items)
  | [] => do
    close ending
    throw (.mismatch (.invalidLength count expected))

/-- The end of an array that has to have a certain number of items. -/
def noMoreItems (ending : Option Break) : List Json → Except Problem Unit
  | [] => close ending
  | _ :: _ => .error (.fault .malformed)

/-- A field that may occur only once. -/
def onceField {α : Type} (name : Text) (seen : Option α) (decoder : Decoder α) (v : Json) :
    Except Problem (Option α) :=
  match seen with
  | some _ => .error (.mismatch (.duplicateField name))
  | none => (decoder v).map some

/-- A field that has to occur. -/
def neededField {α : Type} (name : Text) (seen : Option α) : Except Problem α :=
  match seen with
  | some a => .ok a
  | none => .error (.mismatch (.missingField name))

end Json

namespace Sample

/-- The fields of a record seen so far. -/
structure Draft where
  name : Option Text
  format : Option Text
  description : Option (List Text)
  code : Option (List Text)

/-- Reads one more member of a record.  Members of other names are skipped. -/
def Draft.add (d : Draft) : Except Json.Fault Text × Json → Except Json.Problem Draft
  | (.error f, _) => .error (.fault f)
  | (.ok key, v) =>
    if key = "name".toList then
      (Json.onceField key d.name Json.text v).map fun name => { d with name }
    else if key = "format".toList then
      (Json.onceField key d.format Json.text v).map fun format => { d with format }
    else if key = "description".toList then
      (Json.onceField key d.description (Json.list Json.text) v).map fun description =>
        { d with description }
    else if key = "code".toList then
      (Json.onceField key d.code (Json.list Json.text) v).map fun code => { d with code }
    else (Json.skip v).map fun _ => d

/-- The sample of a record: the lines of its description and its code are joined. -/
def ofLines (name format : Text) (description code : List Text) : Sample :=
  ⟨name, format, Text.unlines description, Text.unlines code⟩

def Draft.sample (d : Draft) : Except Json.Problem Sample := do
  let name ← Json.neededField "name" d.name
  let format ← Json.neededField "format" d.format
  let description ← Json.neededField "description" d.description
  let code ← Json.neededField "code" d.code
  return ofLines name format description code

/-- A record is an object with its four fields, or an array of them in order. -/
def decoder : Json.Decoder Sample
  | .object members ending => do
    let d ← members.foldlM Draft.add ⟨none, none, none, none⟩
    Json.close ending
    d.sample
  | .array items ending => do
    let expected : Text := "struct RawSample with 4 elements"
    let (name, items) ← Json.nextItem Json.text expected ending 0 items
    let (format, items) ← Json.nextItem Json.text expected ending 1 items
    let (description, items) ← Json.nextItem (Json.list Json.text) expected ending 2 items
    let (code, items) ← Json.nextItem (Json.list Json.text) expected ending 3 items
    Json.noMoreItems ending items
    return ofLines name format description code
  | v => .error (v.problem "struct RawSample")

/-- The sample that a JSON text describes. -/
def ofJson (json : Text) : Except Json.Problem Sample := Json.decode decoder json

/-- A newline is a line break in HTML. -/
def breakLines (t : Text) : Text := t.flatMap fun c => if c = '\n' then "<br/>" else [c]

/-- The description in HTML. -/
def descriptionHtml (s : Sample) : Text := "<p>" ++ breakLines s.description ++ "</p>"

/-- The code as an engine formats it. -/
def codeHtml (s : Sample) (e : Engine) : Text := e.format s.code

/-- The description followed by the code. -/
def html (s : Sample) (r : Registry) : Text := s.descriptionHtml ++ s.codeHtml (r.get s.format)

/-- What there is to say about writing the sample in HTML. -/
def events (s : Sample) (r : Registry) : List Event :=
  r.lookupEvents s.format ++ (r.get s.format).events s.code

end Sample

end Highlighter
