import Highlighter.Sample
import Highlighter.Sample.Bundled

/-!
A catalog of samples with an example.
-/
namespace Highlighter

structure Catalog where
  exampleLines : List Text
  samples : List Sample
  deriving DecidableEq, Repr

namespace Catalog

/-- The fields of a document seen so far. -/
structure Draft where
  exampleLines : Option (List Text)
  samples : Option (List Sample)

/-- Reads one more member of a document.  Members of other names are skipped. -/
def Draft.add (d : Draft) : Except Json.Fault Text × Json → Except Json.Problem Draft
  | (.error f, _) => .error (.fault f)
  | (.ok key, v) =>
    if key = "example".toList then
      (Json.onceField key d.exampleLines (Json.list Json.text) v).map fun exampleLines =>
        { d with exampleLines }
    else if key = "samples".toList then
      (Json.onceField key d.samples (Json.list Sample.decoder) v).map fun samples =>
        { d with samples }
    else (Json.skip v).map fun _ => d

/-- A document is an object with samples and perhaps an example, or an array of an example and
samples. -/
def decoder : Json.Decoder Catalog
  | .object members ending => do
    let d ← members.foldlM Draft.add ⟨none, none⟩
    Json.close ending
    let samples ← Json.neededField "samples" d.samples
    return ⟨d.exampleLines.getD [], samples⟩
  | .array items ending => do
    let expected : Text := "struct SampleDocument with 2 elements"
    match items with
    | [] =>
      Json.close ending
      throw (.mismatch (.invalidLength 1 expected))
    | v :: items =>
      let exampleLines ← Json.list Json.text v
      let (samples, items) ← Json.nextItem (Json.list Sample.decoder) expected ending 1 items
      Json.noMoreItems ending items
      return ⟨exampleLines, samples⟩
  | v => .error (v.problem "struct SampleDocument")

/-- The catalog that a JSON text describes. -/
def ofJson (json : Text) : Except Json.Problem Catalog := Json.decode decoder json

/-- The samples of the catalog that a JSON text describes, in the order of the text. -/
def samplesOfJson (json : Text) : Except Json.Problem (List Sample) := (ofJson json).map samples

/-- What there is to say about having read a catalog. -/
def loadEvents (c : Catalog) : List Event := [.loadedSamples c.samples.length]

/-- The example as plain text. -/
def exampleText (c : Catalog) : Text := Text.unlines c.exampleLines

/-- Each sample in HTML, formatted for its own language. -/
def formatted (c : Catalog) (r : Registry) : List Text := c.samples.map (·.html r)

/-- All samples in HTML. -/
def html (c : Catalog) (r : Registry) : Text := Text.unlines (c.formatted r)

/-- What there is to say about writing all samples in HTML. -/
def events (c : Catalog) (r : Registry) : List Event := c.samples.flatMap (·.events r)

end Catalog

end Highlighter
