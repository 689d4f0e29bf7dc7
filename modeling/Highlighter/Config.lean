import Highlighter.Event
import Highlighter.Style
import Highlighter.Toml.Reading

/-!
The configuration: how spans are styled, the style of the whole sample, and colours.
-/
namespace Highlighter

structure Config where
  mode : StyleMode
  containerStyle : Option Text
  /-- Colours under the names of categories; other names are allowed and have no effect. -/
  colors : Dictionary Text
  deriving DecidableEq, Repr

namespace Config

/-- Why a text is no configuration. -/
inductive Problem where
  | malformed
  | mismatch (m : Mismatch)
  /-- A style mode is neither a name nor a table with one entry. -/
  | noMode
  deriving DecidableEq, Repr

def default : Config := ⟨.inline, none, .empty⟩

/-- What is wrong where something else was asked for. -/
def problem (expected : Text) (v : Toml) : Problem := .mismatch (.invalidType v.found expected)

def readText (v : Toml) : Except Problem Text :=
  match v with
  | .string t => .ok t
  | v => .error (problem "a string" v)

/-- The mode of a name. -/
def namedMode (name : Text) : Except Problem StyleMode :=
  match StyleMode.ofName? name with
  | some m => .ok m
  | none => .error (.mismatch (.unknownVariant name "`inline` or `class`"))

/-- A mode is a name, or a table with an empty value under a name. -/
def readMode (v : Toml) : Except Problem StyleMode :=
  match v with
  | .string name => namedMode name
  | .table [(name, content)] => do
    let m ← namedMode name
    match content with
    | .array [] | .table [] => return m
    | _ => throw .noMode
  | _ => .error .noMode

/-- The settings of the section `global`: a table, or an array of a mode and a container style. -/
def readGlobal (v : Toml) : Except Problem (StyleMode × Option Text) :=
  match v with
  | .array items => do
    let m ← match items[0]? with
      | some v => readMode v
      | none => pure default.mode
    let style ← match items[1]? with
      | some v => some <$> readText v
      | none => pure none
    return (m, style)
  | v =>
    match v.entries? with
    | none => .error (problem "struct GlobalConfig" v)
    | some entries => do
      let style ← match entries.lookup "container-style".toList with
        | some v => some <$> readText v
        | none => pure none
      let m ← match entries.lookup "style".toList with
        | some v => readMode v
        | none => pure default.mode
      return (m, style)

/-- The colours of the section `colors`. -/
def readColors (v : Toml) : Except Problem (Dictionary Text) :=
  match v.entries? with
  | none => .error (problem "a map" v)
  | some entries => do
    let entries ← entries.mapM fun (key, v) => return (key, ← readText v)
    return .ofEntries entries

/-- The configuration of a document.  Other sections are ignored. -/
def ofToml (document : Toml) : Except Problem Config := do
  let entries := document.entries?.getD []
  let colors ← match entries.lookup "colors".toList with
    | some v => readColors v
    | none => pure .empty
  let (mode, containerStyle) ← match entries.lookup "global".toList with
    | some v => readGlobal v
    | none => pure (default.mode, none)
  return ⟨mode, containerStyle, colors⟩

/-- The configuration that a text writes. -/
def ofText (t : Text) : Except Problem Config :=
  match Toml.ofText? t with
  | some document => ofToml document
  | none => .error .malformed

/-- Sets the colour under a name, if it is the name of a category. -/
def addColor (p : Palette) (entry : Text × Text) : Palette :=
  match Category.ofName? entry.1 with
  | some c => p.set c entry.2
  | none => p

/-- The styler of a configuration. -/
def styler (c : Config) : Styler where
  mode := c.mode
  palette := c.colors.entries.foldl addColor Palette.default
  containerStyle := c.containerStyle.getD Styler.defaultContainerStyle

/-- What there is to say about making the styler. -/
def stylerEvents (c : Config) : List Event :=
  (c.colors.names.filter fun name => (Category.ofName? name).isNone).map .unknownColor

/-- The name of the configuration file of a directory. -/
def fileName : Text := ".lavendeux-syntax.toml"

/-- The text of a new configuration file. -/
def defaultText : Text := Text.unlines [
  "# lavendeux-syntax configuration file",
  "",
  "[global]",
  "# How highlighted spans are styled: \"inline\" (style attributes) or \"class\" (class names)",
  "style = \"inline\"",
  "",
  "# Style of the outer <pre> element in inline mode",
  "# container-style = \"background-color: #1f2937; color: #e5e7eb;\"",
  "",
  "# Colour overrides per category (inline mode only)",
  "[colors]",
  "# comment = \"#33cc33\"",
  "# string = \"#b1cbff\"",
  "# data = \"#6699ff\"",
  "# radix = \"#cc00cc\"",
  "# decorator = \"#cc3300\"",
  "# function = \"#ff9900\"",
  ""]

end Config

end Highlighter
