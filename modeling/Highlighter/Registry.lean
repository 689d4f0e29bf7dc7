import Highlighter.Dictionary
import Highlighter.Language

/-!
Engines by the tag of their language.  Every tag has an engine: one without an engine of its own
gets that of the default language.
-/
namespace Highlighter

structure Registry where
  fallback : Engine
  others : Dictionary Engine

namespace Registry

/-- Puts an engine under a tag, in place of the engine that is there. -/
def register (r : Registry) (name : Text) (e : Engine) : Registry :=
  if name = Language.default.name then { r with fallback := e }
  else { r with others := r.others.insert name e }

/-- The registry of all languages. -/
def ofStyler (s : Styler) : Registry :=
  (Language.all.filter (· ≠ Language.default)).foldl (fun r l => r.register l.name (l.engine s))
    ⟨Language.default.engine s, .empty⟩

/-- Is there an engine under exactly this tag? -/
def has (r : Registry) (name : Text) : Bool :=
  name = Language.default.name || r.others.contains name

/-- The tag whose engine is used for `name`. -/
def resolve (r : Registry) (name : Text) : Text :=
  if r.others.contains name then name else Language.default.name

/-- The engine for a tag. -/
def get (r : Registry) (name : Text) : Engine := (r.others.find? name).getD r.fallback

/-- What there is to say about looking up a tag. -/
def lookupEvents (r : Registry) (name : Text) : List Event :=
  if r.has name then [] else [.noFormatter name]

/-- All tags with an engine, in order. -/
def languages (r : Registry) : List Text :=
  (r.others.names ++ [Language.default.name]).mergeSort fun a b => ¬ b < a

/-- Formats an input with the engine for a tag. -/
def format (r : Registry) (name input : Text) : Text := (r.get name).format input

end Registry

end Highlighter
