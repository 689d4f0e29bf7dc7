import Highlighter.Text

/-!
How highlighted text is written in HTML.
-/
namespace Highlighter

/-- The lexical categories that have a colour. -/
inductive Category where
  | comment
  | string
  | data
  | radix
  | decorator
  | function
  deriving DecidableEq, Repr

namespace Category

def all : List Category := [comment, string, data, radix, decorator, function]

def name : Category → Text
  | comment => "comment"
  | string => "string"
  | data => "data"
  | radix => "radix"
  | decorator => "decorator"
  | function => "function"

/-- The category of exactly this name. -/
def ofName? (name : Text) : Option Category := all.find? (·.name = name)

/-- What is said of a name that is no category. -/
def unknownMessage (name : Text) : Text := "Unknown category '" ++ name ++ "'"

theorem mem_all (c : Category) : c ∈ all := by cases c <;> decide

theorem ofName?_name (c : Category) : ofName? c.name = some c := by cases c <;> rfl

end Category

/-- One colour for each category. -/
structure Palette where
  color : Category → Text

namespace Palette

def default : Palette where
  color
    | .comment => "#33cc33"
    | .string => "#b1cbff"
    | .data => "#6699ff"
    | .radix => "#cc00cc"
    | .decorator => "#cc3300"
    | .function => "#ff9900"

/-- The palette with another colour for one category. -/
def set (p : Palette) (c : Category) (color : Text) : Palette :=
  ⟨fun c' => if c' = c then color else p.color c'⟩

@[simp] theorem color_set (p : Palette) (c c' : Category) (color : Text) :
    (p.set c color).color c' = if c' = c then color else p.color c' := rfl

end Palette

/-- How a span tells its category. -/
inductive StyleMode where
  /-- By a colour in a `style` attribute. -/
  | inline
  /-- By the name of the category in a `class` attribute. -/
  | byClass
  deriving DecidableEq, Repr

namespace StyleMode

def name : StyleMode → Text
  | inline => "inline"
  | byClass => "class"

def ofName? (name : Text) : Option StyleMode := [inline, byClass].find? (·.name = name)

end StyleMode

structure Styler where
  mode : StyleMode
  palette : Palette
  /-- The `style` attribute of the whole sample in inline mode. -/
  containerStyle : Text

namespace Styler

def defaultContainerStyle : Text :=
  "background-color: #1f2937; color: #e5e7eb; padding: 1.1111111em 1.3333333em; " ++
    "line-height: 1.75; margin-bottom: 2em; border-radius: .375rem;"

/-- The `class` attribute of the whole sample in class mode. -/
def containerClass : Text := "formatted-sample"

def default : Styler := ⟨.inline, .default, defaultContainerStyle⟩

/-- `inner` in a tag with a class, which may be left open. -/
def tagWrap (inner tag className : Text) (leaveOpen : Bool) : Text :=
  "<" ++ tag ++ " class='" ++ className ++ "'>" ++ inner ++
    (if leaveOpen then [] else "</" ++ tag ++ ">" : Text)

def spanEnd : Text := "</span>"

/-- The tag that opens a span of a category. -/
def spanStart (s : Styler) (c : Category) : Text :=
  match s.mode with
  | .inline => "<span style=\"color:" ++ s.palette.color c ++ "\">"
  | .byClass => "<span class='" ++ c.name ++ "'>"

/-- `inner` in a span that is left open. -/
def openSpan (s : Styler) (c : Category) (inner : Text) : Text := s.spanStart c ++ inner

/-- `inner` in a span. -/
def span (s : Styler) (c : Category) (inner : Text) : Text := s.openSpan c inner ++ spanEnd

/-- `inner` and the end of a span that was opened before. -/
def closeSpan (inner : Text) : Text := inner ++ spanEnd

/-- The tag that opens a whole sample. -/
def containerStart (s : Styler) : Text :=
  match s.mode with
  | .inline => "<pre style=\"" ++ s.containerStyle ++ "\">"
  | .byClass => "<pre class='" ++ containerClass ++ "'>"

/-- `inner` as a whole sample. -/
def outer (s : Styler) (inner : Text) : Text :=
  s.containerStart ++ "<code>" ++ inner ++ "</code></pre>"

end Styler

end Highlighter
