import Highlighter.Event
import Highlighter.Pattern

/-!
Which events are shown.  A filter is written as directives between commas, each a level for all
targets, the beginning of a target, or both with an equals sign between them.  After a slash may
follow a pattern for the messages.
-/
namespace Highlighter

/-- All levels up to `limit` are shown, of the targets that begin with `target` if there is one. -/
structure Directive where
  target : Option Text
  limit : Option Level
  deriving DecidableEq, Repr

structure EventFilter where
  directives : List Directive
  /-- What is looked for in the messages. -/
  pattern : Option Pattern
  deriving DecidableEq, Repr

namespace Level

def all : List Level := [error, warn, info, debug, trace]

/-- Reads the name of a level, or `off` for none, in capital or small letters. -/
def limitOfName? (t : Text) : Option (Option Level) :=
  let name := t.map Char.toUpper
  if name = "OFF".toList then some none else (all.find? (·.name = name)).map some

/-- Is the level shown under a limit? -/
def within (l : Level) : Option Level → Bool
  | some limit => l.verbosity ≤ limit.verbosity
  | none => false

end Level

namespace Directive

/-- Reads one directive.  A part that is no directive is returned as the error. -/
def ofText (t : Text) : Except Text Directive :=
  match t.splitOn '=' with
  | [part] =>
    match Level.limitOfName? part with
    | some limit => .ok ⟨none, limit⟩
    | none => .ok ⟨some part, some .trace⟩
  | [target, limit] =>
    let limit := Text.trim limit
    if limit = [] then .ok ⟨some target, some .trace⟩
    else match Level.limitOfName? limit with
      | some limit => .ok ⟨some target, limit⟩
      | none => .error limit
  | _ => .error t

def covers (d : Directive) (target : Text) : Bool := d.target.all (·.isPrefixOf target)

/-- The length of the beginning that the directive asks for. -/
def size (d : Directive) : Nat := (d.target.getD []).length

/-- Adds a directive.  It takes the place of the one for the same target. -/
def insert (d : Directive) : List Directive → List Directive
  | [] => [d]
  | d' :: ds => if d'.target = d.target then d :: ds else d' :: insert d ds

/-- The directive that asks for more of the target, or the later one of two that ask for as much. -/
def closer (best : Option Directive) (d : Directive) : Option Directive :=
  match best with
  | some b => if b.size ≤ d.size then some d else some b
  | none => some d

/-- The directive that decides about a target: of those that cover it the one that asks for most. -/
def deciding? (ds : List Directive) (target : Text) : Option Directive :=
  (ds.filter (·.covers target)).foldl closer none

end Directive

namespace EventFilter

/-- What is wrong with the text of a filter.  Such a part is left out. -/
inductive Problem where
  | notDirective (part : Text)
  | manySlashes (t : Text)
  | invalidPattern
  deriving DecidableEq, Repr

/-- What is said of a problem, but for what is wrong with a pattern. -/
def Problem.message : Problem → Text
  | notDirective part => "warning: invalid logging spec '" ++ part ++ "', ignoring it"
  | manySlashes t => "warning: invalid logging spec '" ++ t ++ "' (too many '/'s), ignoring it"
  | invalidPattern => "warning: invalid regex filter"

/-- All levels up to one are shown. -/
def upTo (l : Level) : EventFilter := ⟨[⟨none, some l⟩], none⟩

/-- Reads directives between commas. -/
def readDirectives (t : Text) : List (Except Text Directive) :=
  (((t.splitOn ',').map Text.trim).filter (· ≠ [])).map Directive.ofText

/-- The filter of the directives among what was read.  Without any, errors are shown. -/
def ofRead (read : List (Except Text Directive)) (pattern : Option Pattern) : EventFilter :=
  match read.filterMap Except.toOption with
  | [] => ⟨[⟨none, some .error⟩], pattern⟩
  | ds => ⟨ds.foldl (fun ds d => d.insert ds) [], pattern⟩

/-- The problems among what was read. -/
def problems (read : List (Except Text Directive)) : List Problem :=
  read.filterMap fun
    | .ok _ => none
    | .error part => some (.notDirective part)

/-- The filter that a text writes, and what is wrong with the text. -/
def ofText (t : Text) : EventFilter × List Problem :=
  match t.splitOn '/' with
  | [parts] =>
    let read := readDirectives parts
    (ofRead read none, problems read)
  | [parts, source] =>
    let read := readDirectives parts
    match Pattern.ofText? source with
    | some pattern => (ofRead read (some pattern), problems read)
    | none => (ofRead read none, problems read ++ [.invalidPattern])
  | _ => (ofRead [] none, [.manySlashes t])

/-- Does the pattern, if there is one, occur in a message? -/
def admits (f : EventFilter) (message : Text) : Bool :=
  f.pattern.all fun p =>
    match p.search [] message with
    | .found _ => true
    | .nowhere | .gaveUp => false

/-- Is the event shown? -/
def shows (f : EventFilter) (e : Event) : Bool :=
  (Directive.deciding? f.directives e.target).any (e.level.within ·.limit) && f.admits e.message

end EventFilter

namespace Event

/-- The level, filled up with blanks to the longest name. -/
def levelColumn (e : Event) : Text := e.level.name ++ List.replicate (5 - e.level.name.length) ' '

/-- The event as lines of a log.  All lines of the message but the first are indented. -/
def describe (e : Event) : Text :=
  "[" ++ e.levelColumn ++ " " ++ e.target ++ "] " ++
    e.message.flatMap fun c => if c = '\n' then "\n    " else [c]

end Event

end Highlighter
