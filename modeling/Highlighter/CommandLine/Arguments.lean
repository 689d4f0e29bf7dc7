import Highlighter.ConfigFile
import Highlighter.Language

/-!
Command-line arguments.  Options that concern every command may stand before or after its name, each
once on either side; what stands after the name counts.
-/
namespace Highlighter.CommandLine

inductive Command where
  | format (file : Option Text) (language : Text) (trace : Bool)
  | samples (file output : Option Text)
  | showExample (file : Option Text)
  | languages
  | init (path : Text)
  deriving DecidableEq, Repr

/-- The options of every command. -/
structure Options where
  config : Option Text
  noConfig : Bool
  style : Option StyleMode
  verbose : Bool
  deriving DecidableEq, Repr

/-- What the arguments ask for. -/
inductive Invocation where
  | run (options : Options) (command : Command)
  | help
  | version
  | usageError
  deriving DecidableEq, Repr

/-- The parts of a command line that can be given. -/
inductive Name where
  | config
  | noConfig
  | style
  | verbose
  | language
  | trace
  | file
  | output
  | path
  | help
  | version
  deriving DecidableEq, Repr

namespace Name

/-- Is there a value after the option? -/
def takesValue : Name → Bool
  | config | style | language | file | output | path => true
  | noConfig | verbose | trace | help | version => false

/-- May the option have this value?  A path is not empty. -/
def allows : Name → Text → Bool
  | style, value => (StyleMode.ofName? value).isSome
  | language, _ => true
  | _, value => value ≠ []

def long : Name → Text
  | config => "config"
  | noConfig => "no-config"
  | style => "style"
  | verbose => "verbose"
  | language => "language"
  | trace => "trace"
  | file => "file"
  | output => "output"
  | path => "path"
  | help => "help"
  | version => "version"

def short? : Name → Option Char
  | config => some 'c'
  | verbose => some 'v'
  | language => some 'l'
  | file => some 'f'
  | output => some 'o'
  | help => some 'h'
  | version => some 'V'
  | noConfig | style | trace | path => none

end Name

/-- One side of a command line: what may be given there. -/
structure Side where
  options : List Name
  /-- What an argument without a dash gives. -/
  positional : Option Name

/-- The options that may stand on both sides. -/
def common : List Name := [.config, .noConfig, .style, .verbose, .help]

/-- The command names. -/
inductive Verb where
  | format
  | samples
  | showExample
  | languages
  | init
  deriving DecidableEq, Repr

namespace Verb

def all : List Verb := [format, samples, showExample, languages, init]

def name : Verb → Text
  | format => "format"
  | samples => "samples"
  | showExample => "example"
  | languages => "languages"
  | init => "init"

def ofName? (name : Text) : Option Verb := all.find? (·.name = name)

/-- What may be given after the name of the command. -/
def side : Verb → Side
  | format => ⟨common ++ [.language, .trace], some .file⟩
  | samples => ⟨common ++ [.file, .output], none⟩
  | showExample => ⟨common ++ [.file], none⟩
  | languages => ⟨common, none⟩
  | init => ⟨common ++ [.path], none⟩

end Verb

/-- What may be given before the name of the command. -/
def beforeVerb : Side := ⟨common ++ [.version], none⟩

/-- Why reading the arguments ended before their end. -/
inductive Stop where
  | usage
  | help
  | version

/-- What was given so far: options with their values, and the option whose value was read last or is
still to come.  Such a value is looked at only when the next option begins. -/
structure Given where
  values : List (Name × Text)
  pending : Option (Name × Option Text)

namespace Given

def empty : Given := ⟨[], none⟩

def has (g : Given) (n : Name) : Bool := (g.values.lookup n).isSome

def value? (g : Given) (n : Name) : Option Text := g.values.lookup n

/-- Adds an option, which may be given only once. -/
def add (g : Given) (n : Name) (value : Text) : Except Stop Given :=
  if g.has n || n.takesValue && !n.allows value then .error .usage
  else .ok { g with values := (n, value) :: g.values }

/-- Looks at the value that was read last. -/
def settle (g : Given) : Except Stop Given :=
  match g.pending with
  | none => .ok g
  | some (_, none) => .error .usage
  | some (n, some value) => Given.add { g with pending := none } n value

/-- Takes an option without a value. -/
def flag (g : Given) (n : Name) : Except Stop Given := do
  let g ← g.settle
  match n with
  | .help => throw .help
  | .version => throw .version
  | n => g.add n []

/-- Takes an option whose value is written together with it, or stands in the next argument. -/
def option (g : Given) (n : Name) (attached : Option Text) : Except Stop Given := do
  let g ← g.settle
  match attached with
  | some value => g.add n value
  | none => return { g with pending := some (n, none) }

end Given

/-- Short options written together, after their dash. -/
def readShort (side : Side) : Text → Given → Except Stop Given
  | [], g => .ok g
  | c :: rest, g =>
    match side.options.find? (fun n => n.short? = some c) with
    | none => .error .usage
    | some n =>
      if n.takesValue then
        match rest with
        | [] => g.option n none
        | '=' :: value => g.option n (some value)
        | value => g.option n (some value)
      else do readShort side rest (← g.flag n)

/-- A long option, after its dashes. -/
def readLong (side : Side) (t : Text) (g : Given) : Except Stop Given :=
  let name := t.takeWhile (· ≠ '=')
  let attached := (t.dropWhile (· ≠ '=')).tail?
  match side.options.find? (fun n => n.long = name) with
  | none => .error .usage
  | some n =>
    if n.takesValue then g.option n attached
    else if attached.isSome then .error .usage
    else g.flag n

/-- An argument that is no option. -/
def readPositional (side : Side) (t : Text) (g : Given) : Except Stop Given := do
  match side.positional with
  | none => throw .usage
  | some n =>
    let g ← g.settle
    if g.has n then throw .usage
    return { g with pending := some (n, some t) }

/-- Reads the arguments of one side.  Before the name of the command, an argument that is no option
ends the side and is returned with the arguments after it. -/
def readSide (side : Side) (first : Bool) : List Text → (optionsEnded : Bool) → Given →
    Except Stop (Given × Option (Text × List Text))
  | [], _, g => .ok (g, none)
  | t :: args, ended, g =>
    let positional := fun (_ : Unit) =>
      if first && !ended then .ok (g, some (t, args))
      else do readSide side first args ended (← readPositional side t g)
    if ended then positional ()
    else match t with
      | ['-', '-'] => readSide side first args true g
      | '-' :: '-' :: name => do readSide side first args ended (← readLong side name g)
      | '-' :: c :: letters => do readSide side first args ended (← readShort side (c :: letters) g)
      | _ =>
        -- An option may still wait for its value. A dash alone is no option.
        match g.pending with
        | some (n, none) => readSide side first args ended { g with pending := some (n, some t) }
        | _ => positional ()

/-- Looks at the last value of a side, and at options that exclude each other. -/
def finishSide (g : Given) : Except Stop Given := do
  let g ← g.settle
  if g.has .config && g.has .noConfig then throw .usage
  return g

/-- The options of both sides. -/
def options (before after : Given) : Options where
  config := (after.value? .config).or (before.value? .config)
  noConfig := after.has .noConfig || before.has .noConfig
  style := ((after.value? .style).or (before.value? .style)).bind StyleMode.ofName?
  verbose := after.has .verbose || before.has .verbose

/-- The command that a name and what was given after it make. -/
def command (v : Verb) (g : Given) : Command :=
  match v with
  | .format =>
    .format (g.value? .file) ((g.value? .language).getD Language.default.name) (g.has .trace)
  | .samples => .samples (g.value? .file) (g.value? .output)
  | .showExample => .showExample (g.value? .file)
  | .languages => .languages
  | .init => .init ((g.value? .path).getD Config.fileName)

/-- Asking for help, perhaps on a command. -/
def helpOn : List Text → Stop
  | [] => .help
  | [name] => if (Verb.ofName? name).isSome || name = "help".toList then .help else .usage
  | _ => .usage

/-- Reads all arguments. -/
def read (args : List Text) : Except Stop (Options × Command) := do
  let (before, rest) ← readSide beforeVerb true args false .empty
  match rest with
  | none => throw .usage
  | some (name, args) =>
    if name = "help".toList then throw (helpOn args)
    match Verb.ofName? name with
    | none => throw .usage
    | some v =>
      let (after, _) ← readSide v.side false args false .empty
      let after ← finishSide after
      let before ← finishSide before
      return (options before after, command v after)

/-- What the arguments ask for. -/
def Invocation.ofArguments (args : List Text) : Invocation :=
  match read args with
  | .ok (options, command) => .run options command
  | .error .help => .help
  | .error .version => .version
  | .error .usage => .usageError

end Highlighter.CommandLine
