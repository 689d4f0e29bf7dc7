import Highlighter.CatalogFile
import Highlighter.CommandLine.Arguments
import Highlighter.Event.Filter

/-!
What a command line does, as a function from what the program finds to what it leaves.
-/
namespace Highlighter.CommandLine

/-- What the program finds when it starts. -/
structure Setting where
  files : FileSystem
  /-- The standard input. -/
  input : Content
  /-- The text of an event filter, if one is given. -/
  filter : Option Text

/-- What the program leaves when it ends. -/
structure Outcome where
  exitCode : UInt32
  output : Text
  /-- The lines of the standard error output. -/
  diagnostics : List Text
  files : FileSystem

/-- Why a command fails. -/
inductive Failure where
  | config (e : ConfigError)
  | catalog (e : CatalogError)
  | system (reason : OsError)
  deriving DecidableEq, Repr

def Failure.message : Failure → Text
  | config e => e.message
  | catalog e => e.message
  | system reason => reason.message

/-- What a command says on its way. -/
inductive Remark where
  | event (e : Event)
  | line (t : Text)
  deriving DecidableEq, Repr

/-- What a command has done so far. -/
structure Progress where
  files : FileSystem
  /-- What it has printed. -/
  output : Text
  /-- What it has said. -/
  remarks : List Remark

/-- A command at work.  It can fail, and what it did before stays done. -/
abbrev Job := ExceptT Failure (StateM Progress)

namespace Job

variable {ε α : Type}

def say (remarks : List Remark) : Job Unit :=
  modify fun p => { p with remarks := p.remarks ++ remarks }

def tell (events : List Event) : Job Unit := say (events.map .event)

def print (t : Text) : Job Unit := modify fun p => { p with output := p.output ++ t }

/-- Takes a result, or fails for the reason that `failure` makes of an error. -/
def take (failure : ε → Failure) (result : Except ε α) : Job α :=
  match result with
  | .ok a => return a
  | .error e => throw (failure e)

/-- The files as they are now. -/
def files : Job FileSystem := return (← get).files

/-- Looks at the files. -/
def look (failure : ε → Failure) (f : FileSystem → Except ε α) : Job α := do
  take failure (f (← files))

/-- Does steps on the files. -/
def onFiles (failure : ε → Failure) (steps : FileSteps ε α) : Job α := do
  let (result, files) := steps.run.run (← files)
  modify fun p => { p with files := files }
  take failure result

end Job

/-- Reads a configuration file. -/
def loadConfig (path : Text) : Job Config := do
  let c ← Job.look .config fun files => Config.load files path
  Job.tell (Config.loadEvents path)
  return c

/-- The configuration: of the file that is given, or else of the file in the working directory. -/
def findConfig (o : Options) : Job Config := do
  if o.noConfig then
    return .default
  match o.config with
  | some path => loadConfig path
  | none =>
    let files ← Job.files
    match Config.discover files (FileSystem.absolute files.workingDirectory) with
    | some path =>
      let c ← loadConfig path
      Job.tell [.usingConfig path]
      return c
    | none => return .default

/-- The engines under the configuration and the options. -/
def registry (o : Options) : Job Registry := do
  let c ← findConfig o
  -- A style among the arguments counts before that of the configuration.
  let c := { c with mode := o.style.getD c.mode }
  Job.tell c.stylerEvents
  return Registry.ofStyler c.styler

/-- A path of one name that is a dash stands for the standard input. -/
def isStandardInput (path : Text) : Bool :=
  match path.splitOn '/' with
  | [] => false
  | name :: rest => name = "-".toList && rest.all fun name => name = [] || name = ".".toList

/-- The text to format. -/
def source (input : Content) (file : Option Text) (files : FileSystem) : Except OsError Text :=
  match file with
  | none => input.read
  | some path => if isStandardInput path then input.read else files.read path

/-- What a trace shows of a rule: its number, its pattern and both texts after it. -/
def traceLines (number : Nat) (r : Rule) (b : Buffers) : List Text :=
  ["Rule " ++ Text.ofNat number ++ ": " ++ r.patternText,
    "  result:    " ++ b.result.quoted,
    "  remainder: " ++ b.remainder.quoted]

/-- The trace of an engine at work. -/
def trace (e : Engine) (input : Text) : List Text :=
  ((e.rules.zip (e.trace input).tail).zipIdx 1).flatMap fun ((r, b), number) =>
    traceLines number r b

/-- Formats a text and returns the HTML. -/
def format (r : Registry) (language input : Text) (tracing : Bool) : Job Text := do
  unless r.has language do
    Job.tell [.unknownLanguage language]
  Job.tell (r.lookupEvents language)
  let e := r.get language
  if tracing then
    Job.tell (e.events input)
    Job.say ((trace e input).map .line)
  Job.tell (e.events input)
  return e.format input

/-- The catalog in a file, or else the bundled one. -/
def findCatalog (file : Option Text) : Job Catalog := do
  let c ← match file with
    | some path => Job.look .catalog fun files => Catalog.load files path
    | none => Job.take .catalog Catalog.bundled
  Job.tell c.loadEvents
  return c

/-- The languages, one in a line. -/
def languageLines (r : Registry) : List Text :=
  r.languages.map fun name =>
    if name = Language.default.name then name ++ " (default)" else name

/-- Text that ends a line. -/
def line (t : Text) : Text := t ++ "\n"

/-- Carries out a command. -/
def carryOut (input : Content) (o : Options) : Command → Job Unit
  | .init path => do
    Job.onFiles .config (Config.make path)
    Job.print (line ("Created default configuration file: " ++ path))
  | .format file language tracing => do
    let r ← registry o
    let t ← Job.look .system (source input file)
    let html ← format r language t tracing
    Job.print (line html)
  | .samples file output => do
    let r ← registry o
    let c ← findCatalog file
    Job.tell (c.events r)
    match output with
    | some path => Job.onFiles .system (FileSteps.write path (c.html r))
    | none => Job.print (line (c.html r))
  | .showExample file => do
    let _ ← registry o
    let c ← findCatalog file
    Job.print (line c.exampleText)
  | .languages => do
    let r ← registry o
    (languageLines r).forM fun name => Job.print (line name)

/-- The filter that is given, or else one for warnings, and with more words for everything but
traces. -/
def filter (s : Setting) (o : Options) : EventFilter × List EventFilter.Problem :=
  match s.filter with
  | some t => EventFilter.ofText t
  | none => (.upTo (if o.verbose then .debug else .warn), [])

/-- The line of a remark, unless the filter holds it back. -/
def Remark.line? (f : EventFilter) : Remark → Option Text
  | event e => if f.shows e then some e.describe else none
  | line t => some t

/-- What is left after a command. -/
def execute (s : Setting) (o : Options) (c : Command) : Outcome :=
  let (f, problems) := filter s o
  let (result, p) := (carryOut s.input o c).run.run ⟨s.files, [], []⟩
  let lines := problems.map EventFilter.Problem.message ++ p.remarks.filterMap (·.line? f)
  match result with
  | .ok () => ⟨0, p.output, lines, p.files⟩
  | .error e => ⟨2, p.output, lines ++ ["Error: " ++ e.message], p.files⟩

/-- How the program is called. -/
def usage : List Text := [
  "Usage: lavendeux-syntax [OPTIONS] COMMAND",
  "",
  "Commands:",
  "  format [FILE] [-l LANGUAGE] [--trace]  Highlight a file or the standard input as HTML",
  "  samples [-f FILE] [-o FILE]            Render a sample document to HTML",
  "  example [-f FILE]                      Print the example of a sample document",
  "  languages                              List the language tags",
  "  init [--path FILE]                     Create a configuration file",
  "  help [COMMAND]                         Print this text",
  "",
  "Options:",
  "  -c, --config FILE           Configuration file",
  "      --no-config             Ignore configuration files",
  "      --style inline|class    Span style",
  "  -v, --verbose               Show debug logging",
  "  -h, --help                  Print this text",
  "  -V, --version               Print the version"]

/-- The name and the version of the program. -/
def versionText : Text := "lavendeux-syntax 0.1.0"

/-- What is left after the program has done what its arguments ask for. -/
def run (s : Setting) : Invocation → Outcome
  | .run o c => execute s o c
  | .help => ⟨0, usage.flatMap line, [], s.files⟩
  | .version => ⟨0, line versionText, [], s.files⟩
  | .usageError => ⟨2, [], usage, s.files⟩

end Highlighter.CommandLine
