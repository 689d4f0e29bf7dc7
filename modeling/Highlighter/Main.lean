import Highlighter.CommandLine.Outcome

/-!
The program: it looks at the files that the arguments speak of, and writes down the outcome.
-/
namespace Highlighter.CommandLine

/-- The paths that a command speaks of, apart from its configuration. -/
def Command.paths : Command → List Text
  | .format file _ _ | .showExample file => file.toList
  | .samples file output => file.toList ++ output.toList
  | .languages => []
  | .init path => [path]

/-- The paths that a command line speaks of. -/
def Invocation.paths : Invocation → List Text
  | .run o c => Config.fileName :: (o.config.toList ++ c.paths)
  | .help | .version | .usageError => []

/-- Does the command line speak of the standard input? -/
def Invocation.readsInput : Invocation → Bool
  | .run _ (.format file _ _) => file.all isStandardInput
  | _ => false

/-- A reason that the system gives. -/
def reason : IO.Error → OsError
  | .noFileOrDirectory .. => .notFound
  | .permissionDenied .. => .permissionDenied
  | .inappropriateType _ 20 _ => .notDirectory
  | .inappropriateType _ 21 _ => .isDirectory
  | .resourceExhausted _ 28 _ => .noSpace
  | e => .other e.toString.toList

/-- Looks at a location of the disk.  What cannot be read is a directory if a path leads on from it. -/
def look (fs : FileSystem) (location : Location) (leadsOn : Bool) : IO FileSystem := do
  try
    let bytes ← IO.FS.readBinFile (String.ofList (FileSystem.absolute location))
    return fs.set location (some (.file (.ofBytes bytes)))
  catch
    | .inappropriateType _ 21 _ => return fs.set location (some .directory)
    | .permissionDenied .. =>
      if leadsOn then
        return fs.set location (some .directory)
      return { fs.set location (some (.file (.text []))) with
        refusal := fun access l =>
          if access = .read ∧ l = location then some .permissionDenied else fs.refusal access l }
    | _ => return fs.set location none

/-- Looks at all locations on the way along names. -/
def explore (fs : FileSystem) (location : Location) : List Text → IO FileSystem
  | [] => return fs
  | name :: names => do
    let next := FileSystem.step location name
    explore (← look fs next !names.isEmpty) next names

/-- Writes the file at a location to the disk, if a command has changed it.  The result is why that
does not succeed. -/
def save (before after : FileSystem) (location : Location) : IO (Option (Location × OsError)) := do
  if after.node? location = before.node? location then
    return none
  let some (.file (.text t)) := after.node? location | return none
  try
    IO.FS.writeFile (String.ofList (FileSystem.absolute location)) (String.ofList t)
    return none
  catch e =>
    return some (location, reason e)

/-- The same files, where some writes are refused. -/
def refusing (fs : FileSystem) (refused : List (Location × OsError)) : FileSystem :=
  { fs with
    refusal := fun access l => if access = .write then refused.lookup l else fs.refusal access l }

/-- Reads a stream to its end. -/
partial def readAll (stream : IO.FS.Stream) (read : ByteArray) : IO ByteArray := do
  let bytes ← stream.read 65536
  if bytes.isEmpty then return read
  readAll stream (read ++ bytes)

/-- Reads the standard input. -/
def readInput : IO Content := do
  try
    return .ofBytes (← readAll (← IO.getStdin) .empty)
  catch e =>
    return .broken (reason e)

end Highlighter.CommandLine

open Highlighter CommandLine in
def main (args : List String) : IO UInt32 := do
  let i := Invocation.ofArguments (args.map String.toList)
  let directory := (← IO.currentDir).toString.toList
  let mut files := FileSystem.empty (FileSystem.location (.empty []) directory)
  for path in i.paths do
    files ← explore files (files.start path) (FileSystem.names path)
  let input ← if i.readsInput then readInput else pure (.text [])
  let filter := (← IO.getEnv "RUST_LOG").map String.toList
  let mut o := run ⟨files, input, filter⟩ i
  let refused ← i.paths.filterMapM fun path => save files o.files (files.location path)
  -- Whether the disk takes a write is found out by trying.
  if !refused.isEmpty then
    o := run ⟨refusing files refused, input, filter⟩ i
  for line in o.diagnostics do
    IO.eprintln (String.ofList line)
  IO.print (String.ofList o.output)
  return o.exitCode
