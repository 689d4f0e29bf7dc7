import Highlighter.Text

/-!
Files as a program sees them from its working directory: what stands at a location, how a written
path leads there, and what the system lets the program do there.
-/
namespace Highlighter

/-- Why the system refuses to read or write. -/
inductive OsError where
  | notFound
  | permissionDenied
  | notDirectory
  | isDirectory
  | noSpace
  /-- A path leads through more links than the system follows. -/
  | tooManyLinks
  /-- The content is no text. -/
  | invalidText
  | other (message : Text)
  deriving DecidableEq, Repr

def OsError.message : OsError → Text
  | notFound => "No such file or directory (os error 2)"
  | permissionDenied => "Permission denied (os error 13)"
  | notDirectory => "Not a directory (os error 20)"
  | isDirectory => "Is a directory (os error 21)"
  | noSpace => "No space left on device (os error 28)"
  | tooManyLinks => "Too many levels of symbolic links (os error 40)"
  | invalidText => "stream did not contain valid UTF-8"
  | other message => message

/-- What a file or the standard input holds. -/
inductive Content where
  | text (t : Text)
  /-- Bytes that are not the UTF-8 form of a text. -/
  | binary (bytes : List UInt8)
  /-- Reading stops on the way. -/
  | broken (reason : OsError)
  deriving DecidableEq, Repr

/-- Bytes as text, if they are the UTF-8 form of one. -/
def Content.ofBytes (bytes : ByteArray) : Content :=
  match String.fromUTF8? bytes with
  | some s => text s.toList
  | none => binary bytes.toList

def Content.read : Content → Except OsError Text
  | text t => .ok t
  | binary _ => .error .invalidText
  | broken reason => .error reason

inductive Node where
  | file (content : Content)
  | directory
  /-- A symbolic link to a written path. -/
  | link (target : Text)
  deriving DecidableEq, Repr

/-- The names on the way from the root. -/
abbrev Location := List Text

/-- What the system can refuse at a location. -/
inductive Access where
  /-- Following a path through a directory. -/
  | enter
  | read
  /-- Writing to a file, or making one. -/
  | write
  deriving DecidableEq, Repr

structure FileSystem where
  workingDirectory : Location
  /-- What stands at a location, if it is not on the way to the working directory. -/
  entries : Location → Option Node
  /-- Why an access is refused, if it is. -/
  refusal : Access → Location → Option OsError

namespace FileSystem

/-- A working directory with nothing in it, where nothing is refused. -/
def empty (workingDirectory : Location) : FileSystem :=
  ⟨workingDirectory, fun _ => none, fun _ _ => none⟩

/-- What stands at a location.  There are directories all the way to the working directory. -/
def node? (fs : FileSystem) (location : Location) : Option Node :=
  if location.isPrefixOf fs.workingDirectory then some .directory else fs.entries location

/-- Where a path begins that is written in a directory. -/
def origin (directory : Location) (path : Text) : Location :=
  if path.head? = some '/' then [] else directory

/-- Where a written path begins. -/
def start (fs : FileSystem) (path : Text) : Location := origin fs.workingDirectory path

/-- The names in a written path.  Between two slashes there may be none. -/
def names (path : Text) : List Text := path.splitOn '/'

/-- The location that a name leads to. -/
def step (location : Location) (name : Text) : Location :=
  if name = [] || name = ".".toList then location
  else if name = "..".toList then location.dropLast
  else location ++ [name]

/-- The written form of a location. -/
def absolute : Location → Text
  | [] => "/"
  | location => location.flatMap ('/' :: ·)

/-- Checks that a name can be looked up at a location.  Behind a slash at the end of a path there is an
empty name, for which the directory is not entered. -/
def enter (fs : FileSystem) (location : Location) (name : Text) : Except OsError Unit :=
  match fs.node? location with
  | none => .error .notFound
  | some (.file _) | some (.link _) => .error .notDirectory
  | some .directory =>
    match fs.refusal .enter location with
    | some reason => if name = [] then .ok () else .error reason
    | none => .ok ()

/-- Follows names from a location up to the first link, and from there on by `jump`, which is given the
place where the link begins, its own names and those that are left. -/
def walk (fs : FileSystem) (jump : Location → List Text → Except OsError Location) :
    Location → List Text → Except OsError Location
  | location, [] => .ok location
  | location, name :: names => do
    fs.enter location name
    match fs.node? (step location name) with
    | some (.link target) =>
      jump (origin location target) (FileSystem.names target ++ names)
    | _ => walk fs jump (step location name) names

/-- Follows names from a location, through at most so many links. -/
def follow (fs : FileSystem) : Nat → Location → List Text → Except OsError Location
  | 0 => fs.walk fun _ _ => .error .tooManyLinks
  | links + 1 => fs.walk (follow fs links)

/-- How many links a path may lead through. -/
def linkLimit : Nat := 40

/-- The location that a written path leads to; nothing need stand there. -/
def locate (fs : FileSystem) (path : Text) : Except OsError Location :=
  if path = [] then .error .notFound else fs.follow linkLimit (fs.start path) (names path)

/-- The location that a written path means where all its directories exist. -/
def location (fs : FileSystem) (path : Text) : Location := (names path).foldl step (fs.start path)

/-- What stands at a written path. -/
def lookup (fs : FileSystem) (path : Text) : Except OsError Node := do
  match fs.node? (← fs.locate path) with
  | some n => return n
  | none => throw .notFound

/-- What is read at a location. -/
def readAt (fs : FileSystem) (location : Location) : Except OsError Text :=
  match fs.node? location with
  | none => .error .notFound
  | some n =>
    match fs.refusal .read location, n with
    | some reason, _ => .error reason
    | none, .file content => content.read
    | none, .directory => .error .isDirectory
    -- No path ends at a link.
    | none, .link _ => .error .tooManyLinks

/-- The text of a file. -/
def read (fs : FileSystem) (path : Text) : Except OsError Text := do
  fs.readAt (← fs.locate path)

def exists? (fs : FileSystem) (path : Text) : Bool :=
  match fs.lookup path with
  | .ok _ => true
  | .error _ => false

def isFile (fs : FileSystem) (path : Text) : Bool :=
  match fs.lookup path with
  | .ok (.file _) => true
  | _ => false

/-- The files after something is put at a location, or taken away from there. -/
def set (fs : FileSystem) (location : Location) (n : Option Node) : FileSystem :=
  { fs with entries := fun p => if p = location then n else fs.entries p }

/-- Puts something at a location, and directories on the way to it. -/
def provide (fs : FileSystem) (location : Location) (n : Node) : FileSystem :=
  { fs with entries := fun p =>
      if p = location then some n
      else if p.isPrefixOf location then some .directory
      else fs.entries p }

/-- Takes away what is at a location, and all that is below it. -/
def remove (fs : FileSystem) (location : Location) : FileSystem :=
  { fs with entries := fun p => if location.isPrefixOf p then none else fs.entries p }

/-- The files after a text is put into the file at a location.  A file that is new can be read. -/
def put (fs : FileSystem) (location : Location) (t : Text) : FileSystem :=
  { fs.set location (some (.file (.text t))) with
    refusal := fun access p =>
      if access = .read ∧ p = location ∧ fs.node? location = none then none
      else fs.refusal access p }

/-- The names that lead to the directory of what a path means, and a dot. -/
def namesAbove (path : Text) : List Text :=
  ((names path).reverse.dropWhile (· = [])).tail.reverse ++ [".".toList]

/-- Writes a text at a location.  A write that is refused leaves everything as it is. -/
def writeAt (fs : FileSystem) (location : Location) (t : Text) : Except OsError FileSystem :=
  match fs.node? location with
  | some .directory => .error .isDirectory
  | _ =>
    match fs.refusal .write location with
    | some reason => .error reason
    | none => .ok (fs.put location t)

/-- Writes a text to a file, which is made if it is not there.  Its directory has to be there.  A
path with a slash at its end can only be that of a directory. -/
def write (fs : FileSystem) (path t : Text) : Except OsError FileSystem := do
  if path.getLast? = some '/' then
    -- What is wrong on the way is said first.
    let _ ← fs.follow linkLimit (fs.start path) (namesAbove path)
    throw .isDirectory
  fs.writeAt (← fs.locate path) t

/-- A directory and a name in it as one path. -/
def join (directory name : Text) : Text :=
  if directory = [] then name
  else if directory.getLast? = some '/' then directory ++ name
  else directory ++ "/" ++ name

end FileSystem

/-- Steps on files.  They can fail, and what was done before a failure stays done. -/
abbrev FileSteps (ε : Type) := ExceptT ε (StateM FileSystem)

/-- Writes a text to a file. -/
def FileSteps.write (path t : Text) : FileSteps OsError Unit := do
  match (← get).write path t with
  | .ok files => set files
  | .error reason => throw reason

end Highlighter
