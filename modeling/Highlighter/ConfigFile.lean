import Highlighter.Config
import Highlighter.FileSystem

/-!
Configuration files: reading one, finding the one of a directory, and making a new one.
-/
namespace Highlighter

inductive ConfigError where
  | inaccessible (path : Text) (reason : OsError)
  | invalid (p : Config.Problem)
  | alreadyExists (path : Text)
  deriving DecidableEq, Repr

/-- The message of a configuration error, but for what is wrong with a malformed file. -/
def ConfigError.message : ConfigError → Text
  | inaccessible path reason =>
    "Failed to access config file at " ++ path ++ ": " ++ reason.message
  | invalid (.mismatch m) => "Failed to parse config: " ++ m.message
  | invalid _ => "Failed to parse config: "
  | alreadyExists path => "Configuration file already exists at " ++ path

namespace Config

/-- Reads a configuration file. -/
def load (fs : FileSystem) (path : Text) : Except ConfigError Config :=
  match fs.read path with
  | .error reason => .error (.inaccessible path reason)
  | .ok t => (ofText t).mapError .invalid

/-- What there is to say about having read a configuration file. -/
def loadEvents (path : Text) : List Event := [.loadedConfig path]

/-- The path of the configuration file of a directory, if it is there. -/
def discover (fs : FileSystem) (directory : Text) : Option Text :=
  let path := FileSystem.join directory fileName
  if fs.isFile path then some path else none

/-- Makes a new configuration file where nothing is yet. -/
def make (path : Text) : FileSteps ConfigError Unit := do
  if (← get).exists? path then
    throw (.alreadyExists path)
  else
    (FileSteps.write path defaultText).adapt (.inaccessible path)

/-- The files with a new configuration file. -/
def create (fs : FileSystem) (path : Text) : Except ConfigError FileSystem :=
  match (make path).run.run fs with
  | (.ok (), files) => .ok files
  | (.error e, _) => .error e

end Config

end Highlighter
