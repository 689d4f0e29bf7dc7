import Highlighter.Catalog
import Highlighter.FileSystem

/-!
Catalogs in files.
-/
namespace Highlighter

inductive CatalogError where
  | unreadable (path : Text) (reason : OsError)
  | invalid (p : Json.Problem)
  deriving DecidableEq, Repr

/-- The message of a catalog error, but for what is wrong with a malformed document. -/
def CatalogError.message : CatalogError → Text
  | unreadable path reason => "Failed to read samples at " ++ path ++ ": " ++ reason.message
  | invalid (.mismatch m) => "Invalid sample document: " ++ m.message
  | invalid (.fault _) => "Invalid sample document: "

namespace Catalog

/-- Reads a catalog from a file. -/
def load (fs : FileSystem) (path : Text) : Except CatalogError Catalog :=
  match fs.read path with
  | .error reason => .error (.unreadable path reason)
  | .ok t => (ofJson t).mapError .invalid

/-- The catalog that comes with the program. -/
def bundled : Except CatalogError Catalog := (ofJson Sample.bundled).mapError .invalid

end Catalog

end Highlighter
