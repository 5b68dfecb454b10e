import NixKeeper.Files.Home
import NixKeeper.Files.Kind
import NixKeeper.Files.Manifest
import NixKeeper.Files.SystemFile.Printer
import NixKeeper.Files.SystemFile.Reader

/-! The generated files of a model, and the model of generated files. -/

namespace NixKeeper.Files

/-- The user whose home is generated: the first one, or a placeholder. -/
def homeOwner (model : Model) : User :=
  match model.users with
  -- The owner of the machine comes first among its users.
  | user :: _ => user
  | [] => .named placeholderName

/-- The text of a generated file. -/
def generate (renames : Renames) (model : Model) : FileKind → List Char
  -- The home file is that of one user, and only the system file asks for renamed services.
  | .manifest => Manifest.text model
  | .system => SystemFile.text renames model
  | .home => Home.text renames (homeOwner model) model.nixVersion

/-- The model with what a generated file says; a home belongs to the first user. -/
def read (renames : Renames) (placeholder : String) (text : List Char) (model : Model) :
    FileKind → Model
  -- A home file is read into the first user.
  | .manifest => Manifest.read text model
  | .system => SystemFile.read renames placeholder text model
  | .home => Home.read renames text model 0

end NixKeeper.Files
