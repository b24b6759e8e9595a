import Dialogue.Manifest.Basic
import Dialogue.Path

/-!
Finding the manifest of a project: the nearest one in the directory of an input or above it.
-/

set_option autoImplicit false
set_option relaxedAutoImplicit false

namespace Dialogue.Manifest

variable {m : Type → Type} [Monad m]

/-- The name of the file that holds a manifest. -/
def fileName : String := "Spindle.toml"

def load (fs : FileSystem m) (path : String) : m (Except ManifestError Manifest) := do
  match ← fs.read path with
  | .ok text => return parse text
  | .error e => return .error (.unreadable e)

/-- The first of some directories that holds a manifest, as the path of that manifest. -/
def firstIn? (fs : FileSystem m) : List String → m (Option String)
  | [] => return none
  | directory :: others => do
    let candidate := Path.join directory fileName
    if ← fs.isFile candidate then return some candidate else firstIn? fs others

/-- The directory in which the search for an input's manifest starts. -/
def startFor (input : String) : String :=
  (Path.parent? input).getD "."

/-- The path of the manifest for an input. -/
def find? (fs : FileSystem m) (input : String) : m (Option String) :=
  firstIn? fs (Path.upwards (startFor input))

def loadFor (fs : FileSystem m) (input : String) : m (Except ManifestError Manifest) := do
  match ← find? fs input with
  | some path => load fs path
  | none => return .error (.notFound (startFor input))

end Dialogue.Manifest
