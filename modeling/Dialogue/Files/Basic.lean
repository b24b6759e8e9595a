/-!
What the program asks of a file system, and why a file system refuses.
-/

set_option autoImplicit false
set_option relaxedAutoImplicit false

namespace Dialogue

/-- Why a file cannot be read or written. -/
inductive FileError
  | missing
  | directory
  /-- The path goes on below a file. -/
  | notDirectory
  /-- The path, or a name in it, has too many bytes. -/
  | tooLong
  /-- The path holds the character of code zero. -/
  | zeroInPath
  /-- The bytes of the file are not UTF-8. -/
  | notText
  | other (description : String)
deriving DecidableEq, Repr, Inhabited

def FileError.message : FileError → String
  | .missing => "No such file or directory (os error 2)"
  | .directory => "Is a directory (os error 21)"
  | .notDirectory => "Not a directory (os error 20)"
  | .tooLong => "File name too long (os error 36)"
  | .zeroInPath => "file name contained an unexpected NUL byte"
  | .notText => "stream did not contain valid UTF-8"
  | .other description => description

/-- A file system, as far as the program uses it. -/
structure FileSystem (m : Type → Type) where
  /-- The text of a file. -/
  read : String → m (Except FileError String)
  /-- Whether a path leads to a file. -/
  isFile : String → m Bool
  /-- The path from the root, without detours, to where a path leads. -/
  resolve : String → m (Except FileError String)
  /-- Puts a text into a file, which is made if the path leads nowhere. -/
  write : String → String → m (Except FileError Unit)

end Dialogue
