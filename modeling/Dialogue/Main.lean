import Dialogue.Cli.Run

/-!
The command line program on the files of the machine.
-/

set_option autoImplicit false
set_option relaxedAutoImplicit false

namespace Dialogue.Cli

/-- The number of a machine error, which some calls give with the opposite sign. -/
def errorNumber (code : UInt32) : Nat :=
  min code.toNat (-code).toNat

/-- The error that the machine reports. -/
def fileError (e : IO.Error) : FileError :=
  match e with
  | .noFileOrDirectory .. => .missing
  | .inappropriateType _ code _ => if errorNumber code = 21 then .directory else .notDirectory
  | .invalidArgument _ code _ =>
    if errorNumber code = 36 then .tooLong else .other (toString e)
  | .permissionDenied .. => .other "Permission denied (os error 13)"
  | e => .other (toString e)

/-- The result of an action, or the error that it ends with. -/
def attempt {α : Type} (action : IO α) : BaseIO (Except FileError α) := do
  match ← action.toBaseIO with
  | .ok a => return .ok a
  | .error e => return .error (fileError e)

def machine : FileSystem BaseIO where
  read path := do
    match ← attempt (IO.FS.readBinFile path) with
    | .ok bytes => return match String.fromUTF8? bytes with
      | some text => .ok text
      | none => .error .notText
    | .error e => return .error e
  isFile path := do
    match ← attempt (IO.FS.readBinFile path) with
    | .ok _ | .error (.other _) => return true
    | .error _ => return false
  resolve path := attempt do
    let found ← IO.FS.realPath path
    return found.toString
  write path text := attempt (IO.FS.writeFile path text)

end Dialogue.Cli

/-- Runs the program on its arguments and ends with its code. -/
def main (arguments : List String) : IO UInt32 := do
  let outcome ← (Dialogue.Cli.run Dialogue.Cli.machine arguments : BaseIO _)
  IO.eprint outcome.errors
  IO.print outcome.output
  return outcome.code.toUInt32
