/-!
Paths as texts with slashes. The parts of a path are what stands between its slashes, less the idle
pieces: empty ones and single points. A path that begins with a slash starts at the root.
-/

set_option autoImplicit false
set_option relaxedAutoImplicit false

namespace Dialogue.Path

def isAbsolute (path : String) : Bool :=
  path.toList.head? = some '/'

/-- What stands between the slashes of a text. -/
def pieces (cs : List Char) : List (List Char) :=
  cs.foldr
    (fun c rest => if c = '/' then [] :: rest else match rest with
      | [] => [[c]]
      | piece :: others => (c :: piece) :: others)
    [[]]

/-- Whether a piece between slashes stays where it is. -/
def isIdle (piece : String) : Bool :=
  piece = "" || piece = "."

def parts (path : String) : List String :=
  ((pieces path.toList).map String.ofList).filter fun part => !isIdle part

def ofParts (absolute : Bool) (parts : List String) : String :=
  (if absolute then "/" else "") ++ String.intercalate "/" parts

/-- The path of an entry of a directory; an absolute one is itself. -/
def join (directory entry : String) : String :=
  if isAbsolute entry || directory = "" then entry
  else if directory.toList.getLast? = some '/' then directory ++ entry
  else directory ++ "/" ++ entry

/-- The path with a given start and given pieces after it, the last of them first. Idle pieces at
the end are left out. -/
def ofPieces (first : String) (behind : List String) : String :=
  match behind.dropWhile isIdle with
  | [] => if first = "" then "/" else first
  | pieces => String.intercalate "/" (first :: pieces.reverse)

/-- The directories above a path from the inside out, for the start of the path and the pieces after
it, the last of them first. Above a relative path stands the empty one, and above the root
nothing. -/
def above (first : String) : List String → List String
  | [] => if first = "" then [] else [""]
  | piece :: behind =>
    if isIdle piece then above first behind
    else ofPieces first behind :: above first behind

/-- The directories that hold a path, from the inside out. Their texts are beginnings of the path,
so that idle pieces inside them are kept. -/
def holders (path : String) : List String :=
  match (pieces path.toList).map String.ofList with
  | [] => []
  | first :: rest => above first rest.reverse

def parent? (path : String) : Option String :=
  (holders path).head?

/-- A directory and those that hold it, from the inside out. -/
def upwards (directory : String) : List String :=
  directory :: holders directory

/-- The name of a file without the last point and what follows it. A name whose only point begins it
is kept. -/
def stem (name : List Char) : List Char :=
  match name.reverse.dropWhile (· ≠ '.') with
  | [] | [_] => name
  | _ :: before => before.reverse

/-- The path with another ending of the file's name. -/
def withExtension (path extension : String) : String :=
  let name := (path.toList.reverse.takeWhile (· ≠ '/')).reverse
  let directory := path.toList.take (path.toList.length - name.length)
  if name.isEmpty then path
  else String.ofList (directory ++ stem name) ++ "." ++ extension

end Dialogue.Path
