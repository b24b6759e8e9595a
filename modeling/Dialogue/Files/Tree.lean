import Dialogue.Files.Basic
import Dialogue.Path

/-!
A file system in memory: files by the parts of their paths from the root, and a working directory.
Directories hold what stands below them, or are named themselves.
-/

set_option autoImplicit false
set_option relaxedAutoImplicit false

namespace Dialogue

inductive FileNode
  | directory
  /-- A file; its text is known when its bytes are UTF-8. -/
  | file (text : Option String)
deriving DecidableEq, Repr, Inhabited

structure FileTree where
  workingDirectory : List String
  nodes : List (List String × FileNode)
deriving DecidableEq, Repr, Inhabited

namespace FileTree

def node? (t : FileTree) (place : List String) : Option FileNode :=
  match t.nodes.lookup place with
  | some node => some node
  | none =>
    if place.isPrefixOf t.workingDirectory || t.nodes.any fun entry => place.isPrefixOf entry.1 then
      some .directory
    else none

/-- The most bytes that a name may have. -/
def nameLimit : Nat := 255

/-- The most bytes that a path may have. -/
def pathLimit : Nat := 4095

/-- Refuses the texts that are no path on any tree. -/
def checkPath (path : String) : Except FileError Unit :=
  if path.toList.contains '\x00' then .error .zeroInPath
  else if path = "" then .error .missing
  else if pathLimit < path.utf8ByteSize then .error .tooLong
  else .ok ()

/-- The place that the pieces of a path lead to. All but the last have to be directories, and the
last may be missing. -/
def walk (t : FileTree) (place : List String) : List String → Except FileError (List String)
  | [] => .ok place
  | piece :: rest =>
    match t.node? place with
    | none => .error .missing
    | some (.file _) => .error .notDirectory
    | some .directory =>
      if piece = "" || piece = "." then t.walk place rest
      else if piece = ".." then t.walk place.dropLast rest
      else if nameLimit < piece.utf8ByteSize then .error .tooLong
      else t.walk (place ++ [piece]) rest

def start (t : FileTree) (path : String) : List String × List String :=
  (if Path.isAbsolute path then [] else t.workingDirectory,
    (Path.pieces path.toList).map String.ofList)

def place (t : FileTree) (path : String) : Except FileError (List String) := do
  checkPath path
  let (origin, pieces) := t.start path
  t.walk origin pieces

/-- The text of the file that a path leads to. -/
def read (t : FileTree) (path : String) : Except FileError String := do
  match t.node? (← t.place path) with
  | none => throw .missing
  | some .directory => throw .directory
  | some (.file none) => throw .notText
  | some (.file (some text)) => return text

def isFile (t : FileTree) (path : String) : Bool :=
  match t.place path with
  | .ok place => match t.node? place with
    | some (.file _) => true
    | _ => false
  | .error _ => false

/-- The path from the root to where a path leads. -/
def resolve (t : FileTree) (path : String) : Except FileError String := do
  let place ← t.place path
  if (t.node? place).isSome then return Path.ofParts true place else throw .missing

/-- The tree with a text in the file that a path leads to. The directory has to be there, and a path
that ends in a slash or in points names a directory. -/
def write (t : FileTree) (path text : String) : Except FileError FileTree := do
  checkPath path
  let (origin, pieces) := t.start path
  let trimmed := (pieces.reverse.dropWhile (· = "")).reverse
  let directory ← t.walk origin trimmed.dropLast
  match t.node? directory with
  | none => throw .missing
  | some (.file _) => throw .notDirectory
  | some .directory =>
    let name := trimmed.getLast?.getD ""
    if pieces.length ≠ trimmed.length || name = "" || name = "." || name = ".." then
      throw .directory
    if nameLimit < name.utf8ByteSize then throw .tooLong
    let place := directory ++ [name]
    match t.node? place with
    | some .directory => throw .directory
    | _ =>
      let others := t.nodes.filter fun entry => entry.1 ≠ place
      return { t with nodes := (place, .file (some text)) :: others }

def fileSystem : FileSystem (StateM FileTree) where
  read path := do return (← get).read path
  isFile path := do return (← get).isFile path
  resolve path := do return (← get).resolve path
  write path text := do
    match (← get).write path text with
    | .ok t => do
      set t
      return .ok ()
    | .error e => return .error e

end FileTree

end Dialogue
