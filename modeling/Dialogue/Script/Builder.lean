import Dialogue.Script.Basic

/-!
Building a script while its source is walked. The builder keeps the open blocks, the innermost
first; a new statement becomes the last child of the innermost one.
-/

set_option autoImplicit false
set_option relaxedAutoImplicit false

namespace Dialogue.Script

/-- Why a builder refuses a step. -/
inductive BuilderError
  | outsideBlock (line : Nat) (kind : String)
  | secondRoot (line : Nat)
  | notBasic (line : Nat) (kind : String)
  | notBlock (line : Nat) (kind : String)
  | nothingOpen
  | unclosed (count : Nat)
  | empty
deriving DecidableEq, Repr, Inhabited

def BuilderError.message : BuilderError → String
  | .outsideBlock line kind =>
    "line " ++ toString line ++ ": " ++ kind ++ " statement outside of any block"
  | .secondRoot line =>
    "line " ++ toString line ++ ": second root block; a tree holds exactly one node"
  | .notBasic line kind =>
    "line " ++ toString line ++ ": " ++ kind ++ " is a block statement, use begin_block"
  | .notBlock line kind =>
    "line " ++ toString line ++ ": " ++ kind ++ " is a basic statement, use add"
  | .nothingOpen => "no open block to close"
  | .unclosed count => toString count ++ " block(s) still open"
  | .empty => "empty tree"

structure Builder where
  statements : List Statement := []
  /-- The open blocks, the innermost first. -/
  pending : List Nat := []
  root : Option Nat := none
deriving DecidableEq, Inhabited

namespace Builder

def nextId (b : Builder) : Nat :=
  b.statements.length

def modify (b : Builder) (id : Nat) (f : Statement → Statement) : Builder :=
  { b with statements := b.statements.modify id f }

def insert (b : Builder) (kind : Kind) (line : Nat) (parent : Option Nat) : Builder :=
  let listed := match parent with
    | some p => b.statements.modify p fun s => { s with children := s.children ++ [b.nextId] }
    | none => b.statements
  { b with statements := listed ++
    [{ content := { kind := kind, line := line }, parent := parent }] }

/-- Open a block inside the innermost open one. The block's id is the `nextId` from before. -/
def openBlock (b : Builder) (kind : Kind) (line : Nat) : Except BuilderError Builder :=
  if !kind.isBlock then .error (.notBlock line kind.name)
  else match b.pending, b.root with
    | [], some _ => .error (.secondRoot line)
    | [], none =>
      .ok { b.insert kind line none with pending := [b.nextId], root := some b.nextId }
    | parent :: outer, _ =>
      .ok { b.insert kind line (some parent) with pending := b.nextId :: parent :: outer }

def closeBlock (b : Builder) : Except BuilderError (Builder × Nat) :=
  match b.pending with
  | [] => .error .nothingOpen
  | id :: outer => .ok ({ b with pending := outer }, id)

/-- Add a basic statement to the innermost open block. Its id is the `nextId` from before. -/
def add (b : Builder) (kind : Kind) (line : Nat) : Except BuilderError Builder :=
  if kind.isBlock then .error (.notBasic line kind.name)
  else match b.pending with
    | [] => .error (.outsideBlock line kind.name)
    | parent :: _ => .ok (b.insert kind line (some parent))

/-- Give a statement its guard. -/
def setConditions (b : Builder) (id : Nat) (tokens : Expression) : Builder :=
  b.modify id fun s => { s with content := { s.content with conditions := some tokens } }

/-- Give a statement its payload. -/
def setExpression (b : Builder) (id : Nat) (tokens : Expression) : Builder :=
  b.modify id fun s => { s with content := { s.content with expression := some tokens } }

/-- Add a token at the end of a statement's payload. -/
def appendToken (b : Builder) (id : Nat) (token : Token) : Builder :=
  b.modify id fun s =>
    { s with
      content := { s.content with expression := some (s.content.expression.getD [] ++ [token]) } }

/-- The finished script, if no block is open. -/
def finish (b : Builder) : Except BuilderError Script :=
  if !b.pending.isEmpty then .error (.unclosed b.pending.length)
  else match b.root with
    | some root =>
      if h : root < b.statements.length then .ok ⟨b.statements, root, h⟩ else .error .empty
    | none => .error .empty

end Builder

end Dialogue.Script
