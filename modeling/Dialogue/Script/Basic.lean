import Dialogue.Script.Statement

/-!
The statements of one script node, stored flat. A statement is known by its position; blocks list
their children, and every statement but the root names its parent.
-/

set_option autoImplicit false
set_option relaxedAutoImplicit false

namespace Dialogue

namespace Script

/-- A statement with its place in a script. -/
structure Statement where
  content : Content Kind
  parent : Option Nat := none
  children : List Nat := []
deriving DecidableEq, Inhabited

end Script

structure Script where
  statements : List Script.Statement
  root : Nat
  root_lt : root < statements.length

namespace Script

def get? (s : Script) (id : Nat) : Option Statement :=
  s.statements[id]?

/-- The sort of the statement with an id. -/
def kind? (s : Script) (id : Nat) : Option Kind :=
  (s.get? id).map fun statement => statement.content.kind

def rootStatement (s : Script) : Statement :=
  s.statements.get ⟨s.root, s.root_lt⟩

/-- The name of a script: that of the node at its root. -/
def name (s : Script) : String :=
  match s.rootStatement.content.kind with
  | .block (.node name _) => name
  | _ => ""

def children (s : Script) (id : Nat) : List Nat :=
  (s.get? id).elim [] Statement.children

/-- The block that holds a statement. -/
def parent? (s : Script) (id : Nat) : Option Nat :=
  (s.get? id).bind Statement.parent

/-- The blocks around a statement, from the inside out. A parent stands before its children. -/
def ancestors (s : Script) (id : Nat) : List Nat :=
  match s.parent? id with
  | some parent => if parent < id then parent :: s.ancestors parent else []
  | none => []
termination_by id

def isNode (s : Script) (id : Nat) : Bool :=
  match s.kind? id with
  | some (.block (.node ..)) => true
  | _ => false

/-- The nearest script node that is or holds a statement. -/
def enclosingNode? (s : Script) (id : Nat) : Option Nat :=
  (id :: s.ancestors id).find? s.isNode

/-- Whether a statement is what an option shows: its first child. -/
def isChoiceLine (s : Script) (id : Nat) : Bool :=
  match s.parent? id with
  | some parent => s.kind? parent = some (.block .option) && (s.children parent).head? = some id
  | none => false

end Script

end Dialogue
