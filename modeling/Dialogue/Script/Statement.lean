import Dialogue.Command.Basic
import Dialogue.Dict

/-!
Statements of a script. A basic statement stands for one action; a block holds other statements.
-/

set_option autoImplicit false
set_option relaxedAutoImplicit false

namespace Dialogue.Script

/-- Where a clause of an if block stands. -/
inductive ClauseKind
  | if_
  | elseIf
  | else_
deriving DecidableEq, Repr, Inhabited

def ClauseKind.name : ClauseKind → String
  | .if_ => "If"
  | .elseIf => "ElseIf"
  | .else_ => "Else"

def ClauseKind.ofName? : String → Option ClauseKind
  | "If" => some .if_
  | "ElseIf" => some .elseIf
  | "Else" => some .else_
  | _ => none

/-- Where a jump leads: to a node by its name, or to one that is only known when the script runs. -/
inductive Target
  | node (name : String)
  | computed (tokens : Expression)
deriving DecidableEq, Inhabited

/-- A line of dialogue: its id, if it has one of its own, and its hashtags. -/
structure Spoken where
  lineId : Option String := none
  hashtags : List String := []
deriving DecidableEq, Repr, Inhabited

inductive Basic
  | line (spoken : Spoken)
  | command (name : String) (arguments : List Command.Argument) (rawText : String)
  | call (name : String)
  | jump (target : Target)
  | set (name : String) (op : Update)
  | declare (name : String)
deriving DecidableEq, Inhabited

inductive Block
  | node (name : String) (headers : Dict String)
  | ifBlock
  | ifClause (kind : ClauseKind)
  | options
  | option
deriving DecidableEq, Inhabited

/-- A statement of either sort. -/
inductive Kind
  | basic (b : Basic)
  | block (b : Block)
deriving DecidableEq, Inhabited

namespace Kind

def isBlock : Kind → Bool
  | .basic _ => false
  | .block _ => true

/-- The word for a statement in messages. -/
def name : Kind → String
  | .basic (.line _) => "line"
  | .basic (.command ..) => "command"
  | .basic (.call _) => "call"
  | .basic (.jump _) => "jump"
  | .basic (.set ..) => "set"
  | .basic (.declare _) => "declare"
  | .block (.node ..) => "node"
  | .block .ifBlock => "if block"
  | .block (.ifClause _) => "if clause"
  | .block .options => "option list"
  | .block .option => "option"

end Kind

/-- A statement without its place among the others. -/
structure Content (κ : Type) where
  kind : κ
  /-- The source line, counted from one. -/
  line : Nat
  /-- The guard of the statement. -/
  conditions : Option Expression := none
  /-- The value, call or interpolated expressions of the statement. -/
  expression : Option Expression := none
deriving DecidableEq, Inhabited

namespace Content

variable {κ : Type}

def guard? (c : Content κ) : Option Expression :=
  c.conditions.filter (!·.isEmpty)

/-- Whether a statement has a guard that is not empty. -/
def hasConditions (c : Content κ) : Bool :=
  c.guard?.isSome

def payload? (c : Content κ) : Option Expression :=
  c.expression.filter (!·.isEmpty)

def withKind {μ : Type} (c : Content κ) (kind : μ) : Content μ :=
  ⟨kind, c.line, c.conditions, c.expression⟩

end Content

end Dialogue.Script
