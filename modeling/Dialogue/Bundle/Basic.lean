import Dialogue.Line.Index
import Dialogue.Script.Statement

/-!
Bundles: the script files of a project as a script reader hands them over. The statements of a node
are nested, and neither assignment symbols nor the shape of the tree have been looked at.
-/

set_option autoImplicit false
set_option relaxedAutoImplicit false

namespace Dialogue.Bundle

/-- A statement as a bundle describes it. -/
inductive Form
  | node (name : String) (headers : Dict String)
  | line (lineId : Option String) (hashtags : List String)
  | command (name : String) (arguments : List Command.Argument) (text : String)
  | call (name : String)
  | jump (node : Option String)
  | set (name : String) (symbol : String)
  | declare (name : String)
  | ifBlock
  | ifClause (clause : Script.ClauseKind)
  | options
  | option
deriving DecidableEq, Inhabited

/-- A statement with its place, guard, payload and the statements it holds. -/
inductive Node
  | mk (kind : Form) (line : Nat) (conditions expression : Option Expression)
      (children : List Node)
deriving Inhabited

structure LineId where
  conversation : String
  line : Nat
  lineId : String
deriving DecidableEq, Repr, Inhabited

structure File where
  file : String
  conversations : List Node := []
  lineIds : List LineId := []
  strings : Dict Wording := .empty
deriving Inhabited

end Dialogue.Bundle

namespace Dialogue

/-- The script files of a project. -/
structure Bundle where
  files : List Bundle.File := []
deriving Inhabited

end Dialogue
