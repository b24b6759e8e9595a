import Dialogue.Line.Index
import Dialogue.Script.Tree

/-!
Script files, read and ready to be compiled.
-/

set_option autoImplicit false
set_option relaxedAutoImplicit false

namespace Dialogue

/-- A script file: its nodes and its lines. -/
structure ScriptFile where
  file : String
  scripts : List Script
  lines : LineIndex

end Dialogue
