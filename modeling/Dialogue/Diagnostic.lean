import Dialogue.Place

/-!
What a compilation reports, in the order in which it is found.
-/

set_option autoImplicit false
set_option relaxedAutoImplicit false

namespace Dialogue

/-- How much a report weighs. -/
inductive Severity
  | error
  | warning
  | info
deriving DecidableEq, Repr, Inhabited

def Severity.word : Severity → String
  | .error => "error"
  | .warning => "warning"
  | .info => "info"

/-- A report about a script. -/
structure Diagnostic where
  severity : Severity
  message : String
  place : Option Place := none
  /-- The script node that the report is about. -/
  conversation : Option String := none
  suggestion : Option String := none
deriving DecidableEq, Repr, Inhabited

namespace Diagnostic

def isError (d : Diagnostic) : Bool :=
  d.severity = .error

/-- The text of a report: its weight and message, then its node, and its place on a line below. -/
def text (d : Diagnostic) : String :=
  let node := d.conversation.elim "" fun name => " (in node '" ++ name ++ "')"
  let place := d.place.elim "" fun place => "\n  --> " ++ place.text
  d.severity.word ++ ": " ++ d.message ++ node ++ place

/-- The number of errors among reports. -/
def errorCount (reports : List Diagnostic) : Nat :=
  (reports.filter isError).length

def hasErrors (reports : List Diagnostic) : Bool :=
  reports.any isError

end Diagnostic

end Dialogue
