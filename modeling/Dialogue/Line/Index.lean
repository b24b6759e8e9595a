import Dialogue.Dict

/-!
The lines of a script file: which line stands where, and the texts of each line by locale.
-/

set_option autoImplicit false
set_option relaxedAutoImplicit false

namespace Dialogue

/-- The text of a line in each locale. -/
abbrev Wording := Dict String

namespace Wording

/-- The text that speakers and tags are read from: that of the default locale, else that of the
first locale there is. -/
def default? (text : Wording) (locale : String) : Option String :=
  (text.get? locale).or text.values.head?

end Wording

/-- The lines of a script file. Of several lines put at one place the latest stands first. -/
structure LineIndex where
  ids : List ((String × Nat) × String) := []
  texts : Dict Wording := .empty
deriving Inhabited

namespace LineIndex

/-- Put a line at a place in a conversation. -/
def insertId (table : LineIndex) (conversation : String) (line : Nat) (lineId : String) :
    LineIndex :=
  { table with ids := ((conversation, line), lineId) :: table.ids }

def insertText (table : LineIndex) (lineId : String) (text : Wording) : LineIndex :=
  { table with texts := table.texts.insert lineId text }

def lineId? (table : LineIndex) (conversation : String) (line : Nat) : Option String :=
  table.ids.lookup (conversation, line)

def text? (table : LineIndex) (lineId : String) : Option Wording :=
  table.texts.get? lineId

/-- A line statement's id and texts: by its own id if it has one, else by its place. -/
def resolve? (table : LineIndex) (lineId : Option String) (conversation : String) (line : Nat) :
    Option (String × Wording) := do
  let id ← lineId.or (table.lineId? conversation line)
  let text ← table.text? id
  return (id, text)

end LineIndex

end Dialogue
