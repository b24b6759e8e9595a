import Dialogue.Line.Index

/-!
Conversations as graphs. An entry is one step of a conversation; its links lead to the entries that
may follow. The runtime tries all links of normal priority before those of lower priority. An entry
whose conditions fail is either left out, or skipped with its own links tried in its place.
-/

set_option autoImplicit false
set_option relaxedAutoImplicit false

namespace Dialogue

/-- What happens at an entry whose conditions are false. -/
inductive FalseAction
  /-- The entry is left out. -/
  | block
  /-- The entry is skipped and its links are followed. -/
  | passthrough
deriving DecidableEq, Repr, Inhabited

def FalseAction.name : FalseAction → String
  | .block => "Block"
  | .passthrough => "Passthrough"

def FalseAction.ofName? : String → Option FalseAction
  | "Block" => some .block
  | "Passthrough" => some .passthrough
  | _ => none

/-- When a link is tried: every normal one before any other. -/
inductive Priority
  | normal
  | belowNormal
deriving DecidableEq, Repr, Inhabited

def Priority.name : Priority → String
  | .normal => "Normal"
  | .belowNormal => "BelowNormal"

def Priority.ofName? : String → Option Priority
  | "Normal" => some .normal
  | "BelowNormal" => some .belowNormal
  | _ => none

structure Link where
  originConversation : Nat
  originEntry : Nat
  destinationConversation : Nat
  destinationEntry : Nat
  priority : Priority := .normal
  /-- Whether the link leaves its conversation. -/
  isConnector : Bool := false
deriving DecidableEq, Repr, Inhabited

structure Entry where
  id : Nat
  conversationId : Nat
  title : String
  actorId : Nat := 0
  conversantId : Nat := 0
  dialogueText : Wording := .empty
  tags : List String := []
  /-- A Lua condition; empty if the entry has none. -/
  conditions : String := ""
  falseAction : FalseAction := .block
  /-- The Lua statements to run when the entry is reached. -/
  userScript : String := ""
  /-- The directives of the transition from the entry. -/
  sequence : String := ""
  isRoot : Bool := false
  isGroup : Bool := false
  links : List Link := []
deriving DecidableEq, Inhabited

def Entry.hasConditions (e : Entry) : Bool :=
  e.conditions ≠ ""

structure Conversation where
  id : Nat
  title : String
  actorId : Nat
  conversantId : Nat
  /-- The entries in the order of their creation; the first is where the conversation starts. -/
  entries : List Entry
deriving DecidableEq, Inhabited

namespace Conversation

/-- The id of the entry where a conversation starts. -/
def startId : Nat := 0

def entryById? (c : Conversation) (id : Nat) : Option Entry :=
  c.entries.find? (·.id = id)

def start? (c : Conversation) : Option Entry :=
  c.entryById? startId

/-- The links of all entries, in entry order. -/
def links (c : Conversation) : List Link :=
  c.entries.flatMap Entry.links

end Conversation

end Dialogue
