import Dialogue.Graph.Basic
import Dialogue.Lua.Builtin

/-!
Conversations under construction. Entries are only ever added at the end, so that the id of an entry
is its position; what is added to an entry later goes to the end of its script, sequence or links.
-/

set_option autoImplicit false
set_option relaxedAutoImplicit false

namespace Dialogue

/-- A conversation under construction, with the speaker and listener of its new entries. -/
structure Draft where
  conversation : Conversation
  speaker : Nat
  listener : Nat
deriving DecidableEq, Inhabited

namespace Draft

/-- The title of the entry where a conversation starts. -/
def startTitle : String := "START"

/-- The sequence of the entry where a conversation starts: nothing to play. -/
def startSequence : String := "None()"

def entries (d : Draft) : List Entry :=
  d.conversation.entries

def nextId (d : Draft) : Nat :=
  d.entries.length

def entryAt? (d : Draft) (id : Nat) : Option Entry :=
  d.entries[id]?

def withEntries (d : Draft) (entries : List Entry) : Draft :=
  { d with conversation := { d.conversation with entries } }

def modify (d : Draft) (id : Nat) (f : Entry → Entry) : Draft :=
  d.withEntries (d.entries.modify id f)

/-- The next entry, as it is when it is added. -/
def fresh (d : Draft) (title : String) : Entry :=
  { id := d.nextId
    conversationId := d.conversation.id
    title := title
    actorId := d.speaker
    conversantId := d.listener }

def push (d : Draft) (entry : Entry) : Draft :=
  d.withEntries (d.entries ++ [entry])

/-- Add an entry with a title. Its id is the `nextId` from before. -/
def create (d : Draft) (title : String) : Draft :=
  d.push (d.fresh title)

/-- A conversation that holds the entry where it starts and nothing else. -/
def start (id : Nat) (title : String) (actor conversant speaker listener : Nat) : Draft :=
  let empty : Draft := ⟨⟨id, title, actor, conversant, []⟩, speaker, listener⟩
  empty.push { empty.fresh startTitle with isRoot := true, sequence := startSequence }

/-- Put a link at the end of an entry's links. -/
def addLink (d : Draft) (origin : Nat) (link : Link) : Draft :=
  d.modify origin fun e => { e with links := e.links ++ [link] }

/-- Link two entries of the conversation. -/
def link (d : Draft) (origin destination : Nat) (priority : Priority) : Draft :=
  d.addLink origin
    { originConversation := d.conversation.id
      originEntry := origin
      destinationConversation := d.conversation.id
      destinationEntry := destination
      priority := priority }

/-- Link an entry to an entry of another conversation. -/
def connect (d : Draft) (origin conversation destination : Nat) : Draft :=
  d.addLink origin
    { originConversation := d.conversation.id
      originEntry := origin
      destinationConversation := conversation
      destinationEntry := destination
      isConnector := true }

def setConditions (d : Draft) (id : Nat) (conditions : String) (action : FalseAction) : Draft :=
  d.modify id fun e => { e with conditions := conditions, falseAction := action }

/-- A script with further statements on a line of their own. -/
def joinScript (script addition : String) : String :=
  if script = "" then addition else script ++ "\n" ++ addition

/-- Add statements to the script of an entry. -/
def appendScript (d : Draft) (id : Nat) (script : String) : Draft :=
  d.modify id fun e => { e with userScript := joinScript e.userScript script }

/-- A sequence with a further directive, which takes the place of a bare continuation. -/
def joinSequence (sequence addition : String) : String :=
  if sequence = "" || sequence = Lua.continueSequence then addition
  else sequence ++ "; " ++ addition

/-- Add a directive to the sequence of an entry. -/
def appendSequence (d : Draft) (id : Nat) (sequence : String) : Draft :=
  d.modify id fun e => { e with sequence := joinSequence e.sequence sequence }

def setSequence (d : Draft) (id : Nat) (sequence : String) : Draft :=
  d.modify id fun e => { e with sequence := sequence }

def setGroup (d : Draft) (id : Nat) : Draft :=
  d.modify id fun e => { e with isGroup := true }

end Draft

end Dialogue
