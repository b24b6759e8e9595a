import Dialogue.Options
import Dialogue.Registration

/-!
Compilation of script files into one dialogue database. Actors and variables are registered first,
then every node gets its id, then the nodes are lowered file by file. Jumps into nodes that were
dropped are removed.
-/

set_option autoImplicit false
set_option relaxedAutoImplicit false

namespace Dialogue

structure Output where
  database : Database
  diagnostics : List Diagnostic
deriving Inhabited

namespace Compile

/-- The ids of the nodes met so far, the next id, and the reports of repeated names. -/
structure Numbering where
  ids : Dict Nat := .empty
  next : Nat := 1
  reports : List Diagnostic := []

/-- The report of a node whose name is taken. -/
def duplicate (file : String) (s : Script) : Diagnostic :=
  { severity := .error
    message := "duplicate node '" ++ s.name ++ "'"
    place := some ⟨file, s.rootStatement.content.line⟩
    conversation := some s.name
    suggestion := some "node names must be unique across the project" }

/-- The nodes of a file with their ids. A node whose name is taken gets none. -/
def number (file : String) (n : Numbering) : List Script → Numbering × List (Script × Option Nat)
  | [] => (n, [])
  | s :: rest =>
    if n.ids.contains s.name then
      let (last, numbered) := number file { n with reports := n.reports ++ [duplicate file s] } rest
      (last, (s, none) :: numbered)
    else
      let (last, numbered) :=
        number file { n with ids := n.ids.insert s.name n.next, next := n.next + 1 } rest
      (last, (s, some n.next) :: numbered)

/-- A file with its nodes and their ids. -/
abbrev NumberedFile := ScriptFile × List (Script × Option Nat)

/-- The nodes of all files with their ids, in order of appearance. -/
def numberFiles (n : Numbering) : List ScriptFile → Numbering × List NumberedFile
  | [] => (n, [])
  | file :: rest =>
    let (n, numbered) := number file.file n file.scripts
    let (last, others) := numberFiles n rest
    (last, (file, numbered) :: others)

/-- The conversations of a file's nodes, none at all after an error that condemns the file, and the
reports of the errors. -/
def lowerScripts (ctx : Context) (file : String) :
    List (Script × Option Nat) → Option (List Conversation) × List Diagnostic
  | [] => (some [], [])
  | (_, none) :: rest => lowerScripts ctx file rest
  | (s, some id) :: rest =>
    match s.lower ctx id with
    | .ok conversation =>
      let (others, reports) := lowerScripts ctx file rest
      (others.map (conversation :: ·), reports)
    | .error e =>
      if e.isFatal then (none, [e.diagnostic file])
      else
        let (others, reports) := lowerScripts ctx file rest
        (others, e.diagnostic file :: reports)

/-- The conversations of a file and the reports of its errors. -/
def lowerFile (db : Database) (ids : Dict Nat) (defaultLocale : String) (numbered : NumberedFile) :
    List Conversation × List Diagnostic :=
  let (file, scripts) := numbered
  let (conversations, reports) :=
    lowerScripts ⟨db, ids, file.lines, defaultLocale⟩ file.file scripts
  (conversations.getD [], reports)

/-- Whether a link leads nowhere, given the ids of the conversations there are. -/
def isDangling (present : List Nat) (link : Link) : Bool :=
  link.isConnector && !present.contains link.destinationConversation

def nodeName (ids : Dict Nat) (id : Nat) : String :=
  ((ids.entries.find? fun entry => entry.2 = id).map Prod.fst).getD "?"

/-- The report of a jump that is removed from a conversation. -/
def removedJump (ids : Dict Nat) (title : String) (link : Link) : Diagnostic :=
  { severity := .warning
    message := "jump to node '" ++ nodeName ids link.destinationConversation ++
      "' removed: that node failed to compile"
    conversation := some title }

def withoutDangling (present : List Nat) (c : Conversation) : Conversation :=
  { c with entries := c.entries.map fun e =>
      { e with links := e.links.filter fun link => !isDangling present link } }

def danglingReports (present : List Nat) (ids : Dict Nat) (c : Conversation) : List Diagnostic :=
  (c.links.filter (isDangling present)).map (removedJump ids c.title)

end Compile

/-- The database of a list of script files, and what there is to report. -/
def compile (files : List ScriptFile) (options : Options) : Output :=
  let empty := Database.new options.defaultLocale options.locales options.playerName
    options.defaultActorName
  let (db, registered) := Registration.register files
    { empty with sourceFiles := files.map ScriptFile.file } options.defaultLocale
  let (numbering, numbered) := Compile.numberFiles {} files
  let lowered := numbered.map (Compile.lowerFile db numbering.ids options.defaultLocale)
  let conversations := lowered.flatMap Prod.fst
  let present := conversations.map Conversation.id
  { database := { db with conversations := conversations.map (Compile.withoutDangling present) }
    diagnostics := registered ++ numbering.reports ++ lowered.flatMap Prod.snd ++
      conversations.flatMap (Compile.danglingReports present numbering.ids) }

end Dialogue
