import Dialogue.Database.Declaration
import Dialogue.Diagnostic
import Dialogue.Graph.Lowering
import Dialogue.Script.File

/-!
Registration of actors and variables, before any node is lowered. Actors are those that node headers
and speakers name, in order of appearance. Variables are those that are declared, in name order,
then those that are only set. The first of a name wins, and a declaration of another type is
reported.
-/

set_option autoImplicit false
set_option relaxedAutoImplicit false

namespace Dialogue.Registration

/-- A statement that declares or sets a variable, with its place. -/
structure VariableUse where
  name : String
  file : String
  conversation : String
  line : Nat
  inferred : VariableKind × Json

inductive Mention
  | actor (name : String) (isPlayer : Bool)
  | declared (usage : VariableUse)
  | assigned (usage : VariableUse)

/-- What the statements of one script share. -/
structure Source where
  file : String
  lines : LineIndex
  defaultLocale : String
  conversation : String

def Source.speaker? (source : Source) (lineId : Option String) (line : Nat) : Option String := do
  let (_, texts) ← source.lines.resolve? lineId source.conversation line
  let text ← texts.default? source.defaultLocale
  (Line.speakerAndRest text).1

/-- What a basic statement mentions. A line that an option shows is spoken by the player. -/
def Source.mentioned (source : Source) (isChoice : Bool) (content : Script.Content Script.Kind) :
    Script.Basic → List Mention
  | .line spoken =>
    if isChoice then []
    else ((source.speaker? spoken.lineId content.line).map fun name => .actor name false).toList
  | .set name _ =>
    [.assigned ⟨name, source.file, source.conversation, content.line, (.text, .str "")⟩]
  | .declare name =>
    [.declared ⟨name, source.file, source.conversation, content.line,
      Variable.infer content.payload?⟩]
  | _ => []

mutual

/-- What a tree mentions, statement by statement. -/
def mentions (source : Source) (isChoice : Bool) : Script.Tree → List Mention
  | .node _ content children =>
    match content.kind with
    | .basic b => source.mentioned isChoice content b
    | .block .option => mentionsList source true children
    | .block _ => mentionsList source false children

/-- What a list of trees mentions, given whether its first is the line of an option. -/
def mentionsList (source : Source) (firstIsChoice : Bool) : List Script.Tree → List Mention
  | [] => []
  | t :: rest => mentions source firstIsChoice t ++ mentionsList source false rest

end

/-- The actors that the headers of a node name: the actor is a player, the conversant is not. -/
def headerActors (s : Script) : List Mention :=
  match s.rootStatement.content.kind with
  | .block (.node _ headers) =>
    ((headers.get? actorHeader).map fun name => .actor name true).toList ++
      ((headers.get? conversantHeader).map fun name => .actor name false).toList
  | _ => []

def ofScript (file : ScriptFile) (defaultLocale : String) (s : Script) : List Mention :=
  headerActors s ++ mentions ⟨file.file, file.lines, defaultLocale, s.name⟩ false s.tree

def ofFiles (files : List ScriptFile) (defaultLocale : String) : List Mention :=
  files.flatMap fun file => file.scripts.flatMap (ofScript file defaultLocale)

def Mention.actor? : Mention → Option (String × Bool)
  | .actor name isPlayer => some (name, isPlayer)
  | _ => none

def Mention.declared? : Mention → Option VariableUse
  | .declared usage => some usage
  | _ => none

def Mention.assigned? : Mention → Option VariableUse
  | .assigned usage => some usage
  | _ => none

/-- Sites in name order, those of one name in the order in which they were found. -/
def byName (usages : List VariableUse) : List VariableUse :=
  usages.mergeSort fun a b => decide (a.name ≤ b.name)

/-- The report of a declaration that another one overrules. -/
def conflict (usage : VariableUse) (existing : VariableKind) : Diagnostic :=
  { severity := .warning
    message := "'" ++ usage.name ++ "' is already declared as " ++ existing.name ++
      "; this declaration as " ++ usage.inferred.1.name ++ " is ignored"
    place := some ⟨usage.file, usage.line⟩
    conversation := some usage.conversation }

/-- Define the variable of a declaration, or report a declaration of another type. -/
def declare (state : Database × List Diagnostic) (usage : VariableUse) :
    Database × List Diagnostic :=
  let (db, reports) := state
  match db.findVariable? usage.name with
  | some existing =>
    if existing.kind ≠ usage.inferred.1 then (db, reports ++ [conflict usage existing.kind])
    else (db, reports)
  | none => (db.define ⟨usage.name, usage.inferred.1, usage.inferred.2⟩, reports)

def register (files : List ScriptFile) (db : Database) (defaultLocale : String) :
    Database × List Diagnostic :=
  let found := ofFiles files defaultLocale
  let cast := (found.filterMap Mention.actor?).foldl (fun db a => db.addActor a.1 a.2) db
  let (declared, reports) := (byName (found.filterMap Mention.declared?)).foldl declare (cast, [])
  let assigned := (byName (found.filterMap Mention.assigned?)).foldl
    (fun db usage => db.define (.emptyText usage.name)) declared
  (assigned, reports)

end Dialogue.Registration
