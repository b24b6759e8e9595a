import Dialogue.Database.Basic
import Dialogue.Json.Decode

/-!
Databases as JSON. Empty lists, dictionaries and texts are left out where they are the default.
-/

set_option autoImplicit false
set_option relaxedAutoImplicit false

namespace Dialogue

open Json (Record)

namespace Json

def memberUnless (omitted : Bool) (name : String) (value : Json) : List (String × Json) :=
  if omitted then [] else [(name, value)]

/-- A list as a member that is left out if the list is empty. -/
def listMember {α : Type} (name : String) (f : α → Json) (items : List α) : List (String × Json) :=
  memberUnless items.isEmpty name (.arr (items.map f))

/-- A text as a member that is left out if the text is empty. -/
def textMember (name : String) (s : String) : List (String × Json) :=
  memberUnless (s = "") name (.str s)

end Json

def Link.toJson (l : Link) : Json :=
  .obj [("origin_conversation_id", .ofNat l.originConversation),
    ("origin_entry_id", .ofNat l.originEntry),
    ("destination_conversation_id", .ofNat l.destinationConversation),
    ("destination_entry_id", .ofNat l.destinationEntry),
    ("priority", .str l.priority.name), ("is_connector", .bool l.isConnector)]

def Link.ofJson? (value : Json) : Option Link := do
  let r ← Record.of? ["origin_conversation_id", "origin_entry_id", "destination_conversation_id",
    "destination_entry_id", "priority", "is_connector"] value
  return {
    originConversation := ← r.required? "origin_conversation_id" Json.word32?
    originEntry := ← r.required? "origin_entry_id" Json.word32?
    destinationConversation := ← r.required? "destination_conversation_id" Json.word32?
    destinationEntry := ← r.required? "destination_entry_id" Json.word32?
    priority := ← r.withDefault? "priority" .normal (Json.name? .plain Priority.ofName?)
    isConnector := ← r.withDefault? "is_connector" false Json.bool? }

def Entry.toJson (e : Entry) : Json :=
  .obj ([("id", .ofNat e.id), ("conversation_id", .ofNat e.conversationId), ("title", .str e.title),
    ("actor_id", .ofNat e.actorId), ("conversant_id", .ofNat e.conversantId)] ++
    Json.memberUnless e.dialogueText.isEmpty "dialogue_text" (.ofDict .str e.dialogueText) ++
    Json.listMember "tags" .str e.tags ++
    Json.textMember "conditions" e.conditions ++
    [("false_condition_action", .str e.falseAction.name)] ++
    Json.textMember "user_script" e.userScript ++
    Json.textMember "sequence" e.sequence ++
    [("is_root", .bool e.isRoot), ("is_group", .bool e.isGroup)] ++
    Json.listMember "outgoing_links" Link.toJson e.links)

def Entry.ofJson? (value : Json) : Option Entry := do
  let r ← Record.of? ["id", "conversation_id", "title", "actor_id",
    "conversant_id", "dialogue_text", "tags", "conditions", "false_condition_action", "user_script",
    "sequence", "is_root", "is_group",
    "outgoing_links"] value
  return {
    id := ← r.required? "id" Json.word32?
    conversationId := ← r.required? "conversation_id" Json.word32?
    title := ← r.required? "title" Json.text?
    actorId := ← r.required? "actor_id" Json.word32?
    conversantId := ← r.required? "conversant_id" Json.word32?
    dialogueText := ← r.withDefault? "dialogue_text" .empty (Json.dict? Json.text?)
    tags := ← r.withDefault? "tags" [] (Json.list? Json.text?)
    conditions := ← r.withDefault? "conditions" "" Json.text?
    falseAction :=
      ← r.withDefault? "false_condition_action" .block (Json.name? .plain FalseAction.ofName?)
    userScript := ← r.withDefault? "user_script" "" Json.text?
    sequence := ← r.withDefault? "sequence" "" Json.text?
    isRoot := ← r.withDefault? "is_root" false Json.bool?
    isGroup := ← r.withDefault? "is_group" false Json.bool?
    links := ← r.withDefault? "outgoing_links" [] (Json.list? Link.ofJson?) }

def Conversation.toJson (c : Conversation) : Json :=
  .obj [("id", .ofNat c.id), ("title", .str c.title), ("actor_id", .ofNat c.actorId),
    ("conversant_id", .ofNat c.conversantId), ("entries", .arr (c.entries.map Entry.toJson))]

def Conversation.ofJson? (value : Json) : Option Conversation := do
  let r ← Record.of? ["id", "title", "actor_id", "conversant_id", "entries"] value
  return {
    id := ← r.required? "id" Json.word32?
    title := ← r.required? "title" Json.text?
    actorId := ← r.required? "actor_id" Json.word32?
    conversantId := ← r.required? "conversant_id" Json.word32?
    entries := ← r.required? "entries" (Json.list? Entry.ofJson?) }

def Actor.toJson (a : Actor) : Json :=
  .obj [("id", .ofNat a.id), ("name", .str a.name), ("is_player", .bool a.isPlayer)]

def Actor.ofJson? (value : Json) : Option Actor := do
  let r ← Record.of? ["id", "name", "is_player"] value
  return ⟨← r.required? "id" Json.word32?, ← r.required? "name" Json.text?,
    ← r.withDefault? "is_player" false Json.bool?⟩

def Variable.toJson (v : Variable) : Json :=
  .obj [("name", .str v.name), ("kind", .str v.kind.name), ("initial_value", v.initialValue)]

def Variable.ofJson? (value : Json) : Option Variable := do
  let r ← Record.of? ["name", "kind", "initial_value"] value
  return ⟨← r.required? "name" Json.text?,
    ← r.required? "kind" (Json.name? .plain VariableKind.ofName?),
    ← r.required? "initial_value" Json.value?⟩

def Metadata.toJson (m : Metadata) : Json :=
  .obj ([("compiler_version", .str m.compilerVersion), ("default_locale", .str m.defaultLocale)] ++
    Json.listMember "locales" .str m.locales ++
    [("player_actor_id", .ofNat m.playerActor), ("default_actor_id", .ofNat m.defaultActor)])

def Metadata.ofJson? (value : Json) : Option Metadata := do
  let r ← Record.of? ["compiler_version", "default_locale", "locales", "player_actor_id",
    "default_actor_id"] value
  return {
    compilerVersion := ← r.required? "compiler_version" Json.text?
    defaultLocale := ← r.required? "default_locale" Json.text?
    locales := ← r.withDefault? "locales" [] (Json.list? Json.text?)
    playerActor := ← r.required? "player_actor_id" Json.word32?
    defaultActor := ← r.required? "default_actor_id" Json.word32? }

namespace Database

def toJson (db : Database) : Json :=
  .obj ([("version", .str db.version)] ++
    Json.listMember "source_files" .str db.sourceFiles ++
    Json.listMember "actors" Actor.toJson db.actors ++
    Json.listMember "variables" Variable.toJson db.declarations ++
    Json.listMember "conversations" Conversation.toJson db.conversations ++
    [("metadata", db.metadata.toJson)])

def ofJson? (value : Json) : Option Database := do
  let r ← Record.of? ["version", "source_files", "actors", "variables", "conversations", "metadata"]
    value
  return {
    version := ← r.required? "version" Json.text?
    sourceFiles := ← r.withDefault? "source_files" [] (Json.list? Json.text?)
    actors := ← r.withDefault? "actors" [] (Json.list? Actor.ofJson?)
    declarations := ← r.withDefault? "variables" [] (Json.list? Variable.ofJson?)
    conversations := ← r.withDefault? "conversations" [] (Json.list? Conversation.ofJson?)
    metadata := ← r.required? "metadata" Metadata.ofJson? }

end Database

end Dialogue
