import Dialogue.Graph.Basic
import Dialogue.Json.Basic

/-!
The dialogue database: the actors, variables and conversations of a project. Actors and variables
are kept in the order in which they were added; the first of a name wins.
-/

set_option autoImplicit false
set_option relaxedAutoImplicit false

namespace Dialogue

structure Actor where
  id : Nat
  name : String
  isPlayer : Bool := false
deriving DecidableEq, Repr, Inhabited

inductive VariableKind
  | boolean
  | number
  | text
deriving DecidableEq, Repr, Inhabited

def VariableKind.name : VariableKind → String
  | .boolean => "Boolean"
  | .number => "Number"
  | .text => "Text"

def VariableKind.ofName? : String → Option VariableKind
  | "Boolean" => some .boolean
  | "Number" => some .number
  | "Text" => some .text
  | _ => none

/-- A script variable with its type and the value it starts with. -/
structure Variable where
  name : String
  kind : VariableKind
  initialValue : Json
deriving Inhabited

def Variable.emptyText (name : String) : Variable :=
  ⟨name, .text, .str ""⟩

/-- What a database says about its own making. -/
structure Metadata where
  compilerVersion : String
  defaultLocale : String
  locales : List String := []
  playerActor : Nat
  defaultActor : Nat
deriving DecidableEq, Repr, Inhabited

structure Database where
  version : String
  sourceFiles : List String := []
  actors : List Actor := []
  declarations : List Variable := []
  conversations : List Conversation := []
  metadata : Metadata
deriving Inhabited

namespace Database

/-- The version of the compiler and of its database format. -/
def currentVersion : String := "0.1.0"

def new (defaultLocale : String) (locales : List String) (player defaultActor : String) :
    Database :=
  { version := currentVersion
    actors := [⟨1, player, true⟩, ⟨2, defaultActor, false⟩]
    metadata :=
      { compilerVersion := currentVersion
        defaultLocale := defaultLocale
        locales := locales
        playerActor := 1
        defaultActor := 2 } }

def conversation? (db : Database) (id : Nat) : Option Conversation :=
  db.conversations.find? (·.id = id)

def conversationByTitle? (db : Database) (title : String) : Option Conversation :=
  db.conversations.find? (·.title = title)

def actorId? (db : Database) (name : String) : Option Nat :=
  (db.actors.find? (·.name = name)).map Actor.id

/-- The id that a new actor gets: one above the highest in use. -/
def nextActorId (db : Database) : Nat :=
  db.actors.foldl (fun highest actor => max highest actor.id) 0 + 1

/-- Add an actor unless the name is taken. -/
def addActor (db : Database) (name : String) (isPlayer : Bool) : Database :=
  match db.actorId? name with
  | some _ => db
  | none => { db with actors := db.actors ++ [⟨db.nextActorId, name, isPlayer⟩] }

def findVariable? (db : Database) (name : String) : Option Variable :=
  db.declarations.find? (·.name = name)

def containsVariable (db : Database) (name : String) : Bool :=
  (db.findVariable? name).isSome

/-- Add a variable unless the name is taken. -/
def define (db : Database) (v : Variable) : Database :=
  if db.containsVariable v.name then db else { db with declarations := db.declarations ++ [v] }

end Database

end Dialogue
