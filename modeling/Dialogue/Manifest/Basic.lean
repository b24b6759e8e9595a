import Dialogue.Files.Basic
import Dialogue.Options
import Dialogue.Text.Blank
import Dialogue.Toml.Reader

/-!
The manifest of a project: its name, its locales and the names of two actors. Every setting has a
default, and settings of other names are ignored.
-/

set_option autoImplicit false
set_option relaxedAutoImplicit false

namespace Dialogue

structure Manifest where
  projectName : Option String := none
  defaultLocale : String := "en"
  locales : List String := []
  /-- The actor who speaks every choice. -/
  player : String := "Player"
  /-- The actor of lines without a speaker. -/
  defaultActor : String := "NPC"
deriving DecidableEq, Repr, Inhabited

inductive ManifestError
  | notFound (directory : String)
  | unreadable (error : FileError)
  | malformed
  | sharedActorName (name : String)
  | emptyActorName
  | unknownDefaultLocale (locale : String)
deriving DecidableEq, Repr, Inhabited

def ManifestError.message : ManifestError → String
  | .notFound directory => "no Spindle.toml found (searched from " ++ directory ++ ")"
  | .unreadable error => "failed to read Spindle.toml: " ++ error.message
  | .malformed => "invalid Spindle.toml: not a document with the expected settings"
  | .sharedActorName name =>
    "invalid Spindle.toml: [actors] player and default actor are both '" ++ name ++ "'"
  | .emptyActorName => "invalid Spindle.toml: actor name in [actors] must not be empty"
  | .unknownDefaultLocale locale =>
    "invalid Spindle.toml: default_locale '" ++ locale ++ "' is not listed in locales"

namespace Toml

/-- The members of a section. A list gives the settings in order, and a date has no setting. -/
def Value.section? (names : List String) : Value → Option Members
  | .table _ members | .record members => some members
  | .array items => some (names.zip items)
  | .moment => some []
  | _ => none

def Value.text? : Value → Option String
  | .text content => some content
  | _ => none

def Value.texts? : Value → Option (List String)
  | .array items => items.mapM Value.text?
  | _ => none

def Members.setting? {α : Type} (members : Members) (name : String) (read : Value → Option α)
    (fallback : α) : Option α :=
  match members.lookup name with
  | none => some fallback
  | some value => read value

end Toml

namespace Manifest

/-- The settings that a document gives. -/
def ofToml? (document : Toml.Members) : Option Manifest := do
  let project ← document.setting? "project"
    (Toml.Value.section? ["name", "default_locale", "locales"]) []
  let actors ← document.setting? "actors" (Toml.Value.section? ["player", "default"]) []
  let standard : Manifest := {}
  return {
    projectName := ← project.setting? "name" (fun v => v.text?.map some) standard.projectName
    defaultLocale := ← project.setting? "default_locale" Toml.Value.text? standard.defaultLocale
    locales := ← project.setting? "locales" Toml.Value.texts? standard.locales
    player := ← actors.setting? "player" Toml.Value.text? standard.player
    defaultActor := ← actors.setting? "default" Toml.Value.text? standard.defaultActor }

/-- Whether a name has nothing but blanks. -/
def isBlankName (name : String) : Bool :=
  (Text.trim name.toList).isEmpty

/-- The manifest, if its settings agree with each other. -/
def validate (m : Manifest) : Except ManifestError Manifest :=
  if isBlankName m.player || isBlankName m.defaultActor then .error .emptyActorName
  else if m.player = m.defaultActor then .error (.sharedActorName m.player)
  else if !m.locales.isEmpty && !m.locales.contains m.defaultLocale then
    .error (.unknownDefaultLocale m.defaultLocale)
  else .ok m

def parse (text : String) : Except ManifestError Manifest :=
  match (Toml.parse? text).bind ofToml? with
  | none => .error .malformed
  | some m => m.validate

/-- Every locale once, the default one first. -/
def allLocales (m : Manifest) : List String :=
  m.locales.foldl (fun all locale => if all.contains locale then all else all ++ [locale])
    [m.defaultLocale]

def options (m : Manifest) : Options where
  defaultLocale := m.defaultLocale
  locales := m.allLocales
  playerName := m.player
  defaultActorName := m.defaultActor

end Manifest

end Dialogue
