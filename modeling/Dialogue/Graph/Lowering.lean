import Dialogue.Command.Directive
import Dialogue.Database.Basic
import Dialogue.Graph.Draft
import Dialogue.Graph.Error
import Dialogue.Line.SequenceTag
import Dialogue.Line.Speaker

/-!
From scripts to conversation graphs. Each item of a body is added to the draft behind the entry from
which the flow continues, and yields the entry from which it continues afterwards.
-/

set_option autoImplicit false
set_option relaxedAutoImplicit false

namespace Dialogue

/-- What all nodes of a compilation share. -/
structure Context where
  /-- Where actors are looked up. -/
  database : Database
  /-- The ids of the nodes that jumps may name. -/
  conversations : Dict Nat
  lines : LineIndex
  defaultLocale : String

/-- The header that names the actor of a node. -/
def actorHeader : String := "actor"

/-- The header that names the conversant of a node. -/
def conversantHeader : String := "conversant"

/-- What the statements of a node share. -/
structure Scene where
  context : Context
  name : String
  actor : Nat
  conversant : Nat

namespace Scene

/-- The scene of a node: its actor is the player and its conversant the default actor, unless
headers name others. -/
def ofNode (ctx : Context) (node : Script.Node) : Scene :=
  let named := fun (header : String) => (node.headers.get? header).bind ctx.database.actorId?
  { context := ctx
    name := node.name
    actor := (named actorHeader).getD ctx.database.metadata.playerActor
    conversant := (named conversantHeader).getD ctx.database.metadata.defaultActor }

def player (scene : Scene) : Nat :=
  scene.context.database.metadata.playerActor

/-- The actor of lines that name no speaker. -/
def narrator (scene : Scene) : Nat :=
  scene.context.database.metadata.defaultActor

def error (scene : Scene) (line : Nat) (cause : Cause) : CompileError :=
  ⟨scene.name, line, cause⟩

/-- The value of an expression, or its error at a line of the node. -/
def located {α : Type} (scene : Scene) (line : Nat) (result : Except ExprError α) :
    Except CompileError α :=
  result.mapError fun e => scene.error line (.expression e)

def condition (scene : Scene) (line : Nat) (guard : Option Expression) :
    Except CompileError (Option String) :=
  match guard with
  | some tokens => do return some (← scene.located line tokens.fragment)
  | none => .ok none

end Scene

namespace Entry

def guarded (e : Entry) (condition : Option String) (action : FalseAction) : Entry :=
  match condition with
  | some conditions => { e with conditions := conditions, falseAction := action }
  | none => e

/-- The entry with the texts of a line, its speaker's name left out, and the sequence that the line
asks for. -/
def spoken (e : Entry) (texts : Wording) (locale : String) : Entry :=
  { e with
    dialogueText := texts.map fun text => (Line.speakerAndRest text).2
    sequence := (Line.sequenceTag? ((texts.default? locale).getD "")).getD e.sequence }

end Entry

namespace Draft

/-- Add an entry that goes on without waiting. -/
def control (d : Draft) (title : String) : Draft :=
  d.push { d.fresh title with sequence := Lua.continueSequence }

def addFormatArguments (d : Draft) (pred entry : Nat) (fragments : List String) : Draft :=
  (Lua.formatCalls d.conversation.id entry fragments).foldl
    (fun d call => d.appendScript pred call) d

/-- Add an entry that runs a script, behind another. Its guard does not block the flow. -/
def scriptEntry (d : Draft) (pred : Nat) (title script : String) (condition : Option String) :
    Draft :=
  let entry := { d.fresh title with sequence := Lua.continueSequence, userScript := script }
  (d.push (entry.guarded condition .passthrough)).link pred d.nextId .normal

end Draft

namespace Scene

open Script

/-- Add an entry that runs the script of a statement. -/
def addScript {κ : Type} (scene : Scene) (d : Draft) (pred : Nat) (s : Content κ)
    (title script : String) : Except CompileError (Draft × Nat) := do
  let condition ← scene.condition s.line s.guard?
  return (d.scriptEntry pred title script condition, d.nextId)

/-- Add a line. A choice is spoken by the player, and is guarded by the option if it has no guard of
its own; the entry of a choice is left out when its guard fails. -/
def addLine (scene : Scene) (d : Draft) (pred : Nat) (s : Content Spoken)
    (choiceOf : Option (Content Unit)) : Except CompileError (Draft × Nat) := do
  let texts := (scene.context.lines.resolve? s.kind.lineId scene.name s.line).map Prod.snd
  let locale := scene.context.defaultLocale
  let speaker := (texts.bind (·.default? locale)).bind fun text => (Line.speakerAndRest text).1
  let (actor, conversant) := match choiceOf with
    | some _ => (scene.player, scene.conversant)
    | none =>
      let actor := (speaker.bind scene.context.database.actorId?).getD scene.narrator
      (actor, if actor = scene.player then scene.conversant else scene.player)
  let (guardLine, guard) := match choiceOf with
    | some option => if s.hasConditions then (s.line, s.guard?) else (option.line, option.guard?)
    | none => (s.line, s.guard?)
  let condition ← scene.condition guardLine guard
  let fragments ← match s.payload? with
    | some tokens => scene.located s.line tokens.fragments
    | none => .ok []
  let blank := d.fresh (if choiceOf.isSome then "Shortcut Option Start" else "Line")
  let worded := match texts with
    | some texts => blank.spoken texts locale
    | none => blank
  let entry := { worded with actorId := actor, conversantId := conversant, tags := s.kind.hashtags }
  let action := if choiceOf.isSome then FalseAction.block else .passthrough
  let grown := (d.push (entry.guarded condition action)).addFormatArguments pred d.nextId fragments
  return (grown.link pred d.nextId .normal, d.nextId)

def addAssignment {κ : Type} (scene : Scene) (d : Draft) (pred : Nat)
    (s : Content κ) (name : String) (op : Update) : Except CompileError (Draft × Nat) := do
  let some payload := s.payload? | throw (scene.error s.line (.noValue name))
  let value ← scene.located s.line payload.fragment
  let stored := Lua.lookup name
  let script := match op.luaOperator? with
    | none => stored ++ " = " ++ value
    | some symbol => stored ++ " = " ++ stored ++ " " ++ symbol ++ " (" ++ value ++ ")"
  scene.addScript d pred s "Store Variable" script

/-- Add a jump. The statements after it go behind an entry that is never entered. -/
def addJump {κ : Type} (scene : Scene) (d : Draft) (pred : Nat) (s : Content κ) (target : Target) :
    Except CompileError (Draft × Nat) := do
  match target with
  | .computed _ => throw (scene.error s.line .computedJump)
  | .node name =>
    let some destination := scene.context.conversations.get? name
      | throw (scene.error s.line (.unknownNode name))
    let (jumped, jump) ← scene.addScript d pred s "Jump to Conversation" ""
    let connected := jumped.connect jump destination Conversation.startId
    let unreachable := connected.nextId
    let placeholder := (connected.fresh "Unreachable Entry").guarded (some "false") .block
    return ((connected.push placeholder).link jump unreachable .belowNormal, unreachable)

def addBasic (scene : Scene) (d : Draft) (pred : Nat) (s : Content Basic) :
    Except CompileError (Draft × Nat) :=
  match s.kind with
  | .line spoken => scene.addLine d pred (s.withKind spoken) none
  | .command name arguments rawText =>
    match Command.Kind.ofName name with
    | .playSequence => do
      let directive ← scene.located s.line (Command.sequenceText rawText arguments)
      return (d.appendSequence pred directive, pred)
    | .wait => do
      let directive ← scene.located s.line (Command.waitText arguments)
      return (d.appendSequence pred directive, pred)
    | .stop => scene.addScript d pred s "Stop" (Lua.stopConversation ++ "()")
    | .custom => do
      let script ← scene.located s.line (Command.call name arguments)
      scene.addScript d pred s "Run Command" script
  | .call name => do
    let some payload := s.payload? | throw (scene.error s.line (.noFunction name))
    let script ← scene.located s.line payload.fragment
    scene.addScript d pred s "Call Function" script
  | .jump target => scene.addJump d pred s target
  | .set name op => scene.addAssignment d pred s name op
  | .declare name => scene.addAssignment d pred s name .assign

/-- The entries of a clause: where it starts, where it ends, and the one to try when its guard
fails. -/
structure Arm where
  start : Nat
  finish : Nat
  fallback : Option Nat
deriving DecidableEq, Repr

/-- Link the clauses of a branch to its end, and each fallback to the next clause, or to the end
after the last. A fallback is tried after the clause that it follows. -/
def linkArms (d : Draft) (previous finish : Nat) : List Arm → Draft
  | [] => d
  | arm :: rest =>
    match arm.fallback with
    | some fallback =>
      let next := (rest.head?.map Arm.start).getD finish
      let chained :=
        ((d.link previous fallback .belowNormal).link fallback next .normal).setGroup previous
      linkArms (chained.link arm.finish finish .normal) fallback finish rest
    | none => linkArms (d.link arm.finish finish .normal) previous finish rest

/-- Open the clause of a branch with its two entries. -/
def openArm (d : Draft) (kind : ClauseKind) : Draft :=
  (d.control (kind.name ++ " Clause Start")).control (kind.name ++ " Clause End")

mutual

def addItem (scene : Scene) (d : Draft) (pred : Nat) : Item → Except CompileError (Draft × Nat)
  | .basic s => scene.addBasic d pred s
  | .branch clauses otherwise => do
    let start := d.nextId
    let opened := ((d.control "If Block Start").setGroup start).link pred start .normal
    let finish := opened.nextId
    let (guarded, arms) ← addClauses scene (opened.control "If Block End") .if_ clauses
    let (complete, last) ← match otherwise with
      | some body => do
        let clauseStart := guarded.nextId
        let (grown, exit) ← addItems scene (openArm guarded .else_) clauseStart body
        let last : Arm := ⟨clauseStart, clauseStart + 1, none⟩
        pure (grown.link exit last.finish .normal, [last])
      | none => pure (guarded, [])
    let all := arms ++ last
    let entered := match all.head? with
      | some first => complete.link start first.start .normal
      | none => complete
    return (linkArms entered start finish all, finish)
  | .menu choices => do
    let start := d.nextId
    let control := d.control "Shortcut Option List Start"
    let grouped := if 1 < choices.length then control.setGroup start else control
    let opened := grouped.link pred start .normal
    let finish := opened.nextId
    let (complete, allGuarded) ←
      addChoices scene (opened.control "Shortcut Option List End") start finish choices
    let closed := if allGuarded then complete.link start finish .belowNormal else complete
    return (closed, finish)

def addItems (scene : Scene) (d : Draft) (pred : Nat) :
    List Item → Except CompileError (Draft × Nat)
  | [] => .ok (d, pred)
  | item :: rest => do
    let (grown, exit) ← addItem scene d pred item
    addItems scene grown exit rest

/-- Add the guarded clauses of a branch. Their guards are read after their bodies. -/
def addClauses (scene : Scene) (d : Draft) (kind : ClauseKind) :
    List Clause → Except CompileError (Draft × List Arm)
  | [] => .ok (d, [])
  | .mk line guard body :: rest => do
    let start := d.nextId
    let (grown, exit) ← addItems scene (openArm d kind) start body
    let ended := grown.link exit (start + 1) .normal
    let condition ← scene.located line guard.fragment
    let guarded := ended.setConditions start condition .block
    let arm : Arm := ⟨start, start + 1, some guarded.nextId⟩
    let (complete, arms) ←
      addClauses scene (guarded.control (kind.name ++ " Clause Fallback")) .elseIf rest
    return (complete, arm :: arms)

/-- Add the choices of a menu, and say whether all of their first entries are guarded. -/
def addChoices (scene : Scene) (d : Draft) (start finish : Nat) :
    List Choice → Except CompileError (Draft × Bool)
  | [] => .ok (d, true)
  | .mk option shown body :: rest => do
    let (headed, head) ← scene.addLine d start shown (some option)
    let guarded := (headed.entryAt? head).any Entry.hasConditions
    let (grown, exit) ← addItems scene headed head body
    let (complete, others) ← addChoices scene (grown.link exit finish .normal) start finish rest
    return (complete, guarded && others)

end

end Scene

namespace Script

/-- The script by the grammar, or the error that a compilation reports. -/
def checked (s : Script) : Except CompileError Node :=
  s.tree.check.mapError fun fault => ⟨s.name, fault.line, .grammar fault.flaw⟩

def lower (s : Script) (ctx : Context) (id : Nat) : Except CompileError Conversation := do
  let node ← s.checked
  let scene := Scene.ofNode ctx node
  let draft := Draft.start id node.name scene.actor scene.conversant scene.narrator scene.player
  let (complete, _) ← scene.addItems draft Conversation.startId node.body
  return complete.conversation

end Script

end Dialogue
