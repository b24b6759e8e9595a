import Dialogue.Proofs.Fragment
import Dialogue.Proofs.Growth

/-!
The lowering of items, told apart by what they add. `Scene.Adds` is what a basic statement does to a
draft; `addItem_branch` and `addItem_menu` cut the lowering of a branch and of a menu into parts.
From these follows what any item, body, branch or menu does: it changes the draft step by step, and
adds a number of entries that depends on the item alone.
-/

set_option autoImplicit false
set_option relaxedAutoImplicit false

namespace Dialogue

open Relation

namespace Script

/-- The title of the entry of a basic statement. -/
def Basic.title : Basic → String
  | .line _ => "Line"
  | .command name _ _ => if Command.Kind.ofName name = .stop then "Stop" else "Run Command"
  | .call _ => "Call Function"
  | .jump _ => "Jump to Conversation"
  | .set _ _ => "Store Variable"
  | .declare _ => "Store Variable"

/-- The number of entries of a basic statement. A jump has a second one for what follows it. -/
def Basic.entryCount : Basic → Nat
  | .command name _ _ =>
    match Command.Kind.ofName name with
    | .wait => 0
    | .playSequence => 0
    | .stop => 1
    | .custom => 1
  | .jump _ => 2
  | _ => 1

mutual

def Item.entryCount : Item → Nat
  | .basic s => s.kind.entryCount
  | .branch clauses none => 2 + clausesCount clauses
  | .branch clauses (some body) => 2 + clausesCount clauses + (2 + bodyCount body)
  | .menu choices => 2 + choicesCount choices

def bodyCount : List Item → Nat
  | [] => 0
  | item :: rest => item.entryCount + bodyCount rest

/-- The number of entries of guarded clauses. -/
def clausesCount : List Clause → Nat
  | [] => 0
  | .mk _ _ body :: rest => 3 + bodyCount body + clausesCount rest

def choicesCount : List Choice → Nat
  | [] => 0
  | .mk _ _ body :: rest => 1 + bodyCount body + choicesCount rest

end

theorem add_clausesCount_cons (base line : Nat) (guard : Expression) (body : List Item)
    (rest : List Clause) : base + clausesCount (.mk line guard body :: rest) =
      base + 3 + bodyCount body + clausesCount rest := by
  rw [clausesCount]
  omega

end Script

open Script

namespace Scene

/-- The guard that applies to a line, with its source line: that of the line, or else that of the
option that shows it. -/
def lineGuard (s : Content Spoken) : Option (Content Unit) → Nat × Option Expression
  | some option => if s.hasConditions then (s.line, s.guard?) else (option.line, option.guard?)
  | none => (s.line, s.guard?)

def lineTexts (scene : Scene) (s : Content Spoken) : Option Wording :=
  (scene.context.lines.resolve? s.kind.lineId scene.name s.line).map Prod.snd

/-- The actor and the conversant of a line. -/
def lineCast (scene : Scene) (s : Content Spoken) : Option (Content Unit) → Nat × Nat
  | some _ => (scene.player, scene.conversant)
  | none =>
    let text := (scene.lineTexts s).bind (·.default? scene.context.defaultLocale)
    let speaker := text.bind fun text => (Line.speakerAndRest text).1
    let actor := (speaker.bind scene.context.database.actorId?).getD scene.narrator
    (actor, if actor = scene.player then scene.conversant else scene.player)

/-- The entry of a line without its guard. -/
def lineEntry (scene : Scene) (d : Draft) (s : Content Spoken) (choiceOf : Option (Content Unit)) :
    Entry :=
  let blank := d.fresh (if choiceOf.isSome then "Shortcut Option Start" else "Line")
  let worded := match scene.lineTexts s with
    | some texts => blank.spoken texts scene.context.defaultLocale
    | none => blank
  { worded with
    actorId := (scene.lineCast s choiceOf).1
    conversantId := (scene.lineCast s choiceOf).2
    tags := s.kind.hashtags }

def lineFragments (scene : Scene) (s : Content Spoken) : Except CompileError (List String) :=
  match s.payload? with
  | some tokens => scene.located s.line tokens.fragments
  | none => .ok []

/-- The draft with an entry behind another, to whose script the format arguments of the entry go. -/
def withEntry (d : Draft) (pred : Nat) (e : Entry) (fragments : List String) : Draft :=
  ((d.push e).addFormatArguments pred d.nextId fragments).link pred d.nextId .normal

@[simp] theorem view_withEntry {β : Type} {v : Entry → β} [Entry.IgnoresLinks v]
    [Entry.IgnoresScript v] (d : Draft)
    (pred : Nat) (e : Entry) (fragments : List String) :
    (withEntry d pred e fragments).view v = d.view v ++ [v e] := by
  simp [withEntry]

theorem view_withEntry_self {β : Type} {v : Entry → β} [Entry.IgnoresLinks v]
    [Entry.IgnoresScript v] (d : Draft)
    (pred : Nat) (e : Entry) (fragments : List String) :
    ((withEntry d pred e fragments).view v)[d.nextId]? = some (v e) := by
  rw [withEntry, Draft.view_link, Draft.view_addFormatArguments, Draft.view_push_self]

/-- What happens at a line or at a choice whose guard is false. -/
def lineAction (choiceOf : Option (Content Unit)) : FalseAction :=
  if choiceOf.isSome then .block else .passthrough

theorem addLine_eq (scene : Scene) (d : Draft) (pred : Nat) (s : Content Spoken)
    (choiceOf : Option (Content Unit)) : scene.addLine d pred s choiceOf = (do
      let condition ← scene.condition (lineGuard s choiceOf).1 (lineGuard s choiceOf).2
      let fragments ← scene.lineFragments s
      return (withEntry d pred ((scene.lineEntry d s choiceOf).guarded condition
        (lineAction choiceOf))
        fragments, d.nextId)) := by
  unfold lineFragments
  cases hp : s.payload? <;> cases choiceOf with
  | none => simp only [addLine, hp]; rfl
  | some option =>
    simp only [addLine, hp, lineGuard]
    split <;> rfl

private theorem speaker_casts (scene : Scene) (speaker : Option String) :
    scene.Casts ((speaker.bind scene.context.database.actorId?).getD scene.narrator) := by
  cases found : speaker.bind scene.context.database.actorId? with
  | none => exact .inr (.inl rfl)
  | some id =>
    obtain ⟨name, _, named⟩ := Option.bind_eq_some_iff.mp found
    exact .inr (.inr (.inr ⟨name, named⟩))

private theorem lineCast_casts (scene : Scene) (s : Content Spoken)
    (choiceOf : Option (Content Unit)) :
    scene.Casts (scene.lineCast s choiceOf).1 ∧ scene.Casts (scene.lineCast s choiceOf).2 := by
  cases choiceOf with
  | some option => exact ⟨.inl rfl, .inr (.inr (.inl rfl))⟩
  | none =>
    refine ⟨speaker_casts scene _, ?_⟩
    simp only [lineCast]
    split
    · exact .inr (.inr (.inl rfl))
    · exact .inl rfl

theorem lineEntry_joins (scene : Scene) (d : Draft) (s : Content Spoken)
    (choiceOf : Option (Content Unit)) : (scene.lineEntry d s choiceOf).Joins scene d := by
  obtain ⟨actor, conversant⟩ := lineCast_casts scene s choiceOf
  unfold lineEntry
  cases scene.lineTexts s <;> exact ⟨rfl, rfl, .inr actor, .inr conversant, rfl, rfl⟩

theorem lineEntry_conditions (scene : Scene) (d : Draft) (s : Content Spoken)
    (choiceOf : Option (Content Unit)) : (scene.lineEntry d s choiceOf).conditions = "" := by
  unfold lineEntry
  cases scene.lineTexts s <;> rfl

theorem lineEntry_title (scene : Scene) (d : Draft) (s : Content Spoken)
    (choiceOf : Option (Content Unit)) : (scene.lineEntry d s choiceOf).title =
      if choiceOf.isSome then "Shortcut Option Start" else "Line" := by
  unfold lineEntry
  cases scene.lineTexts s <;> rfl

/-- The draft with a jump behind an entry, and the placeholder behind the jump. -/
def withJump (d : Draft) (pred : Nat) (condition : Option String) (target : Nat) : Draft :=
  let jumped := d.scriptEntry pred "Jump to Conversation" "" condition
  let connected := jumped.connect d.nextId target Conversation.startId
  (connected.push ((connected.fresh "Unreachable Entry").guarded (some "false") .block)).link
    d.nextId (d.nextId + 1) .belowNormal

/-- What a basic statement does to a draft: it leaves a directive with the entry before it, or adds
one entry behind it, or adds a jump. -/
inductive Adds (scene : Scene) (d : Draft) (pred : Nat) (s : Content Basic) : Draft → Nat → Prop
  | directive {text : String} : s.kind.entryCount = 0 →
      Adds scene d pred s (d.appendSequence pred text) pred
  | entry {e : Entry} {condition : Option String} {fragments : List String} :
      s.kind.entryCount = 1 → scene.condition s.line s.guard? = .ok condition →
      e.Joins scene d → e.title = s.kind.title → e.conditions = "" →
      Adds scene d pred s (withEntry d pred (e.guarded condition .passthrough) fragments) d.nextId
  | jump {name : String} {target : Nat} {condition : Option String} :
      s.kind = .jump (.node name) → scene.context.conversations.get? name = some target →
      scene.condition s.line s.guard? = .ok condition →
      Adds scene d pred s (withJump d pred condition target) (d.nextId + 1)

private theorem addScript_adds {scene : Scene} {d d' : Draft} {pred exit : Nat} {s : Content Basic}
    {title script : String} (h : scene.addScript d pred s title script = .ok (d', exit))
    (count : s.kind.entryCount = 1) (named : title = s.kind.title) :
    Adds scene d pred s d' exit := by
  simp only [addScript, bind_eq_ok_iff, pure_eq_ok_iff, Prod.mk.injEq] at h
  obtain ⟨condition, guarded, rfl, rfl⟩ := h
  let e : Entry := { d.fresh title with sequence := Lua.continueSequence, userScript := script }
  change Adds scene d pred s (withEntry d pred (e.guarded condition .passthrough) []) d.nextId
  exact .entry count guarded ⟨rfl, rfl, .inl rfl, .inl rfl, rfl, rfl⟩ named rfl

private theorem addAssignment_adds {scene : Scene} {d d' : Draft}
    {pred exit : Nat} {s : Content Basic} {name : String} {op : Update}
    (h : scene.addAssignment d pred s name op = .ok (d', exit))
    (count : s.kind.entryCount = 1) (named : s.kind.title = "Store Variable") :
    Adds scene d pred s d' exit := by
  unfold addAssignment at h
  split at h
  · obtain ⟨value, _, h⟩ := bind_eq_ok_iff.mp h
    exact addScript_adds h count named.symm
  · cases h

theorem addJump_adds {scene : Scene} {d d' : Draft} {pred exit : Nat} {s : Content Basic}
    {target : Target} (h : scene.addJump d pred s target = .ok (d', exit))
    (kind : s.kind = .jump target) : Adds scene d pred s d' exit := by
  unfold addJump at h
  cases target with
  | computed tokens => cases h
  | node name =>
    simp only at h
    split at h
    · next target known =>
      simp only [addScript, bind_eq_ok_iff, pure_eq_ok_iff, Prod.mk.injEq] at h
      obtain ⟨_, ⟨condition, guarded, rfl⟩, rfl, rfl⟩ := h
      have next : ((d.scriptEntry pred "Jump to Conversation" "" condition).connect d.nextId target
          Conversation.startId).nextId = d.nextId + 1 := by simp
      rw [next]
      exact .jump kind known guarded
    · cases h

theorem addBasic_adds {scene : Scene} {d d' : Draft} {pred exit : Nat} {s : Content Basic}
    (h : scene.addBasic d pred s = .ok (d', exit)) : Adds scene d pred s d' exit := by
  unfold addBasic at h
  cases kind : s.kind with
  | line spoken =>
    simp only [kind, addLine_eq, bind_eq_ok_iff, pure_eq_ok_iff, Prod.mk.injEq] at h
    obtain ⟨condition, guarded, fragments, _, rfl, rfl⟩ := h
    refine .entry (by rw [kind]; rfl) guarded (lineEntry_joins scene d _ none) ?_
      (lineEntry_conditions scene d _ none)
    rw [lineEntry_title, kind]
    rfl
  | command name arguments rawText =>
    simp only [kind] at h
    cases sort : Command.Kind.ofName name with
    | playSequence =>
      simp only [sort, bind_eq_ok_iff, pure_eq_ok_iff, Prod.mk.injEq] at h
      obtain ⟨directive, _, rfl, rfl⟩ := h
      exact .directive (by simp only [kind, Basic.entryCount, sort])
    | wait =>
      simp only [sort, bind_eq_ok_iff, pure_eq_ok_iff, Prod.mk.injEq] at h
      obtain ⟨directive, _, rfl, rfl⟩ := h
      exact .directive (by simp only [kind, Basic.entryCount, sort])
    | stop =>
      simp only [sort] at h
      exact addScript_adds h (by simp only [kind, Basic.entryCount, sort])
        (by simp [kind, Basic.title, sort])
    | custom =>
      simp only [sort, bind_eq_ok_iff] at h
      obtain ⟨script, _, h⟩ := h
      exact addScript_adds h (by simp only [kind, Basic.entryCount, sort])
        (by simp [kind, Basic.title, sort])
  | call name =>
    simp only [kind] at h
    split at h
    · obtain ⟨script, _, h⟩ := bind_eq_ok_iff.mp h
      exact addScript_adds h (by rw [kind]; rfl) (by rw [kind]; rfl)
    · cases h
  | jump target =>
    simp only [kind] at h
    exact addJump_adds h kind
  | set name op =>
    simp only [kind] at h
    exact addAssignment_adds h (by rw [kind]; rfl) (by rw [kind]; rfl)
  | declare name =>
    simp only [kind] at h
    exact addAssignment_adds h (by rw [kind]; rfl) (by rw [kind]; rfl)

/-- The draft with the first two entries of a branch. -/
def openBranch (d : Draft) (pred : Nat) : Draft :=
  (((d.control "If Block Start").setGroup d.nextId).link pred d.nextId .normal).control
    "If Block End"

/-- Add the last clause of a branch, which has no guard, if there is one. -/
def addOtherwise (scene : Scene) (d : Draft) :
    Option (List Item) → Except CompileError (Draft × List Arm)
  | some body => do
    let (grown, exit) ← scene.addItems (openArm d .else_) d.nextId body
    return (grown.link exit (d.nextId + 1) .normal, [⟨d.nextId, d.nextId + 1, none⟩])
  | none => .ok (d, [])

/-- Link the start of a branch to its first clause. -/
def enterArms (d : Draft) (start : Nat) (arms : List Arm) : Draft :=
  match arms.head? with
  | some first => d.link start first.start .normal
  | none => d

theorem addItem_branch (scene : Scene) (d : Draft) (pred : Nat) (clauses : List Clause)
    (otherwise : Option (List Item)) : scene.addItem d pred (.branch clauses otherwise) = (do
      let (guarded, arms) ← scene.addClauses (openBranch d pred) .if_ clauses
      let (complete, last) ← scene.addOtherwise guarded otherwise
      return (linkArms (enterArms complete d.nextId (arms ++ last)) d.nextId
        (d.nextId + 1) (arms ++ last),
        d.nextId + 1)) := by
  have finish :
    (((d.control "If Block Start").setGroup d.nextId).link pred d.nextId .normal).nextId =
      d.nextId + 1 := by simp
  cases otherwise with
  | none =>
    simp only [addItem, finish]
    rfl
  | some body =>
    simp only [addItem, finish, addOtherwise, bind_assoc]
    rfl

theorem addItem_branch_ok {scene : Scene} {d d' : Draft} {pred exit : Nat} {clauses : List Clause}
    {otherwise : Option (List Item)}
    (h : scene.addItem d pred (.branch clauses otherwise) = .ok (d', exit)) :
    ∃ guarded arms complete last,
      scene.addClauses (openBranch d pred) .if_ clauses = .ok (guarded, arms) ∧
      scene.addOtherwise guarded otherwise = .ok (complete, last) ∧
      d' = linkArms (enterArms complete d.nextId (arms ++ last)) d.nextId (d.nextId + 1)
        (arms ++ last) ∧
      exit = d.nextId + 1 := by
  simp only [addItem_branch, bind_eq_ok_iff, pure_eq_ok_iff, Prod.mk.injEq] at h
  obtain ⟨⟨guarded, arms⟩, added, ⟨complete, last⟩, addedLast, rfl, rfl⟩ := h
  exact ⟨guarded, arms, complete, last, added, addedLast, rfl, rfl⟩

/-- The draft with the first two entries of a menu. -/
def openMenu (d : Draft) (pred : Nat) (choices : List Choice) : Draft :=
  let control := d.control "Shortcut Option List Start"
  let grouped := if 1 < choices.length then control.setGroup d.nextId else control
  (grouped.link pred d.nextId .normal).control "Shortcut Option List End"

theorem located_fragment_ne_empty {scene : Scene} {line : Nat} {tokens : Expression} {t : String}
    (h : scene.located line tokens.fragment = .ok t) : t ≠ "" := by
  unfold located at h
  cases written : tokens.fragment with
  | error e =>
    rw [written] at h
    cases h
  | ok fragment =>
    rw [written] at h
    cases h
    exact Expression.fragment_ne_empty written

instance : Entry.IgnoresLinks Entry.hasConditions := ⟨fun _ _ => rfl⟩

instance : Entry.IgnoresScript Entry.hasConditions := ⟨fun _ _ => rfl⟩

/-- An entry with the condition of a guard is guarded exactly if there is a guard. -/
theorem hasConditions_guarded {scene : Scene} {line : Nat} {guard : Option Expression}
    {condition : Option String} (h : scene.condition line guard = .ok condition) {e : Entry}
    (action : FalseAction) (bare : e.conditions = "") :
    (e.guarded condition action).hasConditions = guard.isSome := by
  cases guard with
  | none =>
    cases h
    exact decide_eq_false (absurd bare)
  | some tokens =>
    simp only [Scene.condition, bind_eq_ok_iff, pure_eq_ok_iff] at h
    obtain ⟨t, written, rfl⟩ := h
    exact decide_eq_true (located_fragment_ne_empty written)

/-- Whether a choice is guarded, by its line or by its option. -/
def isGuarded : Choice → Bool
  | .mk option shown _ => shown.hasConditions || option.hasConditions

/-- Whether the first entry of a choice is guarded can be read off its statements. -/
theorem addChoices_cons (scene : Scene) (d : Draft) (start finish : Nat) (option : Content Unit)
    (shown : Content Spoken) (body : List Item) (rest : List Choice) :
    scene.addChoices d start finish (.mk option shown body :: rest) = (do
      let (headed, head) ← scene.addLine d start shown (some option)
      let (grown, exit) ← scene.addItems headed head body
      let (complete, others) ← scene.addChoices (grown.link exit finish .normal) start finish rest
      return (complete, isGuarded (.mk option shown body) && others)) := by
  rw [addChoices]
  cases added : scene.addLine d start shown (some option) with
  | error e => rfl
  | ok result =>
    obtain ⟨headed, head⟩ := result
    have line := added
    simp only [addLine_eq, bind_eq_ok_iff, pure_eq_ok_iff, Prod.mk.injEq] at line
    obtain ⟨condition, guarded, fragments, -, rfl, rfl⟩ := line
    have bare := lineEntry_conditions scene d shown (some option)
    have guard : (lineGuard shown (some option)).2.isSome = isGuarded (.mk option shown body) := by
      rw [lineGuard, isGuarded]
      cases conditions : shown.hasConditions with
      | true => exact conditions
      | false => rfl
    have seen :
      ((withEntry d start ((scene.lineEntry d shown (some option)).guarded condition .block)
        fragments).entryAt? d.nextId).any Entry.hasConditions =
          isGuarded (.mk option shown body) := by
      have made := view_withEntry_self (v := Entry.hasConditions) d start
        ((scene.lineEntry d shown (some option)).guarded condition .block) fragments
      obtain ⟨e, found, same⟩ := Draft.exists_of_view made
      rw [found, Option.any_some, same, hasConditions_guarded guarded .block bare, guard]
    simp only [Bind.bind, Except.bind]
    rw [show lineAction (some option) = FalseAction.block from rfl, seen]

theorem addChoices_guarded {scene : Scene} : ∀ (choices : List Choice) {d d' : Draft}
    {start finish : Nat} {allGuarded : Bool},
    scene.addChoices d start finish choices = .ok (d', allGuarded) →
    allGuarded = choices.all isGuarded
  | [], _, _, _, _, _, h => by
    cases h
    rfl
  | .mk option shown body :: rest, _, _, _, _, _, h => by
    simp only [addChoices_cons, bind_eq_ok_iff, pure_eq_ok_iff, Prod.mk.injEq] at h
    obtain ⟨_, -, _, -, ⟨_, others⟩, added, -, rfl⟩ := h
    rw [List.all_cons, addChoices_guarded rest added]

/-- Let a menu be passed by if all its choices are guarded. -/
def closeMenu (d : Draft) (start : Nat) (choices : List Choice) : Draft :=
  if choices.all isGuarded then d.link start (start + 1) .belowNormal else d

theorem addItem_menu (scene : Scene) (d : Draft) (pred : Nat) (choices : List Choice) :
    scene.addItem d pred (.menu choices) = (do
      let (complete, _) ← scene.addChoices (openMenu d pred choices) d.nextId (d.nextId + 1) choices
      return (closeMenu complete d.nextId choices, d.nextId + 1)) := by
  have finish : ((if 1 < choices.length then
      (d.control "Shortcut Option List Start").setGroup d.nextId
      else d.control "Shortcut Option List Start").link pred d.nextId .normal).nextId =
      d.nextId + 1 := by
    split <;> simp
  simp only [addItem, finish]
  change (scene.addChoices (openMenu d pred choices) d.nextId (d.nextId + 1) choices >>=
    fun result =>
    pure (if result.2 then result.1.link d.nextId (d.nextId + 1) .belowNormal else result.1,
      d.nextId + 1)) = _
  cases added : scene.addChoices (openMenu d pred choices) d.nextId (d.nextId + 1) choices with
  | error e => rfl
  | ok result =>
    obtain ⟨complete, allGuarded⟩ := result
    obtain rfl := addChoices_guarded choices added
    rfl

theorem addItem_menu_ok {scene : Scene} {d d' : Draft} {pred exit : Nat} {choices : List Choice}
    (h : scene.addItem d pred (.menu choices) = .ok (d', exit)) :
    ∃ complete allGuarded,
      scene.addChoices (openMenu d pred choices) d.nextId (d.nextId + 1) choices =
        .ok (complete, allGuarded) ∧
      d' = closeMenu complete d.nextId choices ∧ exit = d.nextId + 1 := by
  simp only [addItem_menu, bind_eq_ok_iff, pure_eq_ok_iff, Prod.mk.injEq] at h
  obtain ⟨⟨complete, allGuarded⟩, added, rfl, rfl⟩ := h
  exact ⟨complete, allGuarded, added, rfl, rfl⟩

/-- The draft with a clause whose body is lowered: its body linked to its end, its guard given, and
its fallback added. -/
def closeClause (grown : Draft) (start exit : Nat) (kind : ClauseKind) (condition : String) :
    Draft :=
  ((grown.link exit (start + 1) .normal).setConditions start condition .block).control
    (kind.name ++ " Clause Fallback")

theorem addClauses_cons (scene : Scene) (d : Draft) (kind : ClauseKind) (line : Nat)
    (guard : Expression) (body : List Item) (rest : List Clause) :
    scene.addClauses d kind (.mk line guard body :: rest) = (do
      let (grown, exit) ← scene.addItems (openArm d kind) d.nextId body
      let condition ← scene.located line guard.fragment
      let (complete, arms) ← scene.addClauses
        (closeClause grown d.nextId exit kind condition) .elseIf rest
      return (complete, ⟨d.nextId, d.nextId + 1, some grown.nextId⟩ :: arms)) := by
  simp only [addClauses, Draft.nextId_setConditions, Draft.nextId_link]
  rfl

theorem addClauses_cons_ok {scene : Scene} {d d' : Draft} {kind : ClauseKind} {line : Nat}
    {guard : Expression} {body : List Item} {rest : List Clause} {arms : List Arm}
    (h : scene.addClauses d kind (.mk line guard body :: rest) = .ok (d', arms)) :
    ∃ grown exit condition others,
      scene.addItems (openArm d kind) d.nextId body = .ok (grown, exit) ∧
      scene.located line guard.fragment = .ok condition ∧
      scene.addClauses (closeClause grown d.nextId exit kind condition) .elseIf rest =
        .ok (d', others) ∧
      arms = ⟨d.nextId, d.nextId + 1, some grown.nextId⟩ :: others := by
  simp only [addClauses_cons, bind_eq_ok_iff, pure_eq_ok_iff, Prod.mk.injEq] at h
  obtain ⟨⟨grown, exit⟩, added, condition, guarded, ⟨complete, others⟩, addedRest, rfl, rfl⟩ := h
  exact ⟨grown, exit, condition, others, added, guarded, addedRest, rfl⟩

/-- The draft with the entry of a choice behind the start of its menu. -/
def withChoice (scene : Scene) (d : Draft) (start : Nat) (option : Content Unit)
    (shown : Content Spoken) (condition : Option String) (fragments : List String) : Draft :=
  withEntry d start ((scene.lineEntry d shown (some option)).guarded condition .block) fragments

theorem addChoices_cons_ok {scene : Scene} {d d' : Draft} {start finish : Nat}
    {option : Content Unit} {shown : Content Spoken} {body : List Item}
    {rest : List Choice} {allGuarded : Bool}
    (h : scene.addChoices d start finish (.mk option shown body :: rest) = .ok (d', allGuarded)) :
    ∃ condition fragments grown exit others,
      scene.condition (lineGuard shown (some option)).1 (lineGuard shown (some option)).2 =
        .ok condition ∧
      scene.lineFragments shown = .ok fragments ∧
      scene.addItems (scene.withChoice d start option shown condition fragments) d.nextId body =
        .ok (grown, exit) ∧
      scene.addChoices (grown.link exit finish .normal) start finish rest = .ok (d', others) := by
  simp only [addChoices_cons, addLine_eq, bind_eq_ok_iff, pure_eq_ok_iff, Prod.mk.injEq] at h
  obtain ⟨_, ⟨condition, guarded, fragments, read, rfl⟩, ⟨grown, exit⟩, added, ⟨_, others⟩, h,
    rfl, -⟩ := h
  exact ⟨condition, fragments, grown, exit, others, guarded, read, added, h⟩

/-- The entries of guarded clauses that start at an entry. -/
def armsFrom : Nat → List Clause → List Arm
  | _, [] => []
  | start, .mk _ _ body :: rest =>
    ⟨start, start + 1, some (start + 2 + bodyCount body)⟩ ::
      armsFrom (start + 3 + bodyCount body) rest

/-- The entries of the last clause, if there is one. -/
def lastArm (start : Nat) : Option (List Item) → List Arm
  | some _ => [⟨start, start + 1, none⟩]
  | none => []

/-- The number of entries of the last clause. -/
def otherwiseCount : Option (List Item) → Nat
  | some body => 2 + bodyCount body
  | none => 0

theorem entryCount_branch (clauses : List Clause) (otherwise : Option (List Item)) :
    (Item.branch clauses otherwise).entryCount =
      2 + clausesCount clauses + otherwiseCount otherwise := by
  cases otherwise <;> simp [Item.entryCount, otherwiseCount]

/-- All entries of a clause are among those from `base` on and before `limit`. -/
structure Arm.Within (base limit : Nat) (arm : Arm) : Prop where
  start : base ≤ arm.start ∧ arm.start < limit
  finish : base ≤ arm.finish ∧ arm.finish < limit
  fallback : ∀ fallback, arm.fallback = some fallback → base ≤ fallback ∧ fallback < limit

theorem armsFrom_within {base limit : Nat} : ∀ (clauses : List Clause) (start : Nat), base ≤ start →
    start + clausesCount clauses ≤ limit → ∀ arm ∈ armsFrom start clauses, arm.Within base limit
  | [], _, _, _ => by simp [armsFrom]
  | .mk _ _ body :: rest, start, low, high => by
    simp only [clausesCount] at high
    intro arm member
    rcases List.mem_cons.mp member with rfl | member
    · refine ⟨by simp only; omega, by simp only; omega, ?_⟩
      rintro fallback ⟨⟩
      omega
    · exact armsFrom_within rest _ (by omega) (by omega) arm member

theorem lastArm_within {base limit start : Nat} (otherwise : Option (List Item))
    (low : base ≤ start) (high : start + otherwiseCount otherwise ≤ limit) :
    ∀ arm ∈ lastArm start otherwise, arm.Within base limit := by
  cases otherwise with
  | none => simp [lastArm]
  | some body =>
    simp only [otherwiseCount] at high
    intro arm member
    obtain rfl := List.mem_singleton.mp member
    exact ⟨by simp only; omega, by simp only; omega, nofun⟩

theorem nextId_linkArms (finish : Nat) : ∀ (arms : List Arm) (d : Draft) (previous : Nat),
    (linkArms d previous finish arms).nextId = d.nextId
  | [], _, _ => rfl
  | arm :: rest, d, previous => by
    unfold linkArms
    cases arm.fallback <;> simp [nextId_linkArms finish rest]

theorem nextId_enterArms (d : Draft) (start : Nat) (arms : List Arm) :
    (enterArms d start arms).nextId = d.nextId := by
  unfold enterArms
  split <;> simp

private theorem linkArms_steps {scene : Scene} {base pred finish : Nat} {d₀ : Draft}
    (low : base ≤ finish) :
    ∀ (arms : List Arm) {d : Draft} {previous : Nat}, Draft.Steps scene base pred base d₀ d →
      base ≤ previous → finish < d.nextId → (∀ arm ∈ arms, arm.Within base d.nextId) →
      Draft.Steps scene base pred base d₀ (linkArms d previous finish arms)
  | [], _, _, h, _, _, _ => h
  | arm :: rest, d, previous, h, hprevious, hfinish, within => by
    have here := within arm List.mem_cons_self
    have there : ∀ later ∈ rest, later.Within base d.nextId :=
      fun later member => within later (List.mem_cons_of_mem _ member)
    unfold linkArms
    cases fallback : arm.fallback with
    | none =>
      have h := Draft.Steps.link h .normal (.inr here.finish.1) low hfinish
      exact linkArms_steps low rest h hprevious (by simpa using hfinish) (by simpa using there)
    | some fallback =>
      have bounds := here.fallback _ ‹_›
      have next : base ≤ (rest.head?.map Arm.start).getD finish ∧
          (rest.head?.map Arm.start).getD finish < d.nextId := by
        cases rest with
        | nil => exact ⟨low, hfinish⟩
        | cons later rest => exact (there later List.mem_cons_self).start
      have h := Draft.Steps.link h .belowNormal (.inr hprevious) bounds.1 bounds.2
      have h := Draft.Steps.link h .normal (.inr bounds.1) next.1 (by simpa using next.2)
      have h := h.tail (.group hprevious)
      have h := Draft.Steps.link h .normal (.inr here.finish.1) low (by simpa using hfinish)
      exact linkArms_steps low rest h bounds.1 (by simpa using hfinish) (by simpa using there)

/-- What lowering from one entry to another does: a chain of changes, with so many entries added.
The entry that it ends with is either new or the one that it started from. -/
structure Grown (scene : Scene) (d : Draft) (pred count : Nat) (d' : Draft) (exit : Nat) :
    Prop where
  steps : Draft.Steps scene d.nextId pred d.nextId d d'
  nextId : d'.nextId = d.nextId + count
  exit_new : exit = pred ∨ d.nextId ≤ exit
  exit_lt : exit < d'.nextId

private theorem withEntry_steps {scene : Scene} {d : Draft}
    {base pred floor origin : Nat} {e : Entry} (fragments : List String) (joins : e.Joins scene d)
    (ho : origin = pred ∨ base ≤ origin)
    (high : floor ≤ d.nextId) :
    Draft.Steps scene base pred floor d (withEntry d origin e fragments) := by
  have h : Draft.Steps scene base pred floor d (d.push e) := .single (.push joins)
  have h := Draft.Steps.addFormatArguments h d.nextId fragments ho
  exact Draft.Steps.link h .normal ho high (by simp)

theorem nextId_withEntry (d : Draft) (pred : Nat) (e : Entry) (fragments : List String) :
    (withEntry d pred e fragments).nextId = d.nextId + 1 := by
  simp [withEntry]

theorem nextId_withChoice (scene : Scene) (d : Draft) (start : Nat) (option : Content Unit)
    (shown : Content Spoken) (condition : Option String) (fragments : List String) :
    (scene.withChoice d start option shown condition fragments).nextId = d.nextId + 1 :=
  nextId_withEntry d start _ fragments

theorem withChoice_steps (scene : Scene) (d : Draft) (start : Nat) (option : Content Unit)
    (shown : Content Spoken) (condition : Option String) (fragments : List String) {floor : Nat}
    (high : floor ≤ d.nextId) : Draft.Steps scene d.nextId start floor d
      (scene.withChoice d start option shown condition fragments) :=
  withEntry_steps fragments ((lineEntry_joins scene d shown (some option)).guarded condition .block)
    (.inl rfl) high

theorem nextId_withJump (d : Draft) (pred : Nat) (condition : Option String) (target : Nat) :
    (withJump d pred condition target).nextId = d.nextId + 2 := by
  simp [withJump]

private theorem Adds.grown {scene : Scene} {d d' : Draft} {pred exit : Nat} {s : Content Basic}
    (h : Adds scene d pred s d' exit) (hpred : pred < d.nextId) :
    Grown scene d pred s.kind.entryCount d' exit := by
  cases h with
  | directive count =>
    refine ⟨.single (.sequence (.inl rfl)), ?_, .inl rfl, ?_⟩
    · rw [count]; simp
    · simpa using hpred
  | entry count guarded joins =>
    refine ⟨withEntry_steps _ (joins.guarded _ _) (.inl rfl) (Nat.le_refl _), ?_,
      .inr (Nat.le_refl _), ?_⟩
    · rw [count, nextId_withEntry]
    · rw [nextId_withEntry]; omega
  | jump kind known guarded =>
    refine ⟨?_, ?_, .inr (by omega), by rw [nextId_withJump]; omega⟩
    · have h : Draft.Steps scene d.nextId pred d.nextId d d := .refl
      have h := Draft.Steps.scriptEntry h "Jump to Conversation" "" ‹_› (.inl rfl) (Nat.le_refl _)
      have h := h.tail (.connect (Nat.le_refl _) known)
      have h := h.tail
        (.push ((Draft.fresh_joins scene _ "Unreachable Entry").guarded (some "false") .block))
      exact Draft.Steps.link h .belowNormal (.inr (Nat.le_refl _)) (by omega) (by simp)
    · rw [kind, nextId_withJump]; rfl

theorem nextId_openArm (d : Draft) (kind : ClauseKind) :
    (openArm d kind).nextId = d.nextId + 2 := by
  simp [openArm]

theorem nextId_openBranch (d : Draft) (pred : Nat) : (openBranch d pred).nextId = d.nextId + 2 := by
  simp [openBranch]

theorem nextId_openMenu (d : Draft) (pred : Nat) (choices : List Choice) :
    (openMenu d pred choices).nextId = d.nextId + 2 := by
  unfold openMenu
  split <;> simp

section Views

variable {β : Type} {v : Entry → β} (d : Draft)

@[simp] theorem view_enterArms [Entry.IgnoresLinks v] (start : Nat) (arms : List Arm) :
    (enterArms d start arms).view v = d.view v := by
  unfold enterArms
  split
  · exact d.view_link _ _ _
  · rfl

@[simp] theorem view_linkArms [Entry.IgnoresLinks v] [Entry.IgnoresGroup v] (finish : Nat)
    (arms : List Arm) (previous : Nat) : (linkArms d previous finish arms).view v = d.view v := by
  induction arms generalizing d previous with
  | nil => rfl
  | cons arm rest ih =>
    unfold linkArms
    cases arm.fallback <;> simp [ih]

@[simp] theorem view_closeMenu [Entry.IgnoresLinks v] (start : Nat) (choices : List Choice) :
    (closeMenu d start choices).view v = d.view v := by
  unfold closeMenu
  split
  · exact d.view_link _ _ _
  · rfl

end Views

/-- Whether a menu is a group is only seen by views that look for it. -/
theorem openMenu_grouped (d : Draft) (pred : Nat) (choices : List Choice) : ∃ grouped : Draft,
    (∀ {β : Type} (v : Entry → β) [Entry.IgnoresGroup v],
      grouped.view v = (d.control "Shortcut Option List Start").view v) ∧
    grouped.nextId = d.nextId + 1 ∧ openMenu d pred choices =
      (grouped.link pred d.nextId .normal).control "Shortcut Option List End" := by
  unfold openMenu
  split
  · exact ⟨_, fun _ _ => Draft.view_setGroup _ _, by simp, rfl⟩
  · exact ⟨_, fun _ _ => rfl, by simp, rfl⟩

theorem nextId_closeMenu (d : Draft) (start : Nat) (choices : List Choice) :
    (closeMenu d start choices).nextId = d.nextId := by
  unfold closeMenu
  split <;> simp

/-- A clause whose body is lowered, from its first entry to the link to its last. -/
theorem Grown.arm {scene : Scene} {d grown : Draft} {kind : ClauseKind} {count exit : Nat}
    (body : Grown scene (openArm d kind) d.nextId count grown exit) :
    Draft.Steps scene d.nextId d.nextId d.nextId d (grown.link exit (d.nextId + 1) .normal) ∧
      (grown.link exit (d.nextId + 1) .normal).nextId = d.nextId + 2 + count := by
  have opened := nextId_openArm d kind
  have total := body.nextId
  have h : Draft.Steps scene d.nextId d.nextId d.nextId d d := .refl
  have h := Draft.Steps.control (Draft.Steps.control h (kind.name ++ " Clause Start"))
    (kind.name ++ " Clause End")
  have h := h.trans (Draft.Steps.mono (by omega) (by omega) (.inl rfl) body.steps)
  have := body.exit_new
  refine ⟨Draft.Steps.link h .normal (.inr (by omega)) (by omega) (by omega), ?_⟩
  rw [Draft.nextId_link]
  omega

theorem Grown.otherwise {scene : Scene} {d d' : Draft} {body : List Item} {last : List Arm}
    (ih : ∀ {grown : Draft} {exit : Nat},
      scene.addItems (openArm d .else_) d.nextId body = .ok (grown, exit) →
      Grown scene (openArm d .else_) d.nextId (bodyCount body) grown exit)
    (h : scene.addOtherwise d (some body) = .ok (d', last)) :
    Draft.Steps scene d.nextId d.nextId d.nextId d d' ∧
      d'.nextId = d.nextId + otherwiseCount (some body) ∧ last = lastArm d.nextId (some body) := by
  simp only [addOtherwise, bind_eq_ok_iff, pure_eq_ok_iff, Prod.mk.injEq] at h
  obtain ⟨⟨grown, exit⟩, added, rfl, rfl⟩ := h
  obtain ⟨steps, total⟩ := (ih added).arm
  refine ⟨steps, ?_, rfl⟩
  rw [total, otherwiseCount]
  omega

theorem openBranch_steps (scene : Scene) {d : Draft} {pred : Nat} :
    Draft.Steps scene d.nextId pred d.nextId d (openBranch d pred) := by
  have h : Draft.Steps scene d.nextId pred d.nextId d d := .refl
  have h := (Draft.Steps.control h "If Block Start").tail (.group (Nat.le_refl _))
  have h := Draft.Steps.link h .normal (.inl rfl) (Nat.le_refl d.nextId) (by simp)
  exact Draft.Steps.control h "If Block End"

/-- A branch whose clauses are lowered, with the links between its clauses. -/
theorem Grown.branch {scene : Scene} {d guarded complete : Draft} {pred : Nat}
    {arms last : List Arm} {clauses : List Clause} {otherwise : Option (List Item)}
    (first : Draft.Steps scene (openBranch d pred).nextId (openBranch d pred).nextId
        (openBranch d pred).nextId (openBranch d pred) guarded ∧
      guarded.nextId = (openBranch d pred).nextId + clausesCount clauses ∧
      arms = armsFrom (openBranch d pred).nextId clauses)
    (second : Draft.Steps scene guarded.nextId guarded.nextId guarded.nextId guarded complete ∧
      complete.nextId = guarded.nextId + otherwiseCount otherwise ∧
      last = lastArm guarded.nextId otherwise) :
    Grown scene d pred (Item.branch clauses otherwise).entryCount
      (linkArms (enterArms complete d.nextId (arms ++ last)) d.nextId (d.nextId + 1) (arms ++ last))
      (d.nextId + 1) := by
  obtain ⟨steps, count, rfl⟩ := first
  obtain ⟨stepsLast, countLast, rfl⟩ := second
  have opened := nextId_openBranch d pred
  have within :
    ∀ arm ∈ armsFrom (openBranch d pred).nextId clauses ++ lastArm guarded.nextId otherwise,
      arm.Within d.nextId complete.nextId := by
    intro arm member
    rcases List.mem_append.mp member with member | member
    · exact armsFrom_within clauses _ (by omega) (by omega) arm member
    · exact lastArm_within otherwise (by omega) (by omega) arm member
  have h := (openBranch_steps scene).trans
    ((Draft.Steps.mono (by omega) (by omega) (.inr (by omega)) steps).trans
      (Draft.Steps.mono (by omega) (by omega) (.inr (by omega)) stepsLast))
  generalize armsFrom (openBranch d pred).nextId clauses ++ lastArm guarded.nextId otherwise = all
    at within
  have h : Draft.Steps scene d.nextId pred d.nextId d (enterArms complete d.nextId all) := by
    cases all with
    | nil => exact h
    | cons arm rest =>
      have bounds := (within arm List.mem_cons_self).start
      exact Draft.Steps.link h .normal (.inr (Nat.le_refl _)) bounds.1 bounds.2
  have entered := nextId_enterArms complete d.nextId all
  refine ⟨?_, ?_, .inr (by omega), ?_⟩
  · exact linkArms_steps (by omega) all h (Nat.le_refl _) (by omega) (by rwa [entered])
  · rw [nextId_linkArms, entered, entryCount_branch]; omega
  · rw [nextId_linkArms]; omega

theorem openMenu_steps (scene : Scene) {d : Draft} {pred : Nat} (choices : List Choice) :
    Draft.Steps scene d.nextId pred d.nextId d (openMenu d pred choices) := by
  have h : Draft.Steps scene d.nextId pred d.nextId d d := .refl
  have h := Draft.Steps.control h "Shortcut Option List Start"
  have grouped := h.tail (.group (Nat.le_refl _))
  unfold openMenu
  split
  · have linked := Draft.Steps.link grouped .normal (.inl rfl) (Nat.le_refl d.nextId) (by simp)
    exact Draft.Steps.control linked "Shortcut Option List End"
  · have linked := Draft.Steps.link h .normal (.inl rfl) (Nat.le_refl d.nextId) (by simp)
    exact Draft.Steps.control linked "Shortcut Option List End"

mutual

theorem addItem_grown {scene : Scene} : ∀ (item : Item) {d d' : Draft} {pred exit : Nat},
    pred < d.nextId → scene.addItem d pred item = .ok (d', exit) →
    Grown scene d pred item.entryCount d' exit
  | .basic s, d, d', pred, exit, hpred, h => by
    simp only [addItem] at h
    exact (addBasic_adds h).grown hpred
  | .branch clauses none, d, d', pred, exit, hpred, h => by
    obtain ⟨guarded, arms, complete, last, added, addedLast, rfl, rfl⟩ := addItem_branch_ok h
    obtain ⟨rfl, rfl⟩ := Prod.mk.inj (Except.ok.inj addedLast)
    exact .branch (addClauses_grown clauses added) ⟨.refl, rfl, rfl⟩
  | .branch clauses (some body), d, d', pred, exit, hpred, h => by
    obtain ⟨guarded, arms, complete, last, added, addedLast, rfl, rfl⟩ := addItem_branch_ok h
    have lowered : ∀ {grown : Draft} {exit : Nat},
        scene.addItems (openArm guarded .else_) guarded.nextId body = .ok (grown, exit) →
        Grown scene (openArm guarded .else_) guarded.nextId (bodyCount body) grown exit :=
      fun h => addItems_grown body (by rw [nextId_openArm]; omega) h
    exact .branch (addClauses_grown clauses added) (Grown.otherwise lowered addedLast)
  | .menu choices, d, d', pred, exit, hpred, h => by
    obtain ⟨complete, _, added, rfl, rfl⟩ := addItem_menu_ok h
    have opened := nextId_openMenu d pred choices
    obtain ⟨steps, count⟩ := addChoices_grown choices (Nat.le_refl d.nextId) (Nat.le_succ d.nextId)
      (by omega) (by omega) added
    have h := (openMenu_steps scene choices).trans
      (Draft.Steps.mono (by omega) (Nat.le_refl _) (.inr (Nat.le_refl _)) steps)
    have closed := nextId_closeMenu complete d.nextId choices
    refine ⟨?_, by rw [closed, Item.entryCount]; omega, .inr (by omega), by omega⟩
    unfold closeMenu
    split
    · exact Draft.Steps.link h .belowNormal (.inr (Nat.le_refl _)) (by omega) (by omega)
    · exact h

theorem addItems_grown {scene : Scene} : ∀ (items : List Item) {d d' : Draft} {pred exit : Nat},
    pred < d.nextId → scene.addItems d pred items = .ok (d', exit) →
    Grown scene d pred (bodyCount items) d' exit
  | [], d, d', pred, exit, hpred, h => by
    simp only [addItems, Except.ok.injEq, Prod.mk.injEq] at h
    obtain ⟨rfl, rfl⟩ := h
    exact ⟨.refl, rfl, .inl rfl, hpred⟩
  | item :: rest, d, d', pred, exit, hpred, h => by
    simp only [addItems, bind_eq_ok_iff] at h
    obtain ⟨⟨grown, middle⟩, first, h⟩ := h
    have one := addItem_grown item hpred first
    have others := addItems_grown rest one.exit_lt h
    have more := one.nextId
    refine ⟨one.steps.trans (Draft.Steps.mono (by omega) (by omega) one.exit_new others.steps), ?_,
      ?_, others.exit_lt⟩
    · rw [others.nextId, one.nextId, bodyCount]; omega
    · have := others.exit_new
      have := one.exit_new
      omega

theorem addClauses_grown {scene : Scene} :
    ∀ (clauses : List Clause) {d d' : Draft} {kind : ClauseKind}
    {arms : List Arm}, scene.addClauses d kind clauses = .ok (d', arms) →
    Draft.Steps scene d.nextId d.nextId d.nextId d d' ∧
      d'.nextId = d.nextId + clausesCount clauses ∧ arms = armsFrom d.nextId clauses
  | [], d, d', kind, arms, h => by
    simp only [addClauses, Except.ok.injEq, Prod.mk.injEq] at h
    obtain ⟨rfl, rfl⟩ := h
    exact ⟨.refl, rfl, rfl⟩
  | .mk line guard body :: rest, d, d', kind, arms, h => by
    obtain ⟨grown, exit, condition, others, added, _, addedRest, rfl⟩ := addClauses_cons_ok h
    have lowered := addItems_grown body (by rw [nextId_openArm]; omega) added
    obtain ⟨steps, count⟩ := lowered.arm
    rw [Draft.nextId_link] at count
    have steps := Draft.Steps.setConditions steps condition .block (Nat.le_refl _)
    have steps := Draft.Steps.control steps (kind.name ++ " Clause Fallback")
    obtain ⟨stepsRest, countRest, rfl⟩ := addClauses_grown rest addedRest
    have closed : (closeClause grown d.nextId exit kind condition).nextId =
        d.nextId + 3 + bodyCount body := by
      simp only [closeClause, Draft.nextId_control, Draft.nextId_setConditions, Draft.nextId_link]
      omega
    rw [closed] at stepsRest countRest ⊢
    refine ⟨steps.trans (Draft.Steps.mono (by omega) (by omega) (.inr (by omega)) stepsRest), ?_,
      ?_⟩
    · rw [countRest, clausesCount]; omega
    · rw [armsFrom, count]

theorem addChoices_grown {scene : Scene} : ∀ (choices : List Choice) {d d' : Draft}
    {start finish floor : Nat} {allGuarded : Bool}, floor ≤ start → floor ≤ finish →
    start < d.nextId → finish < d.nextId →
    scene.addChoices d start finish choices = .ok (d', allGuarded) →
    Draft.Steps scene d.nextId start floor d d' ∧ d'.nextId = d.nextId + choicesCount choices
  | [], d, d', start, finish, floor, _, _, _, _, _, h => by
    cases h
    exact ⟨.refl, rfl⟩
  | .mk option shown body :: rest, d, d', start, finish, floor, _, hstart, hfinish, lt, finish_lt,
      h => by
    obtain ⟨condition, fragments, grown, exit, _, _, -, added, h⟩ := addChoices_cons_ok h
    have headed := nextId_withChoice scene d start option shown condition fragments
    have lowered := addItems_grown body (by omega) added
    have total := lowered.nextId
    have new := lowered.exit_new
    have first : Draft.Steps scene d.nextId start floor d _ :=
      withChoice_steps scene d start option shown condition fragments (by omega)
    have steps := first.trans
      (Draft.Steps.mono (by omega) (by omega) (.inr (Nat.le_refl _)) lowered.steps)
    have steps := Draft.Steps.link steps .normal (.inr (show d.nextId ≤ exit by omega)) hfinish
      (by omega)
    obtain ⟨stepsRest, countRest⟩ := addChoices_grown rest hstart hfinish
      (by rw [Draft.nextId_link]; omega) (by rw [Draft.nextId_link]; omega) h
    rw [Draft.nextId_link] at stepsRest countRest
    refine ⟨steps.trans (Draft.Steps.mono (by omega) (Nat.le_refl _) (.inl rfl) stepsRest), ?_⟩
    rw [countRest, choicesCount]
    omega

end

end Scene

end Dialogue
