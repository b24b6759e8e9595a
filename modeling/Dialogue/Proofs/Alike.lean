import Dialogue.Proofs.Integrity
import Mathlib.Data.List.Forall2

/-!
One script lowered twice, where the two lowerings know actors and conversations by different ids. A
relation says which actors, and which conversations, are the same.

Two graphs are alike if they have the same entries, one by one, up to these ids. Every operation on
drafts keeps drafts alike, so the two lowerings run in step: they fail with the same error, or give
graphs that are alike. The id of a conversation also stands in the calls that set format arguments,
and nowhere else in a text.
-/

set_option autoImplicit false
set_option relaxedAutoImplicit false

namespace Dialogue

/-- Scripts that differ at most in the conversation that their last calls name. -/
inductive Renumbered (k₁ k₂ : Nat) : String → String → Prop
  | same (script : String) : Renumbered k₁ k₂ script script
  | call {s₁ s₂ : String} (entry index : Nat) (fragment : String) : Renumbered k₁ k₂ s₁ s₂ →
      Renumbered k₁ k₂ (Draft.joinScript s₁ (Lua.formatCall k₁ entry index fragment))
        (Draft.joinScript s₂ (Lua.formatCall k₂ entry index fragment))

section Relations

variable (A C : Nat → Nat → Prop)

/-- Links of two conversations that are the same up to the ids of conversations. -/
structure Link.Alike (k₁ k₂ : Nat) (l₁ l₂ : Link) : Prop where
  origin : l₁.originConversation = k₁ ∧ l₂.originConversation = k₂
  originEntry : l₁.originEntry = l₂.originEntry
  destination : C l₁.destinationConversation l₂.destinationConversation
  destinationEntry : l₁.destinationEntry = l₂.destinationEntry
  priority : l₁.priority = l₂.priority
  isConnector : l₁.isConnector = l₂.isConnector
  inner : l₁.isConnector = false → l₁.destinationConversation = k₁ ∧ l₂.destinationConversation = k₂

/-- Entries of two conversations that are the same up to the ids of actors and conversations. -/
structure Entry.Alike (k₁ k₂ : Nat) (e₁ e₂ : Entry) : Prop where
  id : e₁.id = e₂.id
  conversation : e₁.conversationId = k₁ ∧ e₂.conversationId = k₂
  title : e₁.title = e₂.title
  actor : A e₁.actorId e₂.actorId
  conversant : A e₁.conversantId e₂.conversantId
  dialogueText : e₁.dialogueText = e₂.dialogueText
  tags : e₁.tags = e₂.tags
  conditions : e₁.conditions = e₂.conditions
  falseAction : e₁.falseAction = e₂.falseAction
  userScript : Renumbered k₁ k₂ e₁.userScript e₂.userScript
  sequence : e₁.sequence = e₂.sequence
  isRoot : e₁.isRoot = e₂.isRoot
  isGroup : e₁.isGroup = e₂.isGroup
  links : List.Forall₂ (Link.Alike C k₁ k₂) e₁.links e₂.links

/-- Conversations with the same entries, in the same order. -/
structure Conversation.Alike (c₁ c₂ : Conversation) : Prop where
  id : C c₁.id c₂.id
  title : c₁.title = c₂.title
  actor : A c₁.actorId c₂.actorId
  conversant : A c₁.conversantId c₂.conversantId
  entries : List.Forall₂ (Entry.Alike A C c₁.id c₂.id) c₁.entries c₂.entries

structure Draft.Alike (d₁ d₂ : Draft) : Prop where
  conversation : Conversation.Alike A C d₁.conversation d₂.conversation
  speaker : A d₁.speaker d₂.speaker
  listener : A d₁.listener d₂.listener

/-- Contexts in which every name stands for the same actor and for the same conversation. -/
structure Context.Alike (ctx₁ ctx₂ : Context) : Prop where
  actors : ∀ name, Option.Rel A (ctx₁.database.actorId? name) (ctx₂.database.actorId? name)
  player : A ctx₁.database.metadata.playerActor ctx₂.database.metadata.playerActor
  narrator : A ctx₁.database.metadata.defaultActor ctx₂.database.metadata.defaultActor
  isPlayer : ∀ a₁ a₂, A a₁ a₂ →
    (a₁ = ctx₁.database.metadata.playerActor ↔ a₂ = ctx₂.database.metadata.playerActor)
  conversations : ∀ name, Option.Rel C (ctx₁.conversations.get? name) (ctx₂.conversations.get? name)
  lines : ctx₁.lines = ctx₂.lines
  defaultLocale : ctx₁.defaultLocale = ctx₂.defaultLocale

/-- Scenes of one node in contexts that are alike. -/
structure Scene.Alike (scene₁ scene₂ : Scene) : Prop where
  context : Context.Alike A C scene₁.context scene₂.context
  name : scene₁.name = scene₂.name
  actor : A scene₁.actor scene₂.actor
  conversant : A scene₁.conversant scene₂.conversant

end Relations

private theorem forall₂_modify {α β : Type} {R : α → β → Prop} {f : α → α} {g : β → β}
    (step : ∀ a b, R a b → R (f a) (g b)) {as : List α} {bs : List β}
    (h : List.Forall₂ R as bs) (i : Nat) :
    List.Forall₂ R (as.modify i f) (bs.modify i g) := by
  induction h generalizing i with
  | nil => cases i <;> exact .nil
  | cons here there ih =>
    cases i with
    | zero => exact .cons (step _ _ here) there
    | succ i => exact .cons here (ih i)

variable {A C : Nat → Nat → Prop}

namespace Entry.Alike

variable {k₁ k₂ : Nat} {e₁ e₂ : Entry}

private theorem guarded (h : Entry.Alike A C k₁ k₂ e₁ e₂) (condition : Option String)
    (action : FalseAction) :
    Entry.Alike A C k₁ k₂ (e₁.guarded condition action) (e₂.guarded condition action) := by
  cases condition with
  | none => exact h
  | some condition => exact { h with conditions := rfl, falseAction := rfl }

private theorem addLink (h : Entry.Alike A C k₁ k₂ e₁ e₂) {l₁ l₂ : Link}
    (alike : Link.Alike C k₁ k₂ l₁ l₂) :
    Entry.Alike A C k₁ k₂ { e₁ with links := e₁.links ++ [l₁] }
      { e₂ with links := e₂.links ++ [l₂] } :=
  { h with links := List.rel_append h.links (.cons alike .nil) }

end Entry.Alike

namespace Draft.Alike

variable {d₁ d₂ : Draft}

private theorem nextId_eq (h : Draft.Alike A C d₁ d₂) : d₁.nextId = d₂.nextId :=
  h.conversation.entries.length_eq

private theorem modify (h : Draft.Alike A C d₁ d₂) {f g : Entry → Entry}
    (step : ∀ e₁ e₂, Entry.Alike A C d₁.conversation.id d₂.conversation.id e₁ e₂ →
      Entry.Alike A C d₁.conversation.id d₂.conversation.id (f e₁) (g e₂)) (i : Nat) :
    Draft.Alike A C (d₁.modify i f) (d₂.modify i g) where
  conversation := { h.conversation with entries := forall₂_modify step h.conversation.entries i }
  speaker := h.speaker
  listener := h.listener

private theorem push (h : Draft.Alike A C d₁ d₂) {e₁ e₂ : Entry}
    (alike : Entry.Alike A C d₁.conversation.id d₂.conversation.id e₁ e₂) :
    Draft.Alike A C (d₁.push e₁) (d₂.push e₂) where
  conversation := { h.conversation with
    entries := List.rel_append h.conversation.entries (.cons alike .nil) }
  speaker := h.speaker
  listener := h.listener

private theorem fresh (h : Draft.Alike A C d₁ d₂) (title : String) :
    Entry.Alike A C d₁.conversation.id d₂.conversation.id (d₁.fresh title) (d₂.fresh title) where
  id := h.nextId_eq
  conversation := ⟨rfl, rfl⟩
  title := rfl
  actor := h.speaker
  conversant := h.listener
  dialogueText := rfl
  tags := rfl
  conditions := rfl
  falseAction := rfl
  userScript := .same ""
  sequence := rfl
  isRoot := rfl
  isGroup := rfl
  links := .nil

private theorem link (h : Draft.Alike A C d₁ d₂) (i j : Nat) (p : Priority) :
    Draft.Alike A C (d₁.link i j p) (d₂.link i j p) := by
  apply h.modify
  intro e₁ e₂ alike
  exact alike.addLink ⟨⟨rfl, rfl⟩, rfl, h.conversation.id, rfl, rfl, rfl, fun _ => ⟨rfl, rfl⟩⟩

private theorem connect (h : Draft.Alike A C d₁ d₂) {k₁ k₂ : Nat} (target : C k₁ k₂) (i j : Nat) :
    Draft.Alike A C (d₁.connect i k₁ j) (d₂.connect i k₂ j) := by
  apply h.modify
  intro e₁ e₂ alike
  exact alike.addLink ⟨⟨rfl, rfl⟩, rfl, target, rfl, rfl, rfl, nofun⟩

private theorem setConditions (h : Draft.Alike A C d₁ d₂) (i : Nat) (conditions : String)
    (action : FalseAction) :
    Draft.Alike A C (d₁.setConditions i conditions action)
      (d₂.setConditions i conditions action) := by
  apply h.modify
  intro e₁ e₂ alike
  exact { alike with conditions := rfl, falseAction := rfl }

private theorem setGroup (h : Draft.Alike A C d₁ d₂) (i : Nat) :
    Draft.Alike A C (d₁.setGroup i) (d₂.setGroup i) := by
  apply h.modify
  intro e₁ e₂ alike
  exact { alike with isGroup := rfl }

private theorem appendSequence (h : Draft.Alike A C d₁ d₂) (i : Nat) (directive : String) :
    Draft.Alike A C (d₁.appendSequence i directive) (d₂.appendSequence i directive) := by
  apply h.modify
  intro e₁ e₂ alike
  exact { alike with sequence := congrArg (joinSequence · directive) alike.sequence }

private theorem addFormatArguments (h : Draft.Alike A C d₁ d₂) (pred entry : Nat)
    (fragments : List String) :
    Draft.Alike A C (d₁.addFormatArguments pred entry fragments)
      (d₂.addFormatArguments pred entry fragments) := by
  simp only [Draft.addFormatArguments, Lua.formatCalls, List.mapIdx_eq_zipIdx_map, List.foldl_map]
  -- Appending to a script leaves the identifiers that the calls name.
  generalize first : d₁.conversation.id = k₁
  generalize second : d₂.conversation.id = k₂
  induction fragments.zipIdx generalizing d₁ d₂ with
  | nil => exact h
  | cons argument rest ih =>
    obtain ⟨fragment, index⟩ := argument
    subst first second
    refine ih ?_ rfl rfl
    apply h.modify
    intro e₁ e₂ alike
    exact { alike with userScript := .call entry index fragment alike.userScript }

private theorem control (h : Draft.Alike A C d₁ d₂) (title : String) :
    Draft.Alike A C (d₁.control title) (d₂.control title) :=
  h.push { h.fresh title with sequence := rfl }

private theorem scriptEntry (h : Draft.Alike A C d₁ d₂) (pred : Nat) (title script : String)
    (condition : Option String) :
    Draft.Alike A C (d₁.scriptEntry pred title script condition)
      (d₂.scriptEntry pred title script condition) := by
  unfold Draft.scriptEntry
  rw [← h.nextId_eq]
  apply link
  apply h.push
  apply Entry.Alike.guarded
  exact { h.fresh title with sequence := rfl, userScript := .same script }

end Draft.Alike

/-- Results that are the same error, or values that are related. -/
inductive Agree {α β : Type} (R : α → β → Prop) :
    Except CompileError α → Except CompileError β → Prop
  | ok {a : α} {b : β} : R a b → Agree R (.ok a) (.ok b)
  | error (e : CompileError) : Agree R (.error e) (.error e)

namespace Agree

variable {α β γ δ : Type} {R : α → β → Prop} {S : γ → δ → Prop}

private theorem bind {x : Except CompileError α} {y : Except CompileError β}
    {f : α → Except CompileError γ} {g : β → Except CompileError δ} (first : Agree R x y)
    (later : ∀ a b, R a b → Agree S (f a) (g b)) :
    Agree S (x >>= f) (y >>= g) := by
  cases first with
  | ok related => exact later _ _ related
  | error e => exact .error e

/-- Both go on from the same result. -/
theorem after (x : Except CompileError α) {f : α → Except CompileError γ}
    {g : α → Except CompileError δ} (later : ∀ a, Agree S (f a) (g a)) :
    Agree S (x >>= f) (x >>= g) := by
  cases x with
  | ok a => exact later a
  | error e => exact .error e

end Agree

/-- A name stands for the same actor, and so does the lack of one. -/
theorem Context.Alike.cast {ctx₁ ctx₂ : Context} (h : Context.Alike A C ctx₁ ctx₂)
    {fallback₁ fallback₂ : Nat} (fallback : A fallback₁ fallback₂) (name : Option String) :
    A ((name.bind ctx₁.database.actorId?).getD fallback₁)
      ((name.bind ctx₂.database.actorId?).getD fallback₂) := by
  cases name with
  | none => exact fallback
  | some name =>
    have same := h.actors name
    rw [Option.bind_some, Option.bind_some]
    generalize ctx₁.database.actorId? name = first at same ⊢
    generalize ctx₂.database.actorId? name = second at same ⊢
    cases same with
    | none => exact fallback
    | some same => exact same

namespace Scene

open Script

variable {scene₁ scene₂ : Scene} {d₁ d₂ : Draft}

namespace Alike

private theorem located_eq (h : Scene.Alike A C scene₁ scene₂) {α : Type} (line : Nat)
    (result : Except ExprError α) :
    scene₂.located line result = scene₁.located line result := by
  unfold located error
  rw [h.name]

private theorem error_eq (h : Scene.Alike A C scene₁ scene₂) (line : Nat) (cause : Cause) :
    scene₂.error line cause = scene₁.error line cause := by
  unfold error
  rw [h.name]

private theorem condition_eq (h : Scene.Alike A C scene₁ scene₂) (line : Nat)
    (guard : Option Expression) :
    scene₂.condition line guard = scene₁.condition line guard := by
  unfold condition
  simp only [h.located_eq]

private theorem lineTexts_eq (h : Scene.Alike A C scene₁ scene₂) (s : Content Spoken) :
    scene₂.lineTexts s = scene₁.lineTexts s := by
  unfold lineTexts
  rw [h.context.lines, h.name]

private theorem lineFragments_eq (h : Scene.Alike A C scene₁ scene₂) (s : Content Spoken) :
    scene₂.lineFragments s = scene₁.lineFragments s := by
  unfold lineFragments
  simp only [h.located_eq]

/-- The player is spoken to, unless the player speaks. -/
theorem listener (h : Scene.Alike A C scene₁ scene₂) {actor₁ actor₂ : Nat}
    (actor : A actor₁ actor₂) :
    A (if actor₁ = scene₁.player then scene₁.conversant else scene₁.player)
      (if actor₂ = scene₂.player then scene₂.conversant else scene₂.player) := by
  have isPlayer : actor₁ = scene₁.player ↔ actor₂ = scene₂.player := h.context.isPlayer _ _ actor
  by_cases player : actor₁ = scene₁.player
  · rw [if_pos player, if_pos (isPlayer.mp player)]
    exact h.conversant
  · rw [if_neg player, if_neg fun other => player (isPlayer.mpr other)]
    exact h.context.player

private theorem lineCast (h : Scene.Alike A C scene₁ scene₂) (s : Content Spoken)
    (choiceOf : Option (Content Unit)) :
    A (scene₁.lineCast s choiceOf).1 (scene₂.lineCast s choiceOf).1 ∧
      A (scene₁.lineCast s choiceOf).2 (scene₂.lineCast s choiceOf).2 := by
  cases choiceOf with
  | some option => exact ⟨h.context.player, h.conversant⟩
  | none =>
    simp only [Scene.lineCast, h.lineTexts_eq, ← h.context.defaultLocale]
    have actor := h.context.cast h.context.narrator
      (((scene₁.lineTexts s).bind (·.default? scene₁.context.defaultLocale)).bind fun text =>
        (Line.speakerAndRest text).1)
    exact ⟨actor, h.listener actor⟩

private theorem lineEntry (h : Scene.Alike A C scene₁ scene₂) (alike : Draft.Alike A C d₁ d₂)
    (s : Content Spoken) (choiceOf : Option (Content Unit)) :
    Entry.Alike A C d₁.conversation.id d₂.conversation.id
      (scene₁.lineEntry d₁ s choiceOf) (scene₂.lineEntry d₂ s choiceOf) := by
  obtain ⟨actor, conversant⟩ := h.lineCast s choiceOf
  have blank := alike.fresh (if choiceOf.isSome then "Shortcut Option Start" else "Line")
  unfold Scene.lineEntry
  rw [h.lineTexts_eq, ← h.context.defaultLocale]
  cases scene₁.lineTexts s with
  | none => exact { blank with actor, conversant, tags := rfl }
  | some texts =>
    exact { blank with actor, conversant, tags := rfl, dialogueText := rfl, sequence := rfl }

end Alike

/-- Drafts that are alike, with what is known of their entries. -/
def Extended {α : Type} (A C : Nat → Nat → Prop) (first second : Draft × α) : Prop :=
  Draft.Alike A C first.1 second.1 ∧ first.2 = second.2

private theorem extended_bind {α γ δ : Type} {S : γ → δ → Prop}
    {x y : Except CompileError (Draft × α)}
    {f : Draft × α → Except CompileError γ} {g : Draft × α → Except CompileError δ}
    (first : Agree (Extended A C) x y)
    (later : ∀ d₁ d₂ a, Draft.Alike A C d₁ d₂ → Agree S (f (d₁, a)) (g (d₂, a))) :
    Agree S (x >>= f) (y >>= g) := by
  apply first.bind
  rintro ⟨d₁, a⟩ ⟨d₂, b⟩ ⟨alike, rfl⟩
  exact later d₁ d₂ a alike

private theorem addScript_alike (h : Scene.Alike A C scene₁ scene₂)
    (alike : Draft.Alike A C d₁ d₂) (pred : Nat) (s : Content Basic) (title script : String) :
    Agree (Extended A C) (scene₁.addScript d₁ pred s title script)
      (scene₂.addScript d₂ pred s title script) := by
  unfold addScript
  rw [h.condition_eq]
  exact .after _ fun condition => .ok ⟨alike.scriptEntry pred title script condition,
    alike.nextId_eq⟩

private theorem withEntry_alike (alike : Draft.Alike A C d₁ d₂) (pred : Nat) {e₁ e₂ : Entry}
    (entry : Entry.Alike A C d₁.conversation.id d₂.conversation.id e₁ e₂)
    (fragments : List String) :
    Draft.Alike A C (withEntry d₁ pred e₁ fragments) (withEntry d₂ pred e₂ fragments) := by
  unfold withEntry
  rw [← alike.nextId_eq]
  exact ((alike.push entry).addFormatArguments _ _ _).link _ _ _

private theorem addLine_alike (h : Scene.Alike A C scene₁ scene₂)
    (alike : Draft.Alike A C d₁ d₂) (pred : Nat) (s : Content Spoken)
    (choiceOf : Option (Content Unit)) :
    Agree (Extended A C) (scene₁.addLine d₁ pred s choiceOf)
      (scene₂.addLine d₂ pred s choiceOf) := by
  rw [addLine_eq, addLine_eq, h.condition_eq, h.lineFragments_eq]
  refine .after _ fun condition => .after _ fun fragments => .ok ⟨?_, alike.nextId_eq⟩
  exact withEntry_alike alike pred ((h.lineEntry alike s choiceOf).guarded condition _) fragments

private theorem addAssignment_alike (h : Scene.Alike A C scene₁ scene₂)
    (alike : Draft.Alike A C d₁ d₂) (pred : Nat) (s : Content Basic) (name : String) (op : Update) :
    Agree (Extended A C) (scene₁.addAssignment d₁ pred s name op)
      (scene₂.addAssignment d₂ pred s name op) := by
  unfold addAssignment
  simp only [h.located_eq, h.error_eq]
  cases s.payload? with
  | none => exact .error _
  | some payload => exact .after _ fun value => addScript_alike h alike pred s _ _

private theorem addJump_alike (h : Scene.Alike A C scene₁ scene₂)
    (alike : Draft.Alike A C d₁ d₂) (pred : Nat) (s : Content Basic) (target : Target) :
    Agree (Extended A C) (scene₁.addJump d₁ pred s target) (scene₂.addJump d₂ pred s target) := by
  unfold addJump
  simp only [h.error_eq]
  cases target with
  | computed tokens => exact .error _
  | node name =>
    have same := h.context.conversations name
    dsimp only
    generalize scene₁.context.conversations.get? name = first at same ⊢
    generalize scene₂.context.conversations.get? name = second at same ⊢
    cases same with
    | none => exact .error _
    | some same =>
      refine extended_bind (addScript_alike h alike pred s _ _) fun _ _ jump jumped => .ok ?_
      have connected := jumped.connect same jump Conversation.startId
      refine ⟨?_, connected.nextId_eq⟩
      rw [← connected.nextId_eq]
      exact (connected.push ((connected.fresh _).guarded _ _)).link _ _ _

private theorem addBasic_alike (h : Scene.Alike A C scene₁ scene₂)
    (alike : Draft.Alike A C d₁ d₂) (pred : Nat) (s : Content Basic) :
    Agree (Extended A C) (scene₁.addBasic d₁ pred s) (scene₂.addBasic d₂ pred s) := by
  unfold addBasic
  simp only [h.located_eq, h.error_eq]
  cases s.kind with
  | line spoken => exact addLine_alike h alike pred _ none
  | command name arguments rawText =>
    dsimp only
    cases Command.Kind.ofName name with
    | playSequence => exact .after _ fun directive => .ok ⟨alike.appendSequence pred directive, rfl⟩
    | wait => exact .after _ fun directive => .ok ⟨alike.appendSequence pred directive, rfl⟩
    | stop => exact addScript_alike h alike pred s _ _
    | custom => exact .after _ fun script => addScript_alike h alike pred s _ script
  | call name =>
    dsimp only
    cases s.payload? with
    | none => exact .error _
    | some payload => exact .after _ fun script => addScript_alike h alike pred s _ script
  | jump target => exact addJump_alike h alike pred s target
  | set name op => exact addAssignment_alike h alike pred s name op
  | declare name => exact addAssignment_alike h alike pred s name .assign

section Parts

variable (alike : Draft.Alike A C d₁ d₂)
include alike

private theorem openArm_alike (kind : ClauseKind) :
    Draft.Alike A C (openArm d₁ kind) (openArm d₂ kind) :=
  (alike.control _).control _

private theorem openBranch_alike (pred : Nat) :
    Draft.Alike A C (openBranch d₁ pred) (openBranch d₂ pred) := by
  unfold openBranch
  rw [← alike.nextId_eq]
  exact (((alike.control _).setGroup _).link _ _ _).control _

private theorem closeClause_alike (start exit : Nat) (kind : ClauseKind) (condition : String) :
    Draft.Alike A C (closeClause d₁ start exit kind condition)
      (closeClause d₂ start exit kind condition) :=
  ((alike.link _ _ _).setConditions _ _ _).control _

private theorem enterArms_alike (start : Nat) (arms : List Arm) :
    Draft.Alike A C (enterArms d₁ start arms) (enterArms d₂ start arms) := by
  unfold enterArms
  cases arms.head? with
  | none => exact alike
  | some first => exact alike.link _ _ _

private theorem openMenu_alike (pred : Nat) (choices : List Choice) :
    Draft.Alike A C (openMenu d₁ pred choices) (openMenu d₂ pred choices) := by
  unfold openMenu
  rw [← alike.nextId_eq]
  apply Draft.Alike.control
  apply Draft.Alike.link
  split
  · exact (alike.control _).setGroup _
  · exact alike.control _

private theorem closeMenu_alike (start : Nat) (choices : List Choice) :
    Draft.Alike A C (closeMenu d₁ start choices) (closeMenu d₂ start choices) := by
  unfold closeMenu
  split
  · exact alike.link _ _ _
  · exact alike

end Parts

private theorem linkArms_alike (finish : Nat) :
    ∀ (arms : List Arm) {d₁ d₂ : Draft} (previous : Nat),
    Draft.Alike A C d₁ d₂ →
      Draft.Alike A C (linkArms d₁ previous finish arms) (linkArms d₂ previous finish arms)
  | [], _, _, _, alike => alike
  | arm :: rest, d₁, d₂, previous, alike => by
    unfold linkArms
    cases arm.fallback with
    | none => exact linkArms_alike finish rest previous (alike.link _ _ _)
    | some fallback =>
      apply linkArms_alike finish rest fallback
      exact (((alike.link _ _ _).link _ _ _).setGroup _).link _ _ _

mutual

private theorem addItem_alike (h : Scene.Alike A C scene₁ scene₂) :
    ∀ (item : Item) {d₁ d₂ : Draft} (pred : Nat),
    Draft.Alike A C d₁ d₂ →
      Agree (Extended A C) (scene₁.addItem d₁ pred item) (scene₂.addItem d₂ pred item)
  | .basic s, _, _, pred, alike => addBasic_alike h alike pred s
  | .branch clauses otherwise, d₁, d₂, pred, alike => by
    rw [addItem_branch, addItem_branch, ← alike.nextId_eq]
    refine extended_bind (addClauses_alike h clauses .if_ (openBranch_alike alike pred)) ?_
    intro guarded₁ guarded₂ arms guarded
    have last : Agree (Extended A C) (scene₁.addOtherwise guarded₁ otherwise)
        (scene₂.addOtherwise guarded₂ otherwise) := by
      cases otherwise with
      | none => exact .ok ⟨guarded, rfl⟩
      | some body =>
        unfold addOtherwise
        rw [← guarded.nextId_eq]
        refine extended_bind (addItems_alike h body guarded₁.nextId (openArm_alike guarded .else_))
          ?_
        intro _ _ exit grown
        exact .ok ⟨grown.link _ _ _, rfl⟩
    refine extended_bind last ?_
    intro _ _ last complete
    exact .ok ⟨linkArms_alike _ _ _ (enterArms_alike complete _ _), rfl⟩
  | .menu choices, d₁, d₂, pred, alike => by
    rw [addItem_menu, addItem_menu, ← alike.nextId_eq]
    refine extended_bind (addChoices_alike h choices _ _ (openMenu_alike alike pred choices)) ?_
    intro _ _ _ complete
    exact .ok ⟨closeMenu_alike complete _ choices, rfl⟩

private theorem addItems_alike (h : Scene.Alike A C scene₁ scene₂) :
    ∀ (items : List Item) {d₁ d₂ : Draft}
    (pred : Nat), Draft.Alike A C d₁ d₂ →
      Agree (Extended A C) (scene₁.addItems d₁ pred items) (scene₂.addItems d₂ pred items)
  | [], _, _, _, alike => .ok ⟨alike, rfl⟩
  | item :: rest, d₁, d₂, pred, alike => by
    unfold addItems
    refine extended_bind (addItem_alike h item pred alike) ?_
    intro _ _ exit grown
    exact addItems_alike h rest exit grown

private theorem addClauses_alike (h : Scene.Alike A C scene₁ scene₂) :
    ∀ (clauses : List Clause) {d₁ d₂ : Draft}
    (kind : ClauseKind), Draft.Alike A C d₁ d₂ →
      Agree (Extended A C) (scene₁.addClauses d₁ kind clauses) (scene₂.addClauses d₂ kind clauses)
  | [], _, _, _, alike => .ok ⟨alike, rfl⟩
  | .mk line guard body :: rest, d₁, d₂, kind, alike => by
    rw [addClauses_cons, addClauses_cons, ← alike.nextId_eq, h.located_eq]
    refine extended_bind (addItems_alike h body d₁.nextId (openArm_alike alike kind)) ?_
    intro _ _ exit grown
    refine .after _ fun condition => ?_
    rw [← grown.nextId_eq]
    refine extended_bind
      (addClauses_alike h rest .elseIf (closeClause_alike grown _ exit kind condition)) ?_
    intro _ _ arms complete
    exact .ok ⟨complete, rfl⟩

private theorem addChoices_alike (h : Scene.Alike A C scene₁ scene₂) :
    ∀ (choices : List Choice) {d₁ d₂ : Draft}
    (start finish : Nat), Draft.Alike A C d₁ d₂ → Agree (Extended A C)
      (scene₁.addChoices d₁ start finish choices) (scene₂.addChoices d₂ start finish choices)
  | [], _, _, _, _, alike => .ok ⟨alike, rfl⟩
  | .mk option shown body :: rest, d₁, d₂, start, finish, alike => by
    rw [addChoices_cons, addChoices_cons]
    refine extended_bind (addLine_alike h alike start shown (some option)) ?_
    intro _ _ head headed
    refine extended_bind (addItems_alike h body head headed) ?_
    intro _ _ exit grown
    refine extended_bind (addChoices_alike h rest start finish (grown.link _ _ _)) ?_
    intro _ _ _ complete
    exact .ok ⟨complete, rfl⟩

end

/-- The headers of a node name the same actors in both. -/
theorem Alike.ofNode {ctx₁ ctx₂ : Context} (h : Context.Alike A C ctx₁ ctx₂) (node : Node) :
    Scene.Alike A C (Scene.ofNode ctx₁ node) (Scene.ofNode ctx₂ node) where
  context := h
  name := rfl
  actor := h.cast h.player _
  conversant := h.cast h.narrator _

private theorem opening_alike (h : Scene.Alike A C scene₁ scene₂) {id₁ id₂ : Nat}
    (same : C id₁ id₂) :
    Draft.Alike A C (scene₁.opening id₁) (scene₂.opening id₂) := by
  have empty : Draft.Alike A C ⟨⟨id₁, scene₁.name, scene₁.actor, scene₁.conversant, []⟩,
    scene₁.narrator,
      scene₁.player⟩ ⟨⟨id₂, scene₂.name, scene₂.actor, scene₂.conversant, []⟩, scene₂.narrator,
      scene₂.player⟩ :=
    ⟨⟨same, h.name, h.actor, h.conversant, .nil⟩, h.context.narrator, h.context.player⟩
  exact empty.push { empty.fresh Draft.startTitle with isRoot := rfl, sequence := rfl }

end Scene

/-- The two lowerings of a script fail with the same error, or give conversations that are alike. -/
theorem Script.lower_alike {ctx₁ ctx₂ : Context} (h : Context.Alike A C ctx₁ ctx₂) (s : Script)
    {id₁ id₂ : Nat} (same : C id₁ id₂) :
    Agree (Conversation.Alike A C) (s.lower ctx₁ id₁) (s.lower ctx₂ id₂) := by
  unfold lower
  refine .after _ fun node => ?_
  have scenes := Scene.Alike.ofNode h node
  refine Scene.extended_bind
    (Scene.addItems_alike scenes node.body Conversation.startId (Scene.opening_alike scenes same))
      ?_
  intro _ _ exit complete
  exact .ok complete.conversation

end Dialogue
