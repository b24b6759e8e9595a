import Dialogue.Proofs.Draft
import Mathlib.Logic.Relation

/-!
What lowering an item does to a draft. `Draft.Step` lists the single changes: an entry is added at
the end, or an entry is changed that is either new or the one that the flow continues from. The
lowering of every item, body, branch and menu is a chain of such changes, and adds as many entries
as `Item.entryCount` says.
-/

set_option autoImplicit false
set_option relaxedAutoImplicit false

namespace Dialogue

open Relation Script

/-- Whom the entries of a scene may name: the player, the narrator, the conversant, or an actor that
is found by its name. -/
def Scene.Casts (scene : Scene) (id : Nat) : Prop :=
  id = scene.player ∨ id = scene.narrator ∨ id = scene.conversant ∨
    ∃ name, scene.context.database.actorId? name = some id

/-- An entry as it may be added to a draft: numbered, unlinked, and not a root. -/
structure Entry.Joins (e : Entry) (scene : Scene) (d : Draft) : Prop where
  id : e.id = d.nextId
  conversation : e.conversationId = d.conversation.id
  actor : e.actorId = d.speaker ∨ scene.Casts e.actorId
  conversant : e.conversantId = d.listener ∨ scene.Casts e.conversantId
  root : e.isRoot = false
  links : e.links = []

theorem Entry.Joins.guarded {e : Entry} {scene : Scene} {d : Draft} (joins : e.Joins scene d)
    (condition : Option String) (action : FalseAction) :
    (e.guarded condition action).Joins scene d := by
  cases condition with
  | none => exact joins
  | some condition =>
    exact ⟨joins.id, joins.conversation, joins.actor, joins.conversant, joins.root, joins.links⟩

namespace Draft

/-- One change of a draft. Entries from `base` on are new, `pred` is the entry that the flow
continues from, and links lead to entries from `floor` on. Only a new entry is guarded or made a
group. -/
inductive Step (scene : Scene) (base pred floor : Nat) : Draft → Draft → Prop
  | push {d : Draft} {e : Entry} : e.Joins scene d → Step scene base pred floor d (d.push e)
  | link {d : Draft} {i j : Nat} {p : Priority} : i = pred ∨ base ≤ i → floor ≤ j → j < d.nextId →
      Step scene base pred floor d (d.link i j p)
  | connect {d : Draft} {i k : Nat} {name : String} : base ≤ i →
      scene.context.conversations.get? name = some k →
      Step scene base pred floor d (d.connect i k Conversation.startId)
  | guard {d : Draft} {i : Nat} {c : String} {a : FalseAction} : base ≤ i →
      Step scene base pred floor d (d.setConditions i c a)
  | group {d : Draft} {i : Nat} : base ≤ i → Step scene base pred floor d (d.setGroup i)
  | script {d : Draft} {i : Nat} {s : String} : i = pred ∨ base ≤ i →
      Step scene base pred floor d (d.appendScript i s)
  | sequence {d : Draft} {i : Nat} {s : String} : i = pred ∨ base ≤ i →
      Step scene base pred floor d (d.appendSequence i s)

abbrev Steps (scene : Scene) (base pred floor : Nat) : Draft → Draft → Prop :=
  ReflTransGen (Step scene base pred floor)

private theorem Step.mono {scene : Scene} {base base' pred pred' floor floor' : Nat} {d d' : Draft}
    (hbase : base ≤ base') (hfloor : floor ≤ floor') (hpred : pred' = pred ∨ base ≤ pred')
    (h : Step scene base' pred' floor' d d') : Step scene base pred floor d d' := by
  have widen : ∀ {i : Nat}, i = pred' ∨ base' ≤ i → i = pred ∨ base ≤ i := by
    rintro i (rfl | h)
    · exact hpred
    · exact .inr (Nat.le_trans hbase h)
  cases h with
  | push joins => exact .push joins
  | link origin high lt => exact .link (widen origin) (Nat.le_trans hfloor high) lt
  | connect origin known => exact .connect (Nat.le_trans hbase origin) known
  | guard origin => exact .guard (Nat.le_trans hbase origin)
  | group origin => exact .group (Nat.le_trans hbase origin)
  | script origin => exact .script (widen origin)
  | sequence origin => exact .sequence (widen origin)

theorem Steps.mono {scene : Scene} {base base' pred pred' floor floor' : Nat} {d d' : Draft}
    (hbase : base ≤ base') (hfloor : floor ≤ floor') (hpred : pred' = pred ∨ base ≤ pred')
    (h : Steps scene base' pred' floor' d d') : Steps scene base pred floor d d' :=
  ReflTransGen.mono (fun _ _ => Step.mono hbase hfloor hpred) _ _ h

theorem fresh_joins (scene : Scene) (d : Draft) (title : String) : (d.fresh title).Joins scene d :=
  ⟨rfl, rfl, .inl rfl, .inl rfl, rfl, rfl⟩

section Chains

variable {scene : Scene} {base pred floor : Nat} {d₀ d : Draft}

theorem Steps.control (h : Steps scene base pred floor d₀ d) (title : String) :
    Steps scene base pred floor d₀ (d.control title) :=
  h.tail (.push ⟨rfl, rfl, .inl rfl, .inl rfl, rfl, rfl⟩)

theorem Steps.link (h : Steps scene base pred floor d₀ d) {i j : Nat} (p : Priority)
    (origin : i = pred ∨ base ≤ i) (high : floor ≤ j) (lt : j < d.nextId) :
    Steps scene base pred floor d₀ (d.link i j p) :=
  h.tail (.link origin high lt)

theorem Steps.setConditions (h : Steps scene base pred floor d₀ d) {i : Nat} (condition : String)
    (action : FalseAction) (origin : base ≤ i) :
    Steps scene base pred floor d₀ (d.setConditions i condition action) :=
  h.tail (.guard origin)

theorem Steps.scriptEntry (h : Steps scene base pred floor d₀ d) {i : Nat} (title script : String)
    (condition : Option String) (origin : i = pred ∨ base ≤ i) (high : floor ≤ d.nextId) :
    Steps scene base pred floor d₀ (d.scriptEntry i title script condition) := by
  refine Steps.link ?_ .normal origin high (by simp)
  have joins : { d.fresh title with
      sequence := Lua.continueSequence, userScript := script : Entry }.Joins scene d :=
    ⟨rfl, rfl, .inl rfl, .inl rfl, rfl, rfl⟩
  exact h.tail (.push (joins.guarded condition .passthrough))

theorem Steps.addFormatArguments (h : Steps scene base pred floor d₀ d) {i : Nat} (entry : Nat)
    (fragments : List String) (origin : i = pred ∨ base ≤ i) :
    Steps scene base pred floor d₀ (d.addFormatArguments i entry fragments) := by
  unfold Draft.addFormatArguments
  generalize Lua.formatCalls d.conversation.id entry fragments = calls
  induction calls generalizing d with
  | nil => exact h
  | cons call rest ih => exact ih (h.tail (.script origin))

end Chains

section Frames

variable {scene : Scene} {base pred floor : Nat} {d d' : Draft}

private theorem Step.nextId_le (h : Step scene base pred floor d d') : d.nextId ≤ d'.nextId := by
  cases h with
  | push => rw [nextId_push]; omega
  | link | connect | guard | group | script | sequence =>
    exact Nat.le_of_eq (d.nextId_modify _ _).symm

theorem Steps.nextId_le (h : Steps scene base pred floor d d') : d.nextId ≤ d'.nextId := by
  induction h with
  | refl => exact Nat.le_refl _
  | tail _ step ih => exact Nat.le_trans ih step.nextId_le

private theorem Step.entryAt?_eq (h : Step scene base pred floor d d')
    (hbase : base ≤ d.nextId) {i : Nat} (hi : i < base) (hpred : i ≠ pred) :
    d'.entryAt? i = d.entryAt? i := by
  have apart : ∀ {k : Nat} {f : Entry → Entry}, k = pred ∨ base ≤ k →
      (d.modify k f).entryAt? i = d.entryAt? i := by
    intro k f origin
    exact d.entryAt?_modify_of_ne f (by omega)
  cases h with
  | push => exact d.entryAt?_push_of_lt _ (by omega)
  | link origin => exact apart origin
  | connect origin => exact apart (.inr origin)
  | guard origin => exact apart (.inr origin)
  | group origin => exact apart (.inr origin)
  | script origin => exact apart origin
  | sequence origin => exact apart origin

/-- Old entries stay as they are, apart from the one that the flow continues from. -/
theorem Steps.entryAt?_eq (h : Steps scene base pred floor d d') (hbase : base ≤ d.nextId) {i : Nat}
    (hi : i < base) (hpred : i ≠ pred) : d'.entryAt? i = d.entryAt? i := by
  induction h with
  | refl => rfl
  | tail steps step ih =>
    rw [step.entryAt?_eq (Nat.le_trans hbase (Steps.nextId_le steps)) hi hpred, ih]

end Frames

end Draft

/-- What an entry is known by on its way through a conversation: all but its script, its directives,
its links, and whether it is a group. -/
def Entry.head (e : Entry) : Entry :=
  { e with userScript := "", sequence := "", links := [], isGroup := false }

instance : Entry.IgnoresLinks Entry.head := ⟨fun _ _ => rfl⟩

instance : Entry.IgnoresGroup Entry.head := ⟨fun _ _ => rfl⟩

instance : Entry.IgnoresScript Entry.head := ⟨fun _ _ => rfl⟩

instance : Entry.IgnoresSequence Entry.head := ⟨fun _ _ => rfl⟩

namespace Draft

variable {scene : Scene} {base pred floor : Nat} {d d' : Draft}

theorem Steps.view_eq {β : Type} {v : Entry → β} (h : Steps scene base pred floor d d')
    (hbase : base ≤ d.nextId) {i : Nat} (hi : i < base) (hpred : i ≠ pred) :
    (d'.view v)[i]? = (d.view v)[i]? :=
  view_congr (Steps.entryAt?_eq h hbase hi hpred)

private theorem Step.head_eq (h : Step scene base pred floor d d') {i : Nat} (hi : i < base)
    (hbase : base ≤ d.nextId) : (d'.view Entry.head)[i]? = (d.view Entry.head)[i]? := by
  cases h with
  | push => exact d.view_push_of_lt _ (by omega)
  | guard origin => exact d.view_modify_of_ne _ (by omega)
  | link => rw [view_link]
  | connect => rw [view_connect]
  | group => rw [view_setGroup]
  | script => rw [view_appendScript]
  | sequence => rw [view_appendSequence]

/-- What an old entry is known by does not change. -/
theorem Steps.head_eq (h : Steps scene base pred floor d d') {i : Nat} (hi : i < base)
    (hbase : base ≤ d.nextId) : (d'.view Entry.head)[i]? = (d.view Entry.head)[i]? := by
  induction h with
  | refl => rfl
  | tail steps step ih => rw [step.head_eq hi (Nat.le_trans hbase (Steps.nextId_le steps)), ih]

end Draft

end Dialogue
