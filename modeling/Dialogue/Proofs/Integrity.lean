import Dialogue.Proofs.Grammar
import Dialogue.Proofs.Lowering

/-!
What holds of every entry of a conversation, however far the lowering has come: it knows its own
number and its conversation, only the first is a root, its actors are known, and its links start at
it and lead to an entry of the conversation or to the start of a node. Every single change of a
draft keeps this, so every lowered conversation has it.
-/

set_option autoImplicit false
set_option relaxedAutoImplicit false

namespace Dialogue

open Relation Script

/-- A link of the entry `i` of a conversation with so many entries. -/
structure Link.Fits (l : Link) (scene : Scene) (conversation limit i : Nat) : Prop where
  origin : l.originConversation = conversation ∧ l.originEntry = i
  inner : l.isConnector = false →
    l.destinationConversation = conversation ∧ l.destinationEntry < limit
  outer : l.isConnector = true → l.destinationEntry = Conversation.startId ∧
    ∃ name, scene.context.conversations.get? name = some l.destinationConversation

/-- The entry `i` of a conversation with so many entries. -/
structure Entry.Fits (e : Entry) (scene : Scene) (conversation limit i : Nat) : Prop where
  id : e.id = i
  owner : e.conversationId = conversation
  root : e.isRoot = decide (i = Conversation.startId)
  actor : scene.Casts e.actorId
  conversant : scene.Casts e.conversantId
  links : ∀ l ∈ e.links, l.Fits scene conversation limit i

structure Draft.Fits (d : Draft) (scene : Scene) : Prop where
  started : Conversation.startId < d.nextId
  speaker : scene.Casts d.speaker
  listener : scene.Casts d.listener
  entry : ∀ i e, d.entryAt? i = some e → e.Fits scene d.conversation.id d.nextId i

private theorem Link.Fits.mono {l : Link} {scene : Scene} {conversation limit limit' i : Nat}
    (h : l.Fits scene conversation limit i) (le : limit ≤ limit') :
    l.Fits scene conversation limit' i where
  origin := h.origin
  inner inside := ⟨(h.inner inside).1, Nat.lt_of_lt_of_le (h.inner inside).2 le⟩
  outer := h.outer

private theorem Entry.Fits.mono {e : Entry} {scene : Scene} {conversation limit limit' i : Nat}
    (h : e.Fits scene conversation limit i) (le : limit ≤ limit') :
    e.Fits scene conversation limit' i :=
  { h with links := fun l member => (h.links l member).mono le }

private theorem Entry.Fits.withLink {e : Entry} {scene : Scene}
    {conversation limit i : Nat} {l : Link} (h : e.Fits scene conversation limit i)
    (fits : l.Fits scene conversation limit i) :
    { e with links := e.links ++ [l] : Entry }.Fits scene conversation limit i :=
  { id := h.id
    owner := h.owner
    root := h.root
    actor := h.actor
    conversant := h.conversant
    links := fun link member => by
      rcases List.mem_append.mp member with member | member
      · exact h.links link member
      · obtain rfl := List.mem_singleton.mp member
        exact fits }

namespace Draft

variable {scene : Scene} {base pred floor : Nat} {d d' : Draft}

private theorem Fits.modify (h : d.Fits scene) {k : Nat} {f : Entry → Entry}
    (keeps : ∀ e, e.Fits scene d.conversation.id d.nextId k →
      (f e).Fits scene d.conversation.id d.nextId k) : (d.modify k f).Fits scene where
  started := by rw [nextId_modify]; exact h.started
  speaker := h.speaker
  listener := h.listener
  entry i e found := by
    rw [nextId_modify]
    rw [entryAt?_modify] at found
    split at found
    · next same =>
      subst same
      obtain ⟨old, known, rfl⟩ := Option.map_eq_some_iff.mp found
      exact keeps old (h.entry _ old known)
    · exact h.entry i e found

private theorem Fits.push (h : d.Fits scene) {e : Entry} (joins : e.Joins scene d) :
    (d.push e).Fits scene where
  started := by rw [nextId_push]; exact Nat.lt_succ_of_lt h.started
  speaker := h.speaker
  listener := h.listener
  entry i old found := by
    rw [nextId_push]
    rw [entryAt?_push] at found
    split at found
    · next last =>
      cases found
      subst last
      have later : d.nextId ≠ Conversation.startId := Nat.ne_of_gt h.started
      exact
        { id := joins.id
          owner := joins.conversation
          root := by rw [joins.root, decide_eq_false later]
          actor := joins.actor.elim (fun same => same ▸ h.speaker) fun casts => casts
          conversant := joins.conversant.elim (fun same => same ▸ h.listener) fun casts => casts
          links := by rw [joins.links]; exact nofun }
    · exact (h.entry i old found).mono (Nat.le_succ _)

/-- One change of a draft keeps all entries fitting. -/
theorem Step.fits (h : Step scene base pred floor d d') (fits : d.Fits scene) : d'.Fits scene := by
  cases h with
  | push joins => exact fits.push joins
  | link _ _ lt =>
    exact fits.modify fun e old => old.withLink ⟨⟨rfl, rfl⟩, fun _ => ⟨rfl, lt⟩, nofun⟩
  | connect _ known =>
    exact fits.modify fun e old => old.withLink ⟨⟨rfl, rfl⟩, nofun, fun _ => ⟨rfl, _, known⟩⟩
  | guard | group | script | sequence => exact fits.modify fun e old => { old with }

theorem Steps.fits (h : Steps scene base pred floor d d') (fits : d.Fits scene) :
    d'.Fits scene := by
  induction h with
  | refl => exact fits
  | tail _ step ih => exact step.fits ih

/-- Apart from its entries, a conversation does not change. -/
theorem Step.conversation_eq (h : Step scene base pred floor d d') :
    d'.conversation = { d.conversation with entries := d'.entries } := by
  cases h <;> rfl

theorem Steps.conversation_eq (h : Steps scene base pred floor d d') :
    d'.conversation = { d.conversation with entries := d'.entries } := by
  induction h with
  | refl => rfl
  | tail _ step ih => rw [step.conversation_eq, ih]

end Draft

namespace Scene

/-- The draft that the lowering of a node starts with. -/
def opening (scene : Scene) (id : Nat) : Draft :=
  .start id scene.name scene.actor scene.conversant scene.narrator scene.player

theorem opening_fits (scene : Scene) (id : Nat) : (scene.opening id).Fits scene where
  started := Nat.zero_lt_one
  speaker := .inr (.inl rfl)
  listener := .inl rfl
  entry i e found := by
    cases i with
    | zero =>
      cases found
      exact ⟨rfl, rfl, rfl, .inr (.inl rfl), .inl rfl, nofun⟩
    | succ i => cases found

end Scene

theorem Script.lower_ok {s : Script} {ctx : Context} {id : Nat} {c : Conversation}
    (h : s.lower ctx id = .ok c) : ∃ node complete exit, s.tree.check = .ok node ∧
      (Scene.ofNode ctx node).addItems ((Scene.ofNode ctx node).opening id) Conversation.startId
        node.body = .ok (complete, exit) ∧ c = complete.conversation := by
  simp only [lower, bind_eq_ok_iff, pure_eq_ok_iff] at h
  obtain ⟨node, checked, ⟨complete, exit⟩, added, rfl⟩ := h
  exact ⟨node, complete, exit, eq_ok_of_mapError checked, added, rfl⟩

/-- All entries of a lowered conversation fit. It starts as the lowering of its node started. -/
theorem Script.lower_fits {s : Script} {ctx : Context} {id : Nat} {c : Conversation}
    (h : s.lower ctx id = .ok c) : ∃ (node : Node) (complete : Draft), s.name = node.name ∧
      c = { ((Scene.ofNode ctx node).opening id).conversation with entries := complete.entries } ∧
      complete.Fits (Scene.ofNode ctx node) ∧ complete.conversation.id = id ∧
      (complete.entryAt? Conversation.startId).map Entry.head =
        (((Scene.ofNode ctx node).opening id).entryAt? Conversation.startId).map Entry.head := by
  obtain ⟨node, complete, exit, checked, added, rfl⟩ := lower_ok h
  let scene := Scene.ofNode ctx node
  have lowered := Scene.addItems_grown node.body Nat.zero_lt_one added
  have same := Draft.Steps.conversation_eq lowered.steps
  refine ⟨node, complete, name_of_check checked, same, ?_, by rw [same]; rfl, ?_⟩
  · exact Draft.Steps.fits lowered.steps (scene.opening_fits id)
  · rw [← Draft.getElem?_view, ← Draft.getElem?_view]
    exact Draft.Steps.head_eq lowered.steps Nat.zero_lt_one (Nat.le_refl _)

/-- A conversation whose entries are numbered by their positions is searched by position. -/
theorem Conversation.entryById?_eq {c : Conversation}
    (numbered : ∀ (i : Nat) (e : Entry), c.entries[i]? = some e → e.id = i) (i : Nat) :
    c.entryById? i = c.entries[i]? := by
  cases found : c.entries[i]? with
  | none =>
    refine List.find?_eq_none.mpr fun e member => ?_
    obtain ⟨j, known⟩ := List.getElem?_of_mem member
    intro same
    have position : j = i := by rw [← numbered j e known]; simpa using same
    subst position
    rw [found] at known
    cases known
  | some e =>
    have here := numbered i e found
    obtain ⟨lt, same⟩ := List.getElem?_eq_some_iff.mp found
    refine List.find?_eq_some_iff_getElem.mpr ⟨by simpa using here, i, lt, same, fun j before => ?_⟩
    have other := numbered j c.entries[j] (List.getElem?_eq_getElem (Nat.lt_trans before lt))
    simp only [other, Bool.not_eq_true', decide_eq_false_iff_not]
    omega

end Dialogue
