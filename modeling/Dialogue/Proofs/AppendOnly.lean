import Dialogue.Proofs.Guards
import Dialogue.Proofs.Validation

/-!
What lowering a statement leaves alone. `Draft.Extends` says how a draft may have grown from
another: old entries are as they were, apart from the one that the flow continues from, to which
script, directives and links may have been added; new entries stand behind the old ones and are
numbered by their places; and new links lead to new entries. One change of a draft keeps this, so
the lowering of every statement has it.

The last section says which statements of a valid tree are lowered by themselves, and which of them
end where they began.
-/

set_option autoImplicit false
set_option relaxedAutoImplicit false

namespace Dialogue

open Script

/-- A link of the entry `i`, made while entries from `base` up to `limit` were added. -/
structure Link.Added (l : Link) (conversation base limit i : Nat) : Prop where
  origin : l.originConversation = conversation ∧ l.originEntry = i
  inner : l.isConnector = false → l.destinationConversation = conversation ∧
    base ≤ l.destinationEntry ∧ l.destinationEntry < limit

private theorem Link.Added.mono {l : Link} {conversation base limit limit' i : Nat}
    (h : l.Added conversation base limit i) (le : limit ≤ limit') :
    l.Added conversation base limit' i where
  origin := h.origin
  inner inside := by
    obtain ⟨same, low, high⟩ := h.inner inside
    exact ⟨same, low, Nat.lt_of_lt_of_le high le⟩

/-- An entry after the flow continued from it. Its script and its links are extended at their ends,
its directives may have changed, and all else is as it was. -/
def Entry.Continued (e : Entry) (added : Link → Prop) (e' : Entry) : Prop :=
  ∃ script sequence links,
    e' = { e with
      userScript := e.userScript ++ script
      sequence := sequence
      links := e.links ++ links } ∧
      ∀ l ∈ links, added l

namespace Entry.Continued

variable {added : Link → Prop}

private theorem refl (e : Entry) : e.Continued added e :=
  ⟨"", e.sequence, [], by simp, nofun⟩

private theorem trans {e e' e'' : Entry} (h : e.Continued added e') (h' : e'.Continued added e'') :
    e.Continued added e'' := by
  obtain ⟨script, sequence, links, rfl, here⟩ := h
  obtain ⟨script', sequence', links', rfl, there⟩ := h'
  refine ⟨script ++ script', sequence', links ++ links', ?_, ?_⟩
  · simp only [String.append_assoc, List.append_assoc]
  · exact List.forall_mem_append.mpr ⟨here, there⟩

private theorem mono {added' : Link → Prop} (weaker : ∀ l, added l → added' l) {e e' : Entry}
    (h : e.Continued added e') : e.Continued added' e' := by
  obtain ⟨script, sequence, links, same, here⟩ := h
  exact ⟨script, sequence, links, same, fun l member => weaker l (here l member)⟩

private theorem link (e : Entry) {l : Link} (new : added l) :
    e.Continued added { e with links := e.links ++ [l] } :=
  ⟨"", e.sequence, [l], by simp, List.forall_mem_singleton.mpr new⟩

private theorem script (e : Entry) (addition : String) :
    e.Continued added { e with userScript := Draft.joinScript e.userScript addition } := by
  unfold Draft.joinScript
  split
  · next bare => exact ⟨addition, e.sequence, [], by simp [bare], nofun⟩
  · exact ⟨"\n" ++ addition, e.sequence, [], by simp [String.append_assoc], nofun⟩

private theorem sequence (e : Entry) (s : String) : e.Continued added { e with sequence := s } :=
  ⟨"", s, [], by simp, nofun⟩

end Entry.Continued

namespace Draft

/-- How a draft grows while the flow goes on from one of its entries. -/
structure Extends (d : Draft) (pred : Nat) (d' : Draft) : Prop where
  frame : d' = d.withEntries d'.entries
  grows : d.nextId ≤ d'.nextId
  old : ∀ i < d.nextId, i ≠ pred → d'.entryAt? i = d.entryAt? i
  continued : ∃ e e', d.entryAt? pred = some e ∧ d'.entryAt? pred = some e' ∧
    e.Continued (Link.Added · d.conversation.id d.nextId d'.nextId pred) e'
  new : ∀ i e, d.nextId ≤ i → d'.entryAt? i = some e →
    e.id = i ∧ ∀ l ∈ e.links, l.Added d.conversation.id d.nextId d'.nextId i

namespace Extends

variable {d m d' : Draft} {pred : Nat}

private theorem refl (d : Draft) (hpred : pred < d.nextId) : d.Extends pred d where
  frame := rfl
  grows := Nat.le_refl _
  old _ _ _ := rfl
  continued := by
    have found : d.entryAt? pred = some (d.entries.get ⟨pred, hpred⟩) :=
      List.getElem?_eq_getElem hpred
    exact ⟨_, _, found, found, .refl _⟩
  new i e low found := by
    have := d.lt_nextId_of_entryAt? found
    omega

private theorem pred_lt (h : d.Extends pred m) : pred < d.nextId := by
  obtain ⟨e, -, found, -⟩ := h.continued
  exact d.lt_nextId_of_entryAt? found

private theorem withEntries_eq (h : d.Extends pred m) (es : List Entry) :
    m.withEntries es = d.withEntries es := by
  rw [h.frame]
  rfl

private theorem conversation_id (h : d.Extends pred m) : m.conversation.id = d.conversation.id := by
  rw [h.frame]
  rfl

private theorem push {scene : Scene} (h : d.Extends pred m) {e : Entry} (joins : e.Joins scene m) :
    d.Extends pred (m.push e) where
  frame := h.withEntries_eq _
  grows := by
    rw [nextId_push]
    exact Nat.le_succ_of_le h.grows
  old i lt other := by rw [m.entryAt?_push_of_lt e (Nat.lt_of_lt_of_le lt h.grows),
    h.old i lt other]
  continued := by
    obtain ⟨before, after, found, reached, continued⟩ := h.continued
    refine ⟨before, after, found, ?_, continued.mono fun l added => added.mono ?_⟩
    · rw [m.entryAt?_push_of_lt e (Nat.lt_of_lt_of_le h.pred_lt h.grows), reached]
    · rw [nextId_push]
      exact Nat.le_succ _
  new i e' low found := by
    rw [entryAt?_push] at found
    split at found
    · next last =>
      cases found
      exact ⟨joins.id.trans last.symm, by rw [joins.links]; exact nofun⟩
    · obtain ⟨numbered, links⟩ := h.new i e' low found
      refine ⟨numbered, fun l member => (links l member).mono ?_⟩
      rw [nextId_push]
      exact Nat.le_succ _

/-- A change of the entry that the flow continues from continues it; a new entry may be changed in
more ways, if it keeps its number. -/
theorem modify (h : d.Extends pred m) {k : Nat} {f : Entry → Entry}
    (origin : k = pred ∨ d.nextId ≤ k)
    (onPred : k = pred → ∀ e : Entry, e.Continued
      (Link.Added · d.conversation.id d.nextId m.nextId pred) (f e))
    (onNew : ∀ e, (f e).id = e.id ∧ ∃ links, (f e).links = e.links ++ links ∧
      ∀ l ∈ links, l.Added d.conversation.id d.nextId m.nextId k) :
    d.Extends pred (m.modify k f) where
  frame := h.withEntries_eq _
  grows := by rw [nextId_modify]; exact h.grows
  old i lt other := by rw [m.entryAt?_modify_of_ne f (by omega), h.old i lt other]
  continued := by
    obtain ⟨before, after, found, reached, continued⟩ := h.continued
    rw [nextId_modify, entryAt?_modify]
    split
    · next here => exact ⟨before, f after, found, by rw [reached]; rfl,
        continued.trans (onPred here after)⟩
    · exact ⟨before, after, found, reached, continued⟩
  new i e low found := by
    rw [nextId_modify]
    rw [entryAt?_modify] at found
    split at found
    · next here =>
      subst here
      obtain ⟨e, there, rfl⟩ := Option.map_eq_some_iff.mp found
      obtain ⟨numbered, links⟩ := h.new k e low there
      obtain ⟨same, more, extended, added⟩ := onNew e
      exact ⟨same.trans numbered, by rw [extended]; exact List.forall_mem_append.mpr ⟨links, added⟩⟩
    · exact h.new i e low found

/-- Changes that continue an entry are allowed on old and new entries alike. -/
theorem modify_continued (h : d.Extends pred m) {k : Nat} {f : Entry → Entry}
    (origin : k = pred ∨ d.nextId ≤ k)
    (continues : ∀ e : Entry, e.Continued
      (Link.Added · d.conversation.id d.nextId m.nextId k) (f e)) :
    d.Extends pred (m.modify k f) := by
  refine h.modify origin (fun here => here ▸ continues) fun e => ?_
  obtain ⟨script, sequence, links, same, added⟩ := continues e
  rw [same]
  exact ⟨rfl, links, rfl, added⟩

private theorem modify_new (h : d.Extends pred m) {k : Nat} {f : Entry → Entry} (low : d.nextId ≤ k)
    (id_eq : ∀ e, (f e).id = e.id) (links_eq : ∀ e, (f e).links = e.links) :
    d.Extends pred (m.modify k f) :=
  h.modify (.inr low) (fun here => absurd h.pred_lt (by omega)) fun e =>
    ⟨id_eq e, [], by rw [links_eq, List.append_nil], nofun⟩

/-- One more change, of the entry that the flow continues from or of a new one. -/
theorem step {scene : Scene} (h : d.Extends pred m)
    (next : Step scene d.nextId pred d.nextId m d') :
    d.Extends pred d' := by
  cases next with
  | push joins => exact h.push joins
  | link origin low lt =>
    refine h.modify_continued origin fun e => .link e ⟨⟨h.conversation_id, rfl⟩, fun _ => ?_⟩
    exact ⟨h.conversation_id, low, lt⟩
  | connect low =>
    exact h.modify_continued (.inr low) fun e => .link e ⟨⟨h.conversation_id, rfl⟩, nofun⟩
  | guard low => exact h.modify_new low (fun _ => rfl) fun _ => rfl
  | group low => exact h.modify_new low (fun _ => rfl) fun _ => rfl
  | script origin => exact h.modify_continued origin fun e => .script e _
  | sequence origin => exact h.modify_continued origin fun e => .sequence e _

end Extends

private theorem Steps.extends {scene : Scene} {d d' : Draft} {pred : Nat} (hpred : pred < d.nextId)
    (h : Steps scene d.nextId pred d.nextId d d') : d.Extends pred d' := by
  induction h with
  | refl => exact .refl d hpred
  | tail _ next ih => exact ih.step next

end Draft

private theorem Script.Basic.entryCount_eq_zero_iff {b : Basic} : b.entryCount = 0 ↔
    ∃ name arguments rawText, b = .command name arguments rawText ∧
      (Command.Kind.ofName name = .wait ∨ Command.Kind.ofName name = .playSequence) := by
  cases b with
  | command name arguments rawText =>
    cases sort : Command.Kind.ofName name <;> simp [Basic.entryCount, sort]
  | line | call | jump | set | declare => simp [Basic.entryCount]

private theorem Scene.exit_eq_iff {scene : Scene} {item : Item} {d d' : Draft} {pred exit : Nat}
    (hpred : pred < d.nextId) (h : scene.addItem d pred item = .ok (d', exit)) :
    exit = pred ↔ item.entryCount = 0 := by
  cases item with
  | basic s =>
    rw [addItem] at h
    rw [Item.entryCount]
    cases addBasic_adds h with
    | directive count => simp [count]
    | entry count => omega
    | jump kind =>
      rw [kind, Basic.entryCount]
      omega
  | branch clauses otherwise =>
    obtain ⟨_, _, _, _, _, _, _, rfl⟩ := addItem_branch_ok h
    rw [entryCount_branch]
    omega
  | menu choices =>
    obtain ⟨_, _, _, _, rfl⟩ := addItem_menu_ok h
    rw [Item.entryCount]
    omega

namespace Script

/-- Whether statements of a sort stand in bodies. A node, a clause and an option are lowered only
with the block that they are part of. -/
def Kind.isItem : Kind → Bool
  | .basic _ | .block .ifBlock | .block .options => true
  | .block (.node ..) | .block (.ifClause _) | .block .option => false

namespace Tree

mutual

/-- What holds of a tree and is handed on to children holds of all parts. -/
theorem forall_mem_parts {P : Tree → Prop} (step : ∀ t, P t → ∀ c ∈ t.children, P c) :
    ∀ t : Tree, P t → ∀ p ∈ t.parts, P p
  | .node id content children, h => by
    rw [parts, List.forall_mem_cons]
    exact ⟨h, forall_mem_partsList step children (step _ h)⟩

private theorem forall_mem_partsList {P : Tree → Prop} (step : ∀ t, P t → ∀ c ∈ t.children, P c) :
    ∀ ts : List Tree, (∀ t ∈ ts, P t) → ∀ p ∈ partsList ts, P p
  | [], _ => nofun
  | t :: rest, h => by
    rw [partsList, List.forall_mem_append]
    rw [List.forall_mem_cons] at h
    exact ⟨forall_mem_parts step t h.1, forall_mem_partsList step rest h.2⟩

end

/-- A tree of the grammar, by one of its three rules for what is below the root. -/
def IsPart (t : Tree) : Prop :=
  IsItem t ∨ (∃ kind, IsClause kind t) ∨ IsOption t

private theorem IsPart.children {t : Tree} (h : t.IsPart) : ∀ c ∈ t.children, c.IsPart := by
  rcases h with item | ⟨kind, clause⟩ | option
  · cases item with
    | basic => exact nofun
    | branch _ opens guarded bare =>
      refine List.forall_mem_cons.mpr ⟨.inr (.inl ⟨_, opens⟩), List.forall_mem_append.mpr ⟨?_, ?_⟩⟩
      · exact fun c member => .inr (.inl ⟨_, guarded c member⟩)
      · exact fun c member => .inr (.inl ⟨_, bare c (Option.mem_toList.mp member)⟩)
    | menu _ _ all => exact fun c member => .inr (.inr (all c member))
  · cases clause with
    | mk _ _ items => exact fun c member => .inl (items c member)
  · cases option with
    | mk _ line items =>
      exact List.forall_mem_cons.mpr ⟨.inl (.basic line), fun c member => .inl (items c member)⟩

private theorem IsPart.isItem {t : Tree} (h : t.IsPart) (stands : t.kind.isItem = true) :
    IsItem t := by
  rcases h with item | ⟨kind, clause⟩ | option
  · exact item
  · rw [clause.kind_eq] at stands
    cases stands
  · rw [option.kind_eq] at stands
    cases stands

private theorem isItem_of_mem_parts {t p : Tree} (valid : t.IsScript) (member : p ∈ t.parts)
    (stands : p.kind.isItem = true) : IsItem p := by
  obtain ⟨kind, body⟩ := valid
  rw [parts] at member
  rcases List.mem_cons.mp member with rfl | member
  · simp [Tree.kind, Tree.content, kind, Kind.isItem] at stands
  · exact (forall_mem_partsList (fun _ => IsPart.children) _
      (fun c held => .inl (body c held)) p member).isItem
      stands

private theorem isItem_of_item_eq {t : Tree} {i : Item} (h : t.item = .ok i) :
    t.kind.isItem = true := by
  obtain ⟨id, content, children⟩ := t
  change content.kind.isItem = true
  cases stands_of_item h with
  | basic kind | branch kind | menu kind => rw [kind]; rfl

/-- The items without entries are waits and sequences. -/
theorem entryCount_eq_zero_iff {t : Tree} {i : Item} (h : t.item = .ok i) : i.entryCount = 0 ↔
    ∃ name arguments rawText, t.kind = .basic (.command name arguments rawText) ∧
      (Command.Kind.ofName name = .wait ∨ Command.Kind.ofName name = .playSequence) := by
  obtain ⟨id, content, children⟩ := t
  simp only [Tree.kind, Tree.content]
  cases stands_of_item h with
  | basic kind => simp [kind, Item.entryCount, Content.withKind, Basic.entryCount_eq_zero_iff]
  | branch kind => simp [kind, Scene.entryCount_branch]
  | menu kind => simp [kind, Item.entryCount]

end Tree

end Script

namespace Scene

/-- In a valid tree, the statements that are lowered by themselves are those that stand in bodies.
Each of them only extends the draft, behind the entry that it is lowered from, and ends at a new
entry or, if it is a wait or a sequence, at that one. -/
theorem addItem_append_only {t p : Tree} {node : Node} (valid : t.check = .ok node)
    (member : p ∈ t.parts) :
    ((∃ item, p.item = .ok item) ↔ p.kind.isItem = true) ∧
    ∀ (scene : Scene) (d d' : Draft) (pred exit : Nat) (item : Item),
      p.item = .ok item → pred < d.nextId →
      scene.addItem d pred item = .ok (d', exit) →
      d.Extends pred d' ∧ (exit = pred ∨ d.nextId ≤ exit ∧ exit < d'.nextId) ∧
        (exit = pred ↔ ∃ name arguments rawText, p.kind = .basic (.command name arguments rawText) ∧
          (Command.Kind.ofName name = .wait ∨ Command.Kind.ofName name = .playSequence)) := by
  have script := (Tree.check_ok_iff t).mp ⟨node, valid⟩
  refine ⟨⟨fun ⟨_, read⟩ => Tree.isItem_of_item_eq read, fun stands => ?_⟩, ?_⟩
  · exact Tree.exists_item p (Tree.isItem_of_mem_parts script member stands)
  · intro scene d d' pred exit item read hpred lowered
    have grown := addItem_grown item hpred lowered
    refine ⟨grown.steps.extends hpred, grown.exit_new.imp_right fun new => ⟨new, grown.exit_lt⟩, ?_⟩
    rw [exit_eq_iff hpred lowered, Tree.entryCount_eq_zero_iff read]

namespace Sample

def fadeTree : Tree :=
  .node 3 ⟨.basic (.command "seq" [.text "Fade(in)"] "seq Fade(in)"), 3, none, none⟩ []

/-- A branch with one clause, which plays a sequence and stops. -/
def branchTree : Tree :=
  .node 1 ⟨.block .ifBlock, 2, none, none⟩
    [.node 2 ⟨.block (.ifClause .if_), 2, some [.variable "x"], none⟩
      [fadeTree, .node 4 ⟨.basic (.command "stop" [] "stop"), 4, none, none⟩ []]]

def scriptTree : Tree :=
  .node 0 ⟨.block (.node "Start" .empty), 1, none, none⟩ [branchTree]

def opened : Draft :=
  .start 7 "Start" 1 2 1 2

end Sample

/-- The branch ends at its own second entry, the sequence where it began. -/
theorem addItem_append_only_sample : (∃ node, Sample.scriptTree.check = .ok node) ∧
    Sample.branchTree ∈ Sample.scriptTree.parts ∧ Sample.fadeTree ∈ Sample.scriptTree.parts ∧
    ∀ scene : Scene,
      (∃ item d', Sample.branchTree.item = .ok item ∧
        scene.addItem Sample.opened 0 item = .ok (d', 2) ∧
        d'.nextId = 7 ∧ Sample.opened.Extends 0 d') ∧
      ∃ item d', Sample.fadeTree.item = .ok item ∧
      scene.addItem Sample.opened 0 item = .ok (d', 0) ∧
        Sample.opened.Extends 0 d' := by
  have valid : ∃ node, Sample.scriptTree.check = .ok node := ⟨_, rfl⟩
  have branch : Sample.branchTree ∈ Sample.scriptTree.parts :=
    List.mem_cons_of_mem _ List.mem_cons_self
  have fade : Sample.fadeTree ∈ Sample.scriptTree.parts :=
    List.mem_cons_of_mem _ (List.mem_cons_of_mem _ (List.mem_cons_of_mem _ List.mem_cons_self))
  refine ⟨valid, branch, fade, fun scene => ⟨⟨_, _, rfl, rfl, rfl, ?_⟩, ⟨_, _, rfl, rfl, ?_⟩⟩⟩
  · obtain ⟨node, read⟩ := valid
    exact ((addItem_append_only read branch).2 scene _ _ 0 2 _ rfl (by decide) rfl).1
  · obtain ⟨node, read⟩ := valid
    exact ((addItem_append_only read fade).2 scene _ _ 0 0 _ rfl (by decide) rfl).1

end Scene

end Dialogue
