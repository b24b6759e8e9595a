import Dialogue.Bundle.Read
import Dialogue.Proofs.Draft
import Mathlib.Data.List.Basic

/-!
How the statements of a script are nested. In every script that a builder makes, a child stands
after its parent and names it, and no statement has a child twice. `Builder.insert` is the only step
that changes this, and what it adds has an id that is new.

The tree of such a script has the same links. So the lines that open an option in the tree are those
of which `Script.isChoiceLine` says it.
-/

set_option autoImplicit false
set_option relaxedAutoImplicit false

namespace Dialogue.Script

def childrenAt (statements : List Statement) (id : Nat) : List Nat :=
  statements[id]?.elim [] Statement.children

def parentAt (statements : List Statement) (id : Nat) : Option Nat :=
  statements[id]?.bind Statement.parent

/-- Children are told apart, stand after their parents, and name them. -/
structure Nested (statements : List Statement) : Prop where
  distinct : ∀ id, (childrenAt statements id).Nodup
  below : ∀ id, ∀ c ∈ childrenAt statements id, id < c ∧ parentAt statements c = some id

section Steps

variable {statements : List Statement}

private theorem lt_of_parentAt {id parent : Nat} (h : parentAt statements id = some parent) :
    id < statements.length := by
  obtain ⟨statement, found, -⟩ := Option.bind_eq_some_iff.mp h
  exact (List.getElem?_eq_some_iff.mp found).1

private theorem Nested.lt_length (nested : Nested statements) {id c : Nat}
    (member : c ∈ childrenAt statements id) :
    c < statements.length :=
  lt_of_parentAt (nested.below id c member).2

theorem childrenAt_of_length_le {id : Nat} (h : statements.length ≤ id) :
    childrenAt statements id = [] := by
  rw [childrenAt, List.getElem?_eq_none h]
  rfl

private theorem childrenAt_modify (f : Statement → Statement) (p id : Nat) :
    childrenAt (statements.modify p f) id =
      if p = id then statements[id]?.elim [] fun s => (f s).children
        else childrenAt statements id := by
  rw [childrenAt, childrenAt, List.getElem?_modify]
  split <;> cases statements[id]? <;> rfl

theorem parentAt_modify {f : Statement → Statement}
    (same : ∀ s, (f s).parent = s.parent) (p id : Nat) :
    parentAt (statements.modify p f) id = parentAt statements id := by
  rw [parentAt, parentAt, List.getElem?_modify]
  cases statements[id]? with
  | none => rfl
  | some s =>
    by_cases here : p = id
    · simp [here, same]
    · simp [here]

theorem childrenAt_modify_of_same {f : Statement → Statement}
    (same : ∀ s, (f s).children = s.children)
    (p id : Nat) : childrenAt (statements.modify p f) id = childrenAt statements id := by
  rw [childrenAt_modify]
  split
  · rw [childrenAt]
    cases statements[id]? with
    | none => rfl
    | some s => exact same s
  · rfl

/-- A change of contents leaves the links. -/
theorem Nested.modify (nested : Nested statements) {f : Statement → Statement}
    (children : ∀ s, (f s).children = s.children)
    (parent : ∀ s, (f s).parent = s.parent) (p : Nat) :
    Nested (statements.modify p f) := by
  constructor
  · intro id
    rw [childrenAt_modify_of_same children]
    exact nested.distinct id
  · intro id c member
    rw [childrenAt_modify_of_same children] at member
    rw [parentAt_modify parent]
    exact nested.below id c member

theorem childrenAt_concat (new : Statement) (id : Nat) :
    childrenAt (statements ++ [new]) id =
      if id = statements.length then new.children else childrenAt statements id := by
  rw [childrenAt, getElem?_concat]
  split <;> rfl

private theorem parentAt_concat (new : Statement) (id : Nat) :
    parentAt (statements ++ [new]) id =
      if id = statements.length then new.parent else parentAt statements id := by
  rw [parentAt, getElem?_concat]
  split <;> rfl

/-- A new statement that no other one lists. -/
theorem Nested.concat (nested : Nested statements) {new : Statement}
    (childless : new.children = []) :
    Nested (statements ++ [new]) := by
  constructor
  · intro id
    rw [childrenAt_concat]
    split
    · rw [childless]
      exact List.nodup_nil
    · exact nested.distinct id
  · intro id c member
    rw [childrenAt_concat] at member
    split at member
    · rw [childless] at member
      cases member
    · obtain ⟨after, parent⟩ := nested.below id c member
      refine ⟨after, ?_⟩
      rw [parentAt_concat, if_neg (Nat.ne_of_lt (lt_of_parentAt parent))]
      exact parent

theorem childrenAt_adopt {p : Nat} (lt : p < statements.length) {new : Statement}
    (childless : new.children = []) (id : Nat) :
    childrenAt
      (statements.modify p (fun s => { s with children := s.children ++ [statements.length] }) ++
        [new]) id =
      childrenAt statements id ++ if id = p then [statements.length] else [] := by
  rw [childrenAt_concat, List.length_modify, childless]
  by_cases last : id = statements.length
  · rw [if_pos last, childrenAt_of_length_le (Nat.le_of_eq last.symm), if_neg (by omega)]
    rfl
  · rw [if_neg last, childrenAt_modify]
    by_cases here : p = id
    · subst here
      rw [if_pos rfl, if_pos rfl, childrenAt, List.getElem?_eq_getElem lt]
      rfl
    · rw [if_neg here, if_neg (Ne.symm here), List.append_nil]

private theorem parentAt_adopt (p : Nat) {new : Statement}
    (parent : new.parent = some p) (id : Nat) :
    parentAt
      (statements.modify p (fun s => { s with children := s.children ++ [statements.length] }) ++
        [new]) id =
      if id = statements.length then some p else parentAt statements id := by
  rw [parentAt_concat, List.length_modify, parent, parentAt_modify (by intro; rfl)]

/-- A new statement that becomes the last child of another one. -/
theorem Nested.adopt (nested : Nested statements) {p : Nat}
    (lt : p < statements.length) {new : Statement} (childless : new.children = [])
    (parent : new.parent = some p) :
    Nested
      (statements.modify p (fun s => { s with children := s.children ++ [statements.length] }) ++
        [new]) := by
  constructor
  · intro id
    rw [childrenAt_adopt lt childless, List.nodup_append]
    refine ⟨nested.distinct id, by split <;> simp, ?_⟩
    intro c old c' isNew
    have within := nested.lt_length old
    split at isNew
    · rw [List.mem_singleton.mp isNew]
      exact Nat.ne_of_lt within
    · cases isNew
  · intro id c member
    rw [childrenAt_adopt lt childless, List.mem_append] at member
    rw [parentAt_adopt p parent]
    rcases member with old | isNew
    · rw [if_neg (Nat.ne_of_lt (nested.lt_length old))]
      exact nested.below id c old
    · split at isNew
      · next here =>
        rw [List.mem_singleton.mp isNew, if_pos rfl, here]
        exact ⟨lt, rfl⟩
      · cases isNew

end Steps

inductive Builder.Reachable : Builder → Prop
  | empty : Reachable {}
  | openBlock {b b' : Builder} {kind : Kind} {line : Nat} : Reachable b →
      b.openBlock kind line = .ok b' → Reachable b'
  | closeBlock {b b' : Builder} {id : Nat} : Reachable b →
      b.closeBlock = .ok (b', id) → Reachable b'
  | add {b b' : Builder} {kind : Kind} {line : Nat} : Reachable b → b.add kind line = .ok b' →
      Reachable b'
  | setConditions {b : Builder} (id : Nat) (tokens : Expression) : Reachable b →
      Reachable (b.setConditions id tokens)
  | setExpression {b : Builder} (id : Nat) (tokens : Expression) : Reachable b →
      Reachable (b.setExpression id tokens)
  | appendToken {b : Builder} (id : Nat) (token : Token) : Reachable b →
      Reachable (b.appendToken id token)

/-- A script that a builder has finished. -/
def Built (s : Script) : Prop :=
  ∃ b : Builder, b.Reachable ∧ b.finish = .ok s

namespace Builder

/-- What holds of a builder at every step. -/
structure Sound (b : Builder) : Prop where
  nested : Nested b.statements
  pending : ∀ id ∈ b.pending, id < b.nextId
  root : ∀ id, b.root = some id → id < b.nextId ∧ parentAt b.statements id = none

private theorem Sound.modify {b : Builder} (sound : b.Sound) {f : Statement → Statement}
    (children : ∀ s, (f s).children = s.children)
    (parent : ∀ s, (f s).parent = s.parent) (p : Nat) :
    (b.modify p f).Sound := by
  have next : (b.modify p f).nextId = b.nextId := List.length_modify ..
  refine ⟨sound.nested.modify children parent p, ?_, ?_⟩
  · intro id member
    rw [next]
    exact sound.pending id member
  · intro id isRoot
    obtain ⟨lt, bare⟩ := sound.root id isRoot
    rw [next]
    exact ⟨lt, (parentAt_modify parent p id).trans bare⟩

theorem nextId_insert (b : Builder) (kind : Kind) (line : Nat) (parent : Option Nat) :
    (b.insert kind line parent).nextId = b.nextId + 1 := by
  cases parent <;> simp [insert, nextId]

theorem parentAt_insert (b : Builder) (kind : Kind) (line : Nat) (parent : Option Nat) (id : Nat) :
    parentAt (b.insert kind line parent).statements id =
      if id = b.nextId then parent else parentAt b.statements id := by
  cases parent with
  | none => exact parentAt_concat _ id
  | some p => exact parentAt_adopt p rfl id

private theorem Sound.insert {b : Builder} (sound : b.Sound) (kind : Kind) (line : Nat)
    {parent : Option Nat} (known : ∀ p, parent = some p → p < b.nextId) :
    (b.insert kind line parent).Sound := by
  refine ⟨?_, ?_, ?_⟩
  · cases parent with
    | none => exact sound.nested.concat rfl
    | some p => exact sound.nested.adopt (known p rfl) rfl rfl
  · intro id member
    have lt := sound.pending id member
    rw [nextId_insert]
    omega
  · intro id isRoot
    obtain ⟨lt, bare⟩ := sound.root id isRoot
    rw [nextId_insert, parentAt_insert, if_neg (Nat.ne_of_lt lt)]
    exact ⟨by omega, bare⟩

private theorem nextId_lt_insert (b : Builder) (kind : Kind) (line : Nat) (parent : Option Nat) :
    b.nextId < (b.insert kind line parent).nextId := by
  rw [nextId_insert]
  exact Nat.lt_succ_self _

private theorem Sound.innermost {b : Builder} (sound : b.Sound) {parent : Nat} {outer : List Nat}
    (opened : b.pending = parent :: outer) : ∀ p, some parent = some p → p < b.nextId := by
  rintro p ⟨⟩
  apply sound.pending
  rw [opened]
  exact List.mem_cons_self

private theorem Sound.openBlock {b b' : Builder} (sound : b.Sound) {kind : Kind} {line : Nat}
    (h : b.openBlock kind line = .ok b') : b'.Sound := by
  unfold Builder.openBlock at h
  split at h
  · cases h
  · split at h
    · cases h
    · next noneOpen noRoot =>
      cases h
      have grown := sound.insert kind line (fun p named => nomatch (named : none = some p))
      refine ⟨grown.nested, ?_, ?_⟩
      · intro id member
        rw [List.mem_singleton.mp member]
        exact b.nextId_lt_insert kind line none
      · intro id isRoot
        obtain rfl := Option.some.inj isRoot
        refine ⟨b.nextId_lt_insert kind line none, ?_⟩
        exact (b.parentAt_insert kind line none _).trans (if_pos rfl)
    · next parent outer opened =>
      cases h
      have grown := sound.insert kind line (sound.innermost opened)
      refine ⟨grown.nested, ?_, grown.root⟩
      intro id member
      rcases List.mem_cons.mp member with rfl | member
      · exact b.nextId_lt_insert kind line (some parent)
      · exact grown.pending id (opened ▸ member)

private theorem Sound.closeBlock {b b' : Builder} (sound : b.Sound) {id : Nat}
    (h : b.closeBlock = .ok (b', id)) : b'.Sound := by
  unfold Builder.closeBlock at h
  split at h
  · cases h
  · next opened =>
    cases h
    refine ⟨sound.nested, ?_, sound.root⟩
    intro other member
    exact sound.pending other (opened ▸ List.mem_cons_of_mem _ member)

private theorem Sound.add {b b' : Builder} (sound : b.Sound) {kind : Kind} {line : Nat}
    (h : b.add kind line = .ok b') : b'.Sound := by
  unfold Builder.add at h
  split at h
  · cases h
  · split at h
    · cases h
    · next parent outer opened =>
      cases h
      exact sound.insert kind line (sound.innermost opened)

private theorem Reachable.sound {b : Builder} (h : b.Reachable) : b.Sound := by
  induction h with
  | empty => exact ⟨⟨fun _ => List.nodup_nil, fun _ _ => nofun⟩, fun _ => nofun, fun _ => nofun⟩
  | openBlock _ opened ih => exact ih.openBlock opened
  | closeBlock _ closed ih => exact ih.closeBlock closed
  | add _ added ih => exact ih.add added
  | setConditions id _ _ ih => exact ih.modify (by intro; rfl) (by intro; rfl) id
  | setExpression id _ _ ih => exact ih.modify (by intro; rfl) (by intro; rfl) id
  | appendToken id _ _ ih => exact ih.modify (by intro; rfl) (by intro; rfl) id

end Builder

theorem Built.nested {s : Script} (h : s.Built) :
    Nested s.statements ∧ s.parent? s.root = none := by
  obtain ⟨b, reachable, finished⟩ := h
  have sound := reachable.sound
  unfold Builder.finish at finished
  split at finished
  · cases finished
  · split at finished
    · next root isRoot =>
      split at finished
      · cases finished
        exact ⟨sound.nested, (sound.root root isRoot).2⟩
      · cases finished
    · cases finished

namespace Tree

mutual

/-- The statements of a tree are those of a script, with the same children. -/
def Shows (s : Script) : Tree → Prop
  | .node id content children =>
    (s.get? id).map Statement.content = some content ∧ s.children id = children.map Tree.id ∧
      ShowsList s children

def ShowsList (s : Script) : List Tree → Prop
  | [] => True
  | t :: rest => Shows s t ∧ ShowsList s rest

end

theorem showsList_iff {s : Script} {ts : List Tree} : ShowsList s ts ↔ ∀ t ∈ ts, Shows s t := by
  induction ts with
  | nil => simp [ShowsList]
  | cons t rest ih => simp [ShowsList, ih]

theorem kind?_of_content {s : Script} {id : Nat} {content : Content Kind}
    (h : (s.get? id).map Statement.content = some content) : s.kind? id = some content.kind := by
  obtain ⟨statement, found, rfl⟩ := Option.map_eq_some_iff.mp h
  rw [kind?, found]
  rfl

end Tree

private theorem id_of_subtrees {start k : Nat} {statements : List Statement} {t : Tree}
    (found : (subtrees start statements)[k]? = some t) : t.id = start + k := by
  induction statements generalizing start k with
  | nil => cases found
  | cons s rest ih =>
    cases k with
    | zero =>
      obtain rfl := Option.some.inj found
      rfl
    | succ k =>
      rw [ih found]
      omega

/-- No child is lost in the tree of a statement, since each stands among the later statements. -/
theorem ids_of_children {statements rest : List Statement}
    (nested : Nested statements) {start : Nat} {statement : Statement}
    (dropped : statements.drop start = statement :: rest) :
    (statement.children.filterMap fun c =>
        if start < c then (subtrees (start + 1) rest)[c - (start + 1)]? else none).map Tree.id =
      childrenAt statements start := by
  have here : statements[start]? = some statement := by
    have first := congrArg (·[0]?) dropped
    simpa using first
  have own : childrenAt statements start = statement.children := by
    rw [childrenAt, here]
    rfl
  have length : statements.length - start = rest.length + 1 := by
    rw [← List.length_drop, dropped]
    rfl
  rw [List.map_filterMap, own]
  refine Eq.trans ?_ (List.map_id _)
  apply List.filterMap_eq_map_iff_forall_eq_some.mpr
  intro c child
  rw [← own] at child
  have lt := (nested.below start c child).1
  have within := nested.lt_length child
  obtain ⟨t, found⟩ : ∃ t, (subtrees (start + 1) rest)[c - (start + 1)]? = some t :=
    ⟨_, List.getElem?_eq_getElem (by rw [length_subtrees]; omega)⟩
  have same : t.id = c := by
    rw [id_of_subtrees found]
    omega
  rw [if_pos lt, found, Option.map_some, same]
  rfl

/-- The trees of the statements from `start` on, given that the statements before them are left
out. -/
theorem shows_subtrees {s : Script} (nested : Nested s.statements) (rest : List Statement) :
    ∀ start, s.statements.drop start = rest → ∀ t ∈ subtrees start rest, t.Shows s := by
  induction rest with
  | nil =>
    intro start _ t member
    cases member
  | cons statement rest ih =>
    intro start dropped t member
    have after : s.statements.drop (start + 1) = rest := by
      rw [← List.drop_drop, dropped]
      rfl
    have later := ih (start + 1) after
    rcases List.mem_cons.mp member with rfl | member
    · refine ⟨?_, (ids_of_children nested dropped).symm, ?_⟩
      · have first := congrArg (fun tail => tail[0]?.map Statement.content) dropped
        simpa [get?] using first
      · apply Tree.showsList_iff.mpr
        intro t member
        obtain ⟨c, -, found⟩ := List.mem_filterMap.mp member
        split at found
        · exact later t (List.mem_of_getElem? found)
        · cases found
    · exact later t member

theorem shows_tree {s : Script} (nested : Nested s.statements) : s.tree.Shows s :=
  shows_subtrees nested s.statements 0 rfl s.tree (List.get_mem _ _)

theorem id_tree (s : Script) : s.tree.id = s.root := by
  have found : (subtrees 0 s.statements)[s.root]? = some s.tree :=
    List.getElem?_eq_getElem _
  rw [id_of_subtrees found, Nat.zero_add]

namespace Tree

mutual

/-- The basic statements of a tree, each with whether it opens an option. -/
def marked (isFirst : Bool) : Tree → List (Bool × (Nat × Content Kind))
  | .node id content children =>
    match content.kind with
    | .basic _ => [(isFirst, (id, content))]
    | .block .option => markedList true children
    | .block _ => markedList false children

/-- The basic statements of a list of trees, given whether its first opens an option. -/
def markedList (isFirst : Bool) : List Tree → List (Bool × (Nat × Content Kind))
  | [] => []
  | t :: rest => marked isFirst t ++ markedList false rest

end

theorem marked_block {id : Nat} {content : Content Kind} {children : List Tree} {b : Block}
    (kind : content.kind = .block b) (isFirst : Bool) :
    (node id content children).marked isFirst = markedList (decide (b = .option)) children := by
  unfold marked
  cases b <;> simp [kind]

end Tree

private theorem isChoiceLine_of_parent {s : Script} {id parent : Nat}
    (h : s.parent? id = some parent) :
    s.isChoiceLine id =
      (decide (s.kind? parent = some (.block .option)) &&
        decide ((s.children parent).head? = some id)) := by
  rw [isChoiceLine, h]

namespace Tree

variable {s : Script}

/-- The id of a basic statement says whether it opens an option. -/
def choiceMark (s : Script) (leaf : Nat × Content Kind) : Bool × (Nat × Content Kind) :=
  (s.isChoiceLine leaf.1, leaf)

mutual

/-- The place of a statement in the tree and the links of the script agree on what opens an
option. -/
theorem marked_eq (nested : Nested s.statements) : ∀ t : Tree, t.Shows s →
    t.marked (s.isChoiceLine t.id) = t.leaves.map (choiceMark s)
  | .node id content children, ⟨here, listed, below⟩ => by
    cases sort : content.kind with
    | basic b =>
      simp only [marked, leaves, sort]
      rfl
    | block b =>
      have kind := kind?_of_content here
      have parents : ∀ t ∈ children, s.parent? t.id = some id := by
        intro t member
        refine (nested.below id t.id ?_).2
        change t.id ∈ s.children id
        rw [listed]
        exact List.mem_map_of_mem member
      have single : (children.map Tree.id).Nodup := by
        rw [← listed]
        exact nested.distinct id
      have choice : ∀ t ∈ children, s.isChoiceLine t.id =
          (decide (b = .option) && decide ((children.map Tree.id).head? = some t.id)) := by
        intro t member
        rw [isChoiceLine_of_parent (parents t member), kind, sort, listed]
        simp
      rw [marked_block sort, leaves, sort]
      cases children with
      | nil => rfl
      | cons first rest =>
        have opens : decide (b = .option) = s.isChoiceLine first.id := by
          rw [choice first List.mem_cons_self]
          simp
        have others : ∀ t ∈ rest, s.isChoiceLine t.id = false := by
          intro t member
          have apart : first.id ≠ t.id := by
            intro same
            rw [List.map_cons, same] at single
            exact (List.nodup_cons.mp single).1 (List.mem_map_of_mem member)
          rw [choice t (List.mem_cons_of_mem _ member)]
          simp [apart]
        rw [opens, markedList, marked_eq nested first below.1,
          markedList_eq nested rest below.2 others]
        exact List.map_append.symm

private theorem markedList_eq (nested : Nested s.statements) : ∀ ts : List Tree, ShowsList s ts →
    (∀ t ∈ ts, s.isChoiceLine t.id = false) →
    markedList false ts = (leavesList ts).map (choiceMark s)
  | [], _, _ => rfl
  | t :: rest, ⟨here, below⟩, others => by
    have first := marked_eq nested t here
    rw [others t List.mem_cons_self] at first
    rw [markedList, leavesList, first, List.map_append,
      markedList_eq nested rest below fun t member => others t (List.mem_cons_of_mem _ member)]

end

end Tree

/-- In a built script, the basic statements that open an option in the tree are those of which the
id says so. -/
theorem Built.marked_tree {s : Script} (h : s.Built) :
    s.tree.marked false = s.tree.leaves.map (Tree.choiceMark s) := by
  obtain ⟨nested, bare⟩ := h.nested
  have plain : s.isChoiceLine s.tree.id = false := by
    rw [id_tree, isChoiceLine, bare]
  rw [← Tree.marked_eq nested s.tree (shows_tree nested), plain]

end Dialogue.Script

namespace Dialogue.Bundle

open Script

private theorem describe_reachable {b : Builder} (h : b.Reachable) (id : Nat)
    (conditions expression : Option Expression) :
    (describe b id conditions expression).Reachable := by
  unfold describe
  cases conditions <;> cases expression
  · exact h
  · exact h.setExpression _ _
  · exact h.setConditions _ _
  · exact (h.setConditions _ _).setExpression _ _

mutual

private theorem buildNode_reachable {file : String} :
    ∀ (node : Node) {b b' : Builder}, b.Reachable →
    buildNode file b node = .ok b' → b'.Reachable
  | .mk kind line conditions expression children, b, b', reachable, h => by
    rw [buildNode, bind_eq_ok_iff] at h
    obtain ⟨statement, -, h⟩ := h
    split at h
    · simp only [bind_eq_ok_iff, pure_eq_ok_iff] at h
      obtain ⟨opened, isOpen, filled, built, ⟨closed, id⟩, isClosed, rfl⟩ := h
      have inside := describe_reachable (reachable.openBlock (eq_ok_of_mapError isOpen)) b.nextId
        conditions expression
      exact (buildNodes_reachable children inside built).closeBlock (eq_ok_of_mapError isClosed)
    · split at h
      · cases h
      · simp only [bind_eq_ok_iff, pure_eq_ok_iff] at h
        obtain ⟨added, isAdded, rfl⟩ := h
        exact describe_reachable (reachable.add (eq_ok_of_mapError isAdded)) _ _ _

private theorem buildNodes_reachable {file : String} :
    ∀ (nodes : List Node) {b b' : Builder}, b.Reachable →
    buildNodes file b nodes = .ok b' → b'.Reachable
  | [], b, b', reachable, h => by
    cases h
    exact reachable
  | node :: rest, b, b', reachable, h => by
    rw [buildNodes, bind_eq_ok_iff] at h
    obtain ⟨middle, first, h⟩ := h
    exact buildNodes_reachable rest (buildNode_reachable node reachable first) h

end

/-- Every script that is read from a bundle is built. -/
theorem script_built {file : String} {root : Node} {s : Script} (h : script file root = .ok s) :
    s.Built := by
  rw [script, bind_eq_ok_iff] at h
  obtain ⟨b, built, finished⟩ := h
  exact ⟨b, buildNode_reachable root .empty built, eq_ok_of_mapError finished⟩

/-- What a walk over a list yields comes from the elements of the list. -/
theorem exists_of_mem_mapM {ε α β : Type} {f : α → Except ε β} {items : List α} {values : List β}
    (h : items.mapM f = .ok values) {value : β} (member : value ∈ values) :
    ∃ item ∈ items, f item = .ok value := by
  induction items generalizing values with
  | nil =>
    cases h
    cases member
  | cons item rest ih =>
    rw [List.mapM_cons, bind_eq_ok_iff] at h
    obtain ⟨first, here, h⟩ := h
    obtain ⟨others, there, h⟩ := bind_eq_ok_iff.mp h
    obtain rfl := pure_eq_ok_iff.mp h
    rcases List.mem_cons.mp member with rfl | member
    · exact ⟨item, List.mem_cons_self, here⟩
    · obtain ⟨other, listed, found⟩ := ih there member
      exact ⟨other, List.mem_cons_of_mem _ listed, found⟩

/-- All that is read from a bundle is built. -/
theorem read_built {b : Bundle} {files : List ScriptFile} (h : read b = .ok files) :
    ∀ file ∈ files, ∀ s ∈ file.scripts, s.Built := by
  intro file known s member
  obtain ⟨f, -, found⟩ := exists_of_mem_mapM h known
  rw [File.read, bind_eq_ok_iff] at found
  obtain ⟨scripts, listed, found⟩ := found
  obtain rfl := pure_eq_ok_iff.mp found
  obtain ⟨root, -, built⟩ := exists_of_mem_mapM listed member
  exact script_built built

end Dialogue.Bundle
