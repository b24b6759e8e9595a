import Dialogue.Proofs.Gates

/-!
Which guards of a script its conversation enforces. Every guard of a statement with an entry, of a
clause and of an option has a gate, with two exceptions: a directive has no entry, and the guard of
an option is overruled by one of the line that it shows. Those guards, like those of blocks without
a condition, are never read: the script without them is lowered to the same conversation.
-/

set_option autoImplicit false
set_option relaxedAutoImplicit false

namespace Dialogue

namespace Script

/-- A statement without its guard. -/
def Content.unguarded {κ : Type} (c : Content κ) : Content κ :=
  { c with conditions := none }

namespace Tree

mutual

def parts : Tree → List Tree
  | .node id content children => .node id content children :: partsList children

def partsList : List Tree → List Tree
  | [] => []
  | t :: rest => t.parts ++ partsList rest

end

theorem parts_eq (t : Tree) : t.parts = t :: partsList t.children := by
  cases t
  rw [parts]
  rfl

/-- Whether the guard of a statement is never read. -/
def isUnread : Tree → Bool
  | .node _ content children =>
    match content.kind with
    | .basic b => b.entryCount = 0
    | .block (.ifClause _) => false
    | .block .option => children.head?.any fun line => line.content.hasConditions
    | .block _ => true

private theorem isUnread_of_node {t : Tree} {name : String} {headers : Dict String}
    (h : t.kind = .block (.node name headers)) : t.isUnread = true := by
  obtain ⟨id, content, children⟩ := t
  replace h : content.kind = .block (.node name headers) := h
  simp [isUnread, h]

mutual

private theorem exists_gate {p : Tree} (guarded : p.content.hasConditions = true)
    (read : p.isUnread = false) :
    ∀ (t : Tree) {i : Item} (base : Nat), t.item = .ok i → p ∈ t.parts →
      ∃ g ∈ t.gates base, g.statement = (p.id, p.content)
  | .node id content children, i, base, h, member => by
    rw [parts, List.mem_cons] at member
    cases stands_of_item h with
    | @basic b kind empty =>
      subst empty
      rcases member with rfl | member
      · have filled : b.entryCount ≠ 0 := by simpa [isUnread, kind] using read
        have conditions : content.hasConditions = true := guarded
        simp only [gates, kind]
        rw [if_pos (by simp [conditions, filled])]
        exact ⟨_, List.mem_singleton_self _, rfl⟩
      · cases member
    | branch kind filled sound listed =>
      rcases member with rfl | member
      · simp [isUnread, kind] at read
      · simp only [gates, kind]
        exact exists_clauseGate guarded read children _ _ sound listed member
    | menu kind options listed =>
      rcases member with rfl | member
      · simp [isUnread, kind] at read
      · simp only [gates, kind]
        exact exists_optionGate guarded read children _ options listed member

private theorem exists_gateList {p : Tree} (guarded : p.content.hasConditions = true)
    (read : p.isUnread = false) : ∀ (ts : List Tree) {items : List Item} (base : Nat),
      itemList ts = .ok items → p ∈ partsList ts →
      ∃ g ∈ gatesList base ts, g.statement = (p.id, p.content)
  | [], _, _, _, member => by cases member
  | t :: rest, items, base, h, member => by
    obtain ⟨first, others, one, more, rfl⟩ := itemList_cons h
    rcases List.mem_append.mp member with member | member
    · obtain ⟨g, listed, stated⟩ := exists_gate guarded read t base one member
      exact ⟨g, List.mem_append_left _ listed, stated⟩
    · obtain ⟨g, listed, stated⟩ := exists_gateList guarded read rest _ more member
      exact ⟨g, List.mem_append_right _ listed, stated⟩

private theorem exists_clauseGate {p : Tree} (guarded : p.content.hasConditions = true)
    (read : p.isUnread = false) : ∀ (ts : List Tree) {isFirst : Bool} {clauses : List Clause}
      {otherwise : Option (List Item)} (base : Nat) (kind : ClauseKind),
      clausesFlaw? isFirst ts = none → clauseList ts = .ok (clauses, otherwise) → p ∈ partsList ts →
      ∃ g ∈ clauseGates base kind ts, g.statement = (p.id, p.content)
  | [], _, _, _, _, _, _, _, member => by cases member
  | .node id content children :: rest, isFirst, clauses, otherwise, base, kind, sound, h,
      member => by
    rw [partsList, parts, List.cons_append, List.mem_cons, List.mem_append] at member
    rw [clauseGates]
    obtain ⟨body, listed, more⟩ := clauseList_cons sound h
    rcases member with rfl | inner | later
    · have conditions : content.hasConditions = true := guarded
      rw [if_pos conditions]
      exact ⟨_, List.mem_append_left _ (List.mem_singleton_self _), rfl⟩
    · obtain ⟨g, member, stated⟩ := exists_gateList guarded read children (base + 2) listed inner
      exact ⟨g, List.mem_append_right _ (List.mem_append_left _ member), stated⟩
    · rcases more with ⟨guard, others, -, soundRest, listedRest, -⟩ | ⟨-, rfl, -, -⟩
      · obtain ⟨g, member, stated⟩ :=
          exists_clauseGate guarded read rest _ .elseIf soundRest listedRest later
        exact ⟨g, List.mem_append_right _ (List.mem_append_right _ member), stated⟩
      · cases later

private theorem exists_optionGate {p : Tree} (guarded : p.content.hasConditions = true)
    (read : p.isUnread = false) : ∀ (ts : List Tree) {choices : List Choice} (base : Nat),
      (∀ t ∈ ts, t.kind = .block .option) → choiceList ts = .ok choices → p ∈ partsList ts →
      ∃ g ∈ optionGates base ts, g.statement = (p.id, p.content)
  | [], _, _, _, _, member => by cases member
  | .node id option [] :: rest, _, _, _, h, _ => by cases h
  | .node id option (.node lineId shown below :: following) :: rest, choices, base, options, h,
      member => by
    obtain ⟨_, _, _, spoken, body, others, same, line, listed, listedRest, rfl⟩ := choiceList_cons h
    cases same
    have block : option.kind = .block .option := options _ List.mem_cons_self
    simp only [partsList, parts, List.cons_append, List.nil_append, List.mem_cons, List.mem_append]
      at member
    rw [optionGates]
    rcases member with rfl | rfl | inner | later
    · have conditions : option.hasConditions = true := guarded
      have overruled : shown.hasConditions = false := by
        simpa [isUnread, block, Tree.content] using read
      rw [if_pos (by simp [conditions])]
      refine ⟨_, List.mem_append_left _ (List.mem_singleton_self _), ?_⟩
      exact if_neg (by simp [overruled])
    · have conditions : shown.hasConditions = true := guarded
      rw [if_pos (by simp [conditions])]
      refine ⟨_, List.mem_append_left _ (List.mem_singleton_self _), ?_⟩
      exact if_pos conditions
    · obtain ⟨g, member, stated⟩ := exists_gateList guarded read following (base + 1) listed inner
      exact ⟨g, List.mem_append_right _ (List.mem_append_left _ member), stated⟩
    · obtain ⟨g, member, stated⟩ := exists_optionGate guarded read rest
        (base + 1 + (originsList following).length)
        (fun t listed => options t (List.mem_cons_of_mem _ listed)) listedRest later
      exact ⟨g, List.mem_append_right _ (List.mem_append_right _ member), stated⟩

end

/-- The content of a statement, maybe without its guard. -/
def eraseAt (erased : Nat → Bool) (id : Nat) (content : Content Kind) : Content Kind :=
  if erased id then content.unguarded else content

mutual

/-- A tree without the guards of some statements. -/
def erase (erased : Nat → Bool) : Tree → Tree
  | .node id content children =>
    .node id (eraseAt erased id content) (eraseList erased children)

def eraseList (erased : Nat → Bool) : List Tree → List Tree
  | [] => []
  | t :: rest => t.erase erased :: eraseList erased rest

end

private theorem eraseList_eq (erased : Nat → Bool) (ts : List Tree) :
    eraseList erased ts = ts.map (erase erased) := by
  induction ts with
  | nil => rfl
  | cons t rest ih => rw [eraseList, ih, List.map_cons]

/-- All erased guards of a list of statements are among those that are never read. -/
def Unread (erased : Nat → Bool) (parts : List Tree) : Prop :=
  ∀ t ∈ parts, erased t.id = true → t.isUnread = true

end Tree

mutual

/-- An item without the guards that are never read. -/
def Item.plain : Item → Item
  | .basic s => .basic (if s.kind.entryCount = 0 then s.unguarded else s)
  | .branch clauses none => .branch (plainClauses clauses) none
  | .branch clauses (some body) => .branch (plainClauses clauses) (some (plainBody body))
  | .menu choices => .menu (plainChoices choices)

def plainBody : List Item → List Item
  | [] => []
  | item :: rest => item.plain :: plainBody rest

def plainClauses : List Clause → List Clause
  | [] => []
  | .mk line guard body :: rest => .mk line guard (plainBody body) :: plainClauses rest

def plainChoices : List Choice → List Choice
  | [] => []
  | .mk option shown body :: rest =>
    .mk (if shown.hasConditions then option.unguarded else option) shown (plainBody body) ::
      plainChoices rest

end

/-- The last clause of a branch without the guards that are never read. -/
def plainOtherwise (otherwise : Option (List Item)) : Option (List Item) :=
  otherwise.map plainBody

private theorem Item.plain_branch (clauses : List Clause) (otherwise : Option (List Item)) :
    (Item.branch clauses otherwise).plain = .branch (plainClauses clauses)
    (plainOtherwise otherwise) := by
  cases otherwise <;> rfl

private theorem length_plainChoices (choices : List Choice) :
    (plainChoices choices).length = choices.length := by
  induction choices with
  | nil => rfl
  | cons choice rest ih =>
    obtain ⟨option, shown, body⟩ := choice
    rw [plainChoices, List.length_cons, List.length_cons, ih]

end Script

open Script

namespace Scene

variable (scene : Scene)

private theorem addBasic_unguarded (d : Draft) (pred : Nat) {s : Content Basic}
    (none : s.kind.entryCount = 0) :
    scene.addBasic d pred s.unguarded = scene.addBasic d pred s := by
  obtain ⟨kind, line, conditions, expression⟩ := s
  cases kind with
  | command name arguments rawText =>
    cases sort : Command.Kind.ofName name <;>
      simp_all [addBasic, Content.unguarded, Basic.entryCount]
  | line | call | jump | set | declare => cases none

private theorem addLine_unguarded (d : Draft) (pred : Nat) {shown : Content Spoken}
    (option : Content Unit) (conditions : shown.hasConditions = true) :
    scene.addLine d pred shown (some option.unguarded) =
      scene.addLine d pred shown (some option) := by
  have cast : ∀ option, scene.lineCast shown (some option) = (scene.player, scene.conversant) :=
    fun _ => rfl
  simp only [addLine_eq, lineGuard, lineEntry, cast, lineAction, if_pos conditions]
  rfl

mutual

private theorem addItem_plain : ∀ (item : Item) (d : Draft) (pred : Nat),
    scene.addItem d pred item.plain = scene.addItem d pred item
  | .basic s, d, pred => by
    simp only [Item.plain, addItem]
    split
    · next none => exact scene.addBasic_unguarded d pred none
    · rfl
  | .branch clauses none, d, pred => by
    simp only [Item.plain, addItem, addClauses_plain clauses]
  | .branch clauses (some body), d, pred => by
    simp only [Item.plain, addItem, addClauses_plain clauses, addItems_plain body]
  | .menu choices, d, pred => by
    simp only [Item.plain, addItem, addChoices_plain choices, length_plainChoices]

private theorem addItems_plain : ∀ (items : List Item) (d : Draft) (pred : Nat),
    scene.addItems d pred (plainBody items) = scene.addItems d pred items
  | [], _, _ => rfl
  | item :: rest, d, pred => by
    simp only [plainBody, addItems, addItem_plain item, addItems_plain rest]

private theorem addClauses_plain : ∀ (clauses : List Clause) (d : Draft) (kind : ClauseKind),
    scene.addClauses d kind (plainClauses clauses) = scene.addClauses d kind clauses
  | [], _, _ => rfl
  | .mk line guard body :: rest, d, kind => by
    simp only [plainClauses, addClauses, addItems_plain body, addClauses_plain rest]

private theorem addChoices_plain : ∀ (choices : List Choice) (d : Draft) (start finish : Nat),
    scene.addChoices d start finish (plainChoices choices) = scene.addChoices d start finish choices
  | [], _, _, _ => rfl
  | .mk option shown body :: rest, d, start, finish => by
    have same : scene.addLine d start shown
        (some (if shown.hasConditions then option.unguarded else option)) =
        scene.addLine d start shown (some option) := by
      split
      · next conditions => exact scene.addLine_unguarded d start option conditions
      · rfl
    simp only [plainChoices, addChoices, same, addItems_plain body, addChoices_plain rest]

end

end Scene

/-- Two fallible steps with the same result, up to what a function forgets, followed by steps that
agree. -/
theorem map_bind_congr {ε α β γ δ : Type} {f : α → γ} {g : β → δ} {x y : Except ε α}
    {next next' : α → Except ε β} (first : x.map f = y.map f)
    (agree : ∀ a b, f a = f b → (next a).map g = (next' b).map g) :
    (x >>= next).map g = (y >>= next').map g := by
  cases x with
  | error e =>
    cases y with
    | error e' => exact congrArg Except.error (Except.error.inj first)
    | ok b => cases first
  | ok a =>
    cases y with
    | error e' => cases first
    | ok b => exact agree a b (Except.ok.inj first)

namespace Script.Tree

variable {erased : Nat → Bool}

private theorem Unread.head {t : Tree} {rest : List Tree}
    (h : Unread erased (partsList (t :: rest))) :
    Unread erased t.parts :=
  fun p member => h p (List.mem_append_left _ member)

private theorem Unread.tail {t : Tree} {rest : List Tree}
    (h : Unread erased (partsList (t :: rest))) :
    Unread erased (partsList rest) :=
  fun p member => h p (List.mem_append_right _ member)

private theorem Unread.children {id : Nat} {content : Content Kind} {children : List Tree}
    (h : Unread erased (Tree.node id content children).parts) :
    Unread erased (partsList children) :=
  fun p member => h p (List.mem_cons_of_mem _ member)

@[simp] theorem kind_eraseAt (id : Nat) (content : Content Kind) :
    (eraseAt erased id content).kind = content.kind := by
  unfold eraseAt
  split <;> rfl

@[simp] theorem line_eraseAt (id : Nat) (content : Content Kind) :
    (eraseAt erased id content).line = content.line := by
  unfold eraseAt
  split <;> rfl

private theorem eraseAt_of_read {id : Nat} {content : Content Kind} {children : List Tree}
    (h : Unread erased (Tree.node id content children).parts)
    (read : (Tree.node id content children).isUnread = false) :
    eraseAt erased id content = content := by
  refine if_neg fun lost => ?_
  rw [h _ List.mem_cons_self lost] at read
  cases read

private theorem isEmpty_eraseList (ts : List Tree) :
    (eraseList erased ts).isEmpty = ts.isEmpty := by
  cases ts <;> rfl

private theorem clauseFlaw?_erase {t : Tree} (h : Unread erased t.parts) (isFirst isLast : Bool) :
    clauseFlaw? isFirst isLast (t.erase erased) = clauseFlaw? isFirst isLast t := by
  obtain ⟨id, content, children⟩ := t
  rw [erase]
  cases kind : content.kind with
  | basic b => simp [clauseFlaw?, Tree.kind, Tree.content, kind]
  | block b =>
    cases b with
    | ifClause clause =>
      rw [eraseAt_of_read h (by simp [isUnread, kind])]
      rfl
    | node | ifBlock | options | option => simp [clauseFlaw?, Tree.kind, Tree.content, kind]

private theorem clausesFlaw?_erase : ∀ (ts : List Tree) (isFirst : Bool),
    Unread erased (partsList ts) →
    clausesFlaw? isFirst (eraseList erased ts) = clausesFlaw? isFirst ts
  | [], _, _ => rfl
  | t :: rest, isFirst, h => by
    rw [eraseList, clausesFlaw?, clausesFlaw?, isEmpty_eraseList, clauseFlaw?_erase h.head,
      clausesFlaw?_erase rest false h.tail]

private theorem branchFlaw?_erase {ts : List Tree} (h : Unread erased (partsList ts)) :
    branchFlaw? (eraseList erased ts) = branchFlaw? ts := by
  rw [branchFlaw?, branchFlaw?, isEmpty_eraseList, clausesFlaw?_erase ts true h]

private theorem kind_erase (t : Tree) : (t.erase erased).kind = t.kind := by
  obtain ⟨id, content, children⟩ := t
  exact kind_eraseAt id content

private theorem menuFlaw?_erase (ts : List Tree) :
    menuFlaw? (eraseList erased ts) = menuFlaw? ts := by
  rw [menuFlaw?, menuFlaw?, isEmpty_eraseList, eraseList_eq, List.find?_map, Option.map_map]
  simp only [Function.comp_def, kind_erase]

/-- The clauses of a branch without the guards that are never read. -/
def plainArms (arms : List Clause × Option (List Item)) : List Clause × Option (List Item) :=
  (plainClauses arms.1, plainOtherwise arms.2)

mutual

private theorem item_erase : ∀ t : Tree, Unread erased t.parts →
    (t.erase erased).item.map Item.plain = t.item.map Item.plain
  | .node id content children, h => by
    rw [erase]
    cases kind : content.kind with
    | basic b =>
      simp only [item, kind_eraseAt, line_eraseAt, kind, isEmpty_eraseList]
      split
      · refine congrArg Except.ok ?_
        by_cases none : b.entryCount = 0
        · simp only [Item.plain, Content.withKind, none, if_true, Content.unguarded, eraseAt]
          split <;> rfl
        · rw [eraseAt_of_read h (by simp [isUnread, kind, none])]
      · rfl
    | block b =>
      cases b with
      | ifBlock =>
        simp only [item, kind_eraseAt, line_eraseAt, kind, branchFlaw?_erase h.children]
        cases flaw : branchFlaw? children with
        | some flaw => rfl
        | none =>
          have sound : clausesFlaw? true children = none := by
            unfold branchFlaw? at flaw
            split at flaw
            · cases flaw
            · exact flaw
          refine map_bind_congr (clauseList_erase children true h.children sound) ?_
          rintro ⟨clauses, otherwise⟩ ⟨clauses', otherwise'⟩ same
          obtain ⟨first, second⟩ := Prod.mk.inj same
          refine congrArg Except.ok ?_
          rw [Item.plain_branch, Item.plain_branch, first, second]
      | options =>
        simp only [item, kind_eraseAt, line_eraseAt, kind, menuFlaw?_erase]
        cases flaw : menuFlaw? children with
        | some flaw => rfl
        | none =>
          refine map_bind_congr (choiceList_erase children h.children (options_of_sound flaw)) ?_
          intro choices choices' same
          exact congrArg (fun choices => Except.ok (Item.menu choices)) same
      | node | ifClause | option => simp [item, kind]

private theorem itemList_erase : ∀ ts : List Tree, Unread erased (partsList ts) →
    (itemList (eraseList erased ts)).map plainBody = (itemList ts).map plainBody
  | [], _ => rfl
  | t :: rest, h => by
    rw [eraseList, itemList, itemList]
    refine map_bind_congr (item_erase t h.head) ?_
    intro first first' one
    refine map_bind_congr (itemList_erase rest h.tail) ?_
    intro others others' more
    refine congrArg Except.ok ?_
    rw [plainBody, plainBody, one, more]

private theorem clauseList_erase : ∀ (ts : List Tree) (isFirst : Bool),
    Unread erased (partsList ts) →
    clausesFlaw? isFirst ts = none →
    (clauseList (eraseList erased ts)).map plainArms = (clauseList ts).map plainArms
  | [], _, _, _ => rfl
  | .node id content children :: rest, isFirst, h, sound => by
    obtain ⟨clause, kind⟩ := clause_of_sound sound
    replace kind : content.kind = .block (.ifClause clause) := kind
    have soundRest : clausesFlaw? false rest = none := (Option.or_eq_none_iff.mp sound).2
    rw [eraseList, erase, eraseAt_of_read h.head (by simp [isUnread, kind]), clauseList, clauseList]
    refine map_bind_congr (itemList_erase children h.head.children) ?_
    intro body body' same
    refine map_bind_congr (clauseList_erase rest false h.tail soundRest) ?_
    rintro ⟨clauses, otherwise⟩ ⟨clauses', otherwise'⟩ more
    obtain ⟨first, second⟩ := Prod.mk.inj more
    replace first : plainClauses clauses = plainClauses clauses' := first
    replace second : plainOtherwise otherwise = plainOtherwise otherwise' := second
    cases content.guard? with
    | some guard =>
      refine congrArg Except.ok ?_
      simp only [plainArms, plainClauses, same, first, second]
    | none =>
      refine congrArg Except.ok ?_
      simp only [plainArms, plainOtherwise, Option.map_some, same, first]

private theorem choiceList_erase : ∀ ts : List Tree, Unread erased (partsList ts) →
    (∀ t ∈ ts, t.kind = .block .option) →
    (choiceList (eraseList erased ts)).map plainChoices = (choiceList ts).map plainChoices
  | [], _, _ => rfl
  | .node id option [] :: rest, _, _ => by
    rw [eraseList, erase, eraseList, choiceList, choiceList, line_eraseAt]
  | .node id option (.node lineId shown below :: following) :: rest, h, options => by
    have block : option.kind = .block .option := options _ List.mem_cons_self
    rw [eraseList, erase, eraseList, erase, choiceList, choiceList]
    simp only [kind_eraseAt, line_eraseAt, isEmpty_eraseList]
    cases kind : shown.kind with
    | block b => rfl
    | basic b =>
      cases b with
      | line spoken =>
        -- The guard of a line is read, that of the option only if the line has none.
        have read :=
          eraseAt_of_read (h.head.children.head) (by simp [isUnread, kind, Basic.entryCount])
        simp only [read]
        cases below with
        | cons _ _ => rfl
        | nil =>
          refine map_bind_congr (itemList_erase following h.head.children.tail) ?_
          intro body body' same
          refine map_bind_congr (choiceList_erase rest h.tail
            fun t member => options t (List.mem_cons_of_mem _ member)) ?_
          intro others others' more
          refine congrArg Except.ok ?_
          have overruled : (if (shown.withKind spoken).hasConditions then
                ((eraseAt erased id option).withKind ()).unguarded
              else (eraseAt erased id option).withKind ()) =
              if (shown.withKind spoken).hasConditions then (option.withKind ()).unguarded
              else option.withKind () := by
            split
            · unfold eraseAt
              split <;> rfl
            · next bare =>
              rw [eraseAt_of_read h.head]
              simpa [isUnread, block, Tree.content] using bare
          simp only [plainChoices, overruled, same, more]
      | command | call | jump | set | declare => rfl

end

/-- A node without the guards that are never read. -/
def plainNode (node : Node) : Node :=
  { node with body := plainBody node.body }

private theorem check_erase {t : Tree} (h : Unread erased t.parts) :
    (t.erase erased).check.map plainNode = t.check.map plainNode := by
  obtain ⟨id, content, children⟩ := t
  rw [erase, check, check, kind_eraseAt, line_eraseAt]
  split
  · refine map_bind_congr (itemList_erase children h.children) ?_
    intro body body' same
    refine congrArg Except.ok ?_
    simp only [plainNode, same]
  · rfl

end Script.Tree

namespace Script

/-- A script without the guards of some statements. -/
def erase (s : Script) (erased : Nat → Bool) : Script where
  statements := s.statements.mapIdx fun id statement =>
    { statement with content := Tree.eraseAt erased id statement.content }
  root := s.root
  root_lt := by
    rw [List.length_mapIdx]
    exact s.root_lt

private theorem subtrees_erase (erased : Nat → Bool) :
    ∀ (statements : List Statement) (start : Nat),
    subtrees start (statements.mapIdx fun i statement =>
        { statement with content := Tree.eraseAt erased (start + i) statement.content }) =
      (subtrees start statements).map (Tree.erase erased)
  | [], _ => rfl
  | statement :: rest, start => by
    have later := subtrees_erase erased rest (start + 1)
    have shifted : (fun i (statement : Statement) =>
          { statement with content := Tree.eraseAt erased (start + 1 + i) statement.content }) =
        fun i statement =>
          { statement with
            content := Tree.eraseAt erased (start + (i + 1)) statement.content } := by
      funext i statement
      rw [Nat.add_assoc, Nat.add_comm 1 i]
    rw [shifted] at later
    rw [List.mapIdx_cons, subtrees, subtrees, later, List.map_cons, Tree.erase, Tree.eraseList_eq]
    simp only [Nat.add_zero, List.map_filterMap, List.getElem?_map]
    congr 3
    funext c
    split <;> rfl

private theorem tree_erase (s : Script) (erased : Nat → Bool) :
    (s.erase erased).tree = s.tree.erase erased := by
  have same := subtrees_erase erased s.statements 0
  simp only [Nat.zero_add] at same
  simp [tree, erase, same]

private theorem name_erase (s : Script) (erased : Nat → Bool) : (s.erase erased).name = s.name := by
  have content : (s.erase erased).rootStatement.content.kind = s.rootStatement.content.kind := by
    simp [rootStatement, erase]
  rw [name, name, content]

/-- What is lowered does not depend on guards that are never read. -/
theorem lower_erase {s : Script} {erased : Nat → Bool} (h : Tree.Unread erased s.tree.parts)
    (ctx : Context) (id : Nat) : (s.erase erased).lower ctx id = s.lower ctx id := by
  have same := Tree.check_erase h
  rw [← tree_erase] at same
  have plain : ∀ node, (Scene.ofNode ctx node).addItems ((Scene.ofNode ctx node).opening id)
      Conversation.startId node.body = (Scene.ofNode ctx (Tree.plainNode node)).addItems
        ((Scene.ofNode ctx (Tree.plainNode node)).opening id) Conversation.startId
        (Tree.plainNode node).body :=
    fun node => ((Scene.ofNode ctx node).addItems_plain node.body _ _).symm
  have opened : ∀ (s : Script), s.lower ctx id = s.checked >>= fun node => do
      let lowered ← (Scene.ofNode ctx node).addItems ((Scene.ofNode ctx node).opening id)
        Conversation.startId node.body
      return lowered.1.conversation := fun _ => rfl
  rw [opened, opened, checked, checked, name_erase]
  cases found : (s.erase erased).tree.check with
  | error fault =>
    cases found' : s.tree.check with
    | error fault' =>
      rw [found, found'] at same
      rw [Except.error.inj same]
    | ok node' =>
      rw [found, found'] at same
      cases same
  | ok node =>
    cases found' : s.tree.check with
    | error fault' =>
      rw [found, found'] at same
      cases same
    | ok node' =>
      rw [found, found'] at same
      change (do
        let lowered ← (Scene.ofNode ctx node).addItems ((Scene.ofNode ctx node).opening id)
          Conversation.startId node.body
        return lowered.1.conversation) = (do
        let lowered ← (Scene.ofNode ctx node').addItems ((Scene.ofNode ctx node').opening id)
          Conversation.startId node'.body
        return lowered.1.conversation)
      rw [plain node, plain node', Except.ok.inj same]

/-- The entries of a script's conversation that enforce guards. -/
def gates (s : Script) : List Gate :=
  Tree.gatesList 1 s.tree.children

/-- Every guard of a script that lowers is enforced or never read. It is enforced by the condition
of one entry, behind which nothing is entered when the condition is false. Among the guards that are
never read are those of directives, and those of options that show a guarded line. -/
theorem lower_enforces_guards {s : Script} {ctx : Context} {id : Nat} {c : Conversation}
    (lowered : s.lower ctx id = .ok c) :
    (∀ t ∈ s.tree.parts, t.content.hasConditions = true → t.isUnread = false →
      ∃ g ∈ s.gates, g.statement = (t.id, t.content)) ∧
    (∀ g ∈ s.gates, g.Stands 0 s.origins ∧ ∃ e, c.entryById? g.entry = some e ∧ g.Enforced e ∧
      ∀ truth stops choices visited ending, truth g.entry = false →
        c.Plays truth stops Conversation.startId choices visited ending →
        ∀ i ∈ visited, ¬ (g.entry ≤ i ∧ i < g.limit)) ∧
    ∀ erased, Tree.Unread erased s.tree.parts → (s.erase erased).lower ctx id = .ok c := by
  obtain ⟨node, complete, exit, checked, added, rfl⟩ := lower_ok lowered
  obtain ⟨kind, listed⟩ := Tree.check_ok checked
  refine ⟨?_, ?_, ?_⟩
  · intro t member guarded read
    rw [Tree.parts_eq, List.mem_cons] at member
    rcases member with rfl | member
    · rw [Tree.isUnread_of_node kind] at read
      cases read
    · exact Tree.exists_gateList guarded read s.tree.children 1 listed member
  · intro g member
    have stands := Tree.stands_of_mem_gatesList s.tree.children member
    have holds :=
      Scene.addItems_gates s.tree.children listed (Scene.opening_fits _ id)
        Nat.zero_lt_one added g member
    have same := Scene.opening_entryById? added
    obtain ⟨_, found, enforced⟩ := holds.guarded
    obtain ⟨e, known, rfl⟩ := Draft.exists_of_view found
    have here := (same g.entry).trans known
    refine ⟨stands.append_left [[]], e, here,
      ⟨enforced.title, enforced.action, enforced.condition⟩, ?_⟩
    intro truth stops choices visited ending isFalse plays
    have shuts : complete.conversation.Shuts truth g.entry g.limit :=
      { sealed := fun i e j found => holds.sealed i e j ((same i).symm.trans found)
        closed := by
          intro e' found
          obtain rfl := Option.some.inj (here.symm.trans found)
          obtain ⟨tokens, -, written⟩ := enforced.condition
          have filled : e.conditions ≠ "" := Expression.fragment_ne_empty written
          simp [Entry.isOpen, filled, isFalse]
        stays := by
          intro e' found
          obtain rfl := Option.some.inj (here.symm.trans found)
          refine g.stays.imp enforced.action.trans fun bare => ?_
          rw [Gate.limit, bare]
          rfl }
    have bounds := stands.bounds
    exact shuts.plays plays fun behind => absurd behind.1 (Nat.not_le_of_lt bounds.1)
  · intro erased unread
    rw [lower_erase unread]
    exact lowered

end Script

namespace Sample

/-- A guarded directive, a guarded clause, and a guarded option that shows a guarded line. -/
def guardedScript : Script where
  statements :=
    [⟨⟨.block (.node "Start" .empty), 1, none, none⟩, none, [1, 2, 5]⟩,
      ⟨⟨.basic (.command "wait" [.text "1"] "wait 1"), 2, guard, none⟩, some 0, []⟩,
      ⟨⟨.block .ifBlock, 3, none, none⟩, some 0, [3]⟩,
      ⟨⟨.block (.ifClause .if_), 3, guard, none⟩, some 2, [4]⟩,
      ⟨⟨.basic (.line {}), 4, none, none⟩, some 3, []⟩,
      ⟨⟨.block .options, 5, none, none⟩, some 0, [6]⟩,
      ⟨⟨.block .option, 5, guard, none⟩, some 5, [7, 8]⟩,
      ⟨⟨.basic (.line {}), 5, some [.variable "y"], none⟩, some 6, []⟩,
      ⟨⟨.basic (.line {}), 6, none, none⟩, some 6, []⟩]
  root := 0
  root_lt := by decide

end Sample

open Sample in
/-- With no guard true, nothing in the clause is entered; the guards of the directive and of the
option can be left out. -/
theorem Script.lower_enforces_guards_sample : ∃ c, guardedScript.lower context 1 = .ok c ∧
    (∀ stops choices visited ending,
      c.Plays (fun _ => false) stops Conversation.startId choices visited ending →
        ∀ i ∈ visited, ¬ (3 ≤ i ∧ i < 6)) ∧
    (guardedScript.erase fun id => id = 1 || id = 6).lower context 1 = .ok c := by
  have succeeds : (guardedScript.lower context 1).isOk = true := by decide +kernel
  have gates : (guardedScript.gates.map fun g => (g.statement.1, g.entry, g.limit)) =
      [(3, 3, 6), (7, 9, 11)] := by decide +kernel
  have unread : Tree.Unread (fun id => id = 1 || id = 6) guardedScript.tree.parts := by
    unfold Tree.Unread
    decide +kernel
  cases lowered : guardedScript.lower context 1 with
  | error e =>
    rw [lowered] at succeeds
    cases succeeds
  | ok c =>
    obtain ⟨-, enforced, erased⟩ := Script.lower_enforces_guards lowered
    obtain ⟨g, member, same⟩ : ∃ g ∈ guardedScript.gates,
        (g.statement.1, g.entry, g.limit) = (3, 3, 6) := by
      rw [← List.mem_map, gates]
      exact List.mem_cons_self
    obtain ⟨-, entry, limit⟩ : _ ∧ g.entry = 3 ∧ g.limit = 6 := by simpa using same
    obtain ⟨-, e, -, -, shut⟩ := enforced g member
    refine ⟨c, rfl, ?_, erased _ unread⟩
    intro stops choices visited ending plays
    have outside := shut _ stops choices visited ending rfl plays
    rwa [entry, limit] at outside

end Dialogue
