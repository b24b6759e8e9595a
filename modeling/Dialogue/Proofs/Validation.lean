import Dialogue.Proofs.Arena
import Dialogue.Proofs.Grammar

/-!
Validation of scripts. The grammar of scripts is given as a predicate on trees. Beside it stands a
scan of the arena, which looks at each statement with its parent and its children only, in the order
of the preorder walk, and stops at the first fault.

The scan finds the fault that the check by recursive descent finds. The reason is that a statement
stands in a body exactly if its parent is neither an if block nor an option list, so what the
descent knows from where it is, the scan reads off the parent. And both accept exactly the trees of
the grammar.
-/

set_option autoImplicit false
set_option relaxedAutoImplicit false

namespace Dialogue.Script

namespace Tree

mutual

/-- A basic statement, a branch of clauses, or a menu of options. -/
inductive IsItem : Tree → Prop
  | basic {id : Nat} {content : Content Kind} {b : Basic} : content.kind = .basic b →
      IsItem (.node id content [])
  | branch {id : Nat} {content : Content Kind} {first : Tree} {more : List Tree}
      {last : Option Tree} :
      content.kind = .block .ifBlock → IsClause .if_ first → (∀ t ∈ more, IsClause .elseIf t) →
      (∀ t ∈ last, IsClause .else_ t) → IsItem (.node id content (first :: (more ++ last.toList)))
  | menu {id : Nat} {content : Content Kind} {options : List Tree} :
      content.kind = .block .options →
      options ≠ [] → (∀ t ∈ options, IsOption t) → IsItem (.node id content options)

/-- A clause with a body. All but the last sort of clause have conditions that are not empty. -/
inductive IsClause : ClauseKind → Tree → Prop
  | mk {kind : ClauseKind} {id : Nat} {content : Content Kind} {body : List Tree} :
      content.kind = .block (.ifClause kind) →
      ((∃ tokens, content.conditions = some tokens ∧ tokens ≠ []) ↔ kind ≠ .else_) →
      (∀ t ∈ body, IsItem t) → IsClause kind (.node id content body)

/-- An option: the line that it shows, then a body. -/
inductive IsOption : Tree → Prop
  | mk {id lineId : Nat} {content line : Content Kind} {spoken : Spoken} {body : List Tree} :
      content.kind = .block .option → line.kind = .basic (.line spoken) → (∀ t ∈ body, IsItem t) →
      IsOption (.node id content (.node lineId line [] :: body))

end

inductive IsScript : Tree → Prop
  | mk {id : Nat} {content : Content Kind} {name : String} {headers : Dict String}
    {body : List Tree} :
      content.kind = .block (.node name headers) → (∀ t ∈ body, IsItem t) →
      IsScript (.node id content body)

end Tree

private theorem Content.hasConditions_iff {κ : Type} (c : Content κ) :
    c.hasConditions = true ↔ ∃ tokens, c.conditions = some tokens ∧ tokens ≠ [] := by
  unfold hasConditions guard?
  cases c.conditions with
  | none => simp
  | some tokens => cases tokens <;> simp [Option.filter]

namespace Tree

theorem IsClause.kind_eq {kind : ClauseKind} {t : Tree} (h : IsClause kind t) :
    t.kind = .block (.ifClause kind) := by
  cases h with
  | mk sort _ _ => exact sort

private theorem IsClause.hasConditions_eq {kind : ClauseKind} {t : Tree} (h : IsClause kind t) :
    t.content.hasConditions = decide (kind ≠ .else_) := by
  cases h with
  | mk _ guarded _ => exact Bool.eq_iff_iff.mpr (by
      rw [Tree.content, Content.hasConditions_iff, guarded, decide_eq_true_iff])

theorem IsOption.kind_eq {t : Tree} (h : IsOption t) : t.kind = .block .option := by
  cases h with
  | mk sort _ _ => exact sort

/-- What is wrong with a clause, by its sort. -/
theorem IsClause.flaw?_eq {kind : ClauseKind} {t : Tree} (h : IsClause kind t)
    (isFirst isLast : Bool) :
    clauseFlaw? isFirst isLast t =
      match kind with
      | .if_ => if isFirst then none else some .lateIf
      | .elseIf => if isFirst then some .noIf else none
      | .else_ => if isFirst then some .noIf else if isLast then none else some .earlyElse := by
  have guarded := h.hasConditions_eq
  unfold clauseFlaw?
  rw [h.kind_eq]
  cases kind <;> cases isFirst <;> cases isLast <;> simp [guarded]

private theorem clausesFlaw?_later {more : List Tree} {last : Option Tree}
    (guarded : ∀ t ∈ more, IsClause .elseIf t) (bare : ∀ t ∈ last, IsClause .else_ t) :
    clausesFlaw? false (more ++ last.toList) = none := by
  induction more with
  | nil =>
    cases last with
    | none => rfl
    | some t =>
      have clause := bare t rfl
      simp [clausesFlaw?, clause.flaw?_eq]
  | cons t rest ih =>
    have here := guarded t List.mem_cons_self
    have later := ih fun u member => guarded u (List.mem_cons_of_mem _ member)
    rw [List.cons_append, clausesFlaw?, here.flaw?_eq, later]
    rfl

private theorem branchFlaw?_of_clauses {first : Tree} {more : List Tree} {last : Option Tree}
    (opens : IsClause .if_ first) (guarded : ∀ t ∈ more, IsClause .elseIf t)
    (bare : ∀ t ∈ last, IsClause .else_ t) :
    branchFlaw? (first :: (more ++ last.toList)) = none := by
  rw [branchFlaw?, if_neg (by simp), clausesFlaw?, opens.flaw?_eq, clausesFlaw?_later guarded bare]
  rfl

private theorem menuFlaw?_of_options {options : List Tree} (some : options ≠ [])
    (all : ∀ t ∈ options, IsOption t) :
    menuFlaw? options = none := by
  have none : options.find? (fun t => t.kind ≠ .block .option) = none := by
    apply List.find?_eq_none.mpr
    intro t member
    simp [(all t member).kind_eq]
  rw [menuFlaw?, if_neg (by simpa using some), none]
  rfl

mutual

theorem exists_item : ∀ t : Tree, IsItem t → ∃ i, item t = .ok i
  | .node id content children, h => by
    cases h with
    | basic kind => exact ⟨_, by rw [item, kind]; rfl⟩
    | @branch _ _ first more last kind opens guarded bare =>
      have all : ∀ t ∈ first :: (more ++ last.toList), ∃ kind, IsClause kind t := by
        intro t member
        rcases List.mem_cons.mp member with rfl | member
        · exact ⟨_, opens⟩
        · rcases List.mem_append.mp member with member | member
          · exact ⟨_, guarded t member⟩
          · exact ⟨_, bare t (Option.mem_toList.mp member)⟩
      obtain ⟨⟨clauses, otherwise⟩, listed⟩ := exists_clauseList _ all
      refine ⟨.branch clauses otherwise, ?_⟩
      rw [item, kind]
      simp only [branchFlaw?_of_clauses opens guarded bare, listed]
      rfl
    | menu kind some all =>
      obtain ⟨choices, listed⟩ := exists_choiceList children all
      refine ⟨.menu choices, ?_⟩
      rw [item, kind]
      simp only [menuFlaw?_of_options some all, listed]
      rfl

private theorem exists_itemList : ∀ ts : List Tree, (∀ t ∈ ts, IsItem t) → ∃ items,
    itemList ts = .ok items
  | [], _ => ⟨[], rfl⟩
  | t :: rest, h => by
    obtain ⟨first, here⟩ := exists_item t (h t List.mem_cons_self)
    obtain ⟨others, there⟩ :=
      exists_itemList rest fun u member => h u (List.mem_cons_of_mem _ member)
    refine ⟨first :: others, ?_⟩
    rw [itemList, here, there]
    rfl

private theorem exists_clauseList : ∀ ts : List Tree, (∀ t ∈ ts, ∃ kind, IsClause kind t) →
    ∃ result, clauseList ts = .ok result
  | [], _ => ⟨([], none), rfl⟩
  | .node id content children :: rest, h => by
    obtain ⟨kind, clause⟩ := h _ List.mem_cons_self
    have items : ∀ t ∈ children, IsItem t := by
      cases clause with
      | mk _ _ items => exact items
    obtain ⟨body, here⟩ := exists_itemList children items
    obtain ⟨⟨clauses, otherwise⟩, there⟩ :=
      exists_clauseList rest fun u member => h u (List.mem_cons_of_mem _ member)
    rw [clauseList, here, there]
    cases content.guard? with
    | none => exact ⟨_, rfl⟩
    | some guard => exact ⟨_, rfl⟩

private theorem exists_choiceList : ∀ ts : List Tree, (∀ t ∈ ts, IsOption t) →
    ∃ choices, choiceList ts = .ok choices
  | [], _ => ⟨[], rfl⟩
  | .node id option [] :: rest, h => by cases h _ List.mem_cons_self
  | .node id option (.node lineId shown below :: following) :: rest, h => by
    obtain ⟨others, there⟩ :=
      exists_choiceList rest fun u member => h u (List.mem_cons_of_mem _ member)
    have parts : below = [] ∧ (∃ spoken, shown.kind = .basic (.line spoken)) ∧
        ∀ t ∈ following, IsItem t := by
      cases h _ List.mem_cons_self with
      | mk _ line items => exact ⟨rfl, ⟨_, line⟩, items⟩
    obtain ⟨rfl, ⟨spoken, line⟩, items⟩ := parts
    obtain ⟨body, here⟩ := exists_itemList following items
    refine ⟨.mk (option.withKind ()) (shown.withKind spoken) body :: others, ?_⟩
    rw [choiceList, line]
    simp only [here, there]
    rfl

end

private theorem isClause_of_sound {isFirst isLast : Bool} {t : Tree}
    (sound : clauseFlaw? isFirst isLast t = none) (body : ∀ c ∈ t.children, IsItem c) :
    (isFirst = true ∧ IsClause .if_ t) ∨ (isFirst = false ∧ IsClause .elseIf t) ∨
      (isFirst = false ∧ isLast = true ∧ IsClause .else_ t) := by
  obtain ⟨id, content, children⟩ := t
  unfold clauseFlaw? at sound
  split at sound
  · next kind =>
    cases isFirst with
    | false => cases sound
    | true =>
      by_cases guarded : content.hasConditions = true
      · refine .inl ⟨rfl, .mk kind ?_ body⟩
        rw [← Content.hasConditions_iff, guarded]
        simp
      · simp [Tree.content, guarded] at sound
  · next kind =>
    cases isFirst with
    | true => cases sound
    | false =>
      by_cases guarded : content.hasConditions = true
      · refine .inr (.inl ⟨rfl, .mk kind ?_ body⟩)
        rw [← Content.hasConditions_iff, guarded]
        simp
      · simp [Tree.content, guarded] at sound
  · next kind =>
    cases isFirst with
    | true => cases sound
    | false =>
      cases isLast with
      | false => cases sound
      | true =>
        by_cases guarded : content.hasConditions = true
        · simp [Tree.content, guarded] at sound
        · refine .inr (.inr ⟨rfl, rfl, .mk kind ?_ body⟩)
          rw [← Content.hasConditions_iff]
          simp [guarded]
  · cases sound

/-- The clauses after the first: guarded ones, then perhaps one without a guard. -/
theorem later_of_sound {ts : List Tree} (sound : clausesFlaw? false ts = none)
    (bodies : ∀ t ∈ ts, ∀ c ∈ t.children, IsItem c) : ∃ (more : List Tree) (last : Option Tree),
      ts = more ++ last.toList ∧ (∀ t ∈ more, IsClause .elseIf t) ∧ ∀ t ∈ last,
        IsClause .else_ t := by
  induction ts with
  | nil => exact ⟨[], none, rfl, nofun, nofun⟩
  | cons t rest ih =>
    obtain ⟨here, there⟩ := Option.or_eq_none_iff.mp sound
    obtain ⟨more, last, same, guarded, bare⟩ :=
      ih there fun u member => bodies u (List.mem_cons_of_mem _ member)
    rcases isClause_of_sound here (bodies t List.mem_cons_self) with ⟨first, -⟩ | ⟨-, clause⟩ |
      ⟨-, isLast, clause⟩
    · cases first
    · refine ⟨t :: more, last, by rw [same]; rfl, ?_, bare⟩
      intro u member
      rcases List.mem_cons.mp member with rfl | member
      · exact clause
      · exact guarded u member
    · obtain rfl := List.isEmpty_iff.mp isLast
      refine ⟨[], some t, rfl, nofun, ?_⟩
      rintro u ⟨⟩
      exact clause

mutual

private theorem isItem_of_item : ∀ (t : Tree) {i : Item}, item t = .ok i → IsItem t
  | .node id content children, i, h => by
    cases stands_of_item h with
    | basic kind none =>
      subst none
      exact .basic kind
    | branch kind some sound listed =>
      have bodies := bodies_of_clauseList children listed
      cases children with
      | nil => exact absurd rfl some
      | cons t rest =>
        obtain ⟨here, there⟩ := Option.or_eq_none_iff.mp sound
        obtain ⟨more, last, rfl, guarded, bare⟩ :=
          later_of_sound there fun u member => bodies u (List.mem_cons_of_mem _ member)
        rcases isClause_of_sound here (bodies t List.mem_cons_self) with ⟨-, clause⟩ | ⟨first, -⟩ |
          ⟨first, -⟩
        · exact .branch kind clause guarded bare
        · cases first
        · cases first
    | menu kind all listed =>
      refine .menu kind ?_ (isOption_of_choiceList children all listed)
      rintro rfl
      rw [item, kind] at h
      cases h

private theorem isItem_of_itemList : ∀ (ts : List Tree) {items : List Item},
    itemList ts = .ok items →
    ∀ t ∈ ts, IsItem t
  | [], _, _ => nofun
  | t :: rest, _, h => by
    obtain ⟨first, others, here, there, -⟩ := itemList_cons h
    have first := isItem_of_item t here
    have later := isItem_of_itemList rest there
    exact List.forall_mem_cons.mpr ⟨first, later⟩

private theorem bodies_of_clauseList :
    ∀ (ts : List Tree) {result : List Clause × Option (List Item)},
    clauseList ts = .ok result → ∀ t ∈ ts, ∀ c ∈ t.children, IsItem c
  | [], _, _ => nofun
  | .node id content children :: rest, _, h => by
    rw [clauseList, bind_eq_ok_iff] at h
    obtain ⟨body, here, h⟩ := h
    obtain ⟨others, there, -⟩ := bind_eq_ok_iff.mp h
    have first := isItem_of_itemList children here
    have later := bodies_of_clauseList rest there
    exact List.forall_mem_cons.mpr ⟨first, later⟩

private theorem isOption_of_choiceList : ∀ (ts : List Tree) {choices : List Choice},
    (∀ t ∈ ts, t.kind = .block .option) → choiceList ts = .ok choices → ∀ t ∈ ts, IsOption t
  | [], _, _, _ => nofun
  | .node id option [] :: rest, _, _, h => by cases h
  | .node id option (.node lineId shown below :: following) :: rest, _, kinds, h => by
    obtain ⟨_, _, _, spoken, body, others, same, line, here, there, -⟩ := choiceList_cons h
    obtain ⟨head, rfl⟩ := List.cons.inj same
    cases head
    obtain ⟨kind, kinds⟩ := List.forall_mem_cons.mp kinds
    have body := isItem_of_itemList following here
    have later := isOption_of_choiceList rest kinds there
    exact List.forall_mem_cons.mpr ⟨.mk kind line body, later⟩

end

/-- The check accepts exactly the trees of the grammar. -/
theorem check_ok_iff (t : Tree) : (∃ node, t.check = .ok node) ↔ t.IsScript := by
  obtain ⟨id, content, children⟩ := t
  constructor
  · rintro ⟨node, h⟩
    obtain ⟨kind, listed⟩ := check_ok h
    exact .mk kind (isItem_of_itemList children listed)
  · intro h
    cases h with
    | @mk _ _ name headers _ kind items =>
      obtain ⟨body, listed⟩ := exists_itemList children items
      refine ⟨⟨name, headers, body⟩, ?_⟩
      rw [check, kind]
      simp only [listed]
      rfl

end Tree

/-- What is wrong with the place of a clause among those of its block. -/
def positionFlaw? (last index : Nat) : ClauseKind → Option Flaw
  | .if_ => if index = 0 then none else some .lateIf
  | .elseIf => if index = 0 then some .noIf else none
  | .else_ => if index = 0 then some .noIf else if index = last then none else some .earlyElse

def guardFlaw? (guarded : Bool) : ClauseKind → Option Flaw
  | .else_ => if guarded then some .guardedElse else none
  | _ => if guarded then none else some .unguardedClause

/-- What is wrong with a child of an if block, by its place. -/
def clauseFlawAt? (s : Script) (last : Nat) (child : Nat × Nat) : Option Flaw :=
  (s.get? child.1).bind fun statement =>
    match statement.content.kind with
    | .block (.ifClause kind) =>
      (positionFlaw? last child.2 kind).or (guardFlaw? statement.content.hasConditions kind)
    | kind => some (.notClause kind.name)

/-- What is wrong with an if block of these children. -/
def branchFlawAt? (s : Script) (children : List Nat) : Option Flaw :=
  if children = [] then some .noClauses
  else children.zipIdx.findSome? (s.clauseFlawAt? (children.length - 1))

/-- What is wrong with an option list of these children. -/
def menuFlawAt? (s : Script) (children : List Nat) : Option Flaw :=
  if children = [] then some .noOptions
  else ((children.filterMap s.kind?).find? (· ≠ .block .option)).map fun kind =>
    .notOption kind.name

/-- What is wrong with an option in a block of this sort. -/
def optionFlawAt? (s : Script) (outer : Option Kind) (children : List Nat) : Option Flaw :=
  if outer = some (.block .options) then
    match children.head?.bind s.kind? with
    | some (.basic (.line _)) => none
    | _ => some .noChoiceLine
  else some .strayOption

/-- What is wrong with a statement, by its parent and its children. -/
def flawAt? (s : Script) (id : Nat) (statement : Statement) : Option Flaw :=
  let outer := statement.parent.bind s.kind?
  match statement.content.kind with
  | .basic b => if statement.children = [] then none else some (.hasChildren (Kind.basic b).name)
  | .block (.node ..) => if id = s.root then none else some .nestedNode
  | .block .ifBlock => s.branchFlawAt? statement.children
  | .block (.ifClause _) => if outer = some (.block .ifBlock) then none else some .strayClause
  | .block .options => s.menuFlawAt? statement.children
  | .block .option => s.optionFlawAt? outer statement.children

def faultAt? (s : Script) (id : Nat) : Option Fault :=
  (s.get? id).bind fun statement => (s.flawAt? id statement).map (Fault.mk statement.content.line)

/-- The first fault of a script: that of its root, or of the first statement of the walk that has
one. -/
def validate (s : Script) : Except Fault Unit :=
  match s.rootStatement.content.kind with
  | .block (.node ..) => (s.tree.preorder.findSome? s.faultAt?).elim (.ok ()) .error
  | kind => .error ⟨s.rootStatement.content.line, .rootNotNode kind.name⟩

namespace Tree

variable {s : Script}

private theorem preorderFrom_append (ts us : List Tree) :
    preorderFrom (ts ++ us) = preorderFrom ts ++ preorderFrom us := by
  induction ts using preorderFrom.induct with
  | case1 => rw [preorderFrom, List.nil_append, List.nil_append]
  | case2 id content children pending ih =>
    rw [List.cons_append, preorderFrom, preorderFrom, ← List.append_assoc, ih, List.cons_append]

/-- A statement comes first, then those it holds, then the rest. -/
theorem findSome?_preorderFrom {α : Type} (f : Nat → Option α) (id : Nat) (content : Content Kind)
    (children rest : List Tree) : (preorderFrom (.node id content children :: rest)).findSome? f =
      (f id).or (((preorderFrom children).findSome? f).or ((preorderFrom rest).findSome? f)) := by
  rw [preorderFrom, preorderFrom_append, List.findSome?_cons, List.findSome?_append]
  cases f id <;> rfl

/-- A statement that a tree shows, with its parent. -/
theorem Shows.get?_eq {id : Nat} {content : Content Kind} {children : List Tree}
    (shown : (Tree.node id content children).Shows s) :
    s.get? id = some ⟨content, s.parent? id, children.map Tree.id⟩ := by
  obtain ⟨here, below, -⟩ := shown
  obtain ⟨statement, found, rfl⟩ := Option.map_eq_some_iff.mp here
  have same : statement.children = children.map Tree.id := by
    rw [← below, Script.children, found]
    rfl
  rw [parent?, found, ← same]
  rfl

private theorem Shows.kind?_eq {t : Tree} (shown : t.Shows s) : s.kind? t.id = some t.kind := by
  obtain ⟨id, content, children⟩ := t
  rw [kind?, Tree.id, shown.get?_eq]
  rfl

/-- The parent of each statement that a statement holds. -/
theorem Shows.parent?_eq (nested : Nested s.statements) {id : Nat} {content : Content Kind}
    {children : List Tree} (shown : (Tree.node id content children).Shows s) :
    ∀ t ∈ children, s.parent? t.id = some id := by
  intro t member
  have listed : t.id ∈ s.children id := by
    rw [shown.2.1]
    exact List.mem_map_of_mem member
  exact (nested.below id t.id listed).2

private theorem clauseFlawAt?_eq {t : Tree} (shown : t.Shows s) (index count : Nat) :
    s.clauseFlawAt? (index + count) (t.id, index) =
      clauseFlaw? (decide (index = 0)) (decide (count = 0)) t := by
  obtain ⟨id, content, children⟩ := t
  unfold clauseFlawAt? clauseFlaw?
  rw [show (Tree.node id content children).id = id from rfl, shown.get?_eq]
  simp only [Option.bind_some, Tree.kind, Tree.content]
  cases content.kind with
  | basic b => rfl
  | block b =>
    cases b with
    | ifClause kind =>
      cases kind <;> by_cases first : index = 0 <;> by_cases none : count = 0 <;>
        by_cases guarded : content.hasConditions = true <;>
        simp [positionFlaw?, guardFlaw?, first, none, guarded]
    | _ => rfl

private theorem branchFlawAt?_eq {ts : List Tree} (shown : ShowsList s ts) :
    s.branchFlawAt? (ts.map Tree.id) = branchFlaw? ts := by
  have later : ∀ (ts : List Tree) (index : Nat), ShowsList s ts →
      ((ts.map Tree.id).zipIdx index).findSome? (s.clauseFlawAt? (index + ts.length - 1)) =
        clausesFlaw? (decide (index = 0)) ts := by
    intro ts
    induction ts with
    | nil => exact fun _ _ => rfl
    | cons t rest ih =>
      intro index shown
      have next : index + (t :: rest).length - 1 = index + 1 + rest.length - 1 := by
        rw [List.length_cons]
        omega
      have here : index + (t :: rest).length - 1 = index + rest.length := by
        rw [List.length_cons]
        omega
      rw [List.map_cons, List.zipIdx_cons, List.findSome?_cons, clausesFlaw?, next,
        ih (index + 1) shown.2, ← next, here, clauseFlawAt?_eq shown.1]
      have isLast : decide (rest.length = 0) = rest.isEmpty := by cases rest <;> rfl
      rw [isLast, show decide (index + 1 = 0) = false from rfl]
      cases clauseFlaw? (decide (index = 0)) rest.isEmpty t <;> rfl
  unfold branchFlawAt? branchFlaw?
  cases ts with
  | nil => rfl
  | cons t rest =>
    rw [if_neg (by simp), if_neg (by simp), List.length_map]
    simpa using later (t :: rest) 0 shown

private theorem menuFlawAt?_eq {ts : List Tree} (shown : ShowsList s ts) :
    s.menuFlawAt? (ts.map Tree.id) = menuFlaw? ts := by
  have kinds : (ts.map Tree.id).filterMap s.kind? = ts.map Tree.kind := by
    rw [List.filterMap_map, ← List.filterMap_eq_map]
    apply List.filterMap_congr
    intro t member
    exact (showsList_iff.mp shown t member).kind?_eq
  unfold menuFlawAt? menuFlaw?
  cases ts with
  | nil => rfl
  | cons t rest =>
    rw [if_neg (by simp), if_neg (by simp), kinds, List.find?_map, Option.map_map]
    rfl

/-- The fault of a statement that a tree shows. -/
theorem Shows.faultAt?_eq {id : Nat} {content : Content Kind} {children : List Tree}
    (shown : (Tree.node id content children).Shows s) : s.faultAt? id =
      (s.flawAt? id ⟨content, s.parent? id, children.map Tree.id⟩).map (Fault.mk content.line) := by
  rw [faultAt?, shown.get?_eq]
  rfl

private theorem faultAt?_basic {id : Nat} {content : Content Kind}
    {children : List Tree} {b : Basic} (shown : (Tree.node id content children).Shows s)
    (kind : content.kind = .basic b) : s.faultAt? id =
      if children.isEmpty then none else some ⟨content.line, .hasChildren content.kind.name⟩ := by
  rw [shown.faultAt?_eq, flawAt?, kind]
  cases children <;> rfl

private theorem faultAt?_clause {id p : Nat} {content : Content Kind}
    {children : List Tree} {kind : ClauseKind} (shown : (Tree.node id content children).Shows s)
    (sort : content.kind = .block (.ifClause kind))
    (placed : s.parent? id = some p) (outer : s.kind? p = some (.block .ifBlock)) :
    s.faultAt? id = none := by
  rw [shown.faultAt?_eq, flawAt?, sort, placed]
  simp [outer]

private theorem faultAt?_option {id p : Nat} {content : Content Kind} {children : List Tree}
    (shown : (Tree.node id content children).Shows s) (sort : content.kind = .block .option)
    (placed : s.parent? id = some p) (outer : s.kind? p = some (.block .options)) :
    s.faultAt? id = match children.head?.map Tree.kind with
      | some (.basic (.line _)) => none
      | _ => some ⟨content.line, .noChoiceLine⟩ := by
  have first : (children.map Tree.id).head?.bind s.kind? = children.head?.map Tree.kind := by
    cases children with
    | nil => rfl
    | cons t rest => exact shown.2.2.1.kind?_eq
  rw [shown.faultAt?_eq, flawAt?, sort, placed]
  simp only [Option.bind_some, outer, optionFlawAt?, if_true, first]
  split <;> rfl

def fault? {α : Type} : Except Fault α → Option Fault
  | .ok _ => none
  | .error fault => some fault

private theorem fault?_bind {α β : Type} {x : Except Fault α} {f : α → Except Fault β}
    {rest : Option Fault} (later : ∀ a, fault? (f a) = rest) :
    fault? (x >>= f) = (fault? x).or rest := by
  cases x with
  | error e => rfl
  | ok a => exact later a

private theorem fault?_map {α β : Type} {x : Except Fault α} {f : α → β} :
    fault? (x >>= fun a => pure (f a)) = fault? x := by
  cases x <;> rfl

mutual

/-- In a body, a tree has the fault of its first statement with a fault. A body is held by a block
that is neither an if block nor an option list. -/
theorem fault?_item (nested : Nested s.statements) (bare : s.parent? s.root = none)
    {p : Nat} {b : Block} (outer : s.kind? p = some (.block b))
    (plain : b ≠ .ifBlock ∧ b ≠ .options) :
    ∀ t : Tree, t.Shows s → s.parent? t.id = some p →
      fault? t.item = (s.faultAt? t.id).or ((preorderFrom t.children).findSome? s.faultAt?)
  | .node id content children, shown, placed => by
    have parents := shown.parent?_eq nested
    have below := shown.2.2
    have sorted : s.kind? id = some content.kind := shown.kind?_eq
    change fault? (item (.node id content children)) =
      (s.faultAt? id).or ((preorderFrom children).findSome? s.faultAt?)
    change s.parent? id = some p at placed
    cases kind : content.kind with
    | basic basic =>
      rw [item, faultAt?_basic shown kind, kind]
      cases children with
      | nil => simp [fault?, preorderFrom]
      | cons => rfl
    | block block =>
      rw [item, shown.faultAt?_eq, flawAt?, kind]
      cases block with
      | node name headers =>
        have inner : id ≠ s.root := by
          rintro rfl
          rw [bare] at placed
          cases placed
        simp [inner, fault?]
      | ifClause sort => simp [placed, outer, plain.1, fault?]
      | option => simp [placed, outer, plain.2, optionFlawAt?, fault?]
      | ifBlock =>
        simp only [branchFlawAt?_eq below]
        cases flaw : branchFlaw? children with
        | some flaw => rfl
        | none =>
          have sound : clausesFlaw? true children = none := by
            unfold branchFlaw? at flaw
            split at flaw
            · cases flaw
            · exact flaw
          rw [kind] at sorted
          rw [Option.map_none,
            Option.none_or, ← fault?_clauseList nested bare sorted children below parents
            sound]
          exact fault?_map
      | options =>
        simp only [menuFlawAt?_eq below]
        cases flaw : menuFlaw? children with
        | some flaw => rfl
        | none =>
          rw [kind] at sorted
          rw [Option.map_none,
            Option.none_or, ← fault?_choiceList nested bare sorted children below parents
            (options_of_sound flaw)]
          exact fault?_map

private theorem fault?_itemList (nested : Nested s.statements)
    (bare : s.parent? s.root = none) {p : Nat} {b : Block} (outer : s.kind? p = some (.block b))
    (plain : b ≠ .ifBlock ∧ b ≠ .options) :
    ∀ ts : List Tree, ShowsList s ts → (∀ t ∈ ts, s.parent? t.id = some p) →
      fault? (itemList ts) = (preorderFrom ts).findSome? s.faultAt?
  | [], _, _ => by rw [preorderFrom]; rfl
  | .node id content children :: rest, shown, placed => by
    have here := fault?_item nested bare outer plain _ shown.1 (placed _ List.mem_cons_self)
    have there := fault?_itemList nested bare outer plain rest shown.2 fun t member =>
      placed t (List.mem_cons_of_mem _ member)
    rw [itemList, findSome?_preorderFrom, ← Option.or_assoc, ← there,
      fault?_bind fun _ => fault?_map, here]
    rfl

private theorem fault?_clauseList (nested : Nested s.statements)
    (bare : s.parent? s.root = none) {p : Nat} (outer : s.kind? p = some (.block .ifBlock)) :
    ∀ (ts : List Tree) {isFirst : Bool}, ShowsList s ts →
      (∀ t ∈ ts, s.parent? t.id = some p) → clausesFlaw? isFirst ts = none →
      fault? (clauseList ts) = (preorderFrom ts).findSome? s.faultAt?
  | [], _, _, _, _ => by rw [preorderFrom]; rfl
  | .node id content children :: rest, _, shown, placed, sound => by
    obtain ⟨kind, sort⟩ : ∃ kind, content.kind = .block (.ifClause kind) := clause_of_sound sound
    have sorted : s.kind? id = some content.kind := shown.1.kind?_eq
    rw [sort] at sorted
    have here := fault?_itemList nested bare sorted ⟨nofun, nofun⟩ children shown.1.2.2
      (shown.1.parent?_eq nested)
    have there := fault?_clauseList nested bare outer rest shown.2
      (fun t member => placed t (List.mem_cons_of_mem _ member)) (Option.or_eq_none_iff.mp sound).2
    rw [findSome?_preorderFrom, faultAt?_clause shown.1 sort (placed _ List.mem_cons_self) outer,
      Option.none_or, ← here, ← there, clauseList]
    apply fault?_bind
    intro body
    cases clauseList rest with
    | error e => rfl
    | ok clauses => cases content.guard? <;> rfl

private theorem fault?_choiceList (nested : Nested s.statements)
    (bare : s.parent? s.root = none) {p : Nat} (outer : s.kind? p = some (.block .options)) :
    ∀ ts : List Tree, ShowsList s ts →
      (∀ t ∈ ts, s.parent? t.id = some p) → (∀ t ∈ ts, t.kind = .block .option) →
      fault? (choiceList ts) = (preorderFrom ts).findSome? s.faultAt?
  | [], _, _, _ => by rw [preorderFrom]; rfl
  | .node id option [] :: rest, shown, placed, kinds => by
    have sort : option.kind = .block .option := kinds _ List.mem_cons_self
    rw [findSome?_preorderFrom, faultAt?_option shown.1 sort (placed _ List.mem_cons_self) outer]
    rfl
  | .node id option (.node lineId line below :: following) :: rest, shown, placed, kinds => by
    have sort : option.kind = .block .option := kinds _ List.mem_cons_self
    have sorted : s.kind? id = some option.kind := shown.1.kind?_eq
    rw [sort] at sorted
    have parents := shown.1.parent?_eq nested
    have inside := shown.1.2.2
    have body :=
      fault?_itemList nested bare sorted ⟨nofun, nofun⟩ following inside.2 fun t member =>
      parents t (List.mem_cons_of_mem _ member)
    have there := fault?_choiceList nested bare outer rest shown.2
      (fun t member => placed t (List.mem_cons_of_mem _ member))
      fun t member => kinds t (List.mem_cons_of_mem _ member)
    rw [choiceList, findSome?_preorderFrom, findSome?_preorderFrom,
      faultAt?_option shown.1 sort (placed _ List.mem_cons_self) outer, ← body, ← there]
    simp only [List.head?_cons, Option.map_some, Tree.kind, Tree.content]
    cases kind : line.kind with
    | block b => rfl
    | basic b =>
      cases b with
      | line spoken =>
        rw [faultAt?_basic inside.1 kind, kind]
        cases below with
        | nil =>
          simp only [List.isEmpty_nil, if_true, Option.none_or, preorderFrom, List.findSome?_nil]
          exact fault?_bind fun _ => fault?_map
        | cons => rfl
      | _ => rfl

end

end Tree

/-- The scan finds the fault that the check by recursive descent finds. -/
theorem Built.validate_eq {s : Script} (h : s.Built) :
    s.validate = s.tree.check.map fun _ => () := by
  obtain ⟨nested, bare⟩ := h.nested
  have shown := shows_tree nested
  have root := s.id_tree
  rw [validate, ← s.content_tree, Tree.preorder]
  generalize s.tree = t at shown root ⊢
  obtain ⟨id, content, children⟩ := t
  obtain rfl : id = s.root := root
  have sorted : s.kind? s.root = some content.kind := shown.kind?_eq
  rw [Tree.check, Tree.content]
  cases kind : content.kind with
  | basic b => rfl
  | block b =>
    cases b with
    | node name headers =>
      have none : s.faultAt? s.root = none := by
        rw [shown.faultAt?_eq, flawAt?, kind]
        simp
      rw [kind] at sorted
      have body :=
        Tree.fault?_itemList nested bare sorted (by constructor <;> rintro ⟨⟩) children shown.2.2
          (shown.parent?_eq nested)
      have walk : (Tree.preorderFrom [.node s.root content children]).findSome? s.faultAt? =
          Tree.fault? (Tree.itemList children) := by
        rw [Tree.findSome?_preorderFrom, none, Option.none_or, ← body, Tree.preorderFrom]
        exact Option.or_none
      simp only [walk]
      cases Tree.itemList children <;> rfl
    | _ => rfl

end Dialogue.Script
