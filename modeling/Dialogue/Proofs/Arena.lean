import Dialogue.Proofs.Nesting
import Dialogue.Proofs.Preorder
import Mathlib.Data.List.Nodup

/-!
The arena of a builder. Whatever is called, in whatever order, the statements are numbered in
preorder, and the open blocks are the last statement or a block around it, with all blocks around
that. A call that is refused changes nothing. So the tree of a finished script has the statements of
the arena, each once, and a walk over the tree meets them in the order of their ids.
-/

set_option autoImplicit false
set_option relaxedAutoImplicit false

namespace Dialogue.Script

def isBlockAt (statements : List Statement) (id : Nat) : Bool :=
  statements[id]?.any fun s => s.content.kind.isBlock

private theorem isBlockAt_modify {statements : List Statement} {f : Statement → Statement}
    (same : ∀ s, (f s).content.kind = s.content.kind) (p id : Nat) :
    isBlockAt (statements.modify p f) id = isBlockAt statements id := by
  rw [isBlockAt, isBlockAt, List.getElem?_modify]
  cases statements[id]? with
  | none => rfl
  | some s =>
    by_cases here : p = id
    · simp [here, same]
    · simp [here]

private theorem isBlockAt_concat {statements : List Statement} (new : Statement) (id : Nat) :
    isBlockAt (statements ++ [new]) id =
      if id = statements.length then new.content.kind.isBlock else isBlockAt statements id := by
  rw [isBlockAt, getElem?_concat]
  split <;> rfl

def linksOf (statements : List Statement) : Links :=
  ⟨statements.length, parentAt statements, childrenAt statements, isBlockAt statements⟩

/-- A change that leaves the sort and the links of a statement. -/
theorem linksOf_modify {statements : List Statement} {f : Statement → Statement}
    (kind : ∀ s, (f s).content.kind = s.content.kind) (parent : ∀ s, (f s).parent = s.parent)
    (children : ∀ s, (f s).children = s.children) (p : Nat) :
    linksOf (statements.modify p f) = linksOf statements := by
  apply Links.ext
  · exact List.length_modify ..
  · funext id
    exact parentAt_modify parent p id
  · funext id
    exact childrenAt_modify_of_same children p id
  · funext id
    exact isBlockAt_modify kind p id

namespace Builder

/-- A new statement extends the links. -/
theorem linksOf_insert (b : Builder) (kind : Kind) (line : Nat) (parent : Option Nat)
    (known : ∀ p, parent = some p → p < b.nextId) :
    linksOf (b.insert kind line parent).statements =
      (linksOf b.statements).extend parent kind.isBlock := by
  apply Links.ext
  · exact nextId_insert b kind line parent
  · funext id
    exact parentAt_insert b kind line parent id
  · funext id
    cases parent with
    | none =>
      refine (childrenAt_concat _ id).trans ?_
      have same : ((linksOf b.statements).extend none kind.isBlock).children id =
          childrenAt b.statements id := List.append_nil _
      rw [same]
      by_cases last : id = b.statements.length
      · rw [if_pos last, childrenAt_of_length_le (Nat.le_of_eq last.symm)]
      · rw [if_neg last]
    | some p =>
      refine (childrenAt_adopt (known p rfl) rfl id).trans ?_
      simp only [linksOf, Links.extend, Option.some.injEq]
  · funext id
    cases parent with
    | none => exact isBlockAt_concat _ id
    | some p =>
      refine (isBlockAt_concat _ id).trans ?_
      rw [List.length_modify, isBlockAt_modify (by intro; rfl)]
      rfl

private theorem isBlockAt_of_extend {b : Builder} {statements : List Statement}
    {parent : Option Nat} {isBlock : Bool}
    (links : linksOf statements = (linksOf b.statements).extend parent isBlock) :
    isBlockAt statements b.nextId = isBlock :=
  (congrFun (congrArg Links.isBlock links) b.nextId).trans (if_pos rfl)

/-- What holds of a builder after any calls: its statements are in preorder, the first is the root,
and the open blocks are the last statement or a block around it, with all blocks around that. -/
structure Tracked (b : Builder) : Prop where
  preordered : (linksOf b.statements).Preordered
  root : b.root = if b.nextId = 0 then none else some 0
  pending : b.pending = [] ∨ ∃ inner ∈ lineage (parentAt b.statements) (b.nextId - 1),
    0 < b.nextId ∧ isBlockAt b.statements inner = true ∧
      b.pending = lineage (parentAt b.statements) inner

namespace Tracked

variable {b : Builder}

private theorem empty : Tracked {} where
  preordered := by
    have none : linksOf [] = ⟨0, fun _ => .none, fun _ => [], fun _ => false⟩ := by
      apply Links.ext <;> rfl
    rw [none]
    exact .empty
  root := rfl
  pending := .inl rfl

private theorem modify (h : b.Tracked) {f : Statement → Statement}
    (kind : ∀ s, (f s).content.kind = s.content.kind) (parent : ∀ s, (f s).parent = s.parent)
    (children : ∀ s, (f s).children = s.children) (p : Nat) : (b.modify p f).Tracked := by
  have links : linksOf (b.modify p f).statements = linksOf b.statements :=
    linksOf_modify kind parent children p
  have parents : parentAt (b.modify p f).statements = parentAt b.statements :=
    congrArg Links.parent links
  have blocks : isBlockAt (b.modify p f).statements = isBlockAt b.statements :=
    congrArg Links.isBlock links
  have next : (b.modify p f).nextId = b.nextId := congrArg Links.count links
  constructor
  · rw [links]
    exact h.preordered
  · rw [next]
    exact h.root
  · rw [parents, blocks, next]
    exact h.pending

/-- The innermost open block is one under which a new statement keeps the order. -/
theorem innermost (h : b.Tracked) {parent : Nat} {outer : List Nat}
    (opened : b.pending = parent :: outer) :
    0 < b.nextId ∧ parent ∈ lineage (parentAt b.statements) (b.nextId - 1) ∧
      isBlockAt b.statements parent = true ∧
      parent :: outer = lineage (parentAt b.statements) parent := by
  rcases h.pending with none | ⟨inner, around, pos, block, same⟩
  · rw [opened] at none
    cases none
  · rw [opened] at same
    have head : parent = inner := by
      rw [lineage] at same
      exact (List.cons.inj same).1
    subst head
    exact ⟨pos, around, block, same⟩

private theorem insert_child (h : b.Tracked) {parent : Nat} {outer : List Nat}
    (opened : b.pending = parent :: outer) (kind : Kind) (line : Nat) :
    linksOf (b.insert kind line (some parent)).statements =
        (linksOf b.statements).extend (some parent) kind.isBlock ∧
      (linksOf (b.insert kind line (some parent)).statements).Preordered ∧
      lineage (parentAt (b.insert kind line (some parent)).statements) b.nextId =
        b.nextId :: b.pending := by
  obtain ⟨pos, around, block, same⟩ := h.innermost opened
  have below : parent < b.nextId := by
    have := le_of_mem_lineage around
    omega
  have links := b.linksOf_insert kind line (some parent) (by rintro p ⟨⟩; exact below)
  have grown := h.preordered.extend_child pos around block kind.isBlock
  refine ⟨links, by rw [links]; exact grown, ?_⟩
  have parents : parentAt (b.insert kind line (some parent)).statements =
      ((linksOf b.statements).extend (some parent) kind.isBlock).parent :=
        congrArg Links.parent links
  have own : ((linksOf b.statements).extend (some parent) kind.isBlock).parent b.nextId =
      some parent := if_pos rfl
  rw [parents, grown.lineage_eq own, Links.Preordered.lineage_extend below, opened, same]
  rfl

private theorem openBlock (h : b.Tracked) {b' : Builder} {kind : Kind} {line : Nat}
    (opened : b.openBlock kind line = .ok b') : b'.Tracked := by
  unfold Builder.openBlock at opened
  split at opened
  · cases opened
  · next isBlock =>
    have block : kind.isBlock = true := by simpa using isBlock
    split at opened
    · cases opened
    · next noneOpen noRoot =>
      cases opened
      have first : b.nextId = 0 := by
        by_contra some
        have root := h.root
        rw [noRoot, if_neg some] at root
        cases root
      have links := b.linksOf_insert kind line none nofun
      have grown := h.preordered.extend_root first kind.isBlock
      have parents : parentAt (b.insert kind line none).statements =
        ((linksOf b.statements).extend none kind.isBlock).parent := congrArg Links.parent links
      have blocks := isBlockAt_of_extend links
      have next : (b.insert kind line none).nextId = 1 := by rw [nextId_insert, first]
      refine ⟨by rw [links]; exact grown, ?_, ?_⟩
      · change some b.nextId = if (b.insert kind line none).nextId = 0 then none else some 0
        rw [next, first]
        rfl
      · right
        refine ⟨b.nextId, ?_, ?_, blocks.trans block, ?_⟩
        · change b.nextId ∈ lineage _ ((b.insert kind line none).nextId - 1)
          rw [next, first]
          exact mem_lineage_self _ _
        · change 0 < (b.insert kind line none).nextId
          omega
        · change [b.nextId] = lineage (parentAt (b.insert kind line none).statements) b.nextId
          rw [parents, first]
          exact (lineage_of_root grown.first).symm
    · next parent outer isOpen =>
      cases opened
      obtain ⟨links, grown, own⟩ := h.insert_child isOpen kind line
      have next : (b.insert kind line (some parent)).nextId = b.nextId + 1 := nextId_insert ..
      have blocks := isBlockAt_of_extend links
      refine ⟨grown, ?_, ?_⟩
      · change b.root = if (b.insert kind line (some parent)).nextId = 0 then none else some 0
        rw [next, h.root, if_neg (by have := (h.innermost isOpen).1; omega), if_neg (by omega)]
      · right
        refine ⟨b.nextId, ?_, ?_, blocks.trans block, ?_⟩
        · change b.nextId ∈ lineage _ ((b.insert kind line (some parent)).nextId - 1)
          rw [next, Nat.add_sub_cancel]
          exact mem_lineage_self _ _
        · change 0 < (b.insert kind line (some parent)).nextId
          omega
        · rw [isOpen] at own
          exact own.symm

private theorem add (h : b.Tracked) {b' : Builder} {kind : Kind} {line : Nat}
    (added : b.add kind line = .ok b') : b'.Tracked := by
  unfold Builder.add at added
  split at added
  · cases added
  · split at added
    · cases added
    · next parent outer isOpen =>
      cases added
      obtain ⟨links, grown, own⟩ := h.insert_child isOpen kind line
      obtain ⟨pos, around, block, same⟩ := h.innermost isOpen
      have next : (b.insert kind line (some parent)).nextId = b.nextId + 1 := nextId_insert ..
      have below : parent < b.nextId := by
        have := le_of_mem_lineage around
        omega
      have parents : parentAt (b.insert kind line (some parent)).statements =
        ((linksOf b.statements).extend (some parent) kind.isBlock).parent :=
          congrArg Links.parent links
      have blocks : isBlockAt (b.insert kind line (some parent)).statements parent = true := by
        have here := congrFun (congrArg Links.isBlock links) parent
        exact here.trans ((if_neg (Nat.ne_of_lt below)).trans block)
      refine ⟨grown, ?_, ?_⟩
      · change b.root = _
        rw [next, h.root, if_neg (by omega), if_neg (by omega)]
      · right
        refine ⟨parent, ?_, by omega, blocks, ?_⟩
        · rw [next, Nat.add_sub_cancel, own, isOpen]
          exact List.mem_cons_of_mem _ List.mem_cons_self
        · change b.pending = _
          rw [parents, Links.Preordered.lineage_extend below, isOpen, same]
          rfl

private theorem closeBlock (h : b.Tracked) {b' : Builder} {id : Nat}
    (closed : b.closeBlock = .ok (b', id)) :
    b'.Tracked := by
  unfold Builder.closeBlock at closed
  split at closed
  · cases closed
  · next last outer isOpen =>
    cases closed
    obtain ⟨pos, around, block, same⟩ := h.innermost isOpen
    refine ⟨h.preordered, h.root, ?_⟩
    rcases lineage_cases (parentAt b.statements) id with alone | ⟨p, lt, parent, longer⟩
    · left
      rw [alone] at same
      exact (List.cons.inj same).2
    · right
      rw [longer] at same
      have inside : p ∈ lineage (parentAt b.statements) id := by
        rw [longer]
        exact List.mem_cons_of_mem _ (mem_lineage_self _ _)
      exact ⟨p, mem_lineage_trans inside around, pos, h.preordered.block p id parent,
        (List.cons.inj same).2⟩

end Tracked

private theorem Reachable.tracked {b : Builder} (h : b.Reachable) : b.Tracked := by
  induction h with
  | empty => exact .empty
  | openBlock _ opened ih => exact ih.openBlock opened
  | closeBlock _ closed ih => exact ih.closeBlock closed
  | add _ added ih => exact ih.add added
  | setConditions id _ _ ih => exact ih.modify (by intro; rfl) (by intro; rfl) (by intro; rfl) id
  | setExpression id _ _ ih => exact ih.modify (by intro; rfl) (by intro; rfl) (by intro; rfl) id
  | appendToken id _ _ ih => exact ih.modify (by intro; rfl) (by intro; rfl) (by intro; rfl) id

end Builder

private theorem lineage_eq_ancestors (s : Script) (id : Nat) :
    lineage s.parent? id = id :: s.ancestors id := by
  induction id using Nat.strong_induction_on with
  | _ id ih =>
    rw [lineage, ancestors]
    cases s.parent? id with
    | none => rfl
    | some p =>
      by_cases lt : p < id
      · simp only [lt, if_true, ih p lt]
      · simp only [lt, if_false]

namespace Tree

variable {s : Script}

private theorem showsList_append {ts us : List Tree} (first : ShowsList s ts)
    (second : ShowsList s us) :
    ShowsList s (ts ++ us) := by
  rw [showsList_iff] at *
  intro t member
  rcases List.mem_append.mp member with member | member
  · exact first t member
  · exact second t member

/-- The walk over the trees of statements is the walk over their ids. -/
theorem preorderFrom_of_walks {pending order : List Nat}
    (walks : Links.Walks s.children pending order) :
    ∀ ts : List Tree, ShowsList s ts → ts.map Tree.id = pending → preorderFrom ts = order := by
  induction walks with
  | done =>
    intro ts _ none
    rw [List.map_eq_nil_iff.mp none, preorderFrom]
  | visit _ ih =>
    intro ts shown ids
    obtain ⟨t, rest, rfl, rfl, rfl⟩ := List.map_eq_cons_iff.mp ids
    obtain ⟨id, content, children⟩ := t
    obtain ⟨⟨-, listed, below⟩, others⟩ := shown
    rw [preorderFrom, ih (children ++ rest) (showsList_append below others)]
    · rfl
    · rw [List.map_append, ← listed]
      rfl

private theorem leavesList_append (ts us : List Tree) :
    leavesList (ts ++ us) = leavesList ts ++ leavesList us := by
  induction ts with
  | nil => rfl
  | cons t rest ih => rw [List.cons_append, leavesList, leavesList, ih, List.append_assoc]

end Tree

def leaf? (s : Script) (id : Nat) : Option (Nat × Content Kind) :=
  (s.get? id).bind fun statement =>
    if statement.content.kind.isBlock then none else some (id, statement.content)

private theorem leaf?_of_content {s : Script} {id : Nat} {content : Content Kind}
    (h : (s.get? id).map Statement.content = some content) :
    s.leaf? id = if content.kind.isBlock then none else some (id, content) := by
  obtain ⟨statement, found, rfl⟩ := Option.map_eq_some_iff.mp h
  rw [leaf?, found]
  rfl

/-- The recursive walk meets the basic statements in the order of the walk with a stack. -/
theorem Tree.leavesList_eq {s : Script}
    (childless : ∀ id b, s.kind? id = some (.basic b) → s.children id = [])
    (ts : List Tree) (shown : ShowsList s ts) :
    leavesList ts = (preorderFrom ts).filterMap s.leaf? := by
  induction ts using preorderFrom.induct with
  | case1 => rw [preorderFrom]; rfl
  | case2 id content children pending ih =>
    obtain ⟨⟨here, listed, below⟩, others⟩ := shown
    have rest := ih (showsList_append below others)
    have leaf := leaf?_of_content here
    rw [preorderFrom, leavesList, leaves]
    cases sort : content.kind with
    | basic b =>
      have none : children = [] := by
        have kind := kind?_of_content here
        rw [sort] at kind
        rw [childless id b kind] at listed
        exact List.map_eq_nil_iff.mp listed.symm
      rw [sort] at leaf
      rw [none] at rest ⊢
      rw [List.filterMap_cons_some leaf]
      exact congrArg ((id, content) :: ·) rest
    | block b =>
      rw [sort] at leaf
      rw [List.filterMap_cons_none leaf, ← rest, leavesList_append]

/-- How the statements of a script stand in its arena. -/
structure WellFormed (s : Script) : Prop where
  root : s.root = 0
  rootless : ∀ id < s.statements.length, s.parent? id = none ↔ id = s.root
  parent : ∀ id < s.statements.length, id ≠ s.root → ∃ p < id, s.parent? id = some p ∧
    (∃ b, s.kind? p = some (.block b)) ∧ (s.children p).count id = 1 ∧
    ∀ other, other ≠ p → id ∉ s.children other
  children : ∀ id, ∀ c ∈ s.children id, c < s.statements.length ∧ s.parent? c = some id
  childless : ∀ id b, s.kind? id = some (.basic b) → s.children id = []
  /-- The tree of the script has the statements of the arena, with the children they list. -/
  tree : s.tree.id = s.root ∧ s.tree.Shows s
  /-- The walk with a stack of ids, and that over the tree. -/
  walk : Links.Walks s.children [s.root] s.tree.preorder
  preorder : s.tree.preorder = List.range s.statements.length
  /-- From each statement the parents lead to the root. -/
  ancestors : ∀ id < s.statements.length,
    ((id :: s.ancestors id).IsChain fun c p => s.parent? c = some p) ∧
    (id :: s.ancestors id).getLast? = some s.root
  /-- The recursive walk meets the basic statements in the order of their ids. -/
  leaves : s.tree.leaves = (List.range s.statements.length).filterMap s.leaf?

private theorem isBlockAt_eq {s : Script} {id : Nat} {kind : Kind} (h : s.kind? id = some kind) :
    isBlockAt s.statements id = kind.isBlock := by
  obtain ⟨statement, found, rfl⟩ := Option.map_eq_some_iff.mp h
  rw [isBlockAt, show s.statements[id]? = some statement from found]
  rfl

private theorem exists_block_of_isBlockAt {s : Script} {id : Nat}
    (h : isBlockAt s.statements id = true) :
    ∃ b, s.kind? id = some (.block b) := by
  cases kind : s.kind? id with
  | none =>
    have none : s.statements[id]? = none := Option.map_eq_none_iff.mp kind
    rw [isBlockAt, none] at h
    cases h
  | some kind' =>
    rw [isBlockAt_eq kind] at h
    cases kind' with
    | basic b => cases h
    | block b => exact ⟨b, rfl⟩

/-- A builder finishes with its statements in preorder under the first of them. -/
theorem Built.preordered {s : Script} (h : s.Built) :
    (linksOf s.statements).Preordered ∧ s.root = 0 := by
  obtain ⟨b, reachable, finished⟩ := h
  have tracked := reachable.tracked
  unfold Builder.finish at finished
  split at finished
  · cases finished
  · split at finished
    · next root isRoot =>
      split at finished
      · cases finished
        refine ⟨tracked.preordered, ?_⟩
        have same := tracked.root
        rw [isRoot] at same
        split at same
        · cases same
        · exact Option.some.inj same
      · cases finished
    · cases finished

private theorem Built.wellFormed {s : Script} (h : s.Built) : s.WellFormed := by
  obtain ⟨order, root⟩ := h.preordered
  have pos : 0 < s.statements.length := by
    have := s.root_lt
    omega
  have childless : ∀ id b, s.kind? id = some (.basic b) → s.children id = [] := by
    intro id b kind
    apply List.eq_nil_iff_forall_not_mem.mpr
    intro c child
    have block := order.block id c ((order.listed id c).mp child)
    rw [show (linksOf s.statements).isBlock id = _ from isBlockAt_eq kind] at block
    cases block
  have shows := shows_tree h.nested.1
  have shown : Tree.ShowsList s [s.tree] := ⟨shows, trivial⟩
  have ids : [s.tree].map Tree.id = [s.root] := by rw [← id_tree]; rfl
  have walk : Links.Walks s.children [s.root] (List.range s.statements.length) := by
    rw [root]
    exact order.walks_root pos
  have preorder : s.tree.preorder = List.range s.statements.length :=
    Tree.preorderFrom_of_walks walk [s.tree] shown ids
  have leaves : s.tree.leaves = s.tree.preorder.filterMap s.leaf? := by
    have all := Tree.leavesList_eq childless [s.tree] shown
    rwa [Tree.leavesList, Tree.leavesList, List.append_nil] at all
  constructor
  · exact root
  · intro id lt
    rw [root]
    constructor
    · intro none
      by_contra later
      obtain ⟨p, -, parent⟩ := order.later id (by omega) lt
      cases none.symm.trans parent
    · rintro rfl
      exact order.first
  · intro id lt notRoot
    obtain ⟨p, -, parent⟩ := order.later id (by omega) lt
    have distinct : (s.children p).Nodup := h.nested.1.distinct p
    have member : id ∈ s.children p := (order.listed p id).mpr parent
    refine ⟨p, order.parent_lt parent, parent, ?_, List.count_eq_one_of_mem distinct member, ?_⟩
    · exact exists_block_of_isBlockAt (order.block p id parent)
    · intro other different listed
      have also : parentAt s.statements id = some other := (order.listed other id).mp listed
      rw [show parentAt s.statements id = some p from parent] at also
      exact different (Option.some.inj also).symm
  · intro id c child
    have parent := (order.listed id c).mp child
    exact ⟨order.lt_count parent, parent⟩
  · exact childless
  · exact ⟨id_tree s, shows⟩
  · rw [preorder]
    exact walk
  · exact preorder
  · intro id lt
    rw [← lineage_eq_ancestors, root]
    exact ⟨lineage_chain s.parent? id, order.lineage_last lt⟩
  · rw [leaves, preorder]

namespace Builder

inductive Call
  | openBlock (kind : Kind) (line : Nat)
  | add (kind : Kind) (line : Nat)
  | closeBlock
  | setConditions (id : Nat) (tokens : Expression)
  | setExpression (id : Nat) (tokens : Expression)
  | appendToken (id : Nat) (token : Token)

/-- The builder after a call, or why the call is refused. -/
def call (b : Builder) : Call → Except BuilderError Builder
  | .openBlock kind line => b.openBlock kind line
  | .add kind line => b.add kind line
  | .closeBlock => b.closeBlock.map Prod.fst
  | .setConditions id tokens => .ok (b.setConditions id tokens)
  | .setExpression id tokens => .ok (b.setExpression id tokens)
  | .appendToken id token => .ok (b.appendToken id token)

/-- The builder after calls one after the other, those that are refused left out. -/
def run (b : Builder) (calls : List Call) : Builder :=
  calls.foldl (fun b c => (b.call c).toOption.getD b) b

private theorem Reachable.call {b b' : Builder} (h : b.Reachable) {c : Call}
    (done : b.call c = .ok b') :
    b'.Reachable := by
  cases c with
  | openBlock kind line => exact h.openBlock done
  | add kind line => exact h.add done
  | closeBlock =>
    rw [Builder.call] at done
    cases closed : b.closeBlock with
    | error e =>
      rw [closed] at done
      cases done
    | ok result =>
      obtain ⟨b'', id⟩ := result
      rw [closed] at done
      cases done
      exact h.closeBlock closed
  | setConditions id tokens =>
    cases done
    exact h.setConditions id tokens
  | setExpression id tokens =>
    cases done
    exact h.setExpression id tokens
  | appendToken id token =>
    cases done
    exact h.appendToken id token

theorem Reachable.run {b : Builder} (h : b.Reachable) (calls : List Call) :
    (b.run calls).Reachable := by
  induction calls generalizing b with
  | nil => exact h
  | cons c rest ih =>
    apply ih
    change ((b.call c).toOption.getD b).Reachable
    cases done : b.call c with
    | error e => exact h
    | ok b' => exact h.call done

/-- Whatever is called, a finished script is well formed. -/
theorem run_wellFormed (calls : List Call) (s : Script) (finished : (run {} calls).finish = .ok s) :
    s.WellFormed :=
  Built.wellFormed ⟨_, Reachable.empty.run calls, finished⟩

/-- Calls in no good order: six of them are refused. -/
def Sample.calls : List Call :=
  [.closeBlock, .add (.basic (.call "f")) 1, .openBlock (.block (.node "Start" .empty)) 1,
    .openBlock (.basic (.call "f")) 2, .openBlock (.block .options) 2,
      .openBlock (.block .option) 2,
    .add (.block .ifBlock) 2, .add (.basic (.line {})) 2, .setConditions 2 [.variable "open"],
    .add (.basic (.call "f")) 3, .closeBlock, .appendToken 4 (.function "f" 0), .closeBlock,
    .add (.basic (.declare "x")) 4, .setExpression 5 [.bool true], .closeBlock, .closeBlock,
    .openBlock (.block (.node "Other" .empty)) 5]

theorem run_wellFormed_sample : ∃ s, (run {} Sample.calls).finish = .ok s ∧
    s.statements.map Statement.children = [[1, 5], [2], [3, 4], [], [], []] ∧ s.WellFormed :=
  ⟨_, rfl, rfl, run_wellFormed Sample.calls _ rfl⟩

end Builder

end Dialogue.Script
