import Dialogue.Proofs.Draft
import Dialogue.Script.Grammar

/-!
What a tree looks like that the grammar accepts: for every item of a body the tree that it stands
for, and for every clause and choice its own. Only the last clause of a branch can be without a
guard.
-/

set_option autoImplicit false
set_option relaxedAutoImplicit false

namespace Dialogue.Script

@[simp] theorem Content.guard?_withKind {κ μ : Type} (c : Content κ) (kind : μ) :
    (c.withKind kind).guard? = c.guard? := rfl

@[simp] theorem Content.hasConditions_withKind {κ μ : Type} (c : Content κ) (kind : μ) :
    (c.withKind kind).hasConditions = c.hasConditions := rfl

namespace Tree

inductive Stands (content : Content Kind) (children : List Tree) : Item → Prop
  | basic {b : Basic} : content.kind = .basic b → children = [] →
      Stands content children (.basic (content.withKind b))
  | branch {clauses : List Clause} {otherwise : Option (List Item)} :
      content.kind = .block .ifBlock → children ≠ [] → clausesFlaw? true children = none →
      clauseList children = .ok (clauses, otherwise) →
        Stands content children (.branch clauses otherwise)
  | menu {choices : List Choice} : content.kind = .block .options →
      (∀ t ∈ children, t.kind = .block .option) → choiceList children = .ok choices →
      Stands content children (.menu choices)

theorem options_of_sound {children : List Tree} (sound : menuFlaw? children = none) :
    ∀ t ∈ children, t.kind = .block .option := by
  unfold menuFlaw? at sound
  split at sound
  · cases sound
  · intro t member
    have found := List.find?_eq_none.mp (Option.map_eq_none_iff.mp sound) t member
    simpa using found

theorem clause_of_sound {isFirst : Bool} {t : Tree} {rest : List Tree}
    (sound : clausesFlaw? isFirst (t :: rest) = none) :
    ∃ kind, t.kind = .block (.ifClause kind) := by
  have here := (Option.or_eq_none_iff.mp sound).1
  unfold clauseFlaw? at here
  split at here
  · exact ⟨_, ‹_›⟩
  · exact ⟨_, ‹_›⟩
  · exact ⟨_, ‹_›⟩
  · cases here

theorem stands_of_item {id : Nat} {content : Content Kind} {children : List Tree} {i : Item}
    (h : item (.node id content children) = .ok i) : Stands content children i := by
  unfold item at h
  cases kind : content.kind with
  | basic b =>
    simp only [kind] at h
    split at h
    · next empty =>
      cases h
      exact .basic kind (List.isEmpty_iff.mp empty)
    · cases h
  | block b =>
    cases b with
    | node name headers | ifClause clause | option => simp [kind] at h
    | ifBlock =>
      simp only [kind] at h
      split at h
      · cases h
      · next sound =>
        simp only [bind_eq_ok_iff, pure_eq_ok_iff] at h
        obtain ⟨⟨clauses, otherwise⟩, listed, rfl⟩ := h
        unfold branchFlaw? at sound
        split at sound
        · cases sound
        · next filled => exact .branch kind (by simpa using filled) sound listed
    | options =>
      simp only [kind] at h
      split at h
      · cases h
      · next sound =>
        simp only [bind_eq_ok_iff, pure_eq_ok_iff] at h
        obtain ⟨choices, listed, rfl⟩ := h
        exact .menu kind (options_of_sound sound) listed

theorem itemList_cons {t : Tree} {rest : List Tree} {items : List Item}
    (h : itemList (t :: rest) = .ok items) :
    ∃ first others, item t = .ok first ∧ itemList rest = .ok others ∧ items = first :: others := by
  simp only [itemList, bind_eq_ok_iff, pure_eq_ok_iff] at h
  obtain ⟨first, one, others, more, rfl⟩ := h
  exact ⟨first, others, one, more, rfl⟩

private theorem isLast_of_unguarded {isFirst isLast : Bool} {t : Tree}
    (sound : clauseFlaw? isFirst isLast t = none) (bare : t.content.hasConditions = false) :
    isLast = true := by
  unfold clauseFlaw? at sound
  split at sound
  · cases isFirst <;> simp [bare] at sound
  · cases isFirst <;> simp [bare] at sound
  · cases isLast with
    | true => rfl
    | false => cases isFirst <;> simp at sound
  · cases sound

/-- A clause that is not the last is guarded; the last is guarded, or else it is the one that is
taken otherwise. -/
theorem clauseList_cons {isFirst : Bool} {id : Nat} {content : Content Kind}
    {children rest : List Tree} {clauses : List Clause} {otherwise : Option (List Item)}
    (sound : clausesFlaw? isFirst (.node id content children :: rest) = none)
    (h : clauseList (.node id content children :: rest) = .ok (clauses, otherwise)) :
    ∃ body, itemList children = .ok body ∧
      ((∃ guard others, content.guard? = some guard ∧ clausesFlaw? false rest = none ∧
          clauseList rest = .ok (others, otherwise) ∧
          clauses = .mk content.line guard body :: others) ∨
        (content.guard? = none ∧ rest = [] ∧ clauses = [] ∧ otherwise = some body)) := by
  obtain ⟨here, there⟩ := Option.or_eq_none_iff.mp sound
  simp only [clauseList, bind_eq_ok_iff] at h
  obtain ⟨body, listed, ⟨others, last⟩, listedRest, h⟩ := h
  refine ⟨body, listed, ?_⟩
  cases guard : content.guard? with
  | some tokens =>
    simp only [guard, pure_eq_ok_iff, Prod.mk.injEq] at h
    obtain ⟨rfl, rfl⟩ := h
    exact .inl ⟨tokens, others, rfl, there, listedRest, rfl⟩
  | none =>
    simp only [guard, pure_eq_ok_iff, Prod.mk.injEq] at h
    obtain ⟨rfl, rfl⟩ := h
    have bare : (node id content children).content.hasConditions = false := by
      simp [Tree.content, Content.hasConditions, guard]
    obtain rfl := List.isEmpty_iff.mp (isLast_of_unguarded here bare)
    cases listedRest
    exact .inr ⟨rfl, rfl, rfl, rfl⟩

theorem choiceList_cons {id : Nat} {option : Content Kind} {children rest : List Tree}
    {choices : List Choice} (h : choiceList (.node id option children :: rest) = .ok choices) :
    ∃ lineId shown following spoken body others,
      children = .node lineId shown [] :: following ∧ shown.kind = .basic (.line spoken) ∧
      itemList following = .ok body ∧ choiceList rest = .ok others ∧
      choices = .mk (option.withKind ()) (shown.withKind spoken) body :: others := by
  cases children with
  | nil => cases h
  | cons line following =>
    obtain ⟨lineId, shown, below⟩ := line
    unfold choiceList at h
    split at h
    · next spoken kind =>
      split at h
      · next empty =>
        simp only [bind_eq_ok_iff, pure_eq_ok_iff] at h
        obtain ⟨body, listed, others, listedRest, rfl⟩ := h
        obtain rfl := List.isEmpty_iff.mp empty
        exact ⟨lineId, shown, following, spoken, body, others, rfl, kind, listed, listedRest, rfl⟩
      · cases h
    · cases h

theorem check_ok {t : Tree} {node : Node} (h : t.check = .ok node) :
    t.kind = .block (.node node.name node.headers) ∧ itemList t.children = .ok node.body := by
  obtain ⟨id, content, children⟩ := t
  cases kind : content.kind with
  | basic b => simp [check, kind] at h
  | block b =>
    cases b with
    | node name headers =>
      simp only [check, kind, bind_eq_ok_iff, pure_eq_ok_iff] at h
      obtain ⟨body, listed, rfl⟩ := h
      exact ⟨kind, listed⟩
    | ifBlock | ifClause | options | option => simp [check, kind] at h

theorem leaves_of_check {t : Tree} {node : Node} (h : t.check = .ok node) :
    t.leaves = leavesList t.children := by
  have kind := (check_ok h).1
  obtain ⟨id, content, children⟩ := t
  replace kind : content.kind = .block (.node node.name node.headers) := kind
  simp only [leaves, kind, Tree.children]

end Tree

private theorem content_subtrees (start : Nat) (statements : List Statement) :
    (subtrees start statements).map Tree.content = statements.map Statement.content := by
  induction statements generalizing start with
  | nil => rfl
  | cons s rest ih => simp [subtrees, Tree.content, ih]

theorem content_tree (s : Script) : s.tree.content = s.rootStatement.content := by
  have same := congrArg (fun contents => contents[s.root]?) (content_subtrees 0 s.statements)
  have lt : s.root < (subtrees 0 s.statements).length := by
    rw [length_subtrees]
    exact s.root_lt
  simpa [tree, rootStatement, List.getElem?_eq_getElem lt, List.getElem?_eq_getElem s.root_lt]
    using same

/-- A script has the name of the node that it is read as. -/
theorem name_of_check {s : Script} {node : Node} (h : s.tree.check = .ok node) :
    s.name = node.name := by
  have kind := (Tree.check_ok h).1
  rw [Tree.kind, content_tree] at kind
  rw [name, kind]

end Dialogue.Script
