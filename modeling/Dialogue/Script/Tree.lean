import Dialogue.Script.Basic

/-!
A script unfolded into a tree, by following the children of its root.
-/

set_option autoImplicit false
set_option relaxedAutoImplicit false

namespace Dialogue.Script

/-- A statement with the statements it holds. -/
inductive Tree
  | node (id : Nat) (content : Content Kind) (children : List Tree)
deriving Inhabited

namespace Tree

def id : Tree → Nat
  | .node id _ _ => id

def content : Tree → Content Kind
  | .node _ content _ => content

def kind (t : Tree) : Kind :=
  t.content.kind

/-- The statements that a statement holds. -/
def children : Tree → List Tree
  | .node _ _ children => children

mutual

def size : Tree → Nat
  | .node _ _ children => 1 + sizeList children

/-- The number of statements in a list of trees. -/
def sizeList : List Tree → Nat
  | [] => 0
  | t :: rest => size t + sizeList rest

end

theorem sizeList_append (ts us : List Tree) :
    sizeList (ts ++ us) = sizeList ts + sizeList us := by
  induction ts with
  | nil => simp [sizeList]
  | cons t ts ih => simp [sizeList, ih]; omega

/-- The ids of the statements of a stack of trees, each before those it holds. -/
def preorderFrom : List Tree → List Nat
  | [] => []
  | .node id _ children :: pending => id :: preorderFrom (children ++ pending)
termination_by pending => sizeList pending
decreasing_by simp [sizeList, size, sizeList_append]

/-- The ids of the statements, each before those it holds. -/
def preorder (t : Tree) : List Nat :=
  preorderFrom [t]

mutual

/-- The basic statements, as a walk through the blocks meets them. -/
def leaves : Tree → List (Nat × Content Kind)
  | .node id content children =>
    match content.kind with
    | .basic _ => [(id, content)]
    | .block _ => leavesList children

/-- The basic statements of a list of trees. -/
def leavesList : List Tree → List (Nat × Content Kind)
  | [] => []
  | t :: rest => leaves t ++ leavesList rest

end

end Tree

/-- The trees of a run of statements that ends with the last one and starts at an id. A child stands
after its parent. -/
def subtrees (start : Nat) : List Statement → List Tree
  | [] => []
  | s :: rest =>
    let later := subtrees (start + 1) rest
    .node start s.content
      (s.children.filterMap fun c => if start < c then later[c - (start + 1)]? else none) :: later

theorem length_subtrees (start : Nat) (statements : List Statement) :
    (subtrees start statements).length = statements.length := by
  induction statements generalizing start with
  | nil => rfl
  | cons s rest ih => simp [subtrees, ih]

def tree (s : Script) : Tree :=
  (subtrees 0 s.statements).get ⟨s.root, (length_subtrees 0 s.statements).symm ▸ s.root_lt⟩

end Dialogue.Script
