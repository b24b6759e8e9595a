import Dialogue.Bundle.Read
import Dialogue.Proofs.Draft
import Mathlib.Data.List.Forall2

/-!
Reading a bundle. The walk over a nested statement hands the builder exactly the statement's
`layout`: itself, then what it holds, each child right after the statements of the children before
it. The walk stops at the first statement at fault, in the order in which it comes to them, and the
stack of open blocks is the same after a statement as before it, so the builder refuses only a basic
statement that stands for a whole node.
-/

set_option autoImplicit false
set_option relaxedAutoImplicit false

namespace Dialogue.Bundle

open Script (Kind Builder BuilderError Statement)

def assignmentSymbols : List String :=
  ["=", "to", "+=", "-=", "*=", "/="]

private theorem isSome_ofSymbol? (symbol : String) :
    (Update.ofSymbol? symbol).isSome = true ↔ symbol ∈ assignmentSymbols := by
  unfold Update.ofSymbol? Operator.ofSymbol? assignmentSymbols
  split <;> simp_all [Operator.update?]

namespace Form

def isBlock : Form → Bool
  | .node .. | .ifBlock | .ifClause _ | .options | .option => true
  | .line .. | .command .. | .call _ | .jump _ | .set .. | .declare _ => false

/-- The statement that a description without a fault stands for. -/
def meaning (expression : Option Expression) : Form → Kind
  | .node name headers => .block (.node name headers)
  | .line lineId hashtags => .basic (.line ⟨lineId, hashtags⟩)
  | .command name arguments text =>
    .basic (.command name arguments (if text = "" then name else text))
  | .call name => .basic (.call name)
  | .jump (some destination) => .basic (.jump (.node destination))
  | .jump none => .basic (.jump (.computed (expression.getD [])))
  | .set name symbol => .basic (.set name ((Update.ofSymbol? symbol).getD .assign))
  | .declare name => .basic (.declare name)
  | .ifBlock => .block .ifBlock
  | .ifClause clause => .block (.ifClause clause)
  | .options => .block .options
  | .option => .block .option

/-- What is wrong with a description by itself. -/
def faults (file : String) (line : Nat) (expression : Option Expression) : Form → List ReadError
  | .set _ symbol => if symbol ∈ assignmentSymbols then [] else [.notAssignment file line symbol]
  | .jump none => if expression.getD [] = [] then [.noDestination file line] else []
  | _ => []

private theorem isBlock_meaning (expression : Option Expression) (kind : Form) :
    (kind.meaning expression).isBlock = kind.isBlock := by
  rcases kind with _ | _ | _ | _ | (_ | _) | _ | _ | _ | _ | _ | _ <;> rfl

private theorem faults_eq_nil_iff (file : String) (line : Nat)
    (expression : Option Expression) (kind : Form) :
    kind.faults file line expression = [] ↔
      (∀ name symbol, kind = .set name symbol → symbol ∈ assignmentSymbols) ∧
        (kind = .jump none → ∃ tokens, expression = some tokens ∧ tokens ≠ []) := by
  rcases kind with _ | _ | _ | _ | (_ | _) | _ | _ | _ | _ | _ | _ <;> simp [faults]
  case jump.none => rcases expression with _ | (_ | _) <;> simp

end Form

/-- The result of a step that stops at the first of its faults. -/
def outcome {α : Type} (faults : List ReadError) (result : α) : Except ReadError α :=
  faults.head?.elim (.ok result) .error

private theorem outcome_bind {α β : Type} {first second : List ReadError} {value : α} {result : β}
    {next : α → Except ReadError β} (h : next value = outcome second result) :
    outcome first value >>= next = outcome (first ++ second) result := by
  cases first with
  | nil => exact h
  | cons e rest => rfl

private theorem outcome_bind_ok {α β : Type} {faults : List ReadError} {value : α} {result : β}
    {next : α → Except ReadError β} (h : next value = .ok result) :
    outcome faults value >>= next = outcome faults result := by
  cases faults with
  | nil => exact h
  | cons e rest => rfl

private theorem outcome_eq_ok_iff {α : Type} {faults : List ReadError} {result value : α} :
    outcome faults result = .ok value ↔ faults = [] ∧ result = value := by
  cases faults <;> simp [outcome]

private theorem outcome_eq_error_iff {α : Type} {faults : List ReadError}
    {result : α} {e : ReadError} :
    outcome faults result = .error e ↔ faults.head? = some e := by
  cases faults <;> simp [outcome]

private theorem readKind_eq (file : String) (kind : Form) (line : Nat)
    (expression : Option Expression) :
    readKind file kind line expression
      = outcome (kind.faults file line expression) (kind.meaning expression) := by
  rcases kind with _ | _ | _ | _ | (_ | _) | ⟨name, symbol⟩ | _ | _ | _ | _ | _ <;> try rfl
  case jump.none => rcases expression with _ | (_ | _) <;> rfl
  case set =>
    have stored := isSome_ofSymbol? symbol
    simp only [readKind, Form.faults, Form.meaning]
    cases op : Update.ofSymbol? symbol with
    | none =>
      have unlisted : symbol ∉ assignmentSymbols := by
        rw [← stored, op]
        exact Bool.false_ne_true
      rw [if_neg unlisted]
      rfl
    | some _ =>
      have listed : symbol ∈ assignmentSymbols := by rw [← stored, op, Option.isSome_some]
      rw [if_pos listed]
      rfl

namespace Node

def kind : Node → Form
  | .mk kind .. => kind

def line : Node → Nat
  | .mk _ line .. => line

def expression : Node → Option Expression
  | .mk _ _ _ expression _ => expression

def children : Node → List Node
  | .mk _ _ _ _ children => children

/-- What makes a statement readable wherever a block is open. -/
structure IsSound (node : Node) : Prop where
  children_eq : node.kind.isBlock = false → node.children = []
  symbol_mem : ∀ name symbol, node.kind = .set name symbol → symbol ∈ assignmentSymbols
  expression_ne : node.kind = .jump none → ∃ tokens, node.expression = some tokens ∧ tokens ≠ []

/-- What is wrong with a statement where a block is open. -/
def ownFaults (file : String) (node : Node) : List ReadError :=
  node.kind.faults file node.line node.expression ++
    if node.kind.isBlock = false ∧ node.children ≠ [] then
      [.hasChildren file node.line (node.kind.meaning node.expression).name]
    else []

mutual

/-- A statement and all it holds, in the order in which they stand in the file. -/
def preorder : Node → List Node
  | .mk kind line conditions expression children =>
    .mk kind line conditions expression children :: preorderList children

def preorderList : List Node → List Node
  | [] => []
  | node :: rest => node.preorder ++ preorderList rest

end

/-- What is wrong with a statement that stands for a whole node: besides the faults it has wherever
it stands, it may be no block. -/
def rootFaults (file : String) (node : Node) : List ReadError :=
  node.ownFaults file ++
    if node.kind.isBlock = false then
      [.misplaced file (.outsideBlock node.line (node.kind.meaning node.expression).name)]
    else []

/-- The faults of a whole node: those of its root, then those of what the root holds. -/
def faults (file : String) (root : Node) : List ReadError :=
  root.rootFaults file ++ (preorderList root.children).flatMap (ownFaults file)

private theorem preorder_eq (node : Node) : node.preorder = node :: preorderList node.children := by
  cases node
  rw [preorder]
  rfl

private theorem ownFaults_of_block {file : String} {kind : Form} {line : Nat}
    {conditions expression : Option Expression} {children : List Node}
    (isBlock : kind.isBlock = true) :
    (Node.mk kind line conditions expression children).ownFaults file
      = kind.faults file line expression := by
  rw [ownFaults, if_neg (by simp [Node.kind, isBlock]), List.append_nil]
  rfl

private theorem ownFaults_eq_nil_iff (file : String) (node : Node) :
    node.ownFaults file = [] ↔ node.IsSound := by
  have held : (if node.kind.isBlock = false ∧ node.children ≠ [] then
        [ReadError.hasChildren file node.line (node.kind.meaning node.expression).name]
          else []) = [] ↔
      (node.kind.isBlock = false → node.children = []) := by
    simp
  rw [ownFaults, List.append_eq_nil_iff, Form.faults_eq_nil_iff, held]
  constructor
  · rintro ⟨⟨symbols, expressions⟩, children⟩
    exact ⟨children, symbols, expressions⟩
  · intro sound
    exact ⟨⟨sound.symbol_mem, sound.expression_ne⟩, sound.children_eq⟩

private theorem faults_eq_nil_iff (file : String) (root : Node) :
    root.faults file = [] ↔ root.kind.isBlock = true ∧ ∀ node ∈ root.preorder, node.IsSound := by
  have ofRoot : root.rootFaults file = [] ↔ root.IsSound ∧ root.kind.isBlock = true := by
    rw [rootFaults, List.append_eq_nil_iff, ownFaults_eq_nil_iff]
    simp
  rw [faults, List.append_eq_nil_iff, ofRoot, List.flatMap_eq_nil_iff, preorder_eq,
    List.forall_mem_cons]
  simp only [ownFaults_eq_nil_iff]
  constructor
  · rintro ⟨⟨sound, block⟩, inner⟩
    exact ⟨block, sound, inner⟩
  · rintro ⟨block, sound, inner⟩
    exact ⟨⟨sound, block⟩, inner⟩

mutual

/-- How many statements a statement is made of. -/
def size : Node → Nat
  | .mk _ _ _ _ children => sizeList children + 1

def sizeList : List Node → Nat
  | [] => 0
  | node :: rest => node.size + sizeList rest

end

/-- The ids of statements that follow each other, each with all it holds. -/
def ids (start : Nat) : List Node → List Nat
  | [] => []
  | node :: rest => start :: ids (start + node.size) rest

mutual

/-- The statements that a nested statement becomes when its own id is `start`. -/
def layout (start : Nat) (parent : Option Nat) : Node → List Statement
  | .mk kind line conditions expression children =>
    { content := ⟨kind.meaning expression, line, conditions, expression⟩
      parent := parent
      children := ids (start + 1) children } :: layoutList (start + 1) start children

def layoutList (start parent : Nat) : List Node → List Statement
  | [] => []
  | node :: rest => node.layout start (some parent) ++ layoutList (start + node.size) parent rest

end

mutual

private theorem length_layout (start : Nat) (parent : Option Nat) :
    (node : Node) → (node.layout start parent).length = node.size
  | .mk _ _ _ _ children => by
    rw [layout, List.length_cons, length_layoutList, size]

private theorem length_layoutList (start parent : Nat) :
    (nodes : List Node) → (layoutList start parent nodes).length = sizeList nodes
  | [] => rfl
  | node :: rest => by
    rw [layoutList, List.length_append, length_layout, length_layoutList, sizeList]

end

private theorem layout_length_pos (start : Nat) (parent : Option Nat) (node : Node) :
    0 < (node.layout start parent).length := by
  cases node
  rw [layout]
  exact Nat.succ_pos _

/-- The script of a node without a fault. -/
def script (root : Node) : Script :=
  ⟨root.layout 0 none, 0, layout_length_pos 0 none root⟩

end Node

private theorem modify_append_of_lt {α : Type} (f : α → α) :
    ∀ (before after : List α) (i : Nat), i < before.length →
      (before ++ after).modify i f = before.modify i f ++ after
  | _ :: _, _, 0, _ => rfl
  | a :: before, after, i + 1, h => by
    have rest := modify_append_of_lt f before after i (Nat.lt_of_succ_lt_succ h)
    simpa using rest

private theorem modify_append_length {α : Type} (f : α → α) (a : α) (after : List α) :
    ∀ before : List α, (before ++ a :: after).modify before.length f = before ++ f a :: after
  | [] => rfl
  | b :: before => by
    have rest := modify_append_length f a after before
    simpa using rest

/-- The builder after some statements have been added under an open block, `ids` being those right
under it. -/
def hold (b : Builder) (parent : Nat) (ids : List Nat) (more : List Statement) : Builder :=
  { b with
    statements :=
      b.statements.modify parent (fun s => { s with children := s.children ++ ids }) ++ more }

private theorem hold_nil (b : Builder) (parent : Nat) : hold b parent [] [] = b := by
  have same : (fun s : Statement => { s with children := s.children ++ [] }) = id := by
    funext s
    simp
  rw [hold, same, List.modify_id, List.append_nil]

private theorem hold_hold {b : Builder} {parent : Nat} (inside : parent < b.nextId)
    (ids ids' : List Nat) (more more' : List Statement) :
    hold (hold b parent ids more) parent ids' more' = hold b parent (ids ++ ids')
      (more ++ more') := by
  have listed : parent < (b.statements.modify parent
      (fun s => { s with children := s.children ++ ids })).length := by
    rwa [List.length_modify]
  simp only [hold, modify_append_of_lt _ _ _ _ listed, List.modify_modify_eq, List.append_assoc,
    Function.comp_def]

private theorem nextId_hold (b : Builder) (parent : Nat) (ids : List Nat) (more : List Statement) :
    (hold b parent ids more).nextId = b.nextId + more.length := by
  simp [hold, Builder.nextId]

/-- Describing the statement that was added last. -/
theorem describe_last (before : List Statement) (kind : Kind) (line : Nat) (parent : Option Nat)
    (pending : List Nat) (root : Option Nat) (conditions expression : Option Expression) :
    describe ⟨before ++ [⟨⟨kind, line, none, none⟩, parent, []⟩], pending, root⟩ before.length
        conditions expression
      = ⟨before ++ [⟨⟨kind, line, conditions, expression⟩, parent, []⟩], pending, root⟩ := by
  cases conditions <;> cases expression <;>
    simp [describe, Builder.setConditions, Builder.setExpression, Builder.modify,
      modify_append_length]

/-- Whenever a block is open, a list of statements is handed over whole, up to its first fault. -/
def Fills (file : String) (nodes : List Node) : Prop :=
  ∀ (b : Builder) (parent : Nat) (outer : List Nat),
    b.pending = parent :: outer → parent < b.nextId →
    buildNodes file b nodes = outcome ((Node.preorderList nodes).flatMap (Node.ownFaults file))
      (hold b parent (Node.ids b.nextId nodes) (Node.layoutList b.nextId parent nodes))

section Walk

variable {file : String}

/-- A block, wherever it may be opened: what it holds follows it, and it is closed again. -/
theorem buildNode_of_block {b : Builder} {kind : Form} {line : Nat}
    {conditions expression : Option Expression} {children : List Node} {before : List Statement}
    {parent : Option Nat} {outer : List Nat} {root : Option Nat} (isBlock : kind.isBlock = true)
    (fills : Fills file children) (next : b.nextId = before.length)
    (opened : b.openBlock (kind.meaning expression) line
      = .ok ⟨before ++ [⟨⟨kind.meaning expression, line, none, none⟩, parent, []⟩],
          before.length :: outer, root⟩) :
    buildNode file b (.mk kind line conditions expression children)
      = outcome (kind.faults file line expression
            ++ (Node.preorderList children).flatMap (Node.ownFaults file))
          ⟨before ++ (Node.mk kind line conditions expression children).layout before.length parent,
            outer, root⟩ := by
  rw [buildNode, readKind_eq]
  apply outcome_bind
  rw [Form.isBlock_meaning, if_pos isBlock, opened, next]
  change buildNodes file (describe _ _ _ _) children >>= _ = _
  rw [describe_last, fills _ _ _ rfl (by simp [Builder.nextId])]
  apply outcome_bind_ok
  simp [hold, Builder.closeBlock, Builder.nextId, modify_append_length,
    Node.layout, Except.mapError]

/-- A basic statement goes to the innermost open block. -/
theorem buildNode_of_basic {b : Builder} {kind : Form} {line : Nat}
    {conditions expression : Option Expression} {children : List Node} {parent : Nat}
    {outer : List Nat} (isBasic : kind.isBlock = false) (pending : b.pending = parent :: outer) :
    buildNode file b (.mk kind line conditions expression children)
      = outcome ((Node.mk kind line conditions expression children).preorder.flatMap
            (Node.ownFaults file))
          (hold b parent [b.nextId]
            ((Node.mk kind line conditions expression children).layout b.nextId
              (some parent))) := by
  rw [Node.preorder_eq, List.flatMap_cons, Node.ownFaults, List.append_assoc,
    buildNode, readKind_eq]
  apply outcome_bind
  rw [Form.isBlock_meaning, if_neg (by simp [isBasic])]
  cases children with
  | cons child rest => simp [Node.kind, Node.children, isBasic]; rfl
  | nil =>
    have childless : ¬((Node.mk kind line conditions expression []).kind.isBlock = false ∧
        (Node.mk kind line conditions expression []).children ≠ []) := fun h => h.2 rfl
    rw [if_neg childless]
    have added : b.add (kind.meaning expression) line
        = .ok (b.insert (kind.meaning expression) line (some parent)) := by
      rw [Builder.add, Form.isBlock_meaning, if_neg (by simp [isBasic]), pending]
    rw [added]
    have last := describe_last (b.statements.modify parent
      fun s => { s with children := s.children ++ [b.nextId] }) (kind.meaning expression) line
      (some parent) b.pending b.root conditions expression
    rw [List.length_modify] at last
    exact congrArg Except.ok last

mutual

private theorem buildNode_eq (b : Builder) (parent : Nat) (outer : List Nat)
    (pending : b.pending = parent :: outer) :
    (node : Node) → buildNode file b node = outcome (node.preorder.flatMap (Node.ownFaults file))
      (hold b parent [b.nextId] (node.layout b.nextId (some parent)))
  | .mk kind line conditions expression children => by
    cases isBlock : kind.isBlock with
    | false => exact buildNode_of_basic isBlock pending
    | true =>
      have opened : b.openBlock (kind.meaning expression) line
          = .ok ⟨b.statements.modify parent
            (fun s => { s with children := s.children ++ [b.nextId] })
              ++ [⟨⟨kind.meaning expression, line, none, none⟩, some parent, []⟩],
            b.nextId :: parent :: outer, b.root⟩ := by
        rw [Builder.openBlock, Form.isBlock_meaning, isBlock, pending]
        rfl
      have next : b.nextId = (b.statements.modify parent
          fun s => { s with children := s.children ++ [b.nextId] }).length :=
        (List.length_modify ..).symm
      rw [Node.preorder_eq, List.flatMap_cons, Node.ownFaults_of_block isBlock,
        buildNode_of_block isBlock (fills children)
          next (by rw [opened, ← next]), ← next, ← pending]
      rfl

private theorem fills : (nodes : List Node) → Fills file nodes
  | [] => by
    intro b parent outer pending inside
    rw [buildNodes, Node.ids, Node.layoutList, hold_nil]
    rfl
  | node :: rest => by
    intro b parent outer pending inside
    rw [buildNodes, buildNode_eq b parent outer pending node, Node.preorderList,
      List.flatMap_append]
    apply outcome_bind
    have grown :
        parent < (hold b parent [b.nextId] (node.layout b.nextId (some parent))).nextId := by
      rw [nextId_hold]
      omega
    rw [fills rest (hold b parent _ _) parent outer pending grown, hold_hold inside, nextId_hold,
      Node.length_layout]
    rfl

end

private theorem script_eq (root : Node) :
    script file root = outcome (root.faults file) root.script := by
  obtain ⟨kind, line, conditions, expression, children⟩ := root
  cases isBlock : kind.isBlock with
  | true =>
    have opened : Builder.openBlock {} (kind.meaning expression) line
        = .ok ⟨[] ++ [⟨⟨kind.meaning expression, line, none, none⟩, none, []⟩], [0], some 0⟩ := by
      rw [Builder.openBlock, Form.isBlock_meaning, isBlock]
      rfl
    have own : (Node.mk kind line conditions expression children).rootFaults file
        = kind.faults file line expression := by
      rw [Node.rootFaults, Node.ownFaults_of_block isBlock, if_neg (by simp [Node.kind, isBlock]),
        List.append_nil]
    rw [script, buildNode_of_block isBlock (fills children) rfl opened, Node.faults, own]
    apply outcome_bind_ok
    have bound : 0 < ((Node.mk kind line conditions expression children).layout 0 none).length :=
      Node.layout_length_pos ..
    rw [Builder.finish]
    simp only [List.isEmpty_nil, Bool.not_true, Bool.false_eq_true, if_false, List.nil_append,
      List.length_nil, dif_pos bound]
    rfl
  | false =>
    rw [Node.faults, Node.rootFaults, Node.ownFaults, script, buildNode, readKind_eq, bind_assoc]
    simp only [List.append_assoc]
    apply outcome_bind
    rw [Form.isBlock_meaning, if_neg (by simp [isBlock])]
    cases children with
    | cons child rest => simp [Node.kind, Node.children, isBlock]; rfl
    | nil =>
      have refused : Builder.add {} (kind.meaning expression) line
          = .error (.outsideBlock line (kind.meaning expression).name) := by
        rw [Builder.add, Form.isBlock_meaning, if_neg (by simp [isBlock])]
      rw [refused]
      simp [Node.kind, Node.children, isBlock]
      rfl

end Walk

private theorem mapM_outcome {α β : Type} {step : α → Except ReadError β}
    {faults : α → List ReadError} {result : α → β}
    (h : ∀ a, step a = outcome (faults a) (result a)) (as : List α) :
    as.mapM step = outcome (as.flatMap faults) (as.map result) := by
  induction as with
  | nil => rfl
  | cons a rest ih =>
    rw [List.mapM_cons, h a, ih, List.flatMap_cons]
    apply outcome_bind
    exact outcome_bind_ok rfl

private theorem File.read_eq (f : File) :
    f.read = outcome (f.conversations.flatMap (Node.faults f.file))
      ⟨f.file, f.conversations.map Node.script, f.lineIndex⟩ := by
  rw [File.read, mapM_outcome script_eq]
  exact outcome_bind_ok rfl

mutual

/-- Followed through the ids of its children, the statement with an id is a given nested
statement. -/
def Unfolds (file : String) (s : Script) (parent : Option Nat) (id : Nat) : Node → Prop
  | .mk kind line conditions expression children =>
    ∃ statement, s.get? id = some statement ∧ statement.parent = parent ∧
      readKind file kind line expression = .ok statement.content.kind ∧
      statement.content.line = line ∧ statement.content.conditions = conditions ∧
      statement.content.expression = expression ∧
      UnfoldsList file s id statement.children children

def UnfoldsList (file : String) (s : Script) (parent : Nat) : List Nat → List Node → Prop
  | id :: ids, node :: rest => Unfolds file s (some parent) id node ∧
  UnfoldsList file s parent ids rest
  | [], [] => True
  | _, _ => False

end

mutual

private theorem unfolds_layout (file : String) (s : Script)
    {before after : List Statement} {start : Nat} {parent : Option Nat}
    (length : before.length = start) :
    (node : Node) → (∀ inner ∈ node.preorder, inner.IsSound) →
      s.statements = before ++ (node.layout start parent ++ after) →
      Unfolds file s parent start node
  | .mk kind line conditions expression children, sound, laid => by
    rw [Node.preorder, List.forall_mem_cons] at sound
    have read : readKind file kind line expression = .ok (kind.meaning expression) := by
      rw [readKind_eq, outcome_eq_ok_iff]
      have fine := (Node.ownFaults_eq_nil_iff file _).2 sound.1
      exact ⟨(List.append_eq_nil_iff.1 fine).1, rfl⟩
    rw [Node.layout] at laid
    have here : s.get? start = some ⟨⟨kind.meaning expression, line, conditions, expression⟩,
        parent, Node.ids (start + 1) children⟩ := by
      rw [Script.get?, laid, List.getElem?_append_right (by omega), length, Nat.sub_self]
      rfl
    rw [List.cons_append, List.append_cons] at laid
    have held := unfoldsList_layoutList file s (by rw [List.length_append, length]; rfl) children
      sound.2 laid
    exact ⟨_, here, rfl, read, rfl, rfl, rfl, held⟩

private theorem unfoldsList_layoutList (file : String) (s : Script) {before after : List Statement}
    {start parent : Nat} (length : before.length = start) :
    (nodes : List Node) → (∀ inner ∈ Node.preorderList nodes, inner.IsSound) →
      s.statements = before ++ (Node.layoutList start parent nodes ++ after) →
      UnfoldsList file s parent (Node.ids start nodes) nodes
  | [], _, _ => trivial
  | node :: rest, sound, laid => by
    rw [Node.preorderList, List.forall_mem_append] at sound
    rw [Node.layoutList, List.append_assoc] at laid
    have first := unfolds_layout file s length node sound.1 laid
    rw [← List.append_assoc] at laid
    have later := unfoldsList_layoutList file s
      (by rw [List.length_append, Node.length_layout, length]) rest sound.2 laid
    exact ⟨first, later⟩

end

private theorem unfolds_script (file : String) {root : Node}
    (sound : ∀ node ∈ root.preorder, node.IsSound) :
    Unfolds file root.script none root.script.root root := by
  have laid : root.script.statements = [] ++ (root.layout 0 none ++ []) := (List.append_nil _).symm
  exact unfolds_layout file root.script List.length_nil root sound laid

private theorem not_misplaced_of_mem_ownFaults {file file' : String} {node : Node}
    {e : BuilderError} :
    .misplaced file' e ∉ node.ownFaults file := by
  obtain ⟨kind, line, conditions, expression, children⟩ := node
  intro mem
  rcases List.mem_append.1 mem with own | held
  · revert own
    rcases kind with _ | _ | _ | _ | (_ | _) | _ | _ | _ | _ | _ | _ <;>
      simp [Node.kind, Form.faults]
  · split at held <;> simp at held

/-- The builder refuses nothing but a basic statement that stands for a whole node. -/
theorem outsideBlock_of_misplaced {file file' : String} {root : Node} {e : BuilderError}
    (mem : .misplaced file' e ∈ root.faults file) :
    file' = file ∧ root.kind.isBlock = false ∧
      e = .outsideBlock root.line (root.kind.meaning root.expression).name := by
  rw [Node.faults, Node.rootFaults, List.append_assoc, List.mem_append, List.mem_append,
    List.mem_flatMap] at mem
  rcases mem with own | outside | ⟨inner, _, own⟩
  · exact absurd own not_misplaced_of_mem_ownFaults
  · split at outside
    · rename_i isBasic
      obtain ⟨rfl, rfl⟩ : file' = file ∧ _ := by simpa using outside
      exact ⟨rfl, isBasic, rfl⟩
    · exact absurd outside (List.not_mem_nil)
  · exact absurd own not_misplaced_of_mem_ownFaults

/-- Reading a file succeeds exactly if each of its nodes is a block of sound statements. The scripts
then unfold to the nodes; otherwise the error is that of the first fault in the file. -/
theorem File.read_faithful (f : File) :
    ((∃ unit, f.read = .ok unit) ↔ ∀ root ∈ f.conversations,
      root.kind.isBlock = true ∧ ∀ node ∈ root.preorder, node.IsSound) ∧
    (∀ unit, f.read = .ok unit → unit.file = f.file ∧ unit.lines = f.lineIndex ∧
      List.Forall₂ (fun root s => Unfolds f.file s none s.root root ∧
        s.statements.length = root.size) f.conversations unit.scripts) ∧
    (∀ e, f.read = .error e ↔ (f.conversations.flatMap (Node.faults f.file)).head? = some e) ∧
    ∀ file e, f.read = .error (.misplaced file e) → file = f.file ∧ ∃ root ∈ f.conversations,
      root.kind.isBlock = false ∧ e = .outsideBlock root.line
        (root.kind.meaning root.expression).name := by
  have flawless : f.conversations.flatMap (Node.faults f.file) = [] ↔ ∀ root ∈ f.conversations,
      root.kind.isBlock = true ∧ ∀ node ∈ root.preorder, node.IsSound := by
    simp only [List.flatMap_eq_nil_iff, Node.faults_eq_nil_iff]
  rw [File.read_eq]
  refine ⟨?_, ?_, fun e => outcome_eq_error_iff, ?_⟩
  · rw [← flawless]
    constructor
    · rintro ⟨unit, read⟩
      exact (outcome_eq_ok_iff.1 read).1
    · intro clean
      exact ⟨_, outcome_eq_ok_iff.2 ⟨clean, rfl⟩⟩
  · intro unit read
    obtain ⟨clean, rfl⟩ := outcome_eq_ok_iff.1 read
    refine ⟨rfl, rfl, List.forall₂_map_right_iff.2 (List.forall₂_same.2 ?_)⟩
    intro root mem
    exact ⟨unfolds_script f.file (flawless.1 clean root mem).2, Node.length_layout 0 none root⟩
  · intro file e failed
    have mem := List.mem_of_head? (outcome_eq_error_iff.1 failed)
    obtain ⟨root, listed, fault⟩ := List.mem_flatMap.1 mem
    obtain ⟨same, isBasic, outside⟩ := outsideBlock_of_misplaced fault
    exact ⟨same, root, listed, isBasic, outside⟩

/-- A node with a menu, and in its option an assignment and a jump with a computed destination. -/
def Sample.menu (symbol : String) : Node :=
  .mk (.node "Start" .empty) 1 none none
    [.mk .options 2 none none
      [.mk .option 2 (some [.variable "open"]) none
        [.mk (.line none []) 2 none none [],
          .mk (.set "seen" symbol) 3 none (some [.bool true]) [],
          .mk (.jump none) 4 none (some [.variable "next"]) []]],
      .mk (.line none ["end"]) 5 none none []]

theorem File.read_faithful_sample :
    (∃ unit, File.read { file := "a", conversations := [Sample.menu "to"] } = .ok unit ∧
      List.Forall₂ (fun root s => Unfolds "a" s none s.root root ∧ s.statements.length = root.size)
        [Sample.menu "to"] unit.scripts) ∧
    File.read { file := "a", conversations := [Sample.menu "to", Sample.menu "==",
        .mk (.call "f") 1 none none []] } = .error (.notAssignment "a" 3 "==") := by
  obtain ⟨unit, read⟩ : ∃ unit, File.read { file := "a", conversations := [Sample.menu "to"] } =
      .ok unit :=
    ⟨_, rfl⟩
  refine ⟨⟨unit, read, ((File.read_faithful _).2.1 unit read).2.2⟩, ?_⟩
  exact ((File.read_faithful _).2.2.1 _).2 rfl

end Dialogue.Bundle
