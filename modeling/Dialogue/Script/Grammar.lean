import Dialogue.Script.Tree

/-!
The grammar of scripts. A node holds a body; a body is a list of items; an item is a basic
statement, a branch of guarded clauses with an optional last clause without a guard, or a menu of
choices, each with the line it shows. `Tree.check` reads a tree by this grammar and reports the
first flaw, a block before what it holds.
-/

set_option autoImplicit false
set_option relaxedAutoImplicit false

namespace Dialogue.Script

mutual

inductive Item
  | basic (statement : Content Basic)
  | branch (clauses : List Clause) (otherwise : Option (List Item))
  | menu (choices : List Choice)

inductive Clause
  | mk (line : Nat) (guard : Expression) (body : List Item)

/-- A choice of a menu: the option, the line it shows, and what follows when it is taken. -/
inductive Choice
  | mk (option : Content Unit) (shown : Content Spoken) (body : List Item)

end

/-- A script that follows the grammar. -/
structure Node where
  name : String
  headers : Dict String
  body : List Item

/-- How a tree departs from the grammar. Names are those of statement sorts. -/
inductive Flaw
  | rootNotNode (found : String)
  | nestedNode
  | noClauses
  | notClause (found : String)
  | lateIf
  | noIf
  | earlyElse
  | guardedElse
  | unguardedClause
  | strayClause
  | noOptions
  | notOption (found : String)
  | strayOption
  | noChoiceLine
  | hasChildren (kind : String)
deriving DecidableEq, Repr, Inhabited

def Flaw.message : Flaw → String
  | .rootNotNode found => "tree root must be a node, found " ++ found
  | .nestedNode => "nested node"
  | .noClauses => "if block without clauses"
  | .notClause found => "if block contains a " ++ found
  | .lateIf => "'if' clause after the first clause"
  | .noIf => "if block must start with an 'if' clause"
  | .earlyElse => "'else' clause must be the last clause"
  | .guardedElse => "'else' clause cannot have a condition"
  | .unguardedClause => "'if'/'elseif' clause without a condition"
  | .strayClause => "if clause outside of an if block"
  | .noOptions => "option list without options"
  | .notOption found => "option list contains a " ++ found
  | .strayOption => "option outside of an option list"
  | .noChoiceLine => "option does not start with its line"
  | .hasChildren kind => kind ++ " statement has children"

/-- A flaw and the source line of the statement that has it. -/
structure Fault where
  line : Nat
  flaw : Flaw
deriving DecidableEq, Repr, Inhabited

/-- What is wrong with one child of an if block, given whether it is the first and the last. -/
def clauseFlaw? (isFirst isLast : Bool) (t : Tree) : Option Flaw :=
  match t.kind with
  | .block (.ifClause .if_) =>
    if !isFirst then some .lateIf
    else if t.content.hasConditions then none else some .unguardedClause
  | .block (.ifClause .elseIf) =>
    if isFirst then some .noIf
    else if t.content.hasConditions then none else some .unguardedClause
  | .block (.ifClause .else_) =>
    if isFirst then some .noIf
    else if !isLast then some .earlyElse
    else if t.content.hasConditions then some .guardedElse else none
  | kind => some (.notClause kind.name)

/-- What is wrong with the children of an if block, the first of them or later ones. -/
def clausesFlaw? (isFirst : Bool) : List Tree → Option Flaw
  | [] => none
  | t :: rest => (clauseFlaw? isFirst rest.isEmpty t).or (clausesFlaw? false rest)

/-- What is wrong with an if block of these children. -/
def branchFlaw? (children : List Tree) : Option Flaw :=
  if children.isEmpty then some .noClauses else clausesFlaw? true children

/-- What is wrong with an option list of these children. -/
def menuFlaw? (children : List Tree) : Option Flaw :=
  if children.isEmpty then some .noOptions
  else (children.find? fun t => t.kind ≠ .block .option).map fun t => .notOption t.kind.name

namespace Tree

mutual

/-- The item that a tree stands for in a body. -/
def item : Tree → Except Fault Item
  | .node _ content children =>
    match content.kind with
    | .basic b =>
      if children.isEmpty then .ok (.basic (content.withKind b))
      else .error ⟨content.line, .hasChildren content.kind.name⟩
    | .block .ifBlock =>
      match branchFlaw? children with
      | some flaw => .error ⟨content.line, flaw⟩
      | none => do
        let (clauses, otherwise) ← clauseList children
        return .branch clauses otherwise
    | .block .options =>
      match menuFlaw? children with
      | some flaw => .error ⟨content.line, flaw⟩
      | none => do return .menu (← choiceList children)
    | .block (.node ..) => .error ⟨content.line, .nestedNode⟩
    | .block (.ifClause _) => .error ⟨content.line, .strayClause⟩
    | .block .option => .error ⟨content.line, .strayOption⟩

/-- The body that a list of trees stands for. -/
def itemList : List Tree → Except Fault (List Item)
  | [] => .ok []
  | t :: rest => do
    let first ← item t
    return first :: (← itemList rest)

/-- The guarded clauses and the last one without a guard, of the children of a sound if block. -/
def clauseList : List Tree → Except Fault (List Clause × Option (List Item))
  | [] => .ok ([], none)
  | .node _ content children :: rest => do
    let body ← itemList children
    let (clauses, otherwise) ← clauseList rest
    match content.guard? with
    | some guard => return (.mk content.line guard body :: clauses, otherwise)
    | none => return (clauses, some body)

/-- The choices of the children of a sound option list. -/
def choiceList : List Tree → Except Fault (List Choice)
  | [] => .ok []
  | .node _ option [] :: _ => .error ⟨option.line, .noChoiceLine⟩
  | .node _ option (.node _ shown below :: following) :: rest =>
    match shown.kind with
    | .basic (.line spoken) =>
      if below.isEmpty then do
        let body ← itemList following
        return .mk (option.withKind ()) (shown.withKind spoken) body :: (← choiceList rest)
      else .error ⟨shown.line, .hasChildren shown.kind.name⟩
    | _ => .error ⟨option.line, .noChoiceLine⟩

end

/-- The script that a tree stands for, or its first flaw. -/
def check : Tree → Except Fault Node
  | .node _ content children =>
    match content.kind with
    | .block (.node name headers) => do return ⟨name, headers, ← itemList children⟩
    | kind => .error ⟨content.line, .rootNotNode kind.name⟩

end Tree

end Dialogue.Script
