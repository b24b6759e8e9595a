import Dialogue.Bundle.Basic
import Dialogue.Expr.Codec

/-!
Bundles as JSON. A statement's kind is an object with the member `type`, or an array with the type
in front; the other members that may be left out have defaults. Inside a kind every value is read,
also one that is then ignored.
-/

set_option autoImplicit false
set_option relaxedAutoImplicit false

namespace Dialogue.Bundle

namespace Form

def toJson : Form → Json
  | .node name headers =>
    .obj [("type", .str "node"), ("name", .str name), ("headers", .ofDict .str headers)]
  | .line lineId hashtags =>
    .obj [("type", .str "line"), ("line_id", .ofText? lineId),
      ("hashtags", .arr (hashtags.map .str))]
  | .command name arguments text =>
    .obj [("type", .str "command"), ("name", .str name),
      ("arguments", .arr (arguments.map Command.Argument.toJson)), ("text", .str text)]
  | .call name => .obj [("type", .str "call"), ("name", .str name)]
  | .jump destination => .obj [("type", .str "jump"), ("node", .ofText? destination)]
  | .set name symbol =>
    .obj [("type", .str "set"), ("variable", .str name), ("operator", .str symbol)]
  | .declare name => .obj [("type", .str "declare"), ("variable", .str name)]
  | .ifBlock => .obj [("type", .str "if")]
  | .ifClause clause => .obj [("type", .str "if_clause"), ("clause", .str clause.name)]
  | .options => .obj [("type", .str "options")]
  | .option => .obj [("type", .str "option")]

/-- The symbol of an assignment that names none. -/
def defaultSymbol : String := "="

/-- The kind with a tag, from the object that holds the tag or from the array behind it. -/
def ofTag? (content : Json) (tag : String) : Option Form :=
  let record := fun (known : List String) => Json.Record.of? known content
  match tag with
  | "node" => do
    let r ← record ["name", "headers"]
    return .node (← r.required? "name" Json.text?)
      (← r.withDefault? "headers" .empty (Json.dict? Json.text?))
  | "line" => do
    let r ← record ["line_id", "hashtags"]
    return .line (← r.optional? "line_id" Json.text?)
      (← r.withDefault? "hashtags" [] (Json.list? Json.text?))
  | "command" => do
    let r ← record ["name", "arguments", "text"]
    return .command (← r.required? "name" Json.text?)
      (← r.withDefault? "arguments" [] (Json.list? (Command.Argument.ofJson? .tagged)))
      (← r.withDefault? "text" "" Json.text?)
  | "call" => do
    let r ← record ["name"]
    return .call (← r.required? "name" Json.text?)
  | "jump" => do
    let r ← record ["node"]
    return .jump (← r.optional? "node" Json.text?)
  | "set" => do
    let r ← record ["variable", "operator"]
    return .set (← r.required? "variable" Json.text?)
      (← r.withDefault? "operator" defaultSymbol Json.text?)
  | "declare" => do
    let r ← record ["variable"]
    return .declare (← r.required? "variable" Json.text?)
  | "if" => (record []).map fun _ => .ifBlock
  | "if_clause" => do
    let r ← record ["clause"]
    return .ifClause (← r.required? "clause" (Json.name? .tagged Script.ClauseKind.ofName?))
  | "options" => (record []).map fun _ => .options
  | "option" => (record []).map fun _ => .option
  | _ => none

def ofJson? (value : Json) : Option Form := do
  if !value.readable then failure
  match value with
  | .arr (tag :: content) => ofTag? (.arr content) (← tag.text?)
  | _ =>
    let tagged ← Json.Record.of? ["type"] value
    ofTag? value (← tagged.required? "type" Json.text?)

end Form

namespace Node

/-- The members of a record that has a value. -/
def member (name : String) : Option Json → List (String × Json)
  | some value => [(name, value)]
  | none => []

mutual

def toJson : Node → Json
  | .mk kind line conditions expression children =>
    .obj ([("kind", kind.toJson), ("line", .ofNat line)] ++
      member "conditions" (conditions.map Expression.toJson) ++
      member "expression" (expression.map Expression.toJson) ++
      (if children.isEmpty then [] else [("children", .arr (toJsonList children))]))

/-- The JSON forms of a list of statements. -/
def toJsonList : List Node → List Json
  | [] => []
  | node :: rest => toJson node :: toJsonList rest

end

/-- The names of a statement's fields. -/
def known : List String :=
  ["kind", "line", "conditions", "expression", "children"]

/-- The statement of a record, with the statements that it holds. -/
def ofRecord? (r : Json.Record) (children : Option (List Node)) : Option Node := do
  let kind ← r.required? "kind" Form.ofJson?
  let line ← r.withDefault? "line" 0 Json.word32?
  let conditions ← r.optional? "conditions" (Expression.ofJson? .plain)
  let expression ← r.optional? "expression" (Expression.ofJson? .plain)
  return .mk kind line conditions expression (← children)

mutual

def ofJson? : Json → Option Node
  | .obj members => do
    ofRecord? (← Json.Record.of? known (.obj members)) (childrenOf? members)
  | .arr items => do
    ofRecord? (← Json.Record.of? known (.arr items)) (childrenAt? 4 items)
  | _ => none

/-- The statements that the value at a position lists, none if there is no such value. -/
def childrenAt? : Nat → List Json → Option (List Node)
  | _, [] => some []
  | 0, value :: _ =>
    match value with
    | .arr items => ofJsonList? items
    | _ => none
  | n + 1, _ :: rest => childrenAt? n rest

/-- The statements that a member `children` lists, none if there is no such member. -/
def childrenOf? : List (String × Json) → Option (List Node)
  | [] => some []
  | (name, value) :: rest =>
    if name = "children" then
      match value with
      | .arr items => ofJsonList? items
      | _ => none
    else childrenOf? rest

/-- The statements of a list of JSON values. -/
def ofJsonList? : List Json → Option (List Node)
  | [] => some []
  | value :: rest => do
    let node ← ofJson? value
    return node :: (← ofJsonList? rest)

end

end Node

def LineId.toJson (l : LineId) : Json :=
  .obj [("conversation", .str l.conversation), ("line", .ofNat l.line), ("line_id", .str l.lineId)]

def LineId.ofJson? (value : Json) : Option LineId := do
  let r ← Json.Record.of? ["conversation", "line", "line_id"] value
  return ⟨← r.required? "conversation" Json.text?, ← r.required? "line" Json.word32?,
    ← r.required? "line_id" Json.text?⟩

def File.toJson (f : File) : Json :=
  .obj [("file", .str f.file), ("conversations", .arr (Node.toJsonList f.conversations)),
    ("line_ids", .arr (f.lineIds.map LineId.toJson)),
    ("strings", .ofDict (.ofDict .str) f.strings)]

def File.ofJson? (value : Json) : Option File := do
  let r ← Json.Record.of? ["file", "conversations", "line_ids", "strings"] value
  return ⟨← r.required? "file" Json.text?,
    ← r.withDefault? "conversations" [] (Json.list? Node.ofJson?),
    ← r.withDefault? "line_ids" [] (Json.list? LineId.ofJson?),
    ← r.withDefault? "strings" .empty (Json.dict? (Json.dict? Json.text?))⟩

def toJson (b : Bundle) : Json :=
  .obj [("units", .arr (b.files.map File.toJson))]

def ofJson? (value : Json) : Option Bundle := do
  let r ← Json.Record.of? ["units"] value
  return ⟨← r.withDefault? "units" [] (Json.list? File.ofJson?)⟩

end Dialogue.Bundle
