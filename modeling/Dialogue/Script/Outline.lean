import Dialogue.Outline
import Dialogue.Script.Basic

/-!
Outlines of scripts: every statement with all that it holds, in the order of the ids.
-/

set_option autoImplicit false
set_option relaxedAutoImplicit false

namespace Dialogue

def Token.outline : Token → Outline
  | .bool b => .tagged "Bool" (.leaf (if b then "true" else "false"))
  | .number x => .tagged "Number" (.ofFloat x)
  | .null => .leaf "Null"
  | .text s => .tagged "Text" (.ofText s)
  | .variable name => .tagged "Variable" (.ofText name)
  | .function name arity => .record "Function" [("name", .ofText name), ("arity", .ofNat arity)]
  | .operator op arity => .record "Operator" [("kind", .leaf op.name), ("arity", .ofNat arity)]
  | .group => .leaf "ParenGroup"

def Expression.outline (tokens : Expression) : Outline :=
  .record "Expression" [("tokens", .list (tokens.map Token.outline))]

def Command.Argument.outline : Command.Argument → Outline
  | .text s => .tagged "Text" (.ofText s)
  | .expression tokens => .tagged "Expression" tokens.outline

namespace Script

def Target.outline : Target → Outline
  | .node name => .tagged "Node" (.ofText name)
  | .computed tokens => .tagged "Expression" tokens.outline

def Kind.outline : Kind → Outline
  | .basic (.line spoken) =>
    .record "Line" [("line_id", .optional (spoken.lineId.map .ofText)),
      ("hashtags", .list (spoken.hashtags.map .ofText))]
  | .basic (.command name arguments rawText) =>
    .record "Command" [("name", .ofText name), ("kind", .leaf (Command.Kind.ofName name).name),
      ("tokens", .list (arguments.map Command.Argument.outline)), ("raw_text", .ofText rawText)]
  | .basic (.call name) => .record "Call" [("name", .ofText name)]
  | .basic (.jump target) => .record "Jump" [("destination", target.outline)]
  | .basic (.set name op) => .record "Set" [("variable", .ofText name), ("op", .leaf op.name)]
  | .basic (.declare name) => .record "Declare" [("variable", .ofText name)]
  | .block (.node name headers) =>
    .record "Conversation" [("name", .ofText name),
      ("headers", .table (headers.entries.map fun entry => (entry.1, .ofText entry.2)))]
  | .block .ifBlock => .leaf "IfBlock"
  | .block (.ifClause kind) => .record "IfClause" [("kind", .leaf kind.name)]
  | .block .options => .leaf "ShortcutOptionList"
  | .block .option => .leaf "ShortcutOption"

def outlineOfId (id : Nat) : Outline :=
  .tagged "StatementId" (.ofNat id)

def Statement.outline (s : Statement) : Outline :=
  .record "Statement" [("kind", s.content.kind.outline), ("line", .ofNat s.content.line),
    ("parent", .optional (s.parent.map outlineOfId)),
    ("children", .list (s.children.map outlineOfId)),
    ("conditions", .optional (s.content.conditions.map Expression.outline)),
    ("expression", .optional (s.content.expression.map Expression.outline))]

def outline (s : Script) : Outline :=
  .record "ScriptTree" [("statements", .list (s.statements.map Statement.outline)),
    ("root", outlineOfId s.root)]

end Script

end Dialogue
