import Dialogue.Command.Basic
import Dialogue.Json.Decode

/-!
Tokens and command arguments as JSON: a name alone, or an object with the name as its only member.
-/

set_option autoImplicit false
set_option relaxedAutoImplicit false

namespace Dialogue

def Token.toJson : Token → Json
  | .bool b => .obj [("Bool", .bool b)]
  | .number x => .obj [("Number", .ofFloat x)]
  | .null => .str "Null"
  | .text s => .obj [("Text", .str s)]
  | .variable name => .obj [("Variable", .str name)]
  | .function name arity =>
    .obj [("Function", .obj [("name", .str name), ("arity", Json.ofNat arity)])]
  | .operator op arity =>
    .obj [("Operator", .obj [("kind", .str op.name), ("arity", Json.ofNat arity)])]
  | .group => .str "ParenGroup"

def Token.ofJson? (setting : Json.Setting) (value : Json) : Option Token := do
  match ← Json.variant? value with
  | ("Bool", some payload) => return .bool (← payload.bool?)
  | ("Number", some payload) => return .number (← payload.float?)
  | ("Text", some payload) => return .text (← payload.text?)
  | ("Variable", some payload) => return .variable (← payload.text?)
  | ("Function", some payload) =>
    let r ← Json.Record.of? ["name", "arity"] payload
    return .function (← r.required? "name" Json.text?) (← r.required? "arity" Json.word64?)
  | ("Operator", some payload) =>
    let r ← Json.Record.of? ["kind", "arity"] payload
    return .operator (← r.required? "kind" (Json.name? setting Operator.ofName?))
      (← r.required? "arity" Json.word64?)
  | ("Null", payload) => if payload.all (Json.isUnit setting) then some .null else none
  | ("ParenGroup", payload) => if payload.all (Json.isUnit setting) then some .group else none
  | _ => none

namespace Expression

def toJson (tokens : Expression) : Json :=
  .arr (tokens.map Token.toJson)

def ofJson? (setting : Json.Setting) : Json → Option Expression :=
  Json.list? (Token.ofJson? setting)

end Expression

namespace Command.Argument

def toJson : Argument → Json
  | .text s => .obj [("Text", .str s)]
  | .expression tokens => .obj [("Expression", tokens.toJson)]

def ofJson? (setting : Json.Setting) (value : Json) : Option Argument := do
  match ← Json.variant? value with
  | ("Text", some payload) => return .text (← payload.text?)
  | ("Expression", some payload) => return .expression (← Expression.ofJson? setting payload)
  | _ => none

end Command.Argument

end Dialogue
