import Dialogue.Decimal.Layout
import Dialogue.Expr.Tree
import Dialogue.Lua.Builtin

/-!
Lua source for expressions. `Expr.lua` is the fragment of one tree; `Expression.fragments` gives one
fragment for each tree of a token list and `Expression.fragment` the only one.
-/

set_option autoImplicit false
set_option relaxedAutoImplicit false

namespace Dialogue

namespace Lua

/-- How a character is written inside a string literal. -/
def escape (c : Char) : List Char :=
  match c with
  | '\\' => ['\\', '\\']
  | '\'' => ['\\', '\'']
  | '\n' => ['\\', 'n']
  | '\r' => ['\\', 'r']
  | '\t' => ['\\', 't']
  | c => [c]

def text (s : String) : String :=
  String.ofList ('\'' :: (s.toList.flatMap escape ++ ['\'']))

/-- The spelling of a number, also of those that Lua has no numeral for. -/
def number (x : Float) : String :=
  if x.isNaN then "(0/0)"
  else if x.isInf then (if x > 0 then "math.huge" else "-math.huge")
  else Decimal.text x

/-- The look-up of a script variable. -/
def lookup (name : String) : String :=
  variableTable ++ "[" ++ text name ++ "]"

/-- The call of a script function: of its Lua name if it is built in, else by its script name. -/
def call (name : String) (arguments : List String) : String :=
  match Builtin.ofScriptName? name with
  | some builtin => builtin.luaName ++ "(" ++ String.intercalate ", " arguments ++ ")"
  | none => customCall ++ "(" ++ String.intercalate ", " (text name :: arguments) ++ ")"

def literal : Literal → String
  | .bool true => "true"
  | .bool false => "false"
  | .number x => number x
  | .null => "nil"
  | .text s => text s

/-- The spelling of an operator between two operands. Unequal truth values are what `xor` asks
for. -/
def binaryOperator : Operator → Except ExprError String
  | .equalTo => .ok "=="
  | .greaterThan => .ok ">"
  | .greaterThanOrEqualTo => .ok ">="
  | .lessThan => .ok "<"
  | .lessThanOrEqualTo => .ok "<="
  | .notEqualTo | .xor => .ok "~="
  | .or => .ok "or"
  | .and => .ok "and"
  | .add => .ok "+"
  | .minus => .ok "-"
  | .multiply => .ok "*"
  | .divide => .ok "/"
  | .modulo => .ok "%"
  | .not => .error (.notBinary .not)
  | .unaryMinus => .error (.notBinary .unaryMinus)
  | op => .error (.assignment op)

/-- An operator before its operand. Two minus signs in a row would start a comment. -/
def unaryFragment (op : Operator) (operand : String) : Except ExprError String :=
  match op with
  | .not => .ok ("not " ++ operand)
  | .unaryMinus =>
    .ok (if operand.toList.head? = some '-' then "- " ++ operand else "-" ++ operand)
  | op => .error (.notUnary op)

end Lua

namespace Expr

mutual

def lua : Expr → Except ExprError String
  | .literal value => .ok (Lua.literal value)
  | .variable name => .ok (Lua.lookup name)
  | .group inner => do return "(" ++ (← lua inner) ++ ")"
  | .unary op operand => do Lua.unaryFragment op (← lua operand)
  | .binary op left right => do
    let symbol ← Lua.binaryOperator op
    return (← lua left) ++ " " ++ symbol ++ " " ++ (← lua right)
  | .call name arguments => do return Lua.call name (← luaList arguments)

/-- The Lua fragments of a list of trees. -/
def luaList : List Expr → Except ExprError (List String)
  | [] => .ok []
  | e :: rest => do return (← lua e) :: (← luaList rest)

end

end Expr

namespace Expression

/-- The Lua fragments of the expressions in a token list, in source order. -/
def fragments (tokens : Expression) : Except ExprError (List String) := do
  Expr.luaList (← tokens.trees)

/-- The Lua fragment of the only expression in a token list. -/
def fragment (tokens : Expression) : Except ExprError String := do
  match ← tokens.fragments with
  | [single] => return single
  | found => throw (.notSingle found.length)

end Expression

end Dialogue
