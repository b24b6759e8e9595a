import Dialogue.Expr.Operator

/-!
Expressions as lists of tokens in the order in which a reader leaves the nodes of their trees:
operands from left to right, then the operator, function or parenthesis that takes them. One list
may hold several expressions side by side.
-/

set_option autoImplicit false
set_option relaxedAutoImplicit false

namespace Dialogue

inductive Token
  | bool (b : Bool)
  | number (x : Float)
  | null
  | text (s : String)
  | variable (name : String)
  | function (name : String) (arity : Nat)
  | operator (op : Operator) (arity : Nat)
  /-- A parenthesis around the operand before it. -/
  | group
deriving DecidableEq, Inhabited

abbrev Expression := List Token

/-- What takes operands off the stack. -/
inductive Token.Head
  | parenthesis
  | operator (op : Operator)
  | function (name : String)
deriving DecidableEq, Repr, Inhabited

def Token.Head.describe : Token.Head → String
  | .parenthesis => "parenthesis"
  | .operator op => "operator '" ++ op.symbol ++ "'"
  | .function name => "function '" ++ name ++ "'"

/-- Why an expression has no Lua form. -/
inductive ExprError
  /-- An operator token with a number of operands that the operator does not take. -/
  | badArity (op : Operator) (count : Nat)
  /-- A token that takes more operands than there are. -/
  | operands (head : Token.Head) (needed found : Nat)
  /-- Several expressions, or none, where one is needed. -/
  | notSingle (found : Nat)
  /-- An operator with one operand that is not a unary one. -/
  | notUnary (op : Operator)
  /-- A unary operator with two operands. -/
  | notBinary (op : Operator)
  /-- An operator that stores a value, inside an expression. -/
  | assignment (op : Operator)
  /-- A wait whose duration is not a number. -/
  | badDuration (item : String)
  /-- A wait without a duration. -/
  | noDuration
deriving DecidableEq, Repr, Inhabited

namespace ExprError

/-- Whether the expression is broken, rather than sound but without a Lua form. -/
def isMalformed : ExprError → Bool
  | .assignment _ | .badDuration _ | .noDuration => false
  | _ => true

def message : ExprError → String
  | .badArity op count =>
    "operator '" ++ op.symbol ++ "' cannot take " ++ toString count ++ " operand(s)"
  | .operands head needed found =>
    head.describe ++ " expects " ++ toString needed ++ " operand(s), found " ++ toString found
  | .notSingle found => "expected one expression, found " ++ toString found
  | .notUnary op => "operator '" ++ op.symbol ++ "' used as unary"
  | .notBinary op => "unary operator '" ++ op.symbol ++ "' used with two operands"
  | .assignment op =>
    "assignment operator '" ++ op.symbol ++ "' cannot appear inside an expression"
  | .badDuration item => "wait expects a duration, found '" ++ item ++ "'"
  | .noDuration => "wait without a duration"

end ExprError

end Dialogue
