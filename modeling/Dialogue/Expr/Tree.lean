import Dialogue.Expr.Token

/-!
Expressions as trees. `Expression.trees` folds a token list into its trees with a stack;
`Expr.constant?` is the literal that a tree without variables and calls reduces to.
-/

set_option autoImplicit false
set_option relaxedAutoImplicit false

namespace Dialogue

inductive Literal
  | bool (b : Bool)
  | number (x : Float)
  | null
  | text (s : String)
deriving DecidableEq, Inhabited

inductive Expr
  | literal (value : Literal)
  | variable (name : String)
  | group (inner : Expr)
  | unary (op : Operator) (operand : Expr)
  | binary (op : Operator) (left right : Expr)
  | call (name : String) (arguments : List Expr)
deriving Inhabited

namespace Expression

/-- Take a number of operands off the stack, whose top is its first element. They are returned in
source order, with what is left of the stack. -/
def takeOperands (stack : List Expr) (count : Nat) (head : Token.Head) :
    Except ExprError (List Expr × List Expr) :=
  if stack.length < count then .error (.operands head count stack.length)
  else .ok ((stack.take count).reverse, stack.drop count)

/-- The tree of an operator with its operands. Minus with one operand is negation. -/
def applyOperator (op : Operator) : List Expr → Option Expr
  | [operand] => some (.unary (if op = .minus then .unaryMinus else op) operand)
  | [left, right] => some (.binary op left right)
  | _ => none

def push (stack : List Expr) : Token → Except ExprError (List Expr)
  | .bool b => .ok (.literal (.bool b) :: stack)
  | .number x => .ok (.literal (.number x) :: stack)
  | .null => .ok (.literal .null :: stack)
  | .text s => .ok (.literal (.text s) :: stack)
  | .variable name => .ok (.variable name :: stack)
  | .group => do
    let (operands, rest) ← takeOperands stack 1 .parenthesis
    return (operands.map Expr.group).reverse ++ rest
  | .operator op arity =>
    if op.takes arity then do
      let (operands, rest) ← takeOperands stack arity (.operator op)
      return (applyOperator op operands).toList ++ rest
    else .error (.badArity op arity)
  | .function name arity => do
    let (operands, rest) ← takeOperands stack arity (.function name)
    return .call name operands :: rest

/-- The trees of a token list, in source order. -/
def trees (tokens : Expression) : Except ExprError (List Expr) :=
  (tokens.foldlM push []).map List.reverse

end Expression

namespace Expr

/-- Arithmetic on two literal numbers. The remainder takes the sign of the divisor. -/
def arithmetic? (op : Operator) (l r : Float) : Option Float :=
  match op with
  | .add => some (l + r)
  | .minus => some (l - r)
  | .multiply => some (l * r)
  | .divide => some (l / r)
  | .modulo => some (l - (l / r).floor * r)
  | _ => none

/-- Logic on two literal truth values. -/
def logic? (op : Operator) (l r : Bool) : Option Bool :=
  match op with
  | .and => some (l && r)
  | .or => some (l || r)
  | .xor => some (l != r)
  | _ => none

def foldUnary? : Operator → Literal → Option Literal
  | .unaryMinus, .number x => some (.number (-x))
  | .not, .bool b => some (.bool (!b))
  | _, _ => none

/-- A binary operator on two literals. A number that is not finite is not folded. -/
def foldBinary? (op : Operator) : Literal → Literal → Option Literal
  | .number l, .number r => ((arithmetic? op l r).filter Float.isFinite).map .number
  | .bool l, .bool r => (logic? op l r).map .bool
  | _, _ => none

/-- The literal that a tree without variables and calls reduces to by logic and arithmetic. -/
def constant? : Expr → Option Literal
  | .literal value => some value
  | .group inner => inner.constant?
  | .unary op operand => operand.constant?.bind (foldUnary? op)
  | .binary op left right => do foldBinary? op (← left.constant?) (← right.constant?)
  | .variable _ | .call _ _ => none

end Expr

end Dialogue
