/-!
The operators of script expressions: their spellings in the script, the numbers of operands they
take, and which of them store a value.
-/

set_option autoImplicit false
set_option relaxedAutoImplicit false

namespace Dialogue

inductive Operator
  | equalTo
  | greaterThan
  | greaterThanOrEqualTo
  | lessThan
  | lessThanOrEqualTo
  | notEqualTo
  | or
  | and
  | xor
  | not
  | unaryMinus
  | add
  | minus
  | multiply
  | divide
  | modulo
  | assign
  | addAssign
  | minusAssign
  | multiplyAssign
  | divideAssign
deriving DecidableEq, Repr, Inhabited

/-- How a `set` statement combines the new value with the stored one. -/
inductive Update
  | assign
  | add
  | minus
  | multiply
  | divide
deriving DecidableEq, Repr, Inhabited

namespace Operator

def all : List Operator :=
  [.equalTo, .greaterThan, .greaterThanOrEqualTo, .lessThan, .lessThanOrEqualTo, .notEqualTo, .or,
    .and, .xor, .not, .unaryMinus, .add, .minus, .multiply, .divide, .modulo, .assign, .addAssign,
    .minusAssign, .multiplyAssign, .divideAssign]

/-- The operator that a symbol or word of the script stands for. Negation has no symbol of its
own. -/
def ofSymbol? : String → Option Operator
  | "==" | "eq" | "is" => some .equalTo
  | ">" | "gt" => some .greaterThan
  | ">=" | "gte" => some .greaterThanOrEqualTo
  | "<" | "lt" => some .lessThan
  | "<=" | "lte" => some .lessThanOrEqualTo
  | "!=" | "neq" => some .notEqualTo
  | "||" | "or" => some .or
  | "&&" | "and" => some .and
  | "^" | "xor" => some .xor
  | "!" | "not" => some .not
  | "=" | "to" => some .assign
  | "+" => some .add
  | "-" => some .minus
  | "*" => some .multiply
  | "/" => some .divide
  | "%" => some .modulo
  | "+=" => some .addAssign
  | "-=" => some .minusAssign
  | "*=" => some .multiplyAssign
  | "/=" => some .divideAssign
  | _ => none

def symbol : Operator → String
  | .equalTo => "=="
  | .greaterThan => ">"
  | .greaterThanOrEqualTo => ">="
  | .lessThan => "<"
  | .lessThanOrEqualTo => "<="
  | .notEqualTo => "!="
  | .or => "||"
  | .and => "&&"
  | .xor => "^"
  | .not => "!"
  | .unaryMinus | .minus => "-"
  | .add => "+"
  | .multiply => "*"
  | .divide => "/"
  | .modulo => "%"
  | .assign => "="
  | .addAssign => "+="
  | .minusAssign => "-="
  | .multiplyAssign => "*="
  | .divideAssign => "/="

def name : Operator → String
  | .equalTo => "EqualTo"
  | .greaterThan => "GreaterThan"
  | .greaterThanOrEqualTo => "GreaterThanOrEqualTo"
  | .lessThan => "LessThan"
  | .lessThanOrEqualTo => "LessThanOrEqualTo"
  | .notEqualTo => "NotEqualTo"
  | .or => "Or"
  | .and => "And"
  | .xor => "Xor"
  | .not => "Not"
  | .unaryMinus => "UnaryMinus"
  | .add => "Add"
  | .minus => "Minus"
  | .multiply => "Multiply"
  | .divide => "Divide"
  | .modulo => "Modulo"
  | .assign => "Assign"
  | .addAssign => "AddAssign"
  | .minusAssign => "MinusAssign"
  | .multiplyAssign => "MultiplyAssign"
  | .divideAssign => "DivideAssign"

def ofName? (name : String) : Option Operator :=
  all.find? (·.name = name)

theorem ofName?_name (op : Operator) : ofName? op.name = some op := by
  cases op <;> rfl

/-- Whether an operator takes one operand only. -/
def isUnary : Operator → Bool
  | .not | .unaryMinus => true
  | _ => false

def changesStored : Operator → Bool
  | .addAssign | .minusAssign | .multiplyAssign | .divideAssign => true
  | _ => false

/-- Whether an operator stores a value. -/
def isAssignment (op : Operator) : Bool :=
  op = .assign || op.changesStored

/-- Whether an operator takes a number of operands. Minus is negation when it has one. -/
def takes (op : Operator) (arity : Nat) : Bool :=
  match op with
  | .minus => arity = 1 || arity = 2
  | op => if op.isUnary then arity = 1 else arity = 2

def update? : Operator → Option Update
  | .assign => some .assign
  | .addAssign => some .add
  | .minusAssign => some .minus
  | .multiplyAssign => some .multiply
  | .divideAssign => some .divide
  | _ => none

end Operator

namespace Update

/-- The storing operator that a symbol stands for. -/
def ofSymbol? (symbol : String) : Option Update :=
  (Operator.ofSymbol? symbol).bind Operator.update?

def name : Update → String
  | .assign => "Assign"
  | .add => "Add"
  | .minus => "Minus"
  | .multiply => "Multiply"
  | .divide => "Divide"

/-- The Lua operator that combines the stored value with the new one. -/
def luaOperator? : Update → Option String
  | .assign => none
  | .add => some "+"
  | .minus => some "-"
  | .multiply => some "*"
  | .divide => some "/"

end Update

end Dialogue
