import Dialogue.Database.Basic
import Dialogue.Decimal.Layout
import Dialogue.Expr.Tree

/-!
Types of declared variables. The first token of a declaration gives the type; the value is the
literal that the declaration reduces to, if that is of the type, else the neutral value of the type.
-/

set_option autoImplicit false
set_option relaxedAutoImplicit false

namespace Dialogue.Variable

/-- The integer that a number is, if it is whole and below `2 ^ 53` in magnitude. -/
def whole? (x : Float) : Option Int :=
  let m := Decimal.Magnitude.ofFloat x
  let unit := Nat.pow 2 (-m.exponent).toNat
  if m.exponent ≤ 0 && m.significand % unit = 0 then
    let n := m.significand / unit
    some (if Decimal.isNegative x then -n else n)
  else none

/-- A number as an initial value: an integer if it is whole and below `2 ^ 53` in magnitude. -/
def numberValue (x : Float) : Json :=
  match whole? x with
  | some n => .num (.int n)
  | none => if finite : x.isFinite then .num (.real x finite) else .num (.int 0)

/-- The literal that the only tree of a token list reduces to. -/
def constant? (tokens : Expression) : Option Literal :=
  match tokens.trees with
  | .ok [single] => single.constant?
  | _ => none

/-- The type and initial value that a declaration gives its variable. -/
def infer (payload : Option Expression) : VariableKind × Json :=
  match payload.bind List.head?, payload.bind constant? with
  | some (.bool _), some (.bool b) => (.boolean, .bool b)
  | some (.bool _), _ => (.boolean, .bool false)
  | some (.number _), some (.number x) => (.number, numberValue x)
  | some (.number _), _ => (.number, .num (.int 0))
  | some (.text _), some (.text s) => (.text, .str s)
  | _, _ => (.text, .str "")

end Dialogue.Variable
