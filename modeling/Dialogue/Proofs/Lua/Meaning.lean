import Dialogue.Proofs.Decimal.Representation
import Dialogue.Proofs.Lua.Regrouping

/-!
What expressions come to. A `Runtime` is what the text of an expression leaves open: the script
variables, the functions, and what operators make of operands that Lua itself gives them no meaning
for. `Tree.Evaluates` is the value of a Lua expression in a runtime; `Expr.value` is that of a tree,
each of its operators with the meaning of the Lua operator that is written for it. The expression
that a tree stands for comes to the value of the tree and to no other.
-/

set_option autoImplicit false
set_option relaxedAutoImplicit false

namespace Dialogue

namespace Lua

/-- A value of Lua. Tables, functions and whatever else has an identity are told apart by a
number. -/
inductive Value
  | nil
  | bool (b : Bool)
  | number (x : Float)
  | text (s : String)
  | object (id : Nat)
deriving DecidableEq, Inhabited

/-- Everything but nil and false counts as true. -/
def Value.isTrue : Value → Bool
  | .nil | .bool false => false
  | _ => true

/-- Whether two values are equal, if that is up to Lua: two objects may have their own say. -/
def Value.isSame? : Value → Value → Option Bool
  | .nil, .nil => some true
  | .bool a, .bool b => some (a == b)
  | .number x, .number y => some (x == y)
  | .text s, .text t => some (s == t)
  | .object i, .object j => if i = j then some true else none
  | _, _ => some false

/-- What an operator makes of two numbers. The remainder takes the sign of the divisor. -/
def Binary.onNumbers? : Binary → Float → Float → Option Value
  | .add, x, y => some (.number (x + y))
  | .subtract, x, y => some (.number (x - y))
  | .multiply, x, y => some (.number (x * y))
  | .divide, x, y => some (.number (x / y))
  | .modulo, x, y => some (.number (x - (x / y).floor * y))
  | .less, x, y => some (.bool (x < y))
  | .lessEqual, x, y => some (.bool (x ≤ y))
  | .greater, x, y => some (.bool (y < x))
  | .greaterEqual, x, y => some (.bool (y ≤ x))
  | _, _, _ => none

/-- What the text of an expression leaves open. An operation without a result is an error. -/
structure Runtime where
  /-- The values of the script variables. -/
  stored : String → Value
  /-- The functions, by their names in Lua. -/
  call : String → List Value → Option Value
  unary : Unary → Value → Option Value
  binary : Binary → Value → Value → Option Value
deriving Inhabited

namespace Runtime

variable (rt : Runtime)

def applyUnary : Unary → Value → Option Value
  | .not, v => some (.bool !v.isTrue)
  | .negate, .number x => some (.number (-x))
  | op, v => rt.unary op v

/-- An operator between two operands that are both needed. -/
def applyBinary (op : Binary) (left right : Value) : Option Value :=
  match op, left.isSame? right with
  | .equal, some same => some (.bool same)
  | .unequal, some same => some (.bool !same)
  | op, _ =>
    match left, right with
    | .number x, .number y => (op.onNumbers? x y).or (rt.binary op left right)
    | _, _ => rt.binary op left right

/-- An operator between two operands. Of `and` and `or` the right one is needed only if the left one
does not decide, and the operand that decides is the result. -/
def combine (op : Binary) (left right : Option Value) : Option Value :=
  match op with
  | .and => left.bind fun v => if v.isTrue then right else some v
  | .or => left.bind fun v => if v.isTrue then some v else right
  | op => left.bind fun v => right.bind fun w => rt.applyBinary op v w

/-- An operand that decides does so whatever the other one is. -/
theorem combine_of_left {op : Binary} {v w : Value} (h : rt.combine op (some v) none = some w)
    (right : Option Value) : rt.combine op (some v) right = some w := by
  by_cases truth : v.isTrue = true
  · cases op with
    | or =>
      rw [combine, Option.bind_some, if_pos truth] at h ⊢
      exact h
    | and =>
      rw [combine, Option.bind_some, if_pos truth] at h
      cases h
    | _ => cases h
  · cases op with
    | and =>
      rw [combine, Option.bind_some, if_neg truth] at h ⊢
      exact h
    | or =>
      rw [combine, Option.bind_some, if_neg truth] at h
      cases h
    | _ => cases h

end Runtime

/-- The value of the name for infinity. -/
def huge : Float := 1 / 0

/-- The value of an expression. A numeral stands for the number that it is rounded to. -/
inductive Tree.Evaluates (rt : Runtime) : Tree → Value → Prop
  | nil : Evaluates rt .nil .nil
  | bool (b : Bool) : Evaluates rt (.bool b) (.bool b)
  | text (s : String) : Evaluates rt (.text s) (.text s)
  | numeral {coefficient places : Nat} {x : Float} (finite : x.isFinite = true)
      (unsigned : Decimal.isNegative x = false)
      (rounds : Decimal.RoundsTo (coefficient * 10 ^ (-(places : Int))) x) :
      Evaluates rt (.numeral coefficient places) (.number x)
  | huge : Evaluates rt (.field (.name "math") "huge") (.number huge)
  | lookup {key : Tree} {s : String} : Evaluates rt key (.text s) →
      Evaluates rt (.index (.name variableTable) key) (rt.stored s)
  | group {t : Tree} {v : Value} : Evaluates rt t v → Evaluates rt (.group t) v
  | unary {op : Unary} {t : Tree} {v w : Value} : Evaluates rt t v → rt.applyUnary op v = some w →
      Evaluates rt (.unary op t) w
  /-- The left operand decides. -/
  | left {op : Binary} {l r : Tree} {v w : Value} : Evaluates rt l v →
      rt.combine op (some v) none = some w → Evaluates rt (.binary op l r) w
  /-- Both operands are needed. -/
  | both {op : Binary} {l r : Tree} {v w u : Value} : Evaluates rt l v → Evaluates rt r w →
      rt.combine op (some v) (some w) = some u → Evaluates rt (.binary op l r) u
  | call {name : String} {ts : List Tree} {vs : List Value} {w : Value} :
      List.Forall₂ (Evaluates rt) ts vs → rt.call name vs = some w →
      Evaluates rt (.call (.name name) ts) w

namespace Tree

variable {rt : Runtime}

private theorem evaluates_unary {op : Unary} {t : Tree} {w : Value} :
    (Tree.unary op t).Evaluates rt w ↔ ∃ v, t.Evaluates rt v ∧ rt.applyUnary op v = some w := by
  constructor
  · intro h
    cases h with
    | unary inner result => exact ⟨_, inner, result⟩
  · rintro ⟨v, inner, result⟩
    exact .unary inner result

private theorem evaluates_group {t : Tree} {v : Value} :
    (Tree.group t).Evaluates rt v ↔ t.Evaluates rt v := by
  constructor
  · intro h
    cases h with
    | group inner => exact inner
  · exact .group

/-- If the values of the operands are known, so is that of an operator between them. -/
theorem evaluates_binary {op : Binary} {l r : Tree} {left right : Option Value}
    (hl : ∀ v, l.Evaluates rt v ↔ left = some v) (hr : ∀ v, r.Evaluates rt v ↔ right = some v)
    {w : Value} : (Tree.binary op l r).Evaluates rt w ↔ rt.combine op left right = some w := by
  constructor
  · intro h
    cases h with
    | left inner result =>
      rw [(hl _).mp inner]
      exact rt.combine_of_left result right
    | both first second result =>
      rw [(hl _).mp first, (hr _).mp second]
      exact result
  · intro result
    cases left with
    | none => cases op <;> cases result
    | some v =>
      cases right with
      | none => exact .left ((hl v).mpr rfl) result
      | some w => exact .both ((hl v).mpr rfl) ((hr w).mpr rfl) result

private theorem evaluates_call {name : String} {ts : List Tree} {w : Value} :
    (Tree.call (.name name) ts).Evaluates rt w ↔
      ∃ vs, List.Forall₂ (Evaluates rt) ts vs ∧ rt.call name vs = some w := by
  constructor
  · intro h
    cases h with
    | call arguments result => exact ⟨_, arguments, result⟩
  · rintro ⟨vs, arguments, result⟩
    exact .call arguments result

/-- A numeral that is rounded to a number stands for it, sign aside, and for no other. -/
theorem evaluates_numeral {coefficient places : Nat} {x : Float} (finite : x.isFinite = true)
    (unsigned : Decimal.isNegative x = false)
    (rounds : Decimal.RoundsTo (coefficient * 10 ^ (-(places : Int))) x) {v : Value} :
    (Tree.numeral coefficient places).Evaluates rt v ↔ v = .number x := by
  constructor
  · intro h
    cases h with
    | numeral finite' unsigned' rounds' =>
      rw [rounds'.unique rounds finite' finite (unsigned'.trans unsigned.symm)]
  · rintro rfl
    exact .numeral finite unsigned rounds

private theorem evaluates_huge {v : Value} :
    (Tree.field (.name "math") "huge").Evaluates rt v ↔ v = .number Lua.huge := by
  constructor
  · intro h
    cases h with
    | huge => rfl
  · rintro rfl
    exact .huge

end Tree

private theorem evaluates_signed {rt : Runtime} {x : Float} (number : x.isNaN = false) {t : Tree}
    (evaluates : ∀ w, t.Evaluates rt w ↔ w = .number (Decimal.unsigned x)) {v : Value} :
    (signed x t).Evaluates rt v ↔ v = .number x := by
  unfold signed
  unfold Decimal.unsigned at evaluates
  cases negative : Decimal.isNegative x with
  | false =>
    rw [negative, if_neg Bool.false_ne_true] at evaluates
    exact evaluates v
  | true =>
    rw [negative, if_pos rfl] at evaluates
    rw [if_pos rfl, Tree.evaluates_unary]
    constructor
    · rintro ⟨w, inner, result⟩
      obtain rfl := (evaluates w).mp inner
      cases result
      rw [Decimal.neg_neg number]
    · rintro rfl
      refine ⟨.number (-x), (evaluates _).mpr rfl, ?_⟩
      rw [Runtime.applyUnary, Decimal.neg_neg number]

/-- The expression of a number comes to the number. -/
theorem IsNumber.evaluates {rt : Runtime} {x : Float} {t : Tree} (h : IsNumber x t) {v : Value} :
    t.Evaluates rt v ↔ v = .number x := by
  cases h with
  | finite finite rounds =>
    have number := Decimal.isNaN_of_isFinite finite
    refine evaluates_signed number fun w => ?_
    exact Tree.evaluates_numeral ((Decimal.isFinite_unsigned number).trans finite)
      (Decimal.isNegative_unsigned number) (rounds.unsigned number)
  | infinite infinite =>
    have number := Decimal.isNaN_of_isInf infinite
    have unsigned : Decimal.unsigned x = huge :=
      Decimal.eq_of_isInf ((Decimal.isInf_unsigned number).trans infinite) rfl
        (Decimal.isNegative_unsigned number)
    refine evaluates_signed number fun w => ?_
    rw [unsigned]
    exact Tree.evaluates_huge
  | undefined undefined =>
    have zero : Decimal.RoundsTo ((0 : Nat) * 10 ^ (-((0 : Nat) : Int))) 0 := by
      simpa using Decimal.roundsTo_zero (x := 0) rfl rfl
    have numeral (w : Value) : (Tree.numeral 0 0).Evaluates rt w ↔
        some (Value.number 0) = some w := by
      rw [Tree.evaluates_numeral rfl rfl zero, Option.some_inj]
      exact eq_comm
    have quotient : x = 0 / 0 := Decimal.eq_of_isNaN undefined rfl
    have divided : rt.combine .divide (some (.number 0)) (some (.number 0)) =
        some (.number (0 / 0)) := rfl
    rw [Tree.evaluates_group, Tree.evaluates_binary numeral numeral, quotient,
      divided, Option.some_inj]
    exact eq_comm

end Lua

def Literal.value : Literal → Lua.Value
  | .bool b => .bool b
  | .number x => .number x
  | .null => .nil
  | .text s => .text s

namespace Expr

mutual

def value (rt : Lua.Runtime) : Expr → Option Lua.Value
  | .literal constant => some constant.value
  | .variable name => some (rt.stored name)
  | .group inner => value rt inner
  | .unary op operand => do rt.applyUnary (← op.luaUnary?) (← value rt operand)
  | .binary op left right => do rt.combine (← op.luaBinary?) (value rt left) (value rt right)
  | .call name arguments => do
    let vs ← values rt arguments
    match Lua.Builtin.ofScriptName? name with
    | some builtin => rt.call builtin.luaName vs
    | none => rt.call Lua.customCall (.text name :: vs)

def values (rt : Lua.Runtime) : List Expr → Option (List Lua.Value)
  | [] => some []
  | e :: rest => do return (← value rt e) :: (← values rt rest)

end

mutual

/-- The expression that a tree stands for comes to the value of the tree. -/
theorem evaluates_iff {rt : Lua.Runtime} : ∀ (e : Expr) {t : Lua.Tree}, e.ReadsAs t →
    ∀ v, t.Evaluates rt v ↔ e.value rt = some v
  | .literal constant, t, reads, v => by
    rw [value, Option.some_inj, eq_comm]
    cases reads with
    | bool b =>
      refine ⟨fun h => ?_, fun h => h ▸ .bool b⟩
      cases h
      rfl
    | null =>
      refine ⟨fun h => ?_, fun h => h ▸ .nil⟩
      cases h
      rfl
    | text s =>
      refine ⟨fun h => ?_, fun h => h ▸ .text s⟩
      cases h
      rfl
    | number number => exact number.evaluates
  | .variable name, t, reads, v => by
    rw [value, Option.some_inj]
    cases reads
    refine ⟨fun h => ?_, fun h => h ▸ .lookup (.text name)⟩
    cases h with
    | lookup key =>
      cases key
      rfl
  | .group inner, t, reads, v => by
    cases reads with
    | group reads =>
      rw [Lua.Tree.evaluates_group, value]
      exact evaluates_iff inner reads v
  | .unary op operand, t, reads, v => by
    cases reads with
    | unary symbol reads =>
      rw [Lua.Tree.evaluates_unary, value, symbol]
      simp only [Option.bind_eq_bind, Option.bind_some, Option.bind_eq_some_iff,
        evaluates_iff operand reads]
  | .binary op left right, t, reads, v => by
    cases reads with
    | binary symbol readsL readsR =>
      rw [Lua.Tree.evaluates_binary (evaluates_iff left readsL) (evaluates_iff right readsR),
        value, symbol]
      rfl
  | .call name arguments, t, reads, v => by
    rw [value]
    simp only [Option.bind_eq_bind, Option.bind_eq_some_iff]
    cases reads with
    | builtin known reads =>
      obtain ⟨builtin, found⟩ := Option.isSome_iff_exists.mp known
      have luaName : builtin.luaName = "ds_" ++ name :=
        congrArg ("ds_" ++ ·) (Lua.Builtin.scriptName_of_ofScriptName? found)
      simp only [found, luaName, Lua.Tree.evaluates_call, evaluatesAll_iff arguments reads]
    | custom unknown reads =>
      simp only [unknown]
      rw [Lua.Tree.evaluates_call]
      constructor
      · rintro ⟨_, _ | ⟨first, others⟩, result⟩
        cases first
        exact ⟨_, (evaluatesAll_iff arguments reads _).mp others, result⟩
      · rintro ⟨vs, found, result⟩
        exact ⟨.text name :: vs,
          .cons (.text name) ((evaluatesAll_iff arguments reads vs).mpr found), result⟩

private theorem evaluatesAll_iff {rt : Lua.Runtime} : ∀ (es : List Expr) {ts : List Lua.Tree},
    List.Forall₂ ReadsAs es ts →
    ∀ vs, List.Forall₂ (Lua.Tree.Evaluates rt) ts vs ↔ values rt es = some vs
  | [], ts, reads, vs => by
    cases reads
    rw [values, Option.some_inj, eq_comm]
    exact List.forall₂_nil_left_iff
  | e :: rest, ts, reads, vs => by
    cases reads with
    | cons first others =>
      rw [List.forall₂_cons_left_iff, values]
      simp only [Option.bind_eq_bind, Option.bind_eq_some_iff, evaluates_iff e first,
        evaluatesAll_iff rest others, Option.pure_def, Option.some_inj]
      constructor
      · rintro ⟨v, vs, found, foundRest, rfl⟩
        exact ⟨v, found, vs, foundRest, rfl⟩
      · rintro ⟨v, found, vs, foundRest, rfl⟩
        exact ⟨v, vs, found, foundRest, rfl⟩

end

end Expr

end Dialogue
