import Dialogue.Database.Declaration
import Dialogue.Proofs.Lua.Meaning
import Dialogue.Proofs.Requirements

/-!
Constant folding. A tree folds if it is made of literals by logic on truth values and arithmetic on
numbers, and no arithmetic in it leaves the finite numbers (`Expr.IsFoldable`). It then reduces to
the literal that is its value in every runtime, and no other tree reduces to anything.

What is put in the place of a tree need not stand for its value. The number that a tree reduces to
does as the duration of a delay. The fragment of any other tree does if it is read as the tree,
which is so just if the tree nests. The initial value of a variable does unless the tree reduces to
nil or to a number that is not finite.
-/

set_option autoImplicit false
set_option relaxedAutoImplicit false

namespace Dialogue

inductive Literal.Kind
  | truth
  | number
  | null
  | text

namespace Literal

def kind : Literal → Kind
  | .bool _ => .truth
  | .number _ => .number
  | .null => .null
  | .text _ => .text

private theorem value_injective : Function.Injective value := by
  intro l m same
  cases l <;> cases m <;> cases same <;> rfl

private theorem exists_bool {l : Literal} (h : l.kind = .truth) : ∃ b, l = .bool b := by
  cases l <;> cases h
  exact ⟨_, rfl⟩

private theorem exists_number {l : Literal} (h : l.kind = .number) : ∃ x, l = .number x := by
  cases l <;> cases h
  exact ⟨_, rfl⟩

end Literal

namespace Expr

/-- Literals, logic on truth values and arithmetic on numbers. -/
inductive HasKind : Expr → Literal.Kind → Prop
  | literal (l : Literal) : HasKind (.literal l) l.kind
  | group {e : Expr} {k : Literal.Kind} : HasKind e k → HasKind (.group e) k
  | not {e : Expr} : HasKind e .truth → HasKind (.unary .not e) .truth
  | negation {e : Expr} : HasKind e .number → HasKind (.unary .unaryMinus e) .number
  | logic {op : Operator} {left right : Expr} : op ∈ [.and, .or, .xor] → HasKind left .truth →
      HasKind right .truth → HasKind (.binary op left right) .truth
  | arithmetic {op : Operator} {left right : Expr} :
      op ∈ [.add, .minus, .multiply, .divide, .modulo] → HasKind left .number →
      HasKind right .number → HasKind (.binary op left right) .number

/-- No operator of a tree makes a number that is not finite. -/
def StaysFinite : Expr → Prop
  | .group inner => inner.StaysFinite
  | .unary _ operand => operand.StaysFinite
  | .binary op left right => left.StaysFinite ∧ right.StaysFinite ∧
    ∀ rt x, (Expr.binary op left right).value rt = some (.number x) → x.isFinite = true
  | _ => True

/-- The trees that reduce to a literal. -/
structure IsFoldable (e : Expr) : Prop where
  typed : ∃ k, e.HasKind k
  finite : e.StaysFinite

/-- A tree without variables and calls. -/
def IsClosed : Expr → Prop
  | .literal _ => True
  | .variable _ | .call _ _ => False
  | .group inner => inner.IsClosed
  | .unary _ operand => operand.IsClosed
  | .binary _ left right => left.IsClosed ∧ right.IsClosed

private theorem HasKind.isClosed {e : Expr} {k : Literal.Kind} (h : e.HasKind k) : e.IsClosed := by
  induction h with
  | literal l => trivial
  | group _ ih => exact ih
  | not _ ih => exact ih
  | negation _ ih => exact ih
  | logic _ _ _ left right => exact ⟨left, right⟩
  | arithmetic _ _ _ left right => exact ⟨left, right⟩

/-- A folded operator before a literal gives what Lua's operator gives. -/
theorem foldUnary?_sound {op : Operator} {l folded : Literal} (h : foldUnary? op l = some folded) :
    (∀ {e : Expr}, e.HasKind l.kind → (Expr.unary op e).HasKind folded.kind) ∧
      ∃ u, op.luaUnary? = some u ∧
        ∀ rt : Lua.Runtime, rt.applyUnary u l.value = some folded.value := by
  unfold foldUnary? at h
  split at h
  · cases h
    exact ⟨.negation, .negate, rfl, fun rt => rfl⟩
  · next b =>
    cases h
    refine ⟨.not, .not, rfl, fun rt => ?_⟩
    cases b <;> rfl
  · cases h

/-- Arithmetic is Lua's on two numbers. -/
theorem arithmetic?_sound {op : Operator} {x y z : Float} (h : arithmetic? op x y = some z) :
    op ∈ [.add, .minus, .multiply, .divide, .modulo] ∧ ∃ b, op.luaBinary? = some b ∧
      ∀ rt : Lua.Runtime, rt.combine b (some (.number x))
        (some (.number y)) = some (.number z) := by
  unfold arithmetic? at h
  split at h <;> cases h
  · exact ⟨by simp, .add, rfl, fun rt => rfl⟩
  · exact ⟨by simp, .subtract, rfl, fun rt => rfl⟩
  · exact ⟨by simp, .multiply, rfl, fun rt => rfl⟩
  · exact ⟨by simp, .divide, rfl, fun rt => rfl⟩
  · exact ⟨by simp, .modulo, rfl, fun rt => rfl⟩

/-- On truth values the operand that decides is the conjunction or disjunction, and to be unequal is
to exclude each other. -/
theorem logic?_sound {op : Operator} {a b c : Bool} (h : logic? op a b = some c) :
    op ∈ [.and, .or, .xor] ∧ ∃ s, op.luaBinary? = some s ∧
      ∀ rt : Lua.Runtime, rt.combine s (some (.bool a)) (some (.bool b)) = some (.bool c) := by
  unfold logic? at h
  split at h <;> cases h
  · refine ⟨by simp, .and, rfl, fun rt => ?_⟩
    cases a <;> rfl
  · refine ⟨by simp, .or, rfl, fun rt => ?_⟩
    cases a <;> rfl
  · exact ⟨by simp, .unequal, rfl, fun rt => rfl⟩

private theorem foldBinary?_sound {op : Operator} {l r folded : Literal}
    (h : foldBinary? op l r = some folded) :
    (∀ {left right : Expr}, left.HasKind l.kind → right.HasKind r.kind →
        (Expr.binary op left right).HasKind folded.kind) ∧
      (∀ x, folded = .number x → x.isFinite = true) ∧
      ∃ b, op.luaBinary? = some b ∧
        ∀ rt : Lua.Runtime, rt.combine b (some l.value) (some r.value) = some folded.value := by
  unfold foldBinary? at h
  split at h
  · obtain ⟨z, found, rfl⟩ := Option.map_eq_some_iff.mp h
    obtain ⟨found, finite⟩ := Option.filter_eq_some_iff.mp found
    obtain ⟨arithmetic, symbol⟩ := arithmetic?_sound found
    refine ⟨.arithmetic arithmetic, ?_, symbol⟩
    rintro x ⟨⟩
    exact finite
  · obtain ⟨c, found, rfl⟩ := Option.map_eq_some_iff.mp h
    obtain ⟨logic, symbol⟩ := logic?_sound found
    exact ⟨.logic logic, nofun, symbol⟩
  · cases h

private theorem exists_arithmetic? {op : Operator}
    (h : op ∈ [.add, .minus, .multiply, .divide, .modulo]) (x y : Float) :
    ∃ z, arithmetic? op x y = some z := by
  simp only [List.mem_cons, List.not_mem_nil, or_false] at h
  rcases h with rfl | rfl | rfl | rfl | rfl <;> exact ⟨_, rfl⟩

private theorem exists_logic? {op : Operator} (h : op ∈ [.and, .or, .xor]) (a b : Bool) :
    ∃ c, logic? op a b = some c := by
  simp only [List.mem_cons, List.not_mem_nil, or_false] at h
  rcases h with rfl | rfl | rfl <;> exact ⟨_, rfl⟩

/-- The literal that a tree reduces to is its value in every runtime. -/
theorem value_of_constant? (rt : Lua.Runtime) : ∀ (e : Expr) {l : Literal}, e.constant? = some l →
    e.value rt = some l.value
  | .literal _, _, h => by
    cases h
    rw [value]
  | .group inner, _, h => by
    rw [value]
    exact value_of_constant? rt inner h
  | .unary op operand, _, h => by
    obtain ⟨_, constant, folded⟩ := Option.bind_eq_some_iff.mp h
    obtain ⟨-, u, symbol, applied⟩ := foldUnary?_sound folded
    rw [value, symbol, value_of_constant? rt operand constant]
    exact applied rt
  | .binary op left right, _, h => by
    obtain ⟨_, constantLeft, h⟩ := Option.bind_eq_some_iff.mp h
    obtain ⟨_, constantRight, folded⟩ := Option.bind_eq_some_iff.mp h
    obtain ⟨-, -, b, symbol, combined⟩ := foldBinary?_sound folded
    rw [value, symbol, value_of_constant? rt left constantLeft,
      value_of_constant? rt right constantRight]
    exact combined rt

private theorem foldable_of_constant? : ∀ (e : Expr) {l : Literal}, e.constant? = some l →
    e.HasKind l.kind ∧ e.StaysFinite
  | .literal l, _, h => by
    cases h
    exact ⟨.literal l, trivial⟩
  | .group inner, _, h => by
    obtain ⟨typed, finite⟩ := foldable_of_constant? inner h
    exact ⟨.group typed, finite⟩
  | .unary op operand, _, h => by
    obtain ⟨_, constant, folded⟩ := Option.bind_eq_some_iff.mp h
    obtain ⟨typed, finite⟩ := foldable_of_constant? operand constant
    exact ⟨(foldUnary?_sound folded).1 typed, finite⟩
  | .binary op left right, l, h => by
    have result (rt : Lua.Runtime) := value_of_constant? rt (.binary op left right) h
    obtain ⟨_, constantLeft, h⟩ := Option.bind_eq_some_iff.mp h
    obtain ⟨_, constantRight, folded⟩ := Option.bind_eq_some_iff.mp h
    obtain ⟨typed, bounded, -⟩ := foldBinary?_sound folded
    obtain ⟨typedLeft, finiteLeft⟩ := foldable_of_constant? left constantLeft
    obtain ⟨typedRight, finiteRight⟩ := foldable_of_constant? right constantRight
    refine ⟨typed typedLeft typedRight, finiteLeft, finiteRight, fun rt x number => bounded x ?_⟩
    rw [result rt] at number
    exact Literal.value_injective (Option.some.inj number)

private theorem constant?_unary {op : Operator} {e : Expr} {l : Literal}
    (constant : e.constant? = some l) :
    (Expr.unary op e).constant? = foldUnary? op l := by
  rw [constant?, constant, Option.bind_some]

private theorem constant?_binary {op : Operator} {left right : Expr} {l r : Literal}
    (constantLeft : left.constant? = some l) (constantRight : right.constant? = some r) :
    (Expr.binary op left right).constant? = foldBinary? op l r := by
  rw [constant?, constantLeft, constantRight]
  rfl

/-- A tree that folds reduces to a literal of its kind. -/
theorem exists_constant? {e : Expr} {k : Literal.Kind} (typed : e.HasKind k)
    (finite : e.StaysFinite) :
    ∃ l, e.constant? = some l ∧ l.kind = k := by
  induction typed with
  | literal l => exact ⟨l, rfl, rfl⟩
  | group _ ih => exact ih finite
  | not _ ih =>
    obtain ⟨l, constant, kind⟩ := ih finite
    obtain ⟨b, rfl⟩ := Literal.exists_bool kind
    exact ⟨.bool !b, constant?_unary constant, rfl⟩
  | negation _ ih =>
    obtain ⟨l, constant, kind⟩ := ih finite
    obtain ⟨x, rfl⟩ := Literal.exists_number kind
    exact ⟨.number (-x), constant?_unary constant, rfl⟩
  | @logic op left right logic _ _ ihLeft ihRight =>
    obtain ⟨l, constantLeft, kindLeft⟩ := ihLeft finite.1
    obtain ⟨r, constantRight, kindRight⟩ := ihRight finite.2.1
    obtain ⟨a, rfl⟩ := Literal.exists_bool kindLeft
    obtain ⟨b, rfl⟩ := Literal.exists_bool kindRight
    obtain ⟨c, found⟩ := exists_logic? logic a b
    refine ⟨.bool c, ?_, rfl⟩
    rw [constant?_binary constantLeft constantRight, foldBinary?, found, Option.map_some]
  | @arithmetic op left right arithmetic _ _ ihLeft ihRight =>
    obtain ⟨l, constantLeft, kindLeft⟩ := ihLeft finite.1
    obtain ⟨r, constantRight, kindRight⟩ := ihRight finite.2.1
    obtain ⟨x, rfl⟩ := Literal.exists_number kindLeft
    obtain ⟨y, rfl⟩ := Literal.exists_number kindRight
    obtain ⟨z, found⟩ := exists_arithmetic? arithmetic x y
    obtain ⟨-, b, symbol, combined⟩ := arithmetic?_sound found
    -- The tree has the value `z` before it is known to fold, which is where `z` is known to be
    -- finite.
    have result : (Expr.binary op left right).value default = some (.number z) := by
      rw [value, symbol, value_of_constant? default left constantLeft,
        value_of_constant? default right constantRight]
      exact combined default
    have bounded : z.isFinite = true := finite.2.2 default z result
    refine ⟨.number z, ?_, rfl⟩
    rw [constant?_binary constantLeft constantRight, foldBinary?, found, Option.filter_some,
      if_pos bounded, Option.map_some]

private theorem constant?_eq_some_iff {e : Expr} {l : Literal} : e.constant? = some l ↔
    e.IsFoldable ∧ ∀ rt, e.value rt = some l.value := by
  constructor
  · intro h
    obtain ⟨typed, finite⟩ := foldable_of_constant? e h
    exact ⟨⟨⟨_, typed⟩, finite⟩, fun rt => value_of_constant? rt e h⟩
  · rintro ⟨⟨⟨k, typed⟩, finite⟩, same⟩
    obtain ⟨m, constant, -⟩ := exists_constant? typed finite
    have result := value_of_constant? default e constant
    rw [same default] at result
    rw [constant, Literal.value_injective (Option.some.inj result)]

end Expr

/-- A Lua expression comes to the value of a tree in every runtime, and to no other. -/
def Lua.Tree.Denotes (t : Lua.Tree) (e : Expr) : Prop :=
  ∀ rt v, t.Evaluates rt v ↔ e.value rt = some v

private theorem Lua.Tree.Denotes.iff {t t' : Lua.Tree} {e : Expr} (h : t.Denotes e) :
    t'.Denotes e ↔ ∀ rt v, t'.Evaluates rt v ↔ t.Evaluates rt v := by
  constructor
  · intro h' rt v
    rw [h' rt v, h rt v]
  · intro same rt v
    rw [same rt v, h rt v]

/-- A text has the lexemes of an expression that comes to the value of a tree. What it is read as
has the same lexemes, but may group them in another way. -/
structure Expr.Worded (e : Expr) (text : String) (own read : Lua.Tree) : Prop where
  denotes : own.Denotes e
  reads : Lua.read? text.toList = some read
  lexemes : read.lexemes = own.lexemes

/-- The text of a number is read as an expression that comes to it. -/
theorem Expr.exists_worded_number {e : Expr} {x : Float}
    (constant : e.constant? = some (.number x)) :
    ∃ t, e.Worded (Lua.number x) t t := by
  obtain ⟨t, number, spelled⟩ := Lua.spells_number x
  refine ⟨t, fun rt v => ?_, ?_, rfl⟩
  · rw [number.evaluates, e.value_of_constant? rt constant, Option.some_inj]
    exact eq_comm
  · rw [Lua.read?, spelled.read]
    exact Lua.parse?_eq_some_iff.mpr ⟨number.nestsAt.nests, rfl⟩

/-- The fragment of a tree is read as some expression, and as the one that the tree stands for just
if the tree nests. -/
theorem Expr.exists_worded_fragment {e : Expr} {s : String} (written : e.lua = .ok s) :
    ∃ own read, e.Worded s own read ∧ (read = own ↔ e.Nests) := by
  obtain ⟨own, stands, spelled⟩ := e.lua_spells written
  obtain ⟨read, parsed⟩ := exists_parse stands
  have same := (Lua.parse?_eq_some_iff.mp parsed).2
  refine ⟨own, read, ⟨fun rt => e.evaluates_iff stands, ?_, same⟩, ?_⟩
  · rw [Lua.read?, spelled.read]
    exact parsed
  · rw [← nests_iff stands]
    constructor
    · rintro rfl
      exact (Lua.parse?_eq_some_iff.mp parsed).1
    · intro nests
      have own := Lua.parse?_eq_some_iff.mpr ⟨nests, rfl⟩
      exact Option.some.inj (parsed.symm.trans own)

private theorem Expression.fragment_eq_ok_iff {tokens : Expression} {s : String} :
    tokens.fragment = .ok s ↔ ∃ e, tokens.trees = .ok [e] ∧ e.lua = .ok s := by
  rw [fragment, fragments]
  constructor
  · intro h
    simp only [bind_eq_ok_iff] at h
    obtain ⟨texts, ⟨es, read, written⟩, h⟩ := h
    split at h
    · cases h
      obtain ⟨e, rfl⟩ := List.length_eq_one_iff.mp (Expr.length_of_luaList written).symm
      simp only [Expr.luaList, bind_eq_ok_iff, pure_eq_ok_iff] at written
      obtain ⟨_, written, _, -, ⟨⟩⟩ := written
      exact ⟨e, read, written⟩
    · cases h
  · rintro ⟨e, read, written⟩
    rw [read]
    simp only [Expr.luaList, written, Bind.bind, Except.bind, Pure.pure, Except.pure]

namespace Command

/-- The two forms of the delay that a tree gives, each with the Lua text of its duration. -/
inductive Delays (e : Expr) : String → String → Prop
  | folded {x : Float} : e.constant? = some (.number x) →
      Delays e (delay (Lua.number x)) (Lua.number x)
  | computed {fragment : String} : (∀ x, e.constant? ≠ some (.number x)) → e.lua = .ok fragment →
      Delays e (delay (embedded fragment)) fragment

private theorem expressionDelay_eq_ok_iff {tokens : Expression} {directive : String} :
    expressionDelay tokens = .ok directive ↔
      ∃ e text, tokens.trees = .ok [e] ∧ Delays e directive text := by
  constructor
  · intro h
    rw [expressionDelay, bind_eq_ok_iff] at h
    obtain ⟨es, read, h⟩ := h
    split at h
    · next e =>
      split at h
      · next x constant =>
        cases h
        exact ⟨e, _, read, .folded constant⟩
      · next unfolded =>
        obtain ⟨s, written, last⟩ := bind_eq_ok_iff.mp h
        cases last
        obtain ⟨e', read', written⟩ := Expression.fragment_eq_ok_iff.mp written
        cases read.symm.trans read'
        exact ⟨e, s, read, .computed (fun x constant => unfolded x constant) written⟩
    · next several =>
      obtain ⟨s, written, -⟩ := bind_eq_ok_iff.mp h
      obtain ⟨e, read', -⟩ := Expression.fragment_eq_ok_iff.mp written
      exact absurd (Except.ok.inj (read.symm.trans read')) (several e)
  · rintro ⟨e, text, read, delays⟩
    rw [expressionDelay, read]
    cases delays with
    | folded constant =>
      simp only [Bind.bind, Except.bind, constant]
      rfl
    | computed unfolded written =>
      have generated := Expression.fragment_eq_ok_iff.mpr ⟨e, read, written⟩
      simp only [Bind.bind, Except.bind, generated]
      rfl

/-- The text of a duration is read as an expression with the value of the tree if the tree reduces
to a number or nests. -/
theorem Delays.exists_worded {e : Expr} {directive text : String} (h : Delays e directive text) :
    ∃ own read, e.Worded text own read ∧
      (read = own ↔ (∃ x, e.constant? = some (.number x)) ∨ e.Nests) := by
  cases h with
  | folded constant =>
    obtain ⟨t, worded⟩ := Expr.exists_worded_number constant
    exact ⟨t, t, worded, fun _ => .inl ⟨_, constant⟩, fun _ => rfl⟩
  | computed unfolded written =>
    obtain ⟨own, read, worded, same⟩ := Expr.exists_worded_fragment written
    refine ⟨own, read, worded, same.trans ⟨.inr, ?_⟩⟩
    rintro (⟨x, constant⟩ | nests)
    · exact absurd constant (unfolded x)
    · exact nests

end Command

/-- The number that a finite one stands for. -/
def Decimal.exact (x : Float) : ℚ :=
  if isNegative x then -size x else size x

/-- How a value of Lua is stored as the type and initial value of a variable. No variable is of the
type of nil, and no number that is not finite can be written down. -/
inductive Lua.Value.StoredAs : Lua.Value → VariableKind × Json → Prop
  | bool (b : Bool) : StoredAs (.bool b) (.boolean, .bool b)
  | text (s : String) : StoredAs (.text s) (.text, .str s)
  | whole {x : Float} {n : Int} : x.isFinite = true → Decimal.exact x = n →
      StoredAs (.number x) (.number, .num (.int n))
  | real {x : Float} (finite : x.isFinite = true) :
      StoredAs (.number x) (.number, .num (.real x finite))

private theorem Decimal.Magnitude.value_of_dvd {m : Decimal.Magnitude} (whole : m.exponent ≤ 0)
    (divides : m.significand % 2 ^ (-m.exponent).toNat = 0) :
    m.value = ((m.significand / 2 ^ (-m.exponent).toNat : Nat) : ℚ) := by
  obtain ⟨places, exponent⟩ := Int.eq_ofNat_of_zero_le (Int.neg_nonneg.mpr whole)
  rw [exponent, Int.toNat_natCast] at divides ⊢
  obtain ⟨n, significand⟩ := Nat.dvd_of_mod_eq_zero divides
  have exponent : m.exponent = -(places : Int) := by omega
  have positive : 0 < 2 ^ places := Nat.two_pow_pos places
  rw [value, exponent, significand, Nat.mul_div_cancel_left n positive, zpow_neg, zpow_natCast]
  push_cast
  field_simp

private theorem Decimal.isFinite_of_exponent {x : Float}
    (whole : (Magnitude.ofFloat x).exponent ≤ 0) :
    x.isFinite = true := by
  rw [isFinite_iff]
  intro top
  rw [(Magnitude.ofFloat_parts x).2, top] at whole
  exact absurd whole (by decide)

namespace Variable

private theorem exact_of_whole? {x : Float} {n : Int} (h : whole? x = some n) :
    x.isFinite = true ∧ Decimal.exact x = n := by
  unfold whole? at h
  simp only at h
  split at h
  · next condition =>
    obtain ⟨whole, divides⟩ := Bool.and_eq_true_iff.mp condition
    have whole := of_decide_eq_true whole
    have finite := Decimal.isFinite_of_exponent whole
    have size := Decimal.Magnitude.value_of_dvd whole (of_decide_eq_true divides)
    rw [Decimal.Magnitude.value_ofFloat finite] at size
    refine ⟨finite, ?_⟩
    rw [Decimal.exact, size, ← Option.some.inj h]
    split <;> rfl
  · cases h

/-- A number that is not finite is stored as zero. -/
theorem numberValue_of_not_finite {x : Float} (infinite : ¬ x.isFinite = true) :
    numberValue x = .num (.int 0) := by
  unfold numberValue
  cases found : whole? x with
  | some n => exact absurd (exact_of_whole? found).1 infinite
  | none => exact dif_neg infinite

private theorem numberValue_storedAs_iff {x : Float} :
    (Lua.Value.number x).StoredAs (.number, numberValue x) ↔ x.isFinite = true := by
  constructor
  · intro h
    generalize numberValue x = stored at h
    cases h <;> assumption
  · intro finite
    unfold numberValue
    cases found : whole? x with
    | some n => exact .whole finite (exact_of_whole? found).2
    | none =>
      simp only [finite, dif_pos]
      exact .real finite

end Variable

/-- The first token of a tree that folds is a literal of the sort that it reduces to. -/
theorem Expr.HasKind.head?_tokens {e : Expr} {k : Literal.Kind} (h : e.HasKind k) :
    ∃ l : Literal, e.tokens.head? = some l.token ∧ l.kind = k := by
  induction h with
  | literal l => exact ⟨l, rfl, rfl⟩
  | group _ ih | not _ ih | negation _ ih =>
    obtain ⟨l, first, kind⟩ := ih
    exact ⟨l, by rw [tokens, List.head?_append, first]; rfl, kind⟩
  | logic _ _ _ ih _ | arithmetic _ _ _ ih _ =>
    obtain ⟨l, first, kind⟩ := ih
    exact ⟨l, by rw [tokens, List.append_assoc, List.head?_append, first]; rfl, kind⟩

private theorem Token.eq_of_spelled {t : Token} {l : Literal} (h : t.spelled = l.token) :
    t = l.token := by
  unfold spelled at h
  split at h
  · cases l <;> cases h
  · exact h

/-- The type and initial value that are stored for the literal of a declaration. -/
def Literal.stored : Literal → VariableKind × Json
  | .bool b => (.boolean, .bool b)
  | .number x => (.number, Variable.numberValue x)
  | .null => (.text, .str "")
  | .text s => (.text, .str s)

/-- Whether a literal can be stored: nil cannot, and no number that is not finite. -/
def Literal.isStorable : Literal → Bool
  | .number x => x.isFinite
  | .null => false
  | _ => true

private theorem Literal.storedAs_iff (l : Literal) :
    l.value.StoredAs l.stored ↔ l.isStorable = true := by
  cases l with
  | bool b => exact iff_of_true (.bool b) rfl
  | number x => exact Variable.numberValue_storedAs_iff
  | null =>
    refine iff_of_false (fun h => ?_) Bool.false_ne_true
    cases h
  | text s => exact iff_of_true (.text s) rfl

/-- What is stored for a literal that cannot be: an empty text or zero. -/
theorem Literal.stored_of_not_storable {l : Literal} (h : l.isStorable = false) :
    l.stored = (.text, .str "") ∨ l.stored = (.number, .num (.int 0)) := by
  cases l with
  | bool b => cases h
  | number x =>
    have infinite : ¬ x.isFinite = true := ne_true_of_eq_false h
    exact .inr (congrArg _ (Variable.numberValue_of_not_finite infinite))
  | null => exact .inl rfl
  | text s => cases h

private theorem Variable.infer_eq_stored {tokens : Expression} {e : Expr} {l : Literal}
    (read : tokens.trees = .ok [e]) (constant : e.constant? = some l) :
    infer (some tokens) = l.stored := by
  obtain ⟨first, leading, kind⟩ := (e.foldable_of_constant? constant).1.head?_tokens
  have written := (Expression.trees_eq_ok_iff.mp read).2
  rw [Expr.tokensList, Expr.tokensList, List.append_nil] at written
  rw [written, List.head?_map, Option.map_eq_some_iff] at leading
  obtain ⟨t, leading, same⟩ := leading
  obtain rfl := Token.eq_of_spelled same
  have found : constant? tokens = some l := by
    rw [constant?, read]
    exact constant
  rw [infer, Option.bind_some, Option.bind_some, leading, found]
  cases l <;> cases first <;> cases kind <;> rfl

namespace Expr

/-- Folding keeps the value. A tree reduces to a literal just if it folds and the literal is its
value in every runtime; it then holds no variable and no call. The wait for an expression is the
delay of its only tree, a folded or a computed one. The text of the duration has the lexemes of an
expression with the value of the tree. It is read as that expression just if the tree reduces to a
number or nests, and where it is read as another one, it denotes the value just if the two come to
the same in every runtime. The initial value of a variable whose declaration reduces to a literal
denotes the value just if the literal can be stored; else it is an empty text or zero. -/
theorem folding_preserves_value (e : Expr) :
    (∀ l, e.constant? = some l ↔ e.IsFoldable ∧ ∀ rt, e.value rt = some l.value) ∧
    (∀ l, e.constant? = some l → e.IsClosed) ∧
    (∀ (arguments : List Command.Argument) (tokens : Expression) (directive : String),
      (arguments.flatMap Command.Argument.pieces).head? = some (.expression tokens) →
      (Command.waitText arguments = .ok directive ↔
        ∃ tree text, tokens.trees = .ok [tree] ∧ Command.Delays tree directive text)) ∧
    (∀ directive text, Command.Delays e directive text → ∃ own read, e.Worded text own read ∧
      (read = own ↔ (∃ x, e.constant? = some (.number x)) ∨ e.Nests) ∧
      (read.Denotes e ↔ ∀ rt v, read.Evaluates rt v ↔ own.Evaluates rt v)) ∧
    (∀ tokens l, tokens.trees = .ok [e] → e.constant? = some l →
      (∀ rt, ∃ v, e.value rt = some v ∧
        (v.StoredAs (Variable.infer (some tokens)) ↔ l.isStorable = true)) ∧
      (l.isStorable = false → Variable.infer (some tokens) = (.text, .str "") ∨
        Variable.infer (some tokens) = (.number, .num (.int 0)))) := by
  refine ⟨fun l => constant?_eq_some_iff, ?_, ?_, ?_, ?_⟩
  · intro l constant
    exact (e.foldable_of_constant? constant).1.isClosed
  · intro arguments tokens directive first
    rw [Command.waitText_eq, first]
    exact Command.expressionDelay_eq_ok_iff
  · intro directive text delays
    obtain ⟨own, read, worded, same⟩ := delays.exists_worded
    exact ⟨own, read, worded, same, worded.denotes.iff⟩
  · intro tokens l read constant
    rw [Variable.infer_eq_stored read constant]
    exact ⟨fun rt => ⟨l.value, e.value_of_constant? rt constant, l.storedAs_iff⟩,
      Literal.stored_of_not_storable⟩

namespace Sample

/-- A product whose factors are a sum and a negative number. -/
def product : Expr :=
  .binary .multiply (.group (.binary .add (.literal (.number 1)) (.literal (.number 0.5))))
    (.unary .unaryMinus (.literal (.number 4)))

/-- The product after a piece of text without words. -/
def duration : List Command.Argument :=
  [.text " ", .expression product.tokens]

/-- A product with a sum that is not in parentheses. -/
def bareProduct : Expr :=
  .binary .multiply (.literal (.number 2))
    (.binary .add (.literal (.number 1)) (.variable "x"))

/-- What the fragment of that product says. -/
def flatSum : Expr :=
  .binary .add (.binary .multiply (.literal (.number 2)) (.literal (.number 1)))
    (.variable "x")

def ones : Lua.Runtime :=
  { (default : Lua.Runtime) with stored := fun _ => .number 1 }

end Sample

theorem folding_preserves_value_sample :
    (Sample.product.constant? = some (.number (-6)) ∧ Sample.product.IsClosed ∧
      (∀ rt, Sample.product.value rt = some (.number (-6))) ∧
      (Sample.duration.flatMap Command.Argument.pieces).head? =
        some (.expression Sample.product.tokens) ∧
      (∃ tree text, Sample.product.tokens.trees = .ok [tree] ∧
        Command.Delays tree "Delay(-6)" text) ∧
      ∀ rt, ∃ v, Sample.product.value rt = some v ∧
        v.StoredAs (Variable.infer (some Sample.product.tokens))) ∧
    (Command.Delays Sample.bareProduct "Delay([lua(2 * 1 + Variable['x'])])"
        "2 * 1 + Variable['x']" ∧
      ∃ own read, Sample.bareProduct.Worded "2 * 1 + Variable['x']" own read ∧ read ≠ own ∧
        ¬ read.Denotes Sample.bareProduct) ∧
    ∀ rt, ∃ v, (Expr.literal .null).value rt = some v ∧
      ¬ v.StoredAs (Variable.infer (some [.null])) := by
  refine ⟨?_, ?_, ?_⟩
  · have constant : Sample.product.constant? = some (.number (-6)) := by decide +kernel
    have first : (Sample.duration.flatMap Command.Argument.pieces).head? =
        some (.expression Sample.product.tokens) := by decide +kernel
    have written : Command.waitText Sample.duration = .ok "Delay(-6)" := by decide +kernel
    have read : Sample.product.tokens.trees = .ok [Sample.product] := rfl
    have storable : Literal.isStorable (.number (-6)) = true := by decide +kernel
    obtain ⟨folds, closed, waits, -, stored⟩ := folding_preserves_value Sample.product
    refine ⟨constant, closed _ constant, ((folds _).mp constant).2, first,
      (waits _ _ _ first).mp written, fun rt => ?_⟩
    obtain ⟨v, value, kept⟩ := (stored _ _ read constant).1 rt
    exact ⟨v, value, kept.mpr storable⟩
  · have open_ : Sample.bareProduct.constant? = none := by decide +kernel
    have unfolded (x : Float) : Sample.bareProduct.constant? ≠ some (.number x) := by
      rw [open_]
      rintro ⟨⟩
    have written : Sample.bareProduct.lua = .ok "2 * 1 + Variable['x']" := by decide +kernel
    have loose : ¬ Sample.bareProduct.Nests := by decide +kernel
    have delays : Command.Delays Sample.bareProduct "Delay([lua(2 * 1 + Variable['x'])])"
        "2 * 1 + Variable['x']" := .computed unfolded written
    obtain ⟨own, read, worded, same, -⟩ :=
      (folding_preserves_value Sample.bareProduct).2.2.2.1 _ _ delays
    refine ⟨delays, own, read, worded, fun equal => ?_, fun denotes => ?_⟩
    · rcases same.mp equal with ⟨x, constant⟩ | nests
      · exact unfolded x constant
      · exact loose nests
    · -- The text is also that of the sum, which nests, so that it is read as the sum.
      have flat : Sample.flatSum.lua = .ok "2 * 1 + Variable['x']" := by decide +kernel
      obtain ⟨sum, read', wordedSum, nests⟩ := exists_worded_fragment flat
      obtain rfl := Option.some.inj (worded.reads.symm.trans wordedSum.reads)
      obtain rfl := nests.mpr (by decide +kernel)
      have three : Sample.flatSum.value Sample.ones = some (.number 3) := by decide +kernel
      have four : Sample.bareProduct.value Sample.ones = some (.number 4) := by decide +kernel
      have value := (denotes Sample.ones (.number 3)).mp
        ((wordedSum.denotes Sample.ones _).mpr three)
      rw [four] at value
      exact absurd value (by decide +kernel)
  · intro rt
    obtain ⟨v, value, kept⟩ :=
      ((folding_preserves_value (.literal .null)).2.2.2.2 [.null] .null rfl rfl).1 rt
    exact ⟨v, value, fun stored => Bool.false_ne_true (kept.mp stored)⟩

end Expr

end Dialogue
