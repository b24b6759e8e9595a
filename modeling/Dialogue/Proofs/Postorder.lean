import Dialogue.Proofs.Draft
import Mathlib.Algebra.Ring.Int.Defs

/-!
Token lists and lists of expression trees. `Expr.tokensList` writes trees down in the order in which
`Expression.trees` reads them, operands before what takes them. Reading and writing are inverse to
each other on the trees in which every operator has as many operands as it takes, up to the two
spellings of a minus sign with one operand; and a list that is not the writing of such trees is
refused for an operator with a wrong number of operands, or for a token that finds too few of them.
-/

set_option autoImplicit false
set_option relaxedAutoImplicit false

namespace Dialogue

namespace Token

/-- The number of operands that a token takes. -/
def arity : Token → Nat
  | .bool _ | .number _ | .null | .text _ | .variable _ => 0
  | .group => 1
  | .function _ arity => arity
  | .operator _ arity => arity

/-- The token with a minus sign of one operand spelled as negation. -/
def spelled : Token → Token
  | .operator .minus 1 => .operator .unaryMinus 1
  | t => t

/-- Whether an operator token has a number of operands that the operator takes. -/
def isAccepted : Token → Bool
  | .operator op arity => op.takes arity
  | _ => true

end Token

def Literal.token : Literal → Token
  | .bool b => .bool b
  | .number x => .number x
  | .null => .null
  | .text s => .text s

namespace Expr

mutual

def tokens : Expr → Expression
  | .literal value => [value.token]
  | .variable name => [.variable name]
  | .group inner => tokens inner ++ [.group]
  | .unary op operand => tokens operand ++ [.operator op 1]
  | .binary op left right => tokens left ++ tokens right ++ [.operator op 2]
  | .call name arguments => tokensList arguments ++ [.function name arguments.length]

/-- The tokens of trees side by side. -/
def tokensList : List Expr → Expression
  | [] => []
  | e :: rest => tokens e ++ tokensList rest

end

mutual

/-- Whether the operators of a tree have as many operands as they take, where one operand belongs to
a negation. -/
def Sound : Expr → Prop
  | .literal _ | .variable _ => True
  | .group inner => Sound inner
  | .unary op operand => (op = .not ∨ op = .unaryMinus) ∧ Sound operand
  | .binary op left right => op.takes 2 = true ∧ Sound left ∧ Sound right
  | .call _ arguments => SoundList arguments

def SoundList : List Expr → Prop
  | [] => True
  | e :: rest => Sound e ∧ SoundList rest

end

theorem soundList_iff {es : List Expr} : SoundList es ↔ ∀ e ∈ es, e.Sound := by
  induction es with
  | nil => simp [SoundList]
  | cons e rest ih => simp [SoundList, ih]

private theorem tokensList_append (es fs : List Expr) :
    tokensList (es ++ fs) = tokensList es ++ tokensList fs := by
  induction es with
  | nil => rfl
  | cons e rest ih => rw [List.cons_append, tokensList, tokensList, ih, List.append_assoc]

end Expr

namespace Expression

open Dialogue.Expr

/-- How many trees the tokens leave: each makes one and takes as many as it has operands. -/
def balance (tokens : Expression) : Int :=
  (tokens.map fun t => 1 - (t.arity : Int)).sum

private theorem takeOperands_eq_ok_iff {stack operands rest : List Expr} {count : Nat}
    {head : Token.Head} :
    takeOperands stack count head = .ok (operands, rest) ↔
      stack = operands.reverse ++ rest ∧ operands.length = count := by
  unfold takeOperands
  constructor
  · intro h
    split at h
    · cases h
    · next enough =>
      obtain ⟨rfl, rfl⟩ := Prod.mk.inj (Except.ok.inj h)
      refine ⟨by rw [List.reverse_reverse, List.take_append_drop], ?_⟩
      rw [List.length_reverse, List.length_take]
      omega
  · rintro ⟨rfl, rfl⟩
    have enough : ¬ (operands.reverse ++ rest).length < operands.length := by
      rw [List.length_append, List.length_reverse]
      omega
    have cut : operands.length = operands.reverse.length := List.length_reverse.symm
    rw [if_neg enough, cut, List.take_left, List.drop_left, List.reverse_reverse]

/-- A tree that a token makes of its operands, as the writing of trees has it. -/
structure Builds (t : Token) (operands : List Expr) (e : Expr) : Prop where
  count : operands.length = t.arity
  written : e.tokens = tokensList operands ++ [t.spelled]
  sound : SoundList operands → e.Sound

private theorem Builds.leaf {t : Token} {e : Expr} (none : t.arity = 0)
    (written : e.tokens = [t.spelled]) (sound : e.Sound) : Builds t [] e :=
  ⟨none.symm, written, fun _ => sound⟩

private theorem Builds.ofOperator {op : Operator} {operands : List Expr}
    (accepted : op.takes operands.length = true) :
    ∃ e, applyOperator op operands = some e ∧ Builds (.operator op operands.length) operands e := by
  match operands, accepted with
  | [operand], accepted =>
    refine ⟨_, rfl, rfl, ?_, ?_⟩
    · cases op <;> simp [tokens, tokensList, Token.spelled]
    · rintro ⟨sound, -⟩
      refine ⟨?_, sound⟩
      cases op <;> simp_all [Operator.takes, Operator.isUnary]
  | [left, right], accepted =>
    refine ⟨_, rfl, rfl, ?_, fun sound => ⟨accepted, sound.1, sound.2.1⟩⟩
    simp [tokens, tokensList, Token.spelled]
  | [], accepted => cases op <;> cases accepted
  | _ :: _ :: _ :: _, accepted => cases op <;> simp [Operator.takes, Operator.isUnary] at accepted

/-- What one token does to the stack, if it is not refused: it takes its operands off, and puts the
tree that it makes of them in their place. -/
theorem push_cases {stack stack' : List Expr} {t : Token} (h : push stack t = .ok stack') :
    t.isAccepted = true ∧ ∃ operands rest e,
      stack = operands.reverse ++ rest ∧ stack' = e :: rest ∧ Builds t operands e := by
  cases t with
  | bool b => exact ⟨rfl, [], stack, _, rfl, (Except.ok.inj h).symm, .leaf rfl rfl trivial⟩
  | number x => exact ⟨rfl, [], stack, _, rfl, (Except.ok.inj h).symm, .leaf rfl rfl trivial⟩
  | null => exact ⟨rfl, [], stack, _, rfl, (Except.ok.inj h).symm, .leaf rfl rfl trivial⟩
  | text s => exact ⟨rfl, [], stack, _, rfl, (Except.ok.inj h).symm, .leaf rfl rfl trivial⟩
  | «variable» name => exact ⟨rfl, [], stack, _, rfl, (Except.ok.inj h).symm, .leaf rfl rfl trivial⟩
  | group =>
    simp only [push, bind_eq_ok_iff, pure_eq_ok_iff] at h
    obtain ⟨⟨operands, rest⟩, taken, rfl⟩ := h
    obtain ⟨rfl, count⟩ := takeOperands_eq_ok_iff.mp taken
    obtain ⟨inner, rfl⟩ := List.length_eq_one_iff.mp count
    refine ⟨rfl, [inner], rest, .group inner, rfl, rfl, rfl, ?_, fun sound => sound.1⟩
    simp [tokens, tokensList, Token.spelled]
  | function name arity =>
    simp only [push, bind_eq_ok_iff, pure_eq_ok_iff] at h
    obtain ⟨⟨operands, rest⟩, taken, rfl⟩ := h
    obtain ⟨rfl, rfl⟩ := takeOperands_eq_ok_iff.mp taken
    exact ⟨rfl, operands, rest, .call name operands, rfl, rfl, rfl, rfl, fun sound => sound⟩
  | operator op arity =>
    simp only [push] at h
    split at h
    · next accepted =>
      simp only [bind_eq_ok_iff, pure_eq_ok_iff] at h
      obtain ⟨⟨operands, rest⟩, taken, rfl⟩ := h
      obtain ⟨rfl, rfl⟩ := takeOperands_eq_ok_iff.mp taken
      obtain ⟨e, applied, builds⟩ := Builds.ofOperator accepted
      refine ⟨accepted, operands, rest, e, rfl, ?_, builds⟩
      rw [applied]
      rfl
    · cases h

/-- A token is refused only if its operator does not take so many operands, or if there are too
few. -/
theorem exists_push {stack : List Expr} {t : Token} (accepted : t.isAccepted = true)
    (enough : t.arity ≤ stack.length) : ∃ stack', push stack t = .ok stack' := by
  have taken : ∀ head, takeOperands stack t.arity head =
      .ok ((stack.take t.arity).reverse, stack.drop t.arity) := by
    intro head
    exact if_neg (Nat.not_lt.mpr enough)
  cases t with
  | bool | number | null | text | «variable» => exact ⟨_, rfl⟩
  | group => exact ⟨_, bind_eq_ok_iff.mpr ⟨_, taken _, rfl⟩⟩
  | function name arity => exact ⟨_, bind_eq_ok_iff.mpr ⟨_, taken _, rfl⟩⟩
  | operator op arity =>
    simp only [push]
    rw [if_pos (by exact accepted)]
    exact ⟨_, bind_eq_ok_iff.mpr ⟨_, taken _, rfl⟩⟩

private theorem refused_of_push {stack : List Expr} {t : Token} {err : ExprError}
    (h : push stack t = .error err) : t.isAccepted = false ∨ stack.length < t.arity := by
  cases accepted : t.isAccepted with
  | false => exact .inl rfl
  | true =>
    refine .inr (Nat.lt_of_not_le fun enough => ?_)
    obtain ⟨stack', pushed⟩ := exists_push accepted enough
    rw [h] at pushed
    cases pushed

private theorem takeOperands_malformed {stack : List Expr} {count : Nat}
    {head : Token.Head} {err : ExprError} (h : takeOperands stack count head = .error err) :
    err.isMalformed = true := by
  unfold takeOperands at h
  split at h
  · cases h
    rfl
  · cases h

private theorem bind_takeOperands_malformed {stack : List Expr} {count : Nat} {head : Token.Head}
    {next : List Expr × List Expr → Except ExprError (List Expr)} {err : ExprError}
    (total : ∀ taken, ∃ stack', next taken = .ok stack')
    (h : takeOperands stack count head >>= next = .error err) : err.isMalformed = true := by
  cases taken : takeOperands stack count head with
  | error e =>
    rw [taken] at h
    cases h
    exact takeOperands_malformed taken
  | ok operands =>
    obtain ⟨stack', pushed⟩ := total operands
    rw [taken] at h
    cases pushed.symm.trans h

private theorem push_malformed {stack : List Expr} {t : Token} {err : ExprError}
    (h : push stack t = .error err) : err.isMalformed = true := by
  cases t with
  | bool | number | null | text | «variable» => cases h
  | group => exact bind_takeOperands_malformed (fun _ => ⟨_, rfl⟩) h
  | function name arity => exact bind_takeOperands_malformed (fun _ => ⟨_, rfl⟩) h
  | operator op arity =>
    simp only [push] at h
    split at h
    · exact bind_takeOperands_malformed (fun _ => ⟨_, rfl⟩) h
    · cases h
      rfl

/-- What the tokens before some point have left on the stack. -/
theorem foldlM_push {tokens : Expression} {stack stack' : List Expr}
    (h : tokens.foldlM push stack = .ok stack') :
    (stack'.length : Int) = stack.length + balance tokens ∧
      tokensList stack'.reverse = tokensList stack.reverse ++ tokens.map Token.spelled ∧
      ((∀ e ∈ stack, e.Sound) → ∀ e ∈ stack', e.Sound) := by
  induction tokens generalizing stack with
  | nil =>
    cases h
    refine ⟨?_, ?_, fun sound => sound⟩
    · simp [balance]
    · simp
  | cons t rest ih =>
    rw [List.foldlM_cons, bind_eq_ok_iff] at h
    obtain ⟨middle, pushed, h⟩ := h
    obtain ⟨-, operands, below, e, rfl, rfl, builds⟩ := push_cases pushed
    obtain ⟨count, written, sound⟩ := ih h
    have taken := builds.count
    refine ⟨?_, ?_, ?_⟩
    · rw [count]
      simp only [balance, List.map_cons, List.sum_cons, List.length_cons, List.length_append,
        List.length_reverse]
      omega
    · rw [written, List.reverse_cons, List.reverse_append, List.reverse_reverse, tokensList_append,
        tokensList_append, List.map_cons, tokensList, builds.written]
      simp [tokensList]
    · intro all
      apply sound
      intro d member
      rcases List.mem_cons.mp member with rfl | member
      · apply builds.sound
        rw [soundList_iff]
        intro operand member
        exact all operand (List.mem_append_left _ (List.mem_reverse.mpr member))
      · exact all d (List.mem_append_right _ member)

private theorem push_operator {op : Operator} {operands : List Expr} {e : Expr} (rest : List Expr)
    (accepted : op.takes operands.length = true) (applied : applyOperator op operands = some e) :
    push (operands.reverse ++ rest) (.operator op operands.length) = .ok (e :: rest) := by
  simp only [push]
  rw [if_pos accepted, bind_eq_ok_iff]
  refine ⟨(operands, rest), takeOperands_eq_ok_iff.mpr ⟨rfl, rfl⟩, ?_⟩
  rw [applied]
  rfl

private theorem foldlM_append_ok {before after : Expression} {stack middle stack' : List Expr}
    (first : before.foldlM push stack = .ok middle)
    (second : after.foldlM push middle = .ok stack') :
    (before ++ after).foldlM push stack = .ok stack' := by
  rw [List.foldlM_append, first]
  exact second

private theorem foldlM_singleton {t : Token} {stack stack' : List Expr}
    (h : push stack t = .ok stack') :
    [t].foldlM push stack = .ok stack' := by
  rw [List.foldlM_cons, h]
  rfl

mutual

/-- The tokens of a sound tree put it on the stack, whatever is there. -/
theorem foldlM_tokens : ∀ (e : Expr), e.Sound → ∀ stack : List Expr,
    e.tokens.foldlM push stack = .ok (e :: stack)
  | .literal (.bool b), _, stack => rfl
  | .literal (.number x), _, stack => rfl
  | .literal .null, _, stack => rfl
  | .literal (.text s), _, stack => rfl
  | .variable name, _, stack => rfl
  | .group inner, sound, stack => by
    rw [tokens]
    exact foldlM_append_ok (foldlM_tokens inner sound stack) rfl
  | .unary op operand, ⟨negation, sound⟩, stack => by
    rw [tokens]
    refine foldlM_append_ok (foldlM_tokens operand sound stack) (foldlM_singleton ?_)
    have accepted : op.takes [operand].length = true ∧
        applyOperator op [operand] = some (.unary op operand) := by
      rcases negation with rfl | rfl <;> exact ⟨rfl, rfl⟩
    exact push_operator stack accepted.1 accepted.2
  | .binary op left right, ⟨accepted, soundLeft, soundRight⟩, stack => by
    rw [tokens]
    have operands := foldlM_append_ok (foldlM_tokens left soundLeft stack)
      (foldlM_tokens right soundRight (left :: stack))
    have applied : applyOperator op [left, right] = some (.binary op left right) := rfl
    exact foldlM_append_ok operands (foldlM_singleton (push_operator stack accepted applied))
  | .call name arguments, sound, stack => by
    rw [tokens]
    refine foldlM_append_ok (foldlM_tokensList arguments sound stack) (foldlM_singleton ?_)
    exact bind_eq_ok_iff.mpr ⟨(arguments, stack), takeOperands_eq_ok_iff.mpr ⟨rfl, rfl⟩, rfl⟩

private theorem foldlM_tokensList : ∀ (es : List Expr), SoundList es → ∀ stack : List Expr,
    (tokensList es).foldlM push stack = .ok (es.reverse ++ stack)
  | [], _, stack => rfl
  | e :: rest, ⟨sound, others⟩, stack => by
    rw [tokensList, List.reverse_cons, List.append_assoc]
    exact foldlM_append_ok (foldlM_tokens e sound stack)
      (foldlM_tokensList rest others (e :: stack))

end

/-- A minus sign with one operand is read like a negation. -/
theorem push_spelled {stack stack' : List Expr} {t : Token} :
    push stack t.spelled = .ok stack' ↔ push stack t = .ok stack' := by
  unfold Token.spelled
  split
  · have read : ∀ op : Operator, op = .minus ∨ op = .unaryMinus →
        (push stack (.operator op 1) = .ok stack' ↔
          ∃ operand rest, stack = operand :: rest ∧
            stack' = .unary .unaryMinus operand :: rest) := by
      intro op minus
      have accepted : op.takes 1 = true := by rcases minus with rfl | rfl <;> rfl
      simp only [push]
      rw [if_pos accepted, bind_eq_ok_iff]
      constructor
      · rintro ⟨⟨operands, rest⟩, taken, h⟩
        obtain ⟨rfl, count⟩ := takeOperands_eq_ok_iff.mp taken
        obtain ⟨operand, rfl⟩ := List.length_eq_one_iff.mp count
        refine ⟨operand, rest, rfl, ?_⟩
        rcases minus with rfl | rfl <;> exact (Except.ok.inj h).symm
      · rintro ⟨operand, rest, rfl, rfl⟩
        refine ⟨([operand], rest), takeOperands_eq_ok_iff.mpr ⟨rfl, rfl⟩, ?_⟩
        rcases minus with rfl | rfl <;> rfl
    rw [read .unaryMinus (.inr rfl), read .minus (.inl rfl)]
  · rfl

private theorem foldlM_spelled {tokens : Expression} {stack stack' : List Expr} :
    (tokens.map Token.spelled).foldlM push stack = .ok stack' ↔
    tokens.foldlM push stack = .ok stack' := by
  induction tokens generalizing stack with
  | nil => rfl
  | cons t rest ih =>
    rw [List.map_cons, List.foldlM_cons, List.foldlM_cons, bind_eq_ok_iff, bind_eq_ok_iff]
    constructor
    · rintro ⟨middle, pushed, h⟩
      exact ⟨middle, push_spelled.mp pushed, ih.mp h⟩
    · rintro ⟨middle, pushed, h⟩
      exact ⟨middle, push_spelled.mpr pushed, ih.mpr h⟩

/-- Reading stops at the first operator with a wrong number of operands, or at the first token that
finds fewer operands than it takes. -/
theorem foldlM_fails_iff {tokens : Expression} {stack : List Expr} :
    (∃ err, tokens.foldlM push stack = .error err) ↔
      (∃ t ∈ tokens, t.isAccepted = false) ∨
        ∃ before t after, tokens = before ++ t :: after ∧
          (stack.length : Int) + balance before < t.arity := by
  induction tokens generalizing stack with
  | nil =>
    constructor
    · rintro ⟨err, h⟩
      cases h
    · rintro (⟨t, member, -⟩ | ⟨before, t, after, split, -⟩)
      · cases member
      · simp at split
  | cons t rest ih =>
    cases pushed : push stack t with
    | error err =>
      have fails : (t :: rest).foldlM push stack = .error err := by
        rw [List.foldlM_cons, pushed]
        rfl
      refine iff_of_true ⟨err, fails⟩ ?_
      rcases refused_of_push pushed with refused | few
      · exact .inl ⟨t, List.mem_cons_self, refused⟩
      · refine .inr ⟨[], t, rest, rfl, ?_⟩
        simp only [balance, List.map_nil, List.sum_nil]
        omega
    | ok middle =>
      have same : (t :: rest).foldlM push stack = rest.foldlM push middle := by
        rw [List.foldlM_cons, pushed]
        rfl
      obtain ⟨accepted, operands, below, e, rfl, rfl, builds⟩ := push_cases pushed
      have taken := builds.count
      have height : ∀ before : Expression,
        ((operands.reverse ++ below).length : Int) + balance (t :: before) =
          ((e :: below).length : Int) + balance before := by
        intro before
        simp only [balance, List.map_cons, List.sum_cons, List.length_cons, List.length_append,
          List.length_reverse]
        omega
      rw [same, ih]
      constructor
      · rintro (⟨u, member, refused⟩ | ⟨before, u, after, rfl, few⟩)
        · exact .inl ⟨u, List.mem_cons_of_mem t member, refused⟩
        · exact .inr ⟨t :: before, u, after, rfl, by rw [height]; exact few⟩
      · rintro (⟨u, member, refused⟩ | ⟨before, u, after, split, few⟩)
        · rcases List.mem_cons.mp member with rfl | member
          · rw [accepted] at refused
            cases refused
          · exact .inl ⟨u, member, refused⟩
        · cases before with
          | nil =>
            obtain ⟨rfl, rfl⟩ := List.cons.inj split
            simp [balance] at few
            omega
          | cons first before =>
            obtain ⟨rfl, rfl⟩ := List.cons.inj split
            rw [height] at few
            exact .inr ⟨before, u, after, rfl, few⟩

private theorem trees_eq_ok_iff_foldlM {tokens : Expression} {es : List Expr} :
    tokens.trees = .ok es ↔ tokens.foldlM push [] = .ok es.reverse := by
  unfold trees
  cases tokens.foldlM push [] with
  | error err => exact ⟨nofun, nofun⟩
  | ok stack =>
    constructor
    · intro h
      rw [← Except.ok.inj h, List.reverse_reverse]
    · intro h
      rw [Except.ok.inj h]
      exact congrArg Except.ok (List.reverse_reverse es)

theorem trees_eq_error_iff_foldlM {tokens : Expression} {err : ExprError} :
    tokens.trees = .error err ↔ tokens.foldlM push [] = .error err := by
  unfold trees
  cases tokens.foldlM push [] with
  | error _ =>
    exact ⟨fun h => congrArg Except.error (Except.error.inj h),
      fun h => congrArg Except.error (Except.error.inj h)⟩
  | ok stack => exact ⟨nofun, nofun⟩

theorem foldlM_malformed {tokens : Expression} {stack : List Expr} {err : ExprError}
    (h : tokens.foldlM push stack = .error err) : err.isMalformed = true := by
  induction tokens generalizing stack with
  | nil => cases h
  | cons t rest ih =>
    rw [List.foldlM_cons] at h
    cases pushed : push stack t with
    | error e =>
      rw [pushed] at h
      cases h
      exact push_malformed pushed
    | ok middle =>
      rw [pushed] at h
      exact ih h

theorem trees_eq_ok_iff {tokens : Expression} {es : List Expr} :
    tokens.trees = .ok es ↔ (∀ e ∈ es, e.Sound) ∧ tokensList es = tokens.map Token.spelled := by
  rw [trees_eq_ok_iff_foldlM]
  constructor
  · intro h
    obtain ⟨-, written, sound⟩ := foldlM_push h
    rw [List.reverse_reverse] at written
    refine ⟨fun e member => ?_, written⟩
    exact sound nofun e (List.mem_reverse.mpr member)
  · rintro ⟨sound, written⟩
    have read := foldlM_tokensList es (soundList_iff.mpr sound) []
    rw [written, List.append_nil] at read
    exact foldlM_spelled.mp read

private theorem one_le_length_of_trees {tokens : Expression} {es : List Expr}
    (h : tokens.trees = .ok es) (filled : tokens ≠ []) : 1 ≤ es.length := by
  rcases List.eq_nil_or_concat tokens with rfl | ⟨before, t, rfl⟩
  · exact absurd rfl filled
  · rw [trees_eq_ok_iff_foldlM, List.concat_eq_append, List.foldlM_append, bind_eq_ok_iff] at h
    obtain ⟨stack, -, h⟩ := h
    rw [List.foldlM_cons, bind_eq_ok_iff] at h
    obtain ⟨stack', pushed, last⟩ := h
    obtain ⟨-, operands, rest, e, -, rfl, -⟩ := push_cases pushed
    have same : e :: rest = es.reverse := Except.ok.inj last
    have count := congrArg List.length same
    rw [List.length_cons, List.length_reverse] at count
    omega

/-- Reading tokens and writing trees down correspond. A list is read as the sound trees whose tokens
it holds, a minus sign with one operand being a negation; a list that is not read is malformed, and
is so for an operator that does not take its number of operands or for a token that finds too few of
them. Every list of sound trees is what its own tokens are read as. Each token that is read adds one
tree and uses as many as it has operands, and any token leaves one at least. -/
theorem trees_correspond (tokens : Expression) :
    (∀ es, tokens.trees = .ok es ↔
      (∀ e ∈ es, e.Sound) ∧ tokensList es = tokens.map Token.spelled) ∧
    ((∃ err, tokens.trees = .error err ∧ err.isMalformed = true) ↔
      (∃ op arity, Token.operator op arity ∈ tokens ∧ op.takes arity = false) ∨
        ∃ before t after, tokens = before ++ t :: after ∧ balance before < t.arity) ∧
    (∀ es : List Expr, (∀ e ∈ es, e.Sound) → trees (tokensList es) = .ok es) ∧
    (∀ es, tokens.trees = .ok es →
      (es.length : Int) = balance tokens ∧ (tokens ≠ [] → 1 ≤ es.length)) := by
  refine ⟨fun es => trees_eq_ok_iff, ?_, ?_, ?_⟩
  · have fails : (∃ err, tokens.trees = .error err ∧ err.isMalformed = true) ↔
        ∃ err, tokens.foldlM push [] = .error err := by
      constructor
      · rintro ⟨err, h, -⟩
        exact ⟨err, trees_eq_error_iff_foldlM.mp h⟩
      · rintro ⟨err, h⟩
        exact ⟨err, trees_eq_error_iff_foldlM.mpr h, foldlM_malformed h⟩
    have refused : (∃ t ∈ tokens, t.isAccepted = false) ↔
        ∃ op arity, Token.operator op arity ∈ tokens ∧ op.takes arity = false := by
      constructor
      · rintro ⟨t, member, refused⟩
        cases t with
        | operator op arity => exact ⟨op, arity, member, refused⟩
        | bool | number | null | text | «variable» | function | group => cases refused
      · rintro ⟨op, arity, member, refused⟩
        exact ⟨_, member, refused⟩
    rw [fails, foldlM_fails_iff, refused]
    simp only [List.length_nil, Int.ofNat_zero, Int.zero_add]
  · intro es sound
    rw [trees_eq_ok_iff_foldlM, foldlM_tokensList es (soundList_iff.mpr sound) [], List.append_nil]
  · intro es h
    refine ⟨?_, one_le_length_of_trees h⟩
    have count := (foldlM_push (trees_eq_ok_iff_foldlM.mp h)).1
    rw [List.length_reverse] at count
    simpa using count

/-- Two trees side by side: `-x` with the minus sign of the script, and `f(1, true) + y`. -/
example : trees [.variable "x", .operator .minus 1, .number 1, .bool true, .function "f" 2,
      .variable "y", .operator .add 2] =
    .ok [.unary .unaryMinus (.variable "x"),
      .binary .add (.call "f" [.literal (.number 1), .literal (.bool true)]) (.variable "y")] := rfl

end Expression

end Dialogue
