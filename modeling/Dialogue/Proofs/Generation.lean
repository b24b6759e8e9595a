import Dialogue.Lua.Fragment
import Dialogue.Proofs.Postorder

/-!
When an expression has a Lua form. Generation works in two phases. Tokens that are not the writing
of trees are refused as malformed by the first. The second refuses operators that store a value, as
unsupported, wherever they stand; on the trees of the first phase it refuses nothing else. A count
other than one, where a single expression is asked for, is only looked at after both.
-/

set_option autoImplicit false
set_option relaxedAutoImplicit false

namespace Dialogue

/-- Whether a token is an operator that stores a value. -/
def Token.stores : Token → Bool
  | .operator op _ => op.isAssignment
  | _ => false

private theorem Token.stores_spelled (t : Token) : t.spelled.stores = t.stores := by
  unfold spelled
  split <;> rfl

namespace Expression

/-- Whether an operator of a token list stores a value. -/
def stores (tokens : Expression) : Bool :=
  tokens.any Token.stores

private theorem stores_iff {tokens : Expression} :
    tokens.stores = true ↔ ∃ t ∈ tokens, t.stores = true :=
  List.any_eq_true

private theorem stores_eq_false_iff {tokens : Expression} :
    tokens.stores = false ↔ ∀ t ∈ tokens, t.stores = false := by
  simp [stores]

private theorem stores_append (first second : Expression) :
    stores (first ++ second) = (first.stores || second.stores) :=
  List.any_append

private theorem stores_concat (tokens : Expression) (t : Token) :
    stores (tokens ++ [t]) = (tokens.stores || t.stores) := by
  rw [stores_append]
  simp [stores]

/-- A token that does not store a value changes nothing. -/
theorem stores_concat_of_plain (tokens : Expression) {t : Token} (plain : t.stores = false) :
    stores (tokens ++ [t]) = tokens.stores := by
  rw [stores_concat, plain, Bool.or_false]

private theorem stores_spelled (tokens : Expression) :
    stores (tokens.map Token.spelled) = tokens.stores := by
  rw [stores, List.any_map]
  exact congrArg tokens.any (funext Token.stores_spelled)

end Expression

/-- A result is there if no operator stores a value; else it is the error of one that does. -/
inductive Outcome {α : Type} : Bool → Except ExprError α → Prop
  | ok (a : α) : Outcome false (.ok a)
  | assignment {op : Operator} : op.isAssignment = true → Outcome true (.error (.assignment op))

namespace Outcome

variable {α β : Type} {x : Except ExprError α} {stores later : Bool}

private theorem bind {f : α → Except ExprError β} (first : Outcome stores x)
    (next : ∀ a, Outcome later (f a)) :
    Outcome (stores || later) (x >>= f) := by
  cases first with
  | ok a => exact next a
  | assignment isAssignment => exact .assignment isAssignment

private theorem map {f : α → Except ExprError β} (first : Outcome stores x)
    (total : ∀ a, ∃ b, f a = .ok b) :
    Outcome stores (x >>= f) := by
  rw [← Bool.or_false stores]
  refine first.bind fun a => ?_
  obtain ⟨b, found⟩ := total a
  rw [found]
  exact .ok b

private theorem isOk_iff (h : Outcome stores x) : (∃ a, x = .ok a) ↔ stores = false := by
  cases h with
  | ok a => exact ⟨fun _ => rfl, fun _ => ⟨a, rfl⟩⟩
  | assignment =>
    constructor
    · rintro ⟨_, ⟨⟩⟩
    · rintro ⟨⟩

private theorem isUnsupported_iff (h : Outcome stores x) :
    (∃ err, x = .error err ∧ err.isMalformed = false) ↔ stores = true := by
  cases h with
  | ok a => exact ⟨nofun, nofun⟩
  | assignment => exact ⟨fun _ => rfl, fun _ => ⟨_, rfl, rfl⟩⟩

private theorem not_isMalformed (h : Outcome stores x) {err : ExprError} (failed : x = .error err) :
    err.isMalformed = false := by
  cases h with
  | ok a => cases failed
  | assignment =>
    cases failed
    rfl

end Outcome

private theorem Lua.binaryOperator_outcome {op : Operator} (accepted : op.takes 2 = true) :
    Outcome op.isAssignment (Lua.binaryOperator op) := by
  cases op with
  | not | unaryMinus => cases accepted
  | assign | addAssign | minusAssign | multiplyAssign | divideAssign => exact .assignment rfl
  | _ => exact .ok _

namespace Expr

mutual

/-- The trees that a tree is made of, itself first. -/
def parts : Expr → List Expr
  | .literal value => [.literal value]
  | .variable name => [.variable name]
  | .group inner => .group inner :: inner.parts
  | .unary op operand => .unary op operand :: operand.parts
  | .binary op left right => .binary op left right :: (left.parts ++ right.parts)
  | .call name arguments => .call name arguments :: partsList arguments

def partsList : List Expr → List Expr
  | [] => []
  | e :: rest => e.parts ++ partsList rest

end

mutual

private theorem sound_of_mem_parts : ∀ (e : Expr), e.Sound → ∀ p ∈ e.parts, p.Sound
  | .literal value, sound => by
    simpa [parts] using sound
  | .variable name, sound => by
    simpa [parts] using sound
  | .group inner, sound => by
    rw [parts, List.forall_mem_cons]
    exact ⟨sound, sound_of_mem_parts inner sound⟩
  | .unary op operand, sound => by
    rw [parts, List.forall_mem_cons]
    exact ⟨sound, sound_of_mem_parts operand sound.2⟩
  | .binary op left right, sound => by
    rw [parts, List.forall_mem_cons, List.forall_mem_append]
    exact ⟨sound, sound_of_mem_parts left sound.2.1, sound_of_mem_parts right sound.2.2⟩
  | .call name arguments, sound => by
    rw [parts, List.forall_mem_cons]
    exact ⟨sound, sound_of_mem_partsList arguments sound⟩

private theorem sound_of_mem_partsList :
    ∀ (es : List Expr), SoundList es → ∀ p ∈ partsList es, p.Sound
  | [], _ => nofun
  | e :: rest, sound => by
    rw [partsList, List.forall_mem_append]
    exact ⟨sound_of_mem_parts e sound.1, sound_of_mem_partsList rest sound.2⟩

end

mutual

/-- A sound tree has a fragment unless it stores a value. -/
theorem lua_outcome : ∀ (e : Expr), e.Sound → Outcome e.tokens.stores e.lua
  | .literal value, _ => by
    cases value <;> exact .ok _
  | .variable name, _ => .ok _
  | .group inner, sound => by
    rw [tokens, Expression.stores_concat_of_plain _ rfl, lua]
    exact (lua_outcome inner sound).map fun _ => ⟨_, rfl⟩
  | .unary op operand, ⟨negation, sound⟩ => by
    have here := lua_outcome operand sound
    rw [tokens, lua]
    rcases negation with rfl | rfl
    · rw [Expression.stores_concat_of_plain _ rfl]
      exact here.map fun _ => ⟨_, rfl⟩
    · rw [Expression.stores_concat_of_plain _ rfl]
      exact here.map fun _ => ⟨_, rfl⟩
  | .binary op left right, ⟨accepted, soundLeft, soundRight⟩ => by
    rw [tokens, Expression.stores_concat, Expression.stores_append, Bool.or_comm, lua]
    refine (Lua.binaryOperator_outcome accepted).bind fun symbol => ?_
    refine (lua_outcome left soundLeft).bind fun l => ?_
    exact (lua_outcome right soundRight).map fun _ => ⟨_, rfl⟩
  | .call name arguments, sound => by
    rw [tokens, Expression.stores_concat_of_plain _ rfl, lua]
    exact (luaList_outcome arguments sound).map fun _ => ⟨_, rfl⟩

private theorem luaList_outcome : ∀ (es : List Expr), SoundList es →
    Outcome (tokensList es).stores (luaList es)
  | [], _ => .ok []
  | e :: rest, ⟨sound, others⟩ => by
    rw [tokensList, Expression.stores_append, luaList]
    exact (lua_outcome e sound).bind fun _ => (luaList_outcome rest others).map fun _ => ⟨_, rfl⟩

end

theorem length_of_luaList {es : List Expr} : ∀ {texts : List String}, luaList es = .ok texts →
    texts.length = es.length := by
  induction es with
  | nil =>
    intro texts written
    cases written
    rfl
  | cons e rest ih =>
    intro texts written
    simp only [luaList, bind_eq_ok_iff, pure_eq_ok_iff] at written
    obtain ⟨_, -, others, writtenRest, rfl⟩ := written
    rw [List.length_cons, List.length_cons, ih writtenRest]

end Expr

namespace Expression

/-- The tokens are not the writing of trees. -/
def Unreadable (tokens : Expression) : Prop :=
  ∀ es, tokens.trees ≠ .ok es

variable {tokens : Expression}

private theorem unreadable_of_error {err : ExprError} (refused : tokens.trees = .error err) :
    tokens.Unreadable := by
  intro es read
  rw [refused] at read
  cases read

private theorem not_unreadable {es : List Expr} (read : tokens.trees = .ok es) :
    ¬ tokens.Unreadable :=
  fun unreadable => unreadable es read

private theorem trees_malformed {err : ExprError} (refused : tokens.trees = .error err) :
    err.isMalformed = true :=
  foldlM_malformed (trees_eq_error_iff_foldlM.mp refused)

theorem fragments_of_error {err : ExprError} (refused : tokens.trees = .error err) :
    tokens.fragments = .error err := by
  rw [fragments, refused]
  rfl

private theorem fragments_outcome {es : List Expr} (read : tokens.trees = .ok es) :
    Outcome tokens.stores tokens.fragments := by
  obtain ⟨sound, written⟩ := trees_eq_ok_iff.mp read
  have generated := Expr.luaList_outcome es (Expr.soundList_iff.mpr sound)
  rw [written, stores_spelled] at generated
  rw [fragments, read]
  exact generated

private theorem fragments_ok_iff : (∃ texts, tokens.fragments = .ok texts) ↔
    (∃ es, tokens.trees = .ok es) ∧ tokens.stores = false := by
  cases read : tokens.trees with
  | error err =>
    rw [fragments_of_error read]
    exact ⟨nofun, nofun⟩
  | ok es =>
    rw [(fragments_outcome read).isOk_iff]
    exact ⟨fun plain => ⟨⟨es, rfl⟩, plain⟩, fun h => h.2⟩

private theorem fragments_unsupported_iff :
    (∃ err, tokens.fragments = .error err ∧ err.isMalformed = false) ↔
    (∃ es, tokens.trees = .ok es) ∧ tokens.stores = true := by
  cases read : tokens.trees with
  | error err =>
    rw [fragments_of_error read]
    refine ⟨?_, nofun⟩
    rintro ⟨_, ⟨⟩, unsupported⟩
    rw [trees_malformed read] at unsupported
    cases unsupported
  | ok es =>
    rw [(fragments_outcome read).isUnsupported_iff]
    exact ⟨fun stores => ⟨⟨es, rfl⟩, stores⟩, fun h => h.2⟩

theorem fragments_malformed_iff : (∃ err, tokens.fragments = .error err ∧ err.isMalformed = true) ↔
    tokens.Unreadable := by
  cases read : tokens.trees with
  | error err =>
    refine iff_of_true ?_ (unreadable_of_error read)
    exact ⟨err, fragments_of_error read, trees_malformed read⟩
  | ok es =>
    refine iff_of_false ?_ (not_unreadable read)
    rintro ⟨err, failed, malformed⟩
    rw [(fragments_outcome read).not_isMalformed failed] at malformed
    cases malformed

private theorem length_of_fragments {es : List Expr} {texts : List String}
    (read : tokens.trees = .ok es) (written : tokens.fragments = .ok texts) :
    texts.length = es.length := by
  rw [fragments, read] at written
  exact Expr.length_of_luaList written

theorem fragment_of_error {err : ExprError} (failed : tokens.fragments = .error err) :
    tokens.fragment = .error err := by
  rw [fragment, failed]
  rfl

/-- What becomes of tokens where a single expression is asked for. -/
inductive Verdict (tokens : Expression) : Except ExprError String → Prop
  | unreadable {err : ExprError} : tokens.Unreadable → err.isMalformed = true →
  Verdict tokens (.error err)
  | stores {es : List Expr} {err : ExprError} : tokens.trees = .ok es → tokens.stores = true →
      err.isMalformed = false → Verdict tokens (.error err)
  | count {es : List Expr} {found : Nat} : tokens.trees = .ok es →
      tokens.stores = false → es.length ≠ 1 →
      Verdict tokens (.error (.notSingle found))
  | single {e : Expr} {s : String} : tokens.trees = .ok [e] → tokens.stores = false →
      Verdict tokens (.ok s)

private theorem verdict_of_fragments {es : List Expr} {texts : List String}
    (read : tokens.trees = .ok es) (plain : tokens.stores = false)
    (written : tokens.fragments = .ok texts) :
    tokens.Verdict tokens.fragment := by
  have count := length_of_fragments read written
  rw [fragment, written]
  match texts, count with
  | [s], count =>
    obtain ⟨e, rfl⟩ := List.length_eq_one_iff.mp count.symm
    exact .single read plain
  | [], count => exact .count read plain (by rw [← count]; decide)
  | _ :: _ :: rest, count =>
    refine .count read plain ?_
    rw [← count, List.length_cons, List.length_cons]
    omega

private theorem fragment_verdict (tokens : Expression) : tokens.Verdict tokens.fragment := by
  cases written : tokens.fragments with
  | ok texts =>
    obtain ⟨⟨es, read⟩, plain⟩ := fragments_ok_iff.mp ⟨texts, written⟩
    exact verdict_of_fragments read plain written
  | error err =>
    rw [fragment_of_error written]
    cases malformed : err.isMalformed with
    | true => exact .unreadable (fragments_malformed_iff.mp ⟨err, written, malformed⟩) malformed
    | false =>
      obtain ⟨⟨es, read⟩, stores⟩ := fragments_unsupported_iff.mp ⟨err, written, malformed⟩
      exact .stores read stores malformed

private theorem fragment_ok_iff : (∃ s, tokens.fragment = .ok s) ↔
    (∃ e, tokens.trees = .ok [e]) ∧ tokens.stores = false := by
  have verdict := tokens.fragment_verdict
  generalize tokens.fragment = result at verdict ⊢
  cases verdict with
  | unreadable unreadable => exact ⟨nofun, fun ⟨⟨e, read⟩, _⟩ => absurd read (unreadable _)⟩
  | stores read stores => exact ⟨nofun, fun ⟨_, plain⟩ => by simp [stores] at plain⟩
  | count read plain several =>
    refine ⟨nofun, fun ⟨⟨e, single⟩, _⟩ => ?_⟩
    rw [read] at single
    cases single
    exact absurd rfl several
  | single read plain => exact ⟨fun _ => ⟨⟨_, read⟩, plain⟩, fun _ => ⟨_, rfl⟩⟩

private theorem fragment_unsupported_iff :
    (∃ err, tokens.fragment = .error err ∧ err.isMalformed = false) ↔
    (∃ es, tokens.trees = .ok es) ∧ tokens.stores = true := by
  have verdict := tokens.fragment_verdict
  generalize tokens.fragment = result at verdict ⊢
  cases verdict with
  | unreadable unreadable malformed =>
    refine ⟨?_, fun ⟨⟨es, read⟩, _⟩ => absurd read (unreadable es)⟩
    rintro ⟨_, ⟨⟩, unsupported⟩
    simp [malformed] at unsupported
  | stores read stores unsupported =>
    exact ⟨fun _ => ⟨⟨_, read⟩, stores⟩, fun _ => ⟨_, rfl, unsupported⟩⟩
  | count read plain several =>
    refine ⟨?_, fun ⟨_, stores⟩ => by simp [plain] at stores⟩
    rintro ⟨_, ⟨⟩, ⟨⟩⟩
  | single read plain => exact ⟨nofun, fun ⟨_, stores⟩ => by simp [plain] at stores⟩

theorem fragment_malformed_iff : (∃ err, tokens.fragment = .error err ∧ err.isMalformed = true) ↔
    tokens.Unreadable ∨ tokens.stores = false ∧ ∀ e, tokens.trees ≠ .ok [e] := by
  have verdict := tokens.fragment_verdict
  generalize tokens.fragment = result at verdict ⊢
  cases verdict with
  | unreadable unreadable malformed => exact iff_of_true ⟨_, rfl, malformed⟩ (.inl unreadable)
  | stores read stores unsupported =>
    refine ⟨?_, ?_⟩
    · rintro ⟨_, ⟨⟩, malformed⟩
      simp [unsupported] at malformed
    · rintro (unreadable | ⟨plain, -⟩)
      · exact absurd read (unreadable _)
      · simp [stores] at plain
  | count read plain several =>
    refine iff_of_true ⟨_, rfl, rfl⟩ (.inr ⟨plain, fun e single => ?_⟩)
    rw [read] at single
    cases single
    exact absurd rfl several
  | single read plain =>
    refine ⟨nofun, ?_⟩
    rintro (unreadable | ⟨-, several⟩)
    · exact absurd read (unreadable _)
    · exact absurd read (several _)

private theorem lua_of_trees {es : List Expr} (read : tokens.trees = .ok es)
    {e p : Expr} (member : e ∈ es) (part : p ∈ e.parts) : Outcome p.tokens.stores p.lua :=
  p.lua_outcome (e.sound_of_mem_parts ((trees_eq_ok_iff.mp read).1 e member) p part)

/-- How token lists are told apart by generation. Where one expression is asked for there is a
fragment exactly if the tokens are those of one tree and no operator stores a value; tokens of any
number of trees with an operator that stores a value are unsupported; all others are malformed.
Where any number of expressions may stand the count does not matter. No part of a tree that is read
has an operator with a number of operands that it does not take. -/
theorem generation_classified (tokens : Expression) :
    ((∃ s, tokens.fragment = .ok s) ↔
      (∃ e, tokens.trees = .ok [e]) ∧ ∀ t ∈ tokens, t.stores = false) ∧
    ((∃ err, tokens.fragment = .error err ∧ err.isMalformed = false) ↔
      (∃ es, tokens.trees = .ok es) ∧ ∃ t ∈ tokens, t.stores = true) ∧
    ((∃ err, tokens.fragment = .error err ∧ err.isMalformed = true) ↔
      (∀ es, tokens.trees ≠ .ok es) ∨
        (∀ t ∈ tokens, t.stores = false) ∧ ∀ e, tokens.trees ≠ .ok [e]) ∧
    ((∃ texts, tokens.fragments = .ok texts) ↔
      (∃ es, tokens.trees = .ok es) ∧ ∀ t ∈ tokens, t.stores = false) ∧
    ((∃ err, tokens.fragments = .error err ∧ err.isMalformed = false) ↔
      (∃ es, tokens.trees = .ok es) ∧ ∃ t ∈ tokens, t.stores = true) ∧
    ((∃ err, tokens.fragments = .error err ∧ err.isMalformed = true) ↔
      ∀ es, tokens.trees ≠ .ok es) ∧
    ∀ es, tokens.trees = .ok es → ∀ e ∈ es, ∀ p ∈ e.parts, ∀ op,
      p.lua ≠ .error (.notUnary op) ∧ p.lua ≠ .error (.notBinary op) := by
  rw [← stores_iff, ← stores_eq_false_iff]
  refine ⟨fragment_ok_iff, fragment_unsupported_iff, fragment_malformed_iff, fragments_ok_iff,
    fragments_unsupported_iff, fragments_malformed_iff, ?_⟩
  intro es read e member p part op
  have generated := lua_of_trees read member part
  refine ⟨fun failed => ?_, fun failed => ?_⟩
  · cases generated.not_isMalformed failed
  · cases generated.not_isMalformed failed

/-- An assignment among the arguments of a call decides before the count of the trees does. -/
example :
    ∃ op, fragment [.variable "a", .number 1, .operator .addAssign 2, .function "f" 1, .null] =
    .error (.assignment op) :=
  ⟨.addAssign, rfl⟩

end Expression

end Dialogue
