import Dialogue.Proofs.Emission
import Dialogue.Proofs.Generation
import Dialogue.Proofs.Guards

/-!
When a script of the grammar can be lowered. Each statement has requirements of its own, which
depend on its sort and its expressions, and on nothing that stands before it. The lowering stops at
the first that it finds unmet, and it passes by none: it succeeds exactly if all of them are met,
and otherwise its error is that of a requirement that is not.
-/

set_option autoImplicit false
set_option relaxedAutoImplicit false

namespace Dialogue

/-- A result that depends on needs: a value comes of needs that are all met, an error of one that is
not and that takes the blame for it. -/
inductive Decided {ν ε α : Type} (met : ν → Prop) (blamed : ε → ν → Prop) (needs : List ν) :
    Except ε α → Prop
  | ok {a : α} : (∀ n ∈ needs, met n) → Decided met blamed needs (.ok a)
  | error {e : ε} {n : ν} : n ∈ needs → ¬ met n → blamed e n → Decided met blamed needs (.error e)

namespace Decided

variable {ν ε α β γ : Type} {met : ν → Prop} {blamed : ε → ν → Prop} {needs later : List ν}

private theorem of_mem_iff {x : Except ε α} (h : Decided met blamed needs x)
    (same : ∀ n, n ∈ needs ↔ n ∈ later) :
    Decided met blamed later x := by
  cases h with
  | ok all => exact .ok fun n member => all n ((same n).mpr member)
  | error member unmet blame => exact .error ((same _).mp member) unmet blame

private theorem after {x : Except ε α} (h : Decided met blamed later x) (all : ∀ n ∈ needs, met n) :
    Decided met blamed (needs ++ later) x := by
  cases h with
  | ok rest => exact .ok (List.forall_mem_append.mpr ⟨all, rest⟩)
  | error member unmet blame => exact .error (List.mem_append_right _ member) unmet blame

private theorem bind {x : Except ε α} {f : α → Except ε β} (first : Decided met blamed needs x)
    (second : ∀ a, Decided met blamed later (f a)) :
    Decided met blamed (needs ++ later) (x >>= f) := by
  cases first with
  | ok all => exact (second _).after all
  | error member unmet blame => exact .error (List.mem_append_left _ member) unmet blame

private theorem bindOk {x : Except ε α} {f : α → Except ε β} (first : Decided met blamed needs x)
    (total : ∀ a, ∃ b, f a = .ok b) : Decided met blamed needs (x >>= f) := by
  cases first with
  | @ok a all =>
    obtain ⟨b, found⟩ := total a
    rw [show (Except.ok a >>= f) = .ok b from found]
    exact .ok all
  | error member unmet blame => exact .error member unmet blame

private theorem mapM {f : γ → Except ε α} {own : γ → List ν}
    (each : ∀ c, Decided met blamed (own c) (f c))
    (cs : List γ) : Decided met blamed (cs.flatMap own) (cs.mapM f) := by
  induction cs with
  | nil => exact .ok nofun
  | cons c rest ih =>
    rw [List.mapM_cons, List.flatMap_cons]
    exact (each c).bind fun _ => ih.bindOk fun _ => ⟨_, rfl⟩

private theorem ok_iff {x : Except ε α} (h : Decided met blamed needs x) :
    (∃ a, x = .ok a) ↔ ∀ n ∈ needs, met n := by
  cases h with
  | ok all => exact iff_of_true ⟨_, rfl⟩ all
  | error member unmet _ => exact ⟨nofun, fun all => absurd (all _ member) unmet⟩

private theorem of_error {x : Except ε α} {e : ε} (h : Decided met blamed needs x)
    (failed : x = .error e) :
    ∃ n ∈ needs, ¬ met n ∧ blamed e n := by
  subst failed
  cases h with
  | error member unmet blame => exact ⟨_, member, unmet, blame⟩

end Decided

namespace Expr

private theorem exists_unaryFragment {op : Operator} {value folded : Literal}
    (h : foldUnary? op value = some folded) (operand : String) :
    ∃ s, Lua.unaryFragment op operand = .ok s := by
  unfold foldUnary? at h
  split at h
  · exact ⟨_, rfl⟩
  · exact ⟨_, rfl⟩
  · cases h

private theorem exists_binaryOperator {op : Operator} {left right folded : Literal}
    (h : foldBinary? op left right = some folded) : ∃ s, Lua.binaryOperator op = .ok s := by
  unfold foldBinary? at h
  split at h
  · obtain ⟨_, found, -⟩ := Option.map_eq_some_iff.mp h
    have found := (Option.filter_eq_some_iff.mp found).1
    cases op <;> simp [arithmetic?, Lua.binaryOperator] at found ⊢
  · obtain ⟨_, found, -⟩ := Option.map_eq_some_iff.mp h
    cases op <;> simp [logic?, Lua.binaryOperator] at found ⊢
  · cases h

/-- A tree that reduces to a literal has a fragment: it holds no operator that stores a value. -/
theorem exists_lua_of_constant : ∀ (e : Expr) {value : Literal}, e.constant? = some value →
    ∃ s, e.lua = .ok s
  | .literal _, _, _ => ⟨_, rfl⟩
  | .group inner, _, h => by
    obtain ⟨s, written⟩ := exists_lua_of_constant inner h
    rw [lua, written]
    exact ⟨_, rfl⟩
  | .unary op operand, _, h => by
    obtain ⟨_, constant, folded⟩ := Option.bind_eq_some_iff.mp h
    obtain ⟨s, written⟩ := exists_lua_of_constant operand constant
    rw [lua, written]
    exact exists_unaryFragment folded s
  | .binary op left right, _, h => by
    obtain ⟨_, constantLeft, h⟩ := Option.bind_eq_some_iff.mp h
    obtain ⟨_, constantRight, folded⟩ := Option.bind_eq_some_iff.mp h
    obtain ⟨symbol, spelled⟩ := exists_binaryOperator folded
    obtain ⟨_, writtenLeft⟩ := exists_lua_of_constant left constantLeft
    obtain ⟨_, writtenRight⟩ := exists_lua_of_constant right constantRight
    rw [lua, spelled, writtenLeft, writtenRight]
    exact ⟨_, rfl⟩

end Expr

namespace Command

/-- The pieces of an argument: the words of a text, or an expression. -/
def Argument.pieces : Argument → List Argument
  | .text s => (words s).map .text
  | .expression tokens => [.expression tokens]

theorem waitText_eq (arguments : List Argument) :
    waitText arguments = match (arguments.flatMap Argument.pieces).head? with
      | some (.text word) => wordDelay word
      | some (.expression tokens) => expressionDelay tokens
      | none => .error .noDuration := by
  induction arguments with
  | nil => rfl
  | cons argument rest ih =>
    rw [List.flatMap_cons]
    cases argument with
    | expression tokens => rfl
    | text s =>
      rw [waitText, Argument.pieces]
      cases words s with
      | nil => exact ih
      | cons word others => rfl

/-- The delay of an expression fails where its fragment does, also if it needs no fragment. -/
theorem expressionDelay_eq (tokens : Expression) :
    ∃ f : String → String, expressionDelay tokens = tokens.fragment >>= fun s => .ok (f s) := by
  cases read : tokens.trees with
  | error err =>
    refine ⟨id, ?_⟩
    rw [expressionDelay, Expression.fragment_of_error (Expression.fragments_of_error read), read]
    rfl
  | ok es =>
    by_cases constant : ∃ e x, es = [e] ∧ e.constant? = some (.number x)
    · obtain ⟨e, x, rfl, constant⟩ := constant
      obtain ⟨s, written⟩ := e.exists_lua_of_constant constant
      have generated : tokens.fragment = .ok s := by
        rw [Expression.fragment, Expression.fragments, read]
        simp only [Expr.luaList, written, Bind.bind, Except.bind, Pure.pure, Except.pure]
      refine ⟨fun _ => delay (Lua.number x), ?_⟩
      rw [expressionDelay, read, generated]
      simp only [Bind.bind, Except.bind, constant]
      rfl
    · refine ⟨fun s => delay (embedded s), ?_⟩
      rw [expressionDelay, read]
      simp only [Bind.bind, Except.bind]
      split
      · next single =>
        split
        · next x found => exact absurd ⟨single, x, rfl, found⟩ constant
        · rfl
      · rfl

end Command

/-- Tokens that are not those of one expression, for another reason than an operator that stores a
value. -/
def Expression.IsMalformed (tokens : Expression) : Prop :=
  tokens.Unreadable ∨ tokens.stores = false ∧ ∀ e, tokens.trees ≠ .ok [e]

namespace Script

/-- What the lowering of a statement asks for. -/
inductive Requirement
  /-- A guard or an argument of one expression. -/
  | single (tokens : Expression)
  /-- Any number of expressions, put into the text of a line. -/
  | several (tokens : Expression)
  /-- A payload of one expression, which has to be there. -/
  | payload (found : Option Expression)
  /-- A node to jump to. -/
  | destination (target : Target)
  /-- The first piece of a command, as a number of seconds. -/
  | duration (item : Option Command.Argument)

namespace Requirement

/-- Whether a statement has what is asked for. -/
def Met (ctx : Context) : Requirement → Prop
  | .single tokens => ∃ s, tokens.fragment = .ok s
  | .several tokens => ∃ texts, tokens.fragments = .ok texts
  | .payload found => ∃ tokens, found = some tokens ∧ ∃ s, tokens.fragment = .ok s
  | .destination target => ∃ name, target = .node name ∧ ctx.conversations.contains name = true
  | .duration item =>
    (∃ word, item = some (.text word) ∧ (Decimal.readFinite? word.toList).isSome = true) ∨
      ∃ tokens, item = some (.expression tokens) ∧ ∃ s, tokens.fragment = .ok s

/-- Whether what a statement has in place of what is asked for condemns its file. -/
def IsMalformed : Requirement → Prop
  | .single tokens => tokens.IsMalformed
  | .several tokens => tokens.Unreadable
  | .payload found => found = none ∨ ∃ tokens, found = some tokens ∧ tokens.IsMalformed
  | .destination _ => False
  | .duration item => ∃ tokens, item = some (.expression tokens) ∧ tokens.IsMalformed

/-- Whether an error of an expression is of the sort that an unmet requirement causes. -/
def Causes (err : ExprError) (r : Requirement) : Prop :=
  err.isMalformed = true ↔ r.IsMalformed

end Requirement

def Content.guardRequirements {κ : Type} (c : Content κ) : List Requirement :=
  c.guard?.toList.map .single

/-- The requirements of a basic statement. The guard of a directive is not read. -/
def Content.requirements (c : Content Basic) : List Requirement :=
  match c.kind with
  | .line _ => c.guardRequirements ++ c.payload?.toList.map .several
  | .command name arguments _ =>
    match Command.Kind.ofName name with
    | .stop => c.guardRequirements
    | .custom =>
      (arguments.filterMap Command.Argument.expression?).map .single ++ c.guardRequirements
    | .playSequence => (arguments.filterMap Command.Argument.expression?).map .single
    | .wait => [.duration (arguments.flatMap Command.Argument.pieces).head?]
  | .call _ | .set _ _ | .declare _ => .payload c.payload? :: c.guardRequirements
  | .jump target => .destination target :: c.guardRequirements

/-- The requirements of a statement, without those of the statements that it holds. The guard of an
option is not read if the line that it shows has one. -/
def Tree.requirements : Tree → List Requirement
  | .node _ content children =>
    match content.kind with
    | .basic b => (content.withKind b).requirements
    | .block (.ifClause _) => content.guardRequirements
    | .block .option =>
      if children.head?.any (·.content.hasConditions) then [] else content.guardRequirements
    | .block _ => []

/-- A requirement and the source line of the statement that has it. -/
structure Need where
  line : Nat
  requirement : Requirement

/-- The requirements of a statement at its line. -/
def Tree.needs (t : Tree) : List Need :=
  t.requirements.map (Need.mk t.content.line)

private theorem Tree.needs_of_node {t : Tree} {name : String} {headers : Dict String}
    (h : t.kind = .block (.node name headers)) : t.needs = [] := by
  obtain ⟨id, content, children⟩ := t
  replace h : content.kind = .block (.node name headers) := h
  simp [needs, requirements, h]

private theorem Tree.mem_needs_iff {ts : List Tree} {n : Need} : n ∈ ts.flatMap needs ↔
    ∃ t ∈ ts, n.line = t.content.line ∧ n.requirement ∈ t.requirements := by
  obtain ⟨line, r⟩ := n
  simp only [List.mem_flatMap, needs, List.mem_map, Need.mk.injEq]
  constructor
  · rintro ⟨t, member, _, asked, rfl, rfl⟩
    exact ⟨t, member, rfl, asked⟩
  · rintro ⟨t, member, rfl, asked⟩
    exact ⟨t, member, r, asked, rfl, rfl⟩

end Script

open Script

namespace Script.Requirement

variable {ctx : Context}

/-- A requirement that says by itself when a computation succeeds, and when its error is
malformed. -/
theorem decided_of_iff {α : Type} {r : Requirement} {result : Except ExprError α}
    (met : r.Met ctx ↔ ∃ a, result = .ok a)
    (malformed : r.IsMalformed ↔ ∃ err, result = .error err ∧ err.isMalformed = true) :
    Decided (Met ctx) Causes [r] result := by
  cases result with
  | ok a => exact .ok (List.forall_mem_singleton.mpr (met.mpr ⟨a, rfl⟩))
  | error err =>
    refine .error List.mem_cons_self ?_ ?_
    · rw [met]
      nofun
    · rw [Causes, malformed]
      simp

private theorem fragment_decided {r : Requirement} {tokens : Expression}
    (met : r.Met ctx ↔ ∃ s, tokens.fragment = .ok s)
    (malformed : r.IsMalformed ↔ tokens.IsMalformed) :
    Decided (Met ctx) Causes [r] tokens.fragment :=
  decided_of_iff met (malformed.trans Expression.fragment_malformed_iff.symm)

private theorem single_decided (tokens : Expression) :
    Decided (Met ctx) Causes [.single tokens] tokens.fragment :=
  fragment_decided Iff.rfl Iff.rfl

private theorem payload_decided (tokens : Expression) :
    Decided (Met ctx) Causes [.payload (some tokens)] tokens.fragment :=
  fragment_decided (by simp [Met]) (by simp [IsMalformed])

private theorem several_decided (tokens : Expression) :
    Decided (Met ctx) Causes [.several tokens] tokens.fragments :=
  decided_of_iff Iff.rfl Expression.fragments_malformed_iff.symm

private theorem call_decided (name : String) (arguments : List Command.Argument) :
    Decided (Met ctx) Causes ((arguments.filterMap Command.Argument.expression?).map .single)
      (Command.call name arguments) := by
  have each : ∀ argument : Command.Argument,
      Decided (Met ctx) Causes (argument.expression?.toList.map .single) argument.fragments := by
    intro argument
    cases argument with
    | text s => exact .ok nofun
    | expression tokens => exact (single_decided tokens).bindOk fun _ => ⟨_, rfl⟩
  rw [List.filterMap_eq_flatMap_toList, List.map_flatMap]
  exact (Decided.mapM each arguments).bindOk fun _ => ⟨_, rfl⟩

private theorem sequence_decided (rawText : String) (arguments : List Command.Argument) :
    Decided (Met ctx) Causes ((arguments.filterMap Command.Argument.expression?).map .single)
      (Command.sequenceText rawText arguments) := by
  rw [List.map_eq_flatMap]
  exact (Decided.mapM single_decided _).bindOk fun _ => ⟨_, rfl⟩

private theorem wait_decided (arguments : List Command.Argument) :
    Decided (Met ctx) Causes [.duration (arguments.flatMap Command.Argument.pieces).head?]
      (Command.waitText arguments) := by
  rw [Command.waitText_eq]
  cases (arguments.flatMap Command.Argument.pieces).head? with
  | none =>
    refine .error List.mem_cons_self ?_ ?_
    · simp [Met]
    · simp [Causes, IsMalformed, ExprError.isMalformed]
  | some item =>
    cases item with
    | expression tokens =>
      obtain ⟨f, same⟩ := Command.expressionDelay_eq tokens
      dsimp only
      rw [same]
      exact (fragment_decided (by simp [Met]) (by simp [IsMalformed])).bindOk fun _ => ⟨_, rfl⟩
    | text word =>
      dsimp only
      unfold Command.wordDelay Command.numeral?
      cases read : Decimal.readFinite? word.toList with
      | some x => exact .ok (by simp [Met, read])
      | none =>
        refine .error List.mem_cons_self ?_ ?_
        · simp [Met, read]
        · simp [Causes, IsMalformed, ExprError.isMalformed]

end Script.Requirement

namespace Scene

/-- Whether an error names the node and the line of an unmet requirement, and condemns its file if
that does. -/
def Blames (scene : Scene) (e : CompileError) (n : Need) : Prop :=
  e.conversation = scene.name ∧ e.line = n.line ∧ (e.isFatal = true ↔ n.requirement.IsMalformed)

def Decides {α : Type} (scene : Scene) (needs : List Need) (result : Except CompileError α) :
    Prop :=
  Decided (fun n => n.requirement.Met scene.context) scene.Blames needs result

/-- The needs of a line, which is guarded by itself or by the option that shows it. -/
def lineNeeds (s : Content Spoken) (choiceOf : Option (Content Unit)) : List Need :=
  ((lineGuard s choiceOf).2.toList.map .single).map (Need.mk (lineGuard s choiceOf).1) ++
    (s.payload?.toList.map .several).map (Need.mk s.line)

private theorem isFatal_expression (scene : Scene) (line : Nat) (err : ExprError) :
    (scene.error line (.expression err)).isFatal = err.isMalformed := by
  change decide
    ((if err.isMalformed then ErrorKind.malformedExpression else .unsupported) ≠ .unsupported) = _
  cases err.isMalformed <;> rfl

namespace Decides

variable (scene : Scene) (d : Draft) (pred : Nat)

private theorem located {α : Type} {rs : List Requirement}
    {result : Except ExprError α} (line : Nat)
    (h : Decided (Requirement.Met scene.context) Requirement.Causes rs result) :
    scene.Decides (rs.map (Need.mk line)) (scene.located line result) := by
  cases h with
  | ok all => exact .ok (List.forall_mem_map.mpr all)
  | @error err r member unmet cause =>
    refine .error (List.mem_map_of_mem member) unmet ⟨rfl, rfl, ?_⟩
    rw [isFatal_expression]
    exact cause

private theorem condition (line : Nat) (guard : Option Expression) :
    scene.Decides ((guard.toList.map .single).map (Need.mk line)) (scene.condition line guard) := by
  cases guard with
  | none => exact .ok nofun
  | some tokens =>
    exact (located scene line (Requirement.single_decided tokens)).bindOk fun _ => ⟨_, rfl⟩

private theorem addScript (s : Content Basic) (title script : String) :
    scene.Decides (s.guardRequirements.map (Need.mk s.line))
      (scene.addScript d pred s title script) :=
  (condition scene s.line s.guard?).bindOk fun _ => ⟨_, rfl⟩

private theorem addLine (s : Content Spoken) (choiceOf : Option (Content Unit)) :
    scene.Decides (lineNeeds s choiceOf) (scene.addLine d pred s choiceOf) := by
  rw [addLine_eq]
  refine (condition scene _ _).bind fun _ => .bindOk ?_ fun _ => ⟨_, rfl⟩
  unfold lineFragments
  cases s.payload? with
  | none => exact .ok nofun
  | some tokens => exact located scene s.line (Requirement.several_decided tokens)

/-- A statement without the payload that it needs. -/
theorem noPayload {α : Type} {line : Nat} {cause : Cause} (others : List Need)
    (kind : cause.kind = .malformedExpression) :
    scene.Decides (⟨line, .payload none⟩ :: others)
      (.error (scene.error line cause) : Except CompileError α) := by
  refine .error List.mem_cons_self ?_ ⟨rfl, rfl, ?_⟩
  · simp [Requirement.Met]
  · simp [Requirement.IsMalformed, CompileError.isFatal, CompileError.kind, Scene.error, kind]

private theorem addAssignment (s : Content Basic) (name : String) (op : Update) :
    scene.Decides ((.payload s.payload? :: s.guardRequirements).map (Need.mk s.line))
      (scene.addAssignment d pred s name op) := by
  unfold Scene.addAssignment
  cases s.payload? with
  | none => exact noPayload scene _ rfl
  | some payload =>
    exact (located scene s.line (Requirement.payload_decided payload)).bind fun _ =>
      addScript scene d pred s _ _

private theorem addJump (s : Content Basic) (target : Target) :
    scene.Decides ((.destination target :: s.guardRequirements).map (Need.mk s.line))
      (scene.addJump d pred s target) := by
  unfold Scene.addJump
  cases target with
  | computed tokens =>
    refine .error List.mem_cons_self ?_ ⟨rfl, rfl, ?_⟩
    · simp [Requirement.Met]
    · exact iff_of_false nofun id
  | node name =>
    dsimp only
    cases found : scene.context.conversations.get? name with
    | none =>
      refine .error List.mem_cons_self ?_ ⟨rfl, rfl, ?_⟩
      · simp [Requirement.Met, Dict.contains, found]
      · exact iff_of_false nofun id
    | some destination =>
      have known : ∀ n ∈ [(⟨s.line, .destination (.node name)⟩ : Need)],
          n.requirement.Met scene.context := by
        simp [Requirement.Met, Dict.contains, found]
      exact ((addScript scene d pred s _ _).bindOk fun _ => ⟨_, rfl⟩).after known

private theorem addBasic (s : Content Basic) :
    scene.Decides (s.requirements.map (Need.mk s.line)) (scene.addBasic d pred s) := by
  unfold Scene.addBasic Content.requirements
  cases s.kind with
  | line spoken =>
    rw [List.map_append]
    exact addLine scene d pred (s.withKind spoken) none
  | command name arguments rawText =>
    dsimp only
    cases Command.Kind.ofName name with
    | playSequence =>
      exact (located scene s.line (Requirement.sequence_decided rawText arguments)).bindOk fun _ =>
        ⟨_, rfl⟩
    | wait =>
      exact (located scene s.line (Requirement.wait_decided arguments)).bindOk fun _ => ⟨_, rfl⟩
    | stop => exact addScript scene d pred s _ _
    | custom =>
      dsimp only
      rw [List.map_append]
      exact (located scene s.line (Requirement.call_decided name arguments)).bind fun _ =>
        addScript scene d pred s _ _
  | call name =>
    dsimp only
    cases s.payload? with
    | none => exact noPayload scene _ rfl
    | some payload =>
      exact (located scene s.line (Requirement.payload_decided payload)).bind fun _ =>
        addScript scene d pred s _ _
  | jump target => exact addJump scene d pred s target
  | set name op => exact addAssignment scene d pred s name op
  | declare name => exact addAssignment scene d pred s name .assign

end Decides

/-- A choice has the needs of the option and of the line that it is made of. -/
theorem lineNeeds_choice {option shown : Content Kind} {spoken : Spoken} (id lineId : Nat)
    (following : List Tree) (isOption : option.kind = .block .option)
    (isLine : shown.kind = .basic (.line spoken)) :
    lineNeeds (shown.withKind spoken) (some (option.withKind ())) =
      (Script.Tree.node id option (.node lineId shown [] :: following)).needs ++
        (Script.Tree.node lineId shown []).needs := by
  have line : (Script.Tree.node lineId shown []).needs =
    shown.guardRequirements.map (Need.mk shown.line) ++
      (shown.payload?.toList.map .several).map (Need.mk shown.line) := by
    rw [Tree.needs, Tree.requirements, isLine, ← List.map_append]
    rfl
  have own : (Script.Tree.node id option (.node lineId shown [] :: following)).needs =
      (if shown.hasConditions then [] else option.guardRequirements).map (Need.mk option.line) := by
    rw [Tree.needs, Tree.requirements, isOption]
    rfl
  have guard : lineGuard (shown.withKind spoken) (some (option.withKind ())) =
      if shown.hasConditions then (shown.line, shown.guard?) else (option.line, option.guard?) :=
    rfl
  rw [lineNeeds, guard, own, line]
  cases guarded : shown.hasConditions with
  | true => rfl
  | false =>
    have bare : shown.guardRequirements = [] := by
      rw [Content.guardRequirements,
        Option.isNone_iff_eq_none.mp (Option.isSome_eq_false_iff.mp guarded)]
      rfl
    rw [bare]
    rfl

mutual

private theorem addItem_decides (scene : Scene) :
    ∀ (t : Tree) {item : Item} (d : Draft) (pred : Nat),
    t.item = .ok item → scene.Decides (t.parts.flatMap Tree.needs) (scene.addItem d pred item)
  | .node id content children, item, d, pred, read => by
    rw [Tree.parts, List.flatMap_cons]
    cases Tree.stands_of_item read with
    | @basic b kind none =>
      subst none
      have own : (Script.Tree.node id content []).needs =
          (content.withKind b).requirements.map (Need.mk content.line) := by
        rw [Tree.needs, Tree.requirements, kind]
        rfl
      rw [Tree.partsList, List.flatMap_nil, List.append_nil, own]
      exact Decides.addBasic scene d pred (content.withKind b)
    | branch kind some sound listed =>
      have own : (Script.Tree.node id content children).needs = [] := by
        simp [Tree.needs, Tree.requirements, kind]
      obtain ⟨guarded, last, same, clauses, otherwise⟩ :=
        addClauses_decides scene children sound listed
      rw [own, List.nil_append, same, addItem_branch]
      exact (clauses _ _).bind fun _ => (otherwise _).bindOk fun _ => ⟨_, rfl⟩
    | menu kind all listed =>
      have own : (Script.Tree.node id content children).needs = [] := by
        simp [Tree.needs, Tree.requirements, kind]
      rw [own, List.nil_append, addItem_menu]
      exact (addChoices_decides scene children _ _ _ all listed).bindOk fun _ => ⟨_, rfl⟩

private theorem addItems_decides (scene : Scene) :
    ∀ (ts : List Tree) {items : List Item} (d : Draft) (pred : Nat),
    Tree.itemList ts = .ok items →
      scene.Decides ((Tree.partsList ts).flatMap Tree.needs) (scene.addItems d pred items)
  | [], _, _, _, read => by
    cases read
    exact .ok nofun
  | t :: rest, _, d, pred, read => by
    obtain ⟨first, others, here, there, rfl⟩ := Tree.itemList_cons read
    rw [Tree.partsList, List.flatMap_append, addItems]
    exact (addItem_decides scene t d pred here).bind fun _ => addItems_decides scene rest _ _ there

/-- The needs of the children of an if block, parted into those of the guarded clauses and those of
the last one. -/
theorem addClauses_decides (scene : Scene) :
    ∀ (ts : List Tree) {isFirst : Bool} {clauses : List Clause}
    {otherwise : Option (List Item)}, clausesFlaw? isFirst ts = none →
      Tree.clauseList ts = .ok (clauses, otherwise) →
      ∃ guarded last, (Tree.partsList ts).flatMap Tree.needs = guarded ++ last ∧
        (∀ d kind, scene.Decides guarded (scene.addClauses d kind clauses)) ∧
        ∀ d, scene.Decides last (scene.addOtherwise d otherwise)
  | [], _, _, _, _, listed => by
    cases listed
    exact ⟨[], [], rfl, fun _ _ => .ok nofun, fun _ => .ok nofun⟩
  | .node id content children :: rest, isFirst, _, _, sound, listed => by
    obtain ⟨kind, isClause⟩ := Tree.clause_of_sound sound
    have own : (Script.Tree.node id content children).needs =
        content.guardRequirements.map (Need.mk content.line) := by
      rw [Tree.needs, Tree.requirements, show content.kind = _ from isClause]
      rfl
    rw [Tree.partsList, Tree.parts, List.cons_append, List.flatMap_cons, List.flatMap_append, own,
      Content.guardRequirements]
    obtain ⟨body, read,
        ⟨guard, others, found, soundRest, listedRest, rfl⟩ | ⟨found, rfl, rfl, rfl⟩⟩ :=
      Tree.clauseList_cons sound listed
    · obtain ⟨guarded, last, same, clauses, otherwise⟩ :=
        addClauses_decides scene rest soundRest listedRest
      refine ⟨[⟨content.line, .single guard⟩] ++
        ((Tree.partsList children).flatMap Tree.needs ++ guarded), last, ?_, fun d kind => ?_,
        otherwise⟩
      · rw [found, same, List.append_assoc, List.append_assoc]
        rfl
      · have inOrder : scene.Decides
            ((Tree.partsList children).flatMap Tree.needs ++
              ([⟨content.line, .single guard⟩] ++ guarded))
            (scene.addClauses d kind (.mk content.line guard body :: others)) := by
          rw [addClauses_cons]
          refine (addItems_decides scene children _ _ read).bind fun _ => ?_
          refine (Decides.located scene content.line (Requirement.single_decided guard)).bind
            fun _ => ?_
          exact (clauses _ _).bindOk fun _ => ⟨_, rfl⟩
        exact inOrder.of_mem_iff fun n => (List.perm_append_comm_assoc _ _ _).mem_iff
    · refine ⟨[], (Tree.partsList children).flatMap Tree.needs, ?_,
        fun _ _ => .ok nofun, fun d => ?_⟩
      · rw [found]
        exact List.append_nil _
      · exact (addItems_decides scene children _ _ read).bindOk fun _ => ⟨_, rfl⟩

private theorem addChoices_decides (scene : Scene) :
    ∀ (ts : List Tree) {choices : List Choice} (d : Draft)
    (start finish : Nat), (∀ t ∈ ts, t.kind = .block .option) → Tree.choiceList ts = .ok choices →
      scene.Decides ((Tree.partsList ts).flatMap Tree.needs)
        (scene.addChoices d start finish choices)
  | [], _, _, _, _, _, listed => by
    cases listed
    exact .ok nofun
  | .node id option [] :: rest, _, _, _, _, _, listed => by cases listed
  | .node id option (.node lineId shown below :: following) :: rest, _, d, start, finish, all,
      listed => by
    obtain ⟨_, _, _, spoken, body, others, same, isLine, read, listedRest, rfl⟩ :=
      Tree.choiceList_cons listed
    obtain ⟨head, rfl⟩ := List.cons.inj same
    cases head
    have isOption : option.kind = .block .option := all _ List.mem_cons_self
    have allRest : ∀ t ∈ rest, t.kind = .block .option :=
      fun t member => all t (List.mem_cons_of_mem _ member)
    simp only [Tree.partsList, Tree.parts, List.cons_append, List.nil_append, List.flatMap_cons,
      List.flatMap_append]
    rw [← List.append_assoc, ← lineNeeds_choice id lineId following isOption isLine,
      addChoices_cons]
    refine (Decides.addLine scene d start _ _).bind fun _ => ?_
    refine (addItems_decides scene following _ _ read).bind fun _ => ?_
    exact (addChoices_decides scene rest _ _ _ allRest listedRest).bindOk fun _ => ⟨_, rfl⟩

end

end Scene

namespace Script

variable {s : Script}

private theorem lower_decides {node : Node} (read : s.tree.check = .ok node)
    (ctx : Context) (id : Nat) :
    (Scene.ofNode ctx node).Decides (s.tree.parts.flatMap Tree.needs) (s.lower ctx id) := by
  obtain ⟨kind, listed⟩ := Tree.check_ok read
  rw [lower_of_check read, Tree.parts_eq, List.flatMap_cons,
    Tree.needs_of_node kind, List.nil_append]
  exact (Scene.addItems_decides _ s.tree.children _ _ listed).bindOk fun _ => ⟨_, rfl⟩

/-- A script of the grammar has a conversation exactly if all of its statements have what they need:
one expression in each guard that is read, in each payload and in each argument, any number of them
in a line, a known node to jump to, and a duration to wait for. Otherwise the error names the script
and the line of a statement that lacks something. It condemns the file if an expression is malformed
there or a payload is missing, and only the script if not. -/
theorem requirements_decide_lowering (valid : s.tree.IsScript) (ctx : Context) (id : Nat) :
    ((∃ c, s.lower ctx id = .ok c) ↔ ∀ t ∈ s.tree.parts, ∀ r ∈ t.requirements, r.Met ctx) ∧
    ∀ e, s.lower ctx id = .error e → e.conversation = s.name ∧
      ∃ t ∈ s.tree.parts, e.line = t.content.line ∧
        ∃ r ∈ t.requirements, ¬ r.Met ctx ∧ (e.isFatal = true ↔ r.IsMalformed) := by
  obtain ⟨node, read⟩ := (Tree.check_ok_iff s.tree).mpr valid
  have decides := lower_decides read ctx id
  refine ⟨decides.ok_iff.trans ?_, fun e failed => ?_⟩
  · constructor
    · intro all t member r asked
      exact all ⟨t.content.line, r⟩ (Tree.mem_needs_iff.mpr ⟨t, member, rfl, asked⟩)
    · intro all n member
      obtain ⟨t, part, -, asked⟩ := Tree.mem_needs_iff.mp member
      exact all t part n.requirement asked
  · obtain ⟨n, member, unmet, name, line, fatal⟩ := decides.of_error failed
    obtain ⟨t, part, stands, asked⟩ := Tree.mem_needs_iff.mp member
    exact ⟨name.trans (name_of_check read).symm, t, part, line.trans stands, n.requirement,
      asked, unmet, fatal⟩

/-- A jump that leads nowhere and a call without a function, in the last clause of a branch and
below an option. The one that is met first is blamed. -/
theorem requirements_decide_lowering_sample : Sample.branchAndMenu.tree.IsScript ∧
    ∀ ctx id, ∃ e, Sample.branchAndMenu.lower ctx id = .error e ∧ e.conversation = "Start" ∧
      (e.line = 6 ∧ e.isFatal = false ∧ ctx.conversations.contains "Gone" = false ∨
        e.line = 8 ∧ e.isFatal = true) := by
  have valid : Sample.branchAndMenu.tree.IsScript := (Tree.check_ok_iff _).mp ⟨_, rfl⟩
  have needs : Sample.branchAndMenu.tree.parts.flatMap Tree.needs =
      [⟨2, .single [.variable "x"]⟩, ⟨4, .single [.variable "y"]⟩, ⟨6, .destination (.node "Gone")⟩,
        ⟨8, .payload none⟩] := rfl
  refine ⟨valid, fun ctx id => ?_⟩
  obtain ⟨succeeds, blames⟩ := requirements_decide_lowering valid ctx id
  cases lowered : Sample.branchAndMenu.lower ctx id with
  | ok c =>
    have last : ⟨8, .payload none⟩ ∈ Sample.branchAndMenu.tree.parts.flatMap
        Tree.needs := by simp [needs]
    obtain ⟨t, part, -, asked⟩ := Tree.mem_needs_iff.mp last
    obtain ⟨_, ⟨⟩, -⟩ := succeeds.mp ⟨c, lowered⟩ t part _ asked
  | error e =>
    obtain ⟨name, t, part, line, r, asked, unmet, fatal⟩ := blames e lowered
    have member : ⟨t.content.line, r⟩ ∈ Sample.branchAndMenu.tree.parts.flatMap Tree.needs :=
      Tree.mem_needs_iff.mpr ⟨t, part, rfl, asked⟩
    rw [needs, ← line] at member
    simp only [List.mem_cons, Need.mk.injEq, List.not_mem_nil, or_false] at member
    refine ⟨e, rfl, name, ?_⟩
    obtain ⟨-, rfl⟩ | ⟨-, rfl⟩ | ⟨six, rfl⟩ | ⟨eight, rfl⟩ := member
    · exact absurd ⟨_, rfl⟩ unmet
    · exact absurd ⟨_, rfl⟩ unmet
    · exact .inl ⟨six, Bool.eq_false_iff.mpr fatal.mp, by simpa [Requirement.Met] using unmet⟩
    · exact .inr ⟨eight, fatal.mpr (.inl rfl)⟩

end Script

end Dialogue
