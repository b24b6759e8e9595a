import Dialogue.Proofs.Validation
import Dialogue.Proofs.Lowering

/-!
What lowering relies on. The lowering of a script goes through the check, so it meets only items,
clauses and choices in their places. Here it is compared with an emission that works on the tree as
it is. That emission has to stop wherever a statement is not what its place asks for: a clause or an
option in a body, another statement among clauses, an option without a line.

On the trees that validation accepts it never stops there, and agrees with the lowering, errors
included. No error of the lowering itself is then about the shape of the tree.
-/

set_option autoImplicit false
set_option relaxedAutoImplicit false

namespace Dialogue

namespace Scene

open Script

/-- A result whose error, if it is one, is not about the shape of the tree. -/
def ShapeSafe {α : Type} (result : Except CompileError α) : Prop :=
  ∀ e, result = .error e → e.kind ≠ .invalidTree

namespace ShapeSafe

variable {α β : Type}

private theorem ok (a : α) : ShapeSafe (.ok a) :=
  nofun

private theorem bind {x : Except CompileError α} {f : α → Except CompileError β}
    (first : ShapeSafe x) (later : ∀ a, ShapeSafe (f a)) : ShapeSafe (x >>= f) := by
  cases x with
  | error e =>
    rintro _ ⟨⟩
    exact first e rfl
  | ok a => exact later a

private theorem located (scene : Scene) (line : Nat) (result : Except ExprError α) :
    ShapeSafe (scene.located line result) := by
  cases result with
  | ok a => exact .ok a
  | error e =>
    rintro _ ⟨⟩
    change (if e.isMalformed then ErrorKind.malformedExpression else .unsupported) ≠ .invalidTree
    split <;> nofun

private theorem condition (scene : Scene) (line : Nat) (guard : Option Expression) :
    ShapeSafe (scene.condition line guard) := by
  cases guard with
  | none => exact .ok none
  | some tokens => exact (located scene line _).bind fun _ => .ok _

variable (scene : Scene) (d : Draft) (pred : Nat)

private theorem addScript (s : Content Basic) (title script : String) :
    ShapeSafe (scene.addScript d pred s title script) :=
  (condition scene _ _).bind fun _ => .ok _

private theorem addLine (s : Content Spoken) (choiceOf : Option (Content Unit)) :
    ShapeSafe (scene.addLine d pred s choiceOf) := by
  rw [addLine_eq]
  refine (condition scene _ _).bind fun _ => .bind ?_ fun _ => .ok _
  unfold lineFragments
  cases s.payload? with
  | none => exact .ok []
  | some tokens => exact located scene _ _

private theorem addAssignment (s : Content Basic) (name : String) (op : Update) :
    ShapeSafe (scene.addAssignment d pred s name op) := by
  unfold Scene.addAssignment
  cases s.payload? with
  | none =>
    rintro _ ⟨⟩
    nofun
  | some payload => exact (located scene _ _).bind fun _ => addScript scene d pred s _ _

private theorem addJump (s : Content Basic) (target : Target) :
    ShapeSafe (scene.addJump d pred s target) := by
  unfold Scene.addJump
  cases target with
  | computed _ =>
    rintro _ ⟨⟩
    nofun
  | node name =>
    dsimp only
    cases scene.context.conversations.get? name with
    | none =>
      rintro _ ⟨⟩
      nofun
    | some destination => exact (addScript scene d pred s _ _).bind fun _ => .ok _

private theorem addBasic (s : Content Basic) : ShapeSafe (scene.addBasic d pred s) := by
  unfold Scene.addBasic
  cases s.kind with
  | line spoken => exact addLine scene d pred _ none
  | command name arguments rawText =>
    dsimp only
    cases Command.Kind.ofName name with
    | playSequence => exact (located scene _ _).bind fun _ => .ok _
    | wait => exact (located scene _ _).bind fun _ => .ok _
    | stop => exact addScript scene d pred s _ _
    | custom => exact (located scene _ _).bind fun _ => addScript scene d pred s _ _
  | call name =>
    dsimp only
    cases s.payload? with
    | none =>
      rintro _ ⟨⟩
      nofun
    | some payload => exact (located scene _ _).bind fun _ => addScript scene d pred s _ _
  | jump target => exact addJump scene d pred s target
  | set name op => exact addAssignment scene d pred s name op
  | declare name => exact addAssignment scene d pred s name .assign

end ShapeSafe

mutual

private theorem addItem_shapeSafe (scene : Scene) : ∀ (item : Item) (d : Draft) (pred : Nat),
    ShapeSafe (scene.addItem d pred item)
  | .basic s, d, pred => ShapeSafe.addBasic scene d pred s
  | .branch clauses none, d, pred => by
    rw [addItem_branch]
    exact (addClauses_shapeSafe scene clauses _ _).bind fun _ => .ok _
  | .branch clauses (some body), d, pred => by
    rw [addItem_branch]
    refine (addClauses_shapeSafe scene clauses _ _).bind fun guarded => .bind ?_ fun _ => .ok _
    exact (addItems_shapeSafe scene body _ _).bind fun _ => .ok _
  | .menu choices, d, pred => by
    rw [addItem_menu]
    exact (addChoices_shapeSafe scene choices _ _ _).bind fun _ => .ok _

private theorem addItems_shapeSafe (scene : Scene) : ∀ (items : List Item) (d : Draft) (pred : Nat),
    ShapeSafe (scene.addItems d pred items)
  | [], _, _ => .ok _
  | item :: rest, d, pred =>
    (addItem_shapeSafe scene item d pred).bind fun _ => addItems_shapeSafe scene rest _ _

private theorem addClauses_shapeSafe (scene : Scene) :
    ∀ (clauses : List Clause) (d : Draft) (kind : ClauseKind),
    ShapeSafe (scene.addClauses d kind clauses)
  | [], _, _ => .ok _
  | .mk line guard body :: rest, d, kind => by
    rw [addClauses_cons]
    refine (addItems_shapeSafe scene body _ _).bind fun _ =>
      (ShapeSafe.located scene _ _).bind fun _ => ?_
    exact (addClauses_shapeSafe scene rest _ _).bind fun _ => .ok _

private theorem addChoices_shapeSafe (scene : Scene) :
    ∀ (choices : List Choice) (d : Draft) (start finish : Nat),
    ShapeSafe (scene.addChoices d start finish choices)
  | [], _, _, _ => .ok _
  | .mk option shown body :: rest, d, start, finish => by
    rw [addChoices_cons]
    refine (ShapeSafe.addLine scene d start shown (some option)).bind fun _ => ?_
    refine (addItems_shapeSafe scene body _ _).bind fun _ => ?_
    exact (addChoices_shapeSafe scene rest _ _ _).bind fun _ => .ok _

end

/-- Why the emission of a tree stops. -/
inductive Stop
  | misplaced (line : Nat) (message : String)
  | failed (error : CompileError)

/-- Link clauses to the end of their branch, and the fallback with the index of a clause from the
fallback before it to the clause after. -/
def chainClauses (d : Draft) (previous finish : Nat) : List (Nat × Nat) → List Nat → Draft
  | [], _ => d
  | (_, exit) :: rest, fallback :: fallbacks =>
    let next := (rest.head?.map Prod.fst).getD finish
    let chained :=
      ((d.link previous fallback .belowNormal).link fallback next .normal).setGroup previous
    chainClauses (chained.link exit finish .normal) fallback finish rest fallbacks
  | (_, exit) :: rest, [] => chainClauses (d.link exit finish .normal) previous finish rest []

mutual

def emitItem (scene : Scene) (d : Draft) (pred : Nat) : Tree → Except Stop (Draft × Nat)
  | .node _ content children =>
    match content.kind with
    | .basic b => (scene.addBasic d pred (content.withKind b)).mapError .failed
    | .block .ifBlock => do
      let (complete, spans, fallbacks) ← emitClauses scene (openBranch d pred) children
      let entered := match spans.head? with
        | some first => complete.link d.nextId first.1 .normal
        | none => complete
      return (chainClauses entered d.nextId (d.nextId + 1) spans fallbacks, d.nextId + 1)
    | .block .options => do
      let control := d.control "Shortcut Option List Start"
      let grouped := if 1 < children.length then control.setGroup d.nextId else control
      let opened := (grouped.link pred d.nextId .normal).control "Shortcut Option List End"
      let (complete, allGuarded) ← emitOptions scene opened d.nextId (d.nextId + 1) children
      return (if allGuarded then complete.link d.nextId (d.nextId + 1) .belowNormal else complete,
        d.nextId + 1)
    | kind =>
      .error (.misplaced content.line (kind.name ++ " cannot be lowered outside its owning block"))

def emitItems (scene : Scene) (d : Draft) (pred : Nat) : List Tree → Except Stop (Draft × Nat)
  | [] => .ok (d, pred)
  | t :: rest => do
    let (grown, exit) ← emitItem scene d pred t
    emitItems scene grown exit rest

/-- Emit the children of an if block: the draft, where each clause starts and ends, and the
fallbacks. -/
def emitClauses (scene : Scene) (d : Draft) :
    List Tree → Except Stop (Draft × List (Nat × Nat) × List Nat)
  | [] => .ok (d, [], [])
  | .node _ content children :: rest =>
    match content.kind with
    | .block (.ifClause kind) => do
      let (grown, exit) ← emitItems scene (openArm d kind) d.nextId children
      let condition ← (scene.condition content.line content.guard?).mapError .failed
      let (closed, fallback) := match condition with
        | some condition => (closeClause grown d.nextId exit kind condition, [grown.nextId])
        | none => (grown.link exit (d.nextId + 1) .normal, [])
      let (complete, spans, fallbacks) ← emitClauses scene closed rest
      return (complete, (d.nextId, d.nextId + 1) :: spans, fallback ++ fallbacks)
    | kind => .error (.misplaced content.line ("if block contains a " ++ kind.name))

/-- Emit the children of an option list: the draft, and whether their first entries are all
guarded. -/
def emitOptions (scene : Scene) (d : Draft) (start finish : Nat) :
    List Tree → Except Stop (Draft × Bool)
  | [] => .ok (d, true)
  | .node _ option [] :: _ => .error (.misplaced option.line "option without a line")
  | .node _ option (.node _ shown _ :: following) :: rest =>
    match shown.kind with
    | .basic (.line spoken) => do
      let (headed, head) ←
        (scene.addLine d start (shown.withKind spoken) (some (option.withKind ()))).mapError .failed
      let guarded := (headed.entryAt? head).any Entry.hasConditions
      let (grown, exit) ← emitItems scene headed head following
      let (complete, others) ← emitOptions scene (grown.link exit finish .normal) start finish rest
      return (complete, guarded && others)
    | kind => .error (.misplaced shown.line ("expected a line, found " ++ kind.name))

end

/-- The first and the last entry of a clause. -/
def Arm.span (arm : Arm) : Nat × Nat :=
  (arm.start, arm.finish)

/-- Fallbacks can be found by the index of their clause, since the clause without one comes last. -/
theorem chainClauses_eq (finish : Nat) {last : List Arm}
    (bare : ∀ arm ∈ last, arm.fallback = none) :
    ∀ (arms : List Arm) (d : Draft) (previous : Nat), (∀ arm ∈ arms, arm.fallback ≠ none) →
      chainClauses d previous finish ((arms ++ last).map Arm.span)
        ((arms ++ last).filterMap Arm.fallback) =
        linkArms d previous finish (arms ++ last) := by
  intro arms
  induction arms with
  | nil =>
    intro d previous _
    rw [List.nil_append, List.filterMap_eq_nil_iff.mpr bare]
    induction last generalizing d with
    | nil => rfl
    | cons arm rest ih =>
      rw [linkArms, bare arm List.mem_cons_self]
      exact ih (fun other member => bare other (List.mem_cons_of_mem _ member)) _
  | cons arm rest ih =>
    intro d previous guarded
    have later := fun d previous => ih d previous fun other member =>
      guarded other (List.mem_cons_of_mem _ member)
    obtain ⟨fallback, found⟩ := Option.ne_none_iff_exists'.mp (guarded arm List.mem_cons_self)
    have next : ((rest ++ last).map Arm.span).head?.map Prod.fst =
        (rest ++ last).head?.map Arm.start := by
      rw [List.head?_map, Option.map_map]
      rfl
    rw [List.cons_append, List.map_cons, List.filterMap_cons, linkArms, found]
    simp only [Arm.span, chainClauses]
    rw [← later, ← next]

private theorem fallback_addClauses {scene : Scene} {clauses : List Clause} :
    ∀ {d d' : Draft} {kind : ClauseKind}
    {arms : List Arm}, scene.addClauses d kind clauses = .ok (d', arms) →
      ∀ arm ∈ arms, arm.fallback ≠ none := by
  induction clauses with
  | nil =>
    intro d d' kind arms added
    cases added
    nofun
  | cons clause rest ih =>
    intro d d' kind arms added
    obtain ⟨line, guard, body⟩ := clause
    obtain ⟨_, _, _, others, -, -, addedRest, rfl⟩ := addClauses_cons_ok added
    exact List.forall_mem_cons.mpr ⟨nofun, ih addedRest⟩

private theorem fallback_addOtherwise {scene : Scene} {d d' : Draft}
    {otherwise : Option (List Item)}
    {arms : List Arm} (added : scene.addOtherwise d otherwise = .ok (d', arms)) :
    ∀ arm ∈ arms, arm.fallback = none := by
  cases otherwise with
  | none =>
    cases added
    nofun
  | some body =>
    simp only [addOtherwise, bind_eq_ok_iff, pure_eq_ok_iff, Prod.mk.injEq] at added
    obtain ⟨_, -, -, rfl⟩ := added
    simp

/-- A sound clause with a guard is the first or a later one. -/
theorem kind_of_guarded {isFirst isLast : Bool} {t : Tree}
    (sound : clauseFlaw? isFirst isLast t = none) (guarded : t.content.hasConditions = true) :
    t.kind = .block (.ifClause (if isFirst then .if_ else .elseIf)) := by
  unfold clauseFlaw? at sound
  split at sound
  · next kind => cases isFirst <;> simp_all
  · next kind => cases isFirst <;> simp_all
  · next kind => cases isFirst <;> cases isLast <;> simp_all
  · cases sound

/-- A sound clause without a guard is taken otherwise. -/
theorem kind_of_unguarded {isFirst isLast : Bool} {t : Tree}
    (sound : clauseFlaw? isFirst isLast t = none) (bare : t.content.hasConditions = false) :
    t.kind = .block (.ifClause .else_) := by
  unfold clauseFlaw? at sound
  split at sound
  · cases isFirst <;> simp_all
  · cases isFirst <;> simp_all
  · next kind => exact kind
  · cases sound

private theorem length_choiceList : ∀ {ts : List Tree} {choices : List Choice},
    Tree.choiceList ts = .ok choices →
    choices.length = ts.length := by
  intro ts
  induction ts with
  | nil =>
    intro choices listed
    cases listed
    rfl
  | cons t rest ih =>
    intro choices listed
    obtain ⟨id, option, children⟩ := t
    obtain ⟨_, _, _, _, _, others, -, -, -, listedRest, rfl⟩ := Tree.choiceList_cons listed
    rw [List.length_cons, List.length_cons, ih listedRest]

private theorem mapError_bind {α β ε η : Type} (g : ε → η) (x : Except ε α) (f : α → Except ε β) :
    (x >>= f).mapError g = x.mapError g >>= fun a => (f a).mapError g := by
  cases x <;> rfl

private theorem mapError_pure {α ε η : Type} (g : ε → η) (a : α) :
    (pure a : Except ε α).mapError g = pure a :=
  rfl

mutual

private theorem emitItem_eq (scene : Scene) : ∀ (t : Tree) {item : Item} (d : Draft) (pred : Nat),
    t.item = .ok item → scene.emitItem d pred t = (scene.addItem d pred item).mapError .failed
  | .node id content children, item, d, pred, read => by
    cases Tree.stands_of_item read with
    | basic kind none => rw [emitItem, kind]; rfl
    | branch kind some sound listed =>
      rw [emitItem, kind, addItem_branch]
      simp only [emitClauses_eq scene children (openBranch d pred) sound listed, if_true]
      -- Both sides fail in the clauses, fail in the last clause, or link the same clauses.
      cases added : scene.addClauses (openBranch d pred) .if_ _ with
      | error e => rfl
      | ok result =>
        obtain ⟨guarded, arms⟩ := result
        dsimp only [Bind.bind, Except.bind]
        cases addedLast : scene.addOtherwise guarded _ with
        | error e => rfl
        | ok result =>
          obtain ⟨complete, last⟩ := result
          have same := chainClauses_eq (d.nextId + 1) (fallback_addOtherwise addedLast) arms
            (enterArms complete d.nextId (arms ++ last)) d.nextId (fallback_addClauses added)
          have entered : (match ((arms ++ last).map Arm.span).head? with
              | Option.some first => complete.link d.nextId first.1 .normal
              | Option.none => complete) = enterArms complete d.nextId (arms ++ last) := by
            unfold enterArms
            cases arms ++ last <;> rfl
          simp only [Pure.pure, Except.pure, Except.mapError, entered, same]
    | menu kind all listed =>
      rw [emitItem, kind, addItem_menu]
      simp only [emitOptions_eq scene children _ _ _ listed, openMenu, length_choiceList listed,
        mapError_bind, mapError_pure]
      generalize added : scene.addChoices _ _ _ _ = result
      cases result with
      | error e => rfl
      | ok result =>
        obtain ⟨complete, allGuarded⟩ := result
        obtain rfl := addChoices_guarded _ added
        rfl

private theorem emitItems_eq (scene : Scene) :
    ∀ (ts : List Tree) {items : List Item} (d : Draft) (pred : Nat),
    Tree.itemList ts = .ok items →
      scene.emitItems d pred ts = (scene.addItems d pred items).mapError .failed
  | [], _, d, pred, read => by
    cases read
    rfl
  | t :: rest, _, d, pred, read => by
    obtain ⟨first, others, here, there, rfl⟩ := Tree.itemList_cons read
    have later := fun d pred => emitItems_eq scene rest d pred there
    simp only [emitItems, addItems, emitItem_eq scene t d pred here, later, mapError_bind]

private theorem emitClauses_eq (scene : Scene) :
    ∀ (ts : List Tree) {isFirst : Bool} {clauses : List Clause}
    {otherwise : Option (List Item)} (d : Draft), clausesFlaw? isFirst ts = none →
      Tree.clauseList ts = .ok (clauses, otherwise) → scene.emitClauses d ts = (do
        let (guarded, arms) ← scene.addClauses d (if isFirst then .if_ else .elseIf) clauses
        let (complete, last) ← scene.addOtherwise guarded otherwise
        return (complete, (arms ++ last).map Arm.span, (arms ++ last).filterMap Arm.fallback) :
          Except CompileError _).mapError .failed
  | [], _, _, _, d, _, listed => by
    cases listed
    rfl
  | .node id content children :: rest, isFirst, _, _, d, sound, listed => by
    have here := (Option.or_eq_none_iff.mp sound).1
    obtain ⟨body, read,
        ⟨guard, others, found, soundRest, listedRest, rfl⟩ | ⟨found, rfl, rfl, rfl⟩⟩ :=
      Tree.clauseList_cons sound listed
    · have guarded : content.hasConditions = true := by rw [Content.hasConditions, found]; rfl
      have kind : content.kind = _ := kind_of_guarded here guarded
      have later := fun d => emitClauses_eq scene rest d soundRest listedRest
      rw [emitClauses, kind, addClauses_cons, found]
      simp only [emitItems_eq scene children _ _ read, condition, later,
        mapError_bind, mapError_pure, bind_assoc, pure_bind]
      rfl
    · have bare : content.hasConditions = false := by rw [Content.hasConditions, found]; rfl
      have kind : content.kind = _ := kind_of_unguarded here bare
      rw [emitClauses, kind, found]
      simp only [emitItems_eq scene children _ _ read, condition, emitClauses,
        addClauses, addOtherwise, mapError_bind, mapError_pure, bind_assoc, pure_bind]
      rfl

private theorem emitOptions_eq (scene : Scene) :
    ∀ (ts : List Tree) {choices : List Choice} (d : Draft)
    (start finish : Nat), Tree.choiceList ts = .ok choices →
      scene.emitOptions d start finish ts =
        (scene.addChoices d start finish choices).mapError .failed
  | [], _, d, start, finish, listed => by
    cases listed
    rfl
  | .node id option [] :: rest, _, _, _, _, listed => by cases listed
  | .node id option (.node lineId shown below :: following) :: rest, _, d, start, finish,
      listed => by
    obtain ⟨_, _, _, spoken, body, others, same, line, read, listedRest, rfl⟩ :=
      Tree.choiceList_cons listed
    obtain ⟨head, rfl⟩ := List.cons.inj same
    cases head
    have inside := fun d pred => emitItems_eq scene following d pred read
    have later := fun d => emitOptions_eq scene rest d start finish listedRest
    rw [emitOptions, line, addChoices]
    simp only [inside, later, mapError_bind, mapError_pure]

end

end Scene

namespace Script

/-- The conversation of a script, with an id, emitted from its tree as it is. -/
def emit (s : Script) (ctx : Context) (id : Nat) : Except Scene.Stop Conversation := do
  let headers := match s.rootStatement.content.kind with
    | .block (.node _ headers) => headers
    | _ => .empty
  let scene := Scene.ofNode ctx ⟨s.name, headers, []⟩
  let draft := Draft.start id s.name scene.actor scene.conversant scene.narrator scene.player
  let (complete, _) ← scene.emitItems draft Conversation.startId s.tree.children
  return complete.conversation

variable {s : Script}

theorem lower_of_check {node : Node} (read : s.tree.check = .ok node) (ctx : Context) (id : Nat) :
    s.lower ctx id = (do
      let scene := Scene.ofNode ctx node
      let draft := Draft.start id node.name scene.actor scene.conversant scene.narrator scene.player
      let (complete, _) ← scene.addItems draft Conversation.startId node.body
      return complete.conversation) := by
  rw [lower, checked, read]
  rfl

private theorem emit_of_check {node : Node} (read : s.tree.check = .ok node)
    (ctx : Context) (id : Nat) :
    s.emit ctx id = (s.lower ctx id).mapError .failed := by
  obtain ⟨kind, listed⟩ := Tree.check_ok read
  rw [Tree.kind, content_tree] at kind
  have body := fun scene d => Scene.emitItems_eq scene s.tree.children d Conversation.startId listed
  rw [lower_of_check read, emit, kind, name_of_check read]
  simp only [body, Scene.mapError_bind, Scene.mapError_pure]
  rfl

private theorem lower_shapeSafe {node : Node} (read : s.tree.check = .ok node)
    (ctx : Context) (id : Nat) :
    Scene.ShapeSafe (s.lower ctx id) := by
  rw [lower_of_check read]
  exact (Scene.addItems_shapeSafe _ _ _ _).bind fun _ => .ok _

private theorem Built.validate_ok_iff (built : s.Built) :
    s.validate = .ok () ↔ s.tree.IsScript := by
  rw [built.validate_eq, ← Tree.check_ok_iff]
  cases s.tree.check with
  | error fault => exact ⟨nofun, nofun⟩
  | ok node => exact ⟨fun _ => ⟨node, rfl⟩, fun _ => rfl⟩

/-- Validation accepts a script exactly if the tree of its arena is one of the grammar, and then the
lowering meets every statement where it looks for it. A script that validation refuses is not
lowered, and the fault that it names is reported. -/
theorem validate_guards_lowering (built : s.Built) :
    s.tree.Shows s ∧ s.tree.id = s.root ∧
      (s.validate = .ok () ↔ s.tree.IsScript) ∧
      (s.tree.IsScript → ∀ ctx id, s.emit ctx id = (s.lower ctx id).mapError .failed ∧
        ∀ e, s.lower ctx id = .error e → e.kind ≠ .invalidTree) ∧
      (∀ fault, s.validate = .error fault → ∀ ctx id,
        s.lower ctx id = .error ⟨s.name, fault.line, .grammar fault.flaw⟩) := by
  refine ⟨shows_tree built.nested.1, s.id_tree, built.validate_ok_iff, ?_, ?_⟩
  · intro valid ctx id
    obtain ⟨node, read⟩ := (Tree.check_ok_iff s.tree).mpr valid
    exact ⟨emit_of_check read ctx id, lower_shapeSafe read ctx id⟩
  · intro fault refused ctx id
    rw [built.validate_eq] at refused
    cases read : s.tree.check with
    | ok node =>
      rw [read] at refused
      cases refused
    | error found =>
      rw [read] at refused
      cases refused
      rw [lower, checked, read]
      rfl

namespace Sample

def branchAndMenuCalls : List Builder.Call :=
  [.openBlock (.block (.node "Start" .empty)) 1, .openBlock (.block .ifBlock) 2,
    .openBlock (.block (.ifClause .if_)) 2, .setConditions 2 [.variable "x"],
    .add (.basic (.line {})) 3, .closeBlock, .openBlock (.block (.ifClause .elseIf)) 4,
    .setConditions 4 [.variable "y"], .closeBlock, .openBlock (.block (.ifClause .else_)) 5,
    .setConditions 5 [], .add (.basic (.jump (.node "Gone"))) 6, .closeBlock, .closeBlock,
    .openBlock (.block .options) 7, .openBlock (.block .option) 7, .add (.basic (.line {})) 7,
    .add (.basic (.call "f")) 8, .closeBlock, .closeBlock, .closeBlock]

/-- A branch with a clause of each sort, then a menu. -/
def branchAndMenu : Script :=
  ⟨(Builder.run {} branchAndMenuCalls).statements, 0, by decide⟩

end Sample

theorem validate_guards_lowering_sample : Sample.branchAndMenu.Built ∧
    Sample.branchAndMenu.validate = .ok () ∧ Sample.branchAndMenu.tree.IsScript ∧
      ∀ ctx id e, Sample.branchAndMenu.lower ctx id = .error e → e.kind ≠ .invalidTree := by
  have built : Sample.branchAndMenu.Built :=
    ⟨_, Builder.Reachable.empty.run Sample.branchAndMenuCalls, rfl⟩
  have accepted : Sample.branchAndMenu.validate = .ok () := by
    rw [built.validate_eq]
    rfl
  obtain ⟨-, -, grammar, safe, -⟩ := validate_guards_lowering built
  have valid := grammar.mp accepted
  exact ⟨built, accepted, valid, fun ctx id => (safe valid ctx id).2⟩

end Script

end Dialogue
