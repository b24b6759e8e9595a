import Dialogue.Proofs.Execution
import Dialogue.Proofs.Grammar
import Dialogue.Proofs.Wiring

/-!
Lowering preserves control flow, but for options that are guarded twice. A run through the
conversation of a script enters the entries of the statements that an execution of the script
executes, in the same order, and ends as it ends, where the guard of a line stands for that of the
option that shows it.

`Staging.Refines` relates a stretch of the conversation to a part of an execution. It holds for
single links by how runs are defined, it composes, and so it follows from the wiring of an item by
recursion over the tree that the item stands for.
-/

set_option autoImplicit false
set_option relaxedAutoImplicit false

namespace Dialogue

open Script

namespace Script

/-- How a run ends when the execution ends early. Jumps lead to nodes by their ids. -/
def Halt.ending? (targets : Dict Nat) : Halt → Option Ending
  | .jumped (.node name) => (targets.get? name).map .left
  | .jumped (.computed _) => none
  | .waiting => some .waiting
  | .stopped => some .stopped

/-- How a run ends when the execution does. -/
def Progress.ending? (targets : Dict Nat) (p : Progress) : Option Ending :=
  match p.halt with
  | some halt => halt.ending? targets
  | none => some .finished

end Script

namespace Script

private theorem Basic.perform_of_directive {b : Basic} (h : b.entryCount = 0)
    (stops : Bool) (statement : Nat) (choices : List Nat) :
    b.perform stops statement choices = .idle choices := by
  cases b with
  | command name arguments rawText =>
    cases sort : Command.Kind.ofName name with
    | wait | playSequence => simp [Basic.perform, sort]
    | stop | custom => simp [Basic.entryCount, sort] at h
  | line | call | jump | set | declare => simp [Basic.entryCount] at h

private theorem Basic.perform_of_entry {b : Basic} (h : b.entryCount = 1)
    (stops : Bool) (statement : Nat) (choices : List Nat) : b.perform stops statement choices =
      .single statement (if stops && b.title = "Stop" then some .stopped else none) choices := by
  cases b with
  | command name arguments rawText =>
    cases sort : Command.Kind.ofName name with
    | wait | playSequence => simp [Basic.entryCount, sort] at h
    | stop | custom => simp [Basic.perform, Basic.title, sort]
  | jump => simp [Basic.entryCount] at h
  | line | call | set | declare => simp [Basic.perform, Basic.title]

namespace Tree

private theorem guarding?_single {origin : Origin} (guarded : origin.2.hasConditions = true) :
    guarding? [origin] = some origin := by
  simp [guarding?, guarded]

private theorem guarding?_line {option line : Origin} (guarded : line.2.hasConditions = true) :
    guarding? [option, line] = some line := by
  cases own : option.2.hasConditions <;> simp [guarding?, guarded, own]

private theorem guarding?_option {option line : Origin} (guarded : option.2.hasConditions = true)
    (bare : line.2.hasConditions = false) : guarding? [option, line] = some option := by
  simp [guarding?, guarded, bare]

private theorem basicOrigins_of_entry (origin : Origin) {b : Basic} (h : b.entryCount = 1) :
    basicOrigins origin b = [[origin]] := by
  cases b with
  | command name arguments rawText =>
    cases sort : Command.Kind.ofName name with
    | wait | playSequence => simp [Basic.entryCount, sort] at h
    | stop | custom => simp [basicOrigins, sort]
  | jump => simp [Basic.entryCount] at h
  | line | call | set | declare => rfl

private theorem length_basicOrigins (origin : Origin) (b : Basic) :
    (basicOrigins origin b).length = b.entryCount := by
  cases b with
  | command name arguments rawText =>
    simp only [basicOrigins, Basic.entryCount]
    cases Command.Kind.ofName name <;> rfl
  | line | call | jump | set | declare => rfl

mutual

theorem length_origins : ∀ (t : Tree) {i : Item}, item t = .ok i → (origins t).length = i.entryCount
  | .node id content children, i, h => by
    cases stands_of_item h with
    | basic kind =>
      simp only [origins, kind, length_basicOrigins]
      rfl
    | branch kind _ sound listed =>
      simp only [origins, kind, List.length_cons, length_clauseOrigins children sound listed,
        Scene.entryCount_branch]
      omega
    | menu kind _ listed =>
      simp only [origins, kind, List.length_cons,
        length_optionOrigins children listed, Item.entryCount]
      omega

theorem length_originsList : ∀ (ts : List Tree) {items : List Item}, itemList ts = .ok items →
    (originsList ts).length = bodyCount items
  | [], items, h => by
    cases h
    rfl
  | t :: rest, items, h => by
    obtain ⟨first, others, one, more, rfl⟩ := itemList_cons h
    simp only [originsList, List.length_append, length_origins t one, length_originsList rest more,
      bodyCount]

theorem length_clauseOrigins : ∀ (ts : List Tree) {isFirst : Bool} {clauses : List Clause}
    {otherwise : Option (List Item)}, clausesFlaw? isFirst ts = none →
    clauseList ts = .ok (clauses, otherwise) →
    (clauseOrigins ts).length = clausesCount clauses + Scene.otherwiseCount otherwise
  | [], _, clauses, otherwise, _, h => by
    cases h
    rfl
  | .node id content body :: rest, isFirst, clauses, otherwise, sound, h => by
    obtain ⟨items, listed, guarded | last⟩ := clauseList_cons sound h
    · obtain ⟨guard, others, known, soundRest, listedRest, rfl⟩ := guarded
      simp only [clauseOrigins, Content.hasConditions, known, Option.isSome_some, if_true,
        List.length_cons, List.length_append, List.length_nil, length_originsList body listed,
        length_clauseOrigins rest soundRest listedRest, clausesCount]
      omega
    · obtain ⟨bare, rfl, rfl, rfl⟩ := last
      simp [clauseOrigins, Content.hasConditions, bare,
        length_originsList body listed, clausesCount, Scene.otherwiseCount]
      omega

private theorem length_optionOrigins : ∀ (ts : List Tree) {choices : List Choice},
    choiceList ts = .ok choices → (optionOrigins ts).length = choicesCount choices
  | [], choices, h => by
    cases h
    rfl
  | .node id option [] :: rest, choices, h => by cases h
  | .node id option (.node lineId shown below :: following) :: rest, choices, h => by
    obtain ⟨_, _, _, spoken, body, others, same, _, listed, listedRest, rfl⟩ := choiceList_cons h
    cases same
    simp only [optionOrigins, List.length_cons, List.length_append,
      length_originsList following listed, length_optionOrigins rest listedRest, choicesCount]
    omega

end

private theorem arms_ne_nil {ts : List Tree} {isFirst : Bool} {clauses : List Clause}
    {otherwise : Option (List Item)} {base : Nat} (filled : ts ≠ [])
    (sound : clausesFlaw? isFirst ts = none) (h : clauseList ts = .ok (clauses, otherwise)) :
    Conversation.arms base clauses otherwise ≠ [] := by
  cases ts with
  | nil => exact absurd rfl filled
  | cons t rest =>
    obtain ⟨id, content, children⟩ := t
    obtain ⟨items, _, ⟨_, _, _, _, _, rfl⟩ | ⟨_, _, rfl, rfl⟩⟩ := clauseList_cons sound h
    · exact List.cons_ne_nil _ _
    · exact List.cons_ne_nil _ _

end Tree

end Script

namespace Entry

private theorem content_of_role {e : Entry} {isStop : Bool} (h : e.role = .content isStop) :
    e.isContent = true ∧ e.isStop = isStop := by
  unfold role at h
  split at h
  · cases h
  · split at h
    · exact ⟨‹_›, Role.content.inj h⟩
    · cases h

private theorem not_content_of_role {e : Entry} {role : Role} (h : e.role = role)
    (plain : role = .control ∨ role = .menu) : e.isContent = false ∧ e.isStop = false := by
  have content : e.isContent = false := by
    rw [← h, Entry.role] at plain
    split at plain
    · next menu =>
      have title : e.title = "Shortcut Option List Start" := by simpa [isMenu] using menu
      simp [isContent, title]
    · split at plain
      · simp at plain
      · next other => simpa using other
  refine ⟨content, ?_⟩
  by_cases title : e.title = "Stop"
  · simp [isContent, title] at content
  · simp [isStop, title]

end Entry

namespace Conversation

variable {c : Conversation} {truth : Nat → Bool} {i j : Nat} {role : Role} {hops found : List Hop}

theorem offers_open {guard : Option FalseAction} (h : c.standAt? j = some ⟨role, guard⟩)
    (isOpen : guard = none ∨ truth j = true) (rest : c.Offers truth hops found) :
    c.Offers truth (.enter j :: hops) (.enter j :: found) := by
  obtain ⟨e, known, stand⟩ := Option.map_eq_some_iff.mp h
  refine .enter known ?_ rest
  rcases isOpen with rfl | isOpen
  · have guard := congrArg Stand.guard? stand
    simp only [Entry.stand, ite_eq_left_iff, reduceCtorEq, imp_false, Decidable.not_not] at guard
    simp [Entry.isOpen, guard]
  · simp [Entry.isOpen, isOpen]

private theorem closed_of_stand {e : Entry} {action : FalseAction}
    (h : e.stand = ⟨role, some action⟩) (isClosed : truth j = false) :
    e.isOpen (truth j) = false ∧ e.falseAction = action := by
  have guard := congrArg Stand.guard? h
  by_cases bare : e.conditions = ""
  · simp [Entry.stand, bare] at guard
  · exact ⟨by simp [Entry.isOpen, bare, isClosed], by simpa [Entry.stand, bare] using guard⟩

theorem offers_blocked (h : c.standAt? j = some ⟨role, some .block⟩) (isClosed : truth j = false)
    (rest : c.Offers truth hops found) : c.Offers truth (.enter j :: hops) found := by
  obtain ⟨e, known, stand⟩ := Option.map_eq_some_iff.mp h
  obtain ⟨closed, action⟩ := closed_of_stand stand isClosed
  exact .block known closed action rest

theorem turns_of_ways {w : Ways} {normal lower : List Hop} (h : c.waysAt? i = some w)
    (hn : c.Offers truth w.normal normal) (hl : c.Offers truth w.lower lower) (choices : List Nat) :
    c.Turns truth i choices (.of w.isMenu normal lower choices) := by
  obtain ⟨e, known, rfl⟩ := Option.map_eq_some_iff.mp h
  exact ⟨e, normal, lower, known, hn, hl, rfl⟩

/-- A single link to an entry that can be entered is followed. -/
theorem turns_open {guard : Option FalseAction} (h : c.waysAt? i = some (.only j))
    (stand : c.standAt? j = some ⟨role, guard⟩) (isOpen : guard = none ∨ truth j = true)
    (choices : List Nat) : c.Turns truth i choices (.follow (.enter j) choices) :=
  turns_of_ways h (offers_open stand isOpen .nil) .nil choices

/-- A single link to an entry that is skipped leads on as the entry does. -/
theorem turns_skipped {isStop : Bool} (h : c.waysAt? i = some (.only j))
    (stand : c.standAt? j = some ⟨.content isStop, some .passthrough⟩) (isClosed : truth j = false)
    {choices : List Nat} {turn : Turn} (turns : c.Turns truth j choices turn) :
    c.Turns truth i choices turn := by
  obtain ⟨e, normal, lower, known, hn, hl, rfl⟩ := turns
  have stand : e.stand = ⟨.content isStop, some .passthrough⟩ := by
    simpa [standAt?, known] using stand
  obtain ⟨closed, action⟩ := closed_of_stand stand isClosed
  have plain := Scene.isMenu_eq_false (congrArg Stand.role stand)
  have skipped : c.Offers truth [.enter j] (normal ++ lower ++ []) :=
    .skip known closed action hn hl .nil
  have result := turns_of_ways h skipped .nil choices
  simpa [Turn.of, plain, Ways.only] using result

theorem haltsAt_of_stand {guard : Option FalseAction} {isStop : Bool} (stops : Bool)
    (h : c.standAt? j = some ⟨.content isStop, guard⟩) : c.haltsAt stops j = (stops && isStop) := by
  obtain ⟨e, known, stand⟩ := Option.map_eq_some_iff.mp h
  simp [haltsAt, known, (Entry.content_of_role (congrArg Stand.role stand)).2]

private theorem haltsAt_of_not_content {guard : Option FalseAction} (stops : Bool)
    (h : c.standAt? j = some ⟨role, guard⟩) (plain : role = .control ∨ role = .menu) :
    c.haltsAt stops j = false := by
  obtain ⟨e, known, stand⟩ := Option.map_eq_some_iff.mp h
  simp [haltsAt, known, (Entry.not_content_of_role (congrArg Stand.role stand) plain).2]

private theorem Plays.of_turns {stops : Bool} {choices visited : List Nat} {ending : Ending}
    (turns : ∀ turn, c.Turns truth j choices turn → c.Turns truth i choices turn)
    (h : c.Plays truth stops j choices visited ending) :
    c.Plays truth stops i choices visited ending := by
  cases h with
  | enter turn goesOn rest => exact .enter (turns _ turn) goesOn rest
  | halt turn halts => exact .halt (turns _ turn) halts
  | leave turn => exact .leave (turns _ turn)
  | wait turn => exact .wait (turns _ turn)
  | finish turn => exact .finish (turns _ turn)

end Conversation

/-- What the content entries of a run stand for. -/
def Conversation.shown (c : Conversation) (label : Nat → Option Nat) (visited : List Nat) :
    List (Option Nat) :=
  (visited.filter fun i => (c.entryById? i).any Entry.isContent).map label

/-- A conversation next to a script: the truth of conditions by entry, the truth of guards by
statement, and the statement that an entry is labelled with. -/
structure Staging where
  conversation : Conversation
  targets : Dict Nat
  entryTruth : Nat → Bool
  truth : Nat → Bool
  stops : Bool
  label : Nat → Option Nat

namespace Staging

def Plays (σ : Staging) (i : Nat) (choices visited : List Nat) (ending : Ending) : Prop :=
  σ.conversation.Plays σ.entryTruth σ.stops i choices visited ending

def shown (σ : Staging) (visited : List Nat) : List (Option Nat) :=
  σ.conversation.shown σ.label visited

/-- What a run does after a part of an execution: it goes on from an entry, or it ends with the
execution. -/
def Follows (σ : Staging) (exit : Nat) (p : Progress) (visited : List Nat)
    (ending : Ending) : Prop :=
  match p.halt with
  | none => σ.Plays exit p.choices visited ending
  | some halt => visited = [] ∧ halt.ending? σ.targets = some ending

/-- From one entry to another, the conversation does what a part of an execution does. If the
execution ends there, then in a way that a run can end. -/
structure Refines (σ : Staging) (pred exit : Nat) (run : List Nat → Progress) : Prop where
  ends : ∀ choices halt, (run choices).halt = some halt → (halt.ending? σ.targets).isSome = true
  plays : ∀ choices visited ending, σ.Follows exit (run choices) visited ending →
    ∃ visited', σ.Plays pred choices visited' ending ∧
      σ.shown visited' = (run choices).executed.map some ++ σ.shown visited

variable {σ : Staging}

private theorem refines_refl (i : Nat) : σ.Refines i i .idle :=
  ⟨nofun, fun _ visited _ plays => ⟨visited, plays, rfl⟩⟩

private theorem Refines.trans {i j k : Nat} {first second : List Nat → Progress}
    (h : σ.Refines i j first) (h' : σ.Refines j k second) :
    σ.Refines i k fun choices => (first choices).andThen second := by
  refine ⟨fun choices how halted => ?_, fun choices visited ending follows => ?_⟩
  · cases halt : (first choices).halt with
    | some other =>
      simp only [Progress.andThen, halt] at halted
      exact h.ends choices how (halt.trans halted)
    | none =>
      simp only [Progress.andThen, halt] at halted
      exact h'.ends _ how halted
  cases halt : (first choices).halt with
  | some how =>
    simp only [Progress.andThen, halt] at follows ⊢
    obtain ⟨rfl, ends⟩ : visited = [] ∧ how.ending? σ.targets = some ending := by
      simpa only [Follows, halt] using follows
    exact h.plays choices [] ending (by simp [Follows, halt, ends])
  | none =>
    simp only [Progress.andThen, halt] at follows ⊢
    obtain ⟨between, plays, shown⟩ := h'.plays (first choices).choices visited ending follows
    obtain ⟨visited', plays', shown'⟩ :=
      h.plays choices between ending (by simpa only [Follows, halt] using plays)
    refine ⟨visited', plays', ?_⟩
    rw [shown', shown, List.map_append, List.append_assoc]

private theorem Refines.after {i j k : Nat} {run : List Nat → Progress} (h : σ.Refines i j .idle)
    (h' : σ.Refines j k run) : σ.Refines i k run :=
  h.trans h'

private theorem Refines.meeting {i j : Nat} {run : List Nat → Progress} (h : σ.Refines i j run)
    (options : List Tree) : σ.Refines i j fun choices => (run choices).meeting options :=
  ⟨h.ends, h.plays⟩

private theorem andThen_idle (p : Progress) : p.andThen .idle = p := by
  cases halt : p.halt with
  | some how => simp [Progress.andThen, halt]
  | none =>
    obtain ⟨executed, met, choices, _⟩ := p
    subst halt
    simp [Progress.andThen, Progress.idle]

private theorem Refines.before {i j k : Nat} {run : List Nat → Progress} (h : σ.Refines i j run)
    (h' : σ.Refines j k .idle) : σ.Refines i k run := by
  have both := h.trans h'
  simpa only [andThen_idle] using both

private theorem shown_content {j : Nat} {isStop : Bool} {guard : Option FalseAction}
    (h : σ.conversation.standAt? j = some ⟨.content isStop, guard⟩) (visited : List Nat) :
    σ.shown (j :: visited) = σ.label j :: σ.shown visited := by
  obtain ⟨e, known, stand⟩ := Option.map_eq_some_iff.mp h
  have content := (Entry.content_of_role (congrArg Stand.role stand)).1
  simp [shown, Conversation.shown, known, content]

private theorem shown_plain {j : Nat} {role : Role} {guard : Option FalseAction}
    (h : σ.conversation.standAt? j = some ⟨role, guard⟩) (plain : role = .control ∨ role = .menu)
    (visited : List Nat) : σ.shown (j :: visited) = σ.shown visited := by
  obtain ⟨e, known, stand⟩ := Option.map_eq_some_iff.mp h
  have content := (Entry.not_content_of_role (congrArg Stand.role stand) plain).1
  simp [shown, Conversation.shown, known, content]

section Links

variable {i j : Nat}

/-- An entry that guides the flow is entered, and shows nothing. -/
theorem refines_of_turns {role : Role} {guard : Option FalseAction}
    (turns : ∀ choices, σ.conversation.Turns σ.entryTruth i choices (.follow (.enter j) choices))
    (stand : σ.conversation.standAt? j = some ⟨role, guard⟩)
    (plain : role = .control ∨ role = .menu) :
    σ.Refines i j .idle := by
  refine ⟨nofun, fun choices visited ending plays => ?_⟩
  have goesOn := Conversation.haltsAt_of_not_content σ.stops stand plain
  exact ⟨j :: visited, .enter (turns choices) goesOn plays, shown_plain stand plain visited⟩

private theorem refines_plain {role : Role} (ways : σ.conversation.waysAt? i = some (.only j))
    (stand : σ.conversation.standAt? j = some ⟨role, none⟩)
    (plain : role = .control ∨ role = .menu) :
    σ.Refines i j .idle :=
  refines_of_turns (Conversation.turns_open ways stand (.inl rfl)) stand plain

private theorem refines_control (ways : σ.conversation.waysAt? i = some (.only j))
    (stand : σ.conversation.standAt? j = some ⟨.control, none⟩) : σ.Refines i j .idle :=
  refines_plain ways stand (.inl rfl)

/-- An entry with content is entered. If it is a stop, the run may end there. -/
theorem refines_content {isStop : Bool} {guard : Option FalseAction} {statement : Nat}
    (ways : σ.conversation.waysAt? i = some (.only j))
    (stand : σ.conversation.standAt? j = some ⟨.content isStop, guard⟩)
    (isOpen : guard = none ∨ σ.entryTruth j = true) (label : σ.label j = some statement) :
    σ.Refines i j fun choices =>
      .single statement (if σ.stops && isStop then some .stopped else none) choices := by
  refine ⟨fun choices halt halted => ?_, fun choices visited ending follows => ?_⟩
  · obtain ⟨-, rfl⟩ : _ ∧ Halt.stopped = halt := by simpa [Progress.single] using halted
    rfl
  have turns := Conversation.turns_open ways stand isOpen choices
  have halts := Conversation.haltsAt_of_stand σ.stops stand
  refine ⟨j :: visited, ?_, by rw [shown_content stand, label]; rfl⟩
  cases stopped : σ.stops && isStop with
  | true =>
    rw [stopped] at halts
    obtain ⟨rfl, ends⟩ : visited = [] ∧ some Ending.stopped = some ending := by
      simpa [Follows, Progress.single, stopped, Halt.ending?] using follows
    obtain rfl := Option.some.inj ends
    exact .halt turns halts
  | false =>
    rw [stopped] at halts
    have plays : σ.Plays j choices visited ending := by
      simpa [Follows, Progress.single, stopped] using follows
    exact .enter turns halts plays

private theorem refines_skipped {isStop : Bool} (ways : σ.conversation.waysAt? i = some (.only j))
    (stand : σ.conversation.standAt? j = some ⟨.content isStop, some .passthrough⟩)
    (isClosed : σ.entryTruth j = false) : σ.Refines i j .idle := by
  refine ⟨nofun, fun choices visited ending plays => ?_⟩
  exact ⟨visited, Conversation.Plays.of_turns
    (fun _ turns => Conversation.turns_skipped ways stand isClosed turns) plays, rfl⟩

/-- A jump is entered and left for another conversation. -/
theorem refines_jump {exit statement target : Nat} {name : String}
    {lower : List Hop} {found : List Hop} (ways : σ.conversation.waysAt? i = some (.only j))
    (stand : σ.conversation.standAt? j = some ⟨.content false, none⟩)
    (label : σ.label j = some statement)
    (leaves : σ.conversation.waysAt? j = some ⟨false, [.leave target], lower⟩)
    (others : σ.conversation.Offers σ.entryTruth lower found)
    (known : σ.targets.get? name = some target) :
    σ.Refines i exit (.single statement (some (.jumped (.node name)))) := by
  refine ⟨fun choices halt halted => ?_, fun choices visited ending follows => ?_⟩
  · obtain rfl := Option.some.inj halted
    simp [Halt.ending?, known]
  obtain ⟨rfl, ends⟩ : visited = [] ∧ some (Ending.left target) = some ending := by
    simpa [Follows, Progress.single, Halt.ending?, known] using follows
  obtain rfl := Option.some.inj ends
  have halts := Conversation.haltsAt_of_stand σ.stops stand
  rw [Bool.and_false] at halts
  have turns : σ.conversation.Turns σ.entryTruth i choices (.follow (.enter j) choices) :=
    Conversation.turns_open ways stand (.inl rfl) choices
  have leaving := Conversation.turns_of_ways leaves (.leave .nil) others choices
  refine ⟨[j], .enter turns halts (.leave leaving), ?_⟩
  rw [shown_content stand, label]
  rfl

end Links

/-- The entries from `base` on are labelled with the statements that they are made from, and have
their truth from them. -/
def Placed (σ : Staging) : Nat → List (List Tree.Origin) → Prop
  | _, [] => True
  | base, origin :: rest =>
    (σ.label base = origin.getLast?.map Prod.fst ∧
      ∀ statement, Tree.guarding? origin = some statement →
        σ.entryTruth base = σ.truth statement.1) ∧
    σ.Placed (base + 1) rest

private theorem placed_append : ∀ (first second : List (List Tree.Origin)) (base : Nat),
    σ.Placed base (first ++ second) ↔ σ.Placed base first ∧ σ.Placed (base + first.length) second
  | [], second, base => by simp [Placed]
  | origin :: rest, second, base => by
    have shift : base + (origin :: rest).length = base + 1 + rest.length := by
      rw [List.length_cons]
      omega
    rw [List.cons_append, Placed, Placed, placed_append rest second (base + 1), shift,
      and_assoc, and_assoc, and_assoc]

/-- A basic statement is shown if its guard holds or if it has none, and else skipped. -/
theorem refines_basic {id base pred exit : Nat} {content : Content Kind} {b : Basic}
    (wired : σ.conversation.WiredBasic σ.targets base pred (content.withKind b) exit)
    (placed : σ.Placed base (Tree.basicOrigins (id, content) b))
    (unguarded : ∀ target, b = .jump target → content.hasConditions = false) :
    σ.Refines pred exit fun choices =>
      if content.holds (σ.truth id) then b.perform σ.stops id choices else .idle choices := by
  cases wired with
  | directive count =>
    have nothing : b.perform σ.stops id = .idle :=
      funext (Basic.perform_of_directive count σ.stops id)
    simp only [nothing, ite_self]
    exact refines_refl pred
  | entry count ways stand =>
    replace count : b.entryCount = 1 := count
    rw [Tree.basicOrigins_of_entry _ count] at placed
    obtain ⟨⟨label, truth⟩, -⟩ := placed
    have shows := fun isOpen => refines_content ways stand isOpen label
    have performs := Basic.perform_of_entry count σ.stops id
    simp only [performs]
    cases guard : content.guard? with
    | none =>
      have holds : content.holds (σ.truth id) = true := by
        simp [Content.holds, Content.hasConditions, guard]
      simp only [holds, if_true]
      exact shows (.inl (by rw [Content.guard?_withKind, guard, Option.map_none]))
    | some tokens =>
      have guarded : content.hasConditions = true := by simp [Content.hasConditions, guard]
      have shared := truth _ (Tree.guarding?_single guarded)
      cases held : σ.truth id with
      | true =>
        simp only [Content.holds, Bool.or_true, if_true]
        exact shows (.inr (shared.trans held))
      | false =>
        have passed : content.holds false = false := by simp [Content.holds, guarded]
        simp only [passed, Bool.false_eq_true, if_false]
        rw [Content.guard?_withKind, guard, Option.map_some] at stand
        exact refines_skipped ways stand (shared.trans held)
  | @jump name target kind known ways stand leaves placeholder =>
    replace kind : b = .jump (.node name) := kind
    subst kind
    have bare := unguarded _ rfl
    have guard : content.guard? = none := by simpa [Content.hasConditions] using bare
    have holds : content.holds (σ.truth id) = true := by simp [Content.holds, bare]
    simp only [holds, if_true]
    obtain ⟨⟨label, -⟩, -⟩ := placed
    rw [Content.guard?_withKind, guard, Option.map_none] at stand
    -- The jump leaves first, whatever the entry behind it offers.
    obtain ⟨found, others⟩ : ∃ found,
        σ.conversation.Offers σ.entryTruth [.enter (base + 1)] found := by
      cases held : σ.entryTruth (base + 1) with
      | true => exact ⟨_, Conversation.offers_open placeholder (.inr held) .nil⟩
      | false => exact ⟨_, Conversation.offers_blocked placeholder held .nil⟩
    exact refines_jump ways stand label leaves others known

section Menus

/-- The first entries of the choices that are on offer. -/
def openHeads (σ : Staging) : Nat → List Choice → List Nat
  | _, [] => []
  | base, .mk option shown body :: rest =>
    if !Scene.isGuarded (.mk option shown body) || σ.entryTruth base then
      base :: σ.openHeads (base + 1 + bodyCount body) rest
    else σ.openHeads (base + 1 + bodyCount body) rest

private theorem offers_heads {finish : Nat} : ∀ (choices : List Choice) {base : Nat},
    σ.conversation.WiredChoices σ.targets finish base choices →
    σ.conversation.Offers σ.entryTruth ((Conversation.heads base choices).map .enter)
      ((σ.openHeads base choices).map .enter)
  | [], _, _ => .nil
  | .mk option shown body :: rest, base, ⟨stand, _, wired⟩ => by
    have later := offers_heads rest wired
    simp only [Conversation.heads, openHeads, List.map_cons]
    cases guarded : Scene.isGuarded (.mk option shown body) with
    | false =>
      simp only [guarded] at stand
      exact Conversation.offers_open stand (.inl rfl) later
    | true =>
      simp only [guarded, if_true] at stand
      cases held : σ.entryTruth base with
      | true => exact Conversation.offers_open stand (.inr held) later
      | false => exact Conversation.offers_blocked stand held later

private theorem all_guarded_of_openHeads : ∀ (choices : List Choice) {base : Nat},
    σ.openHeads base choices = [] → choices.all Scene.isGuarded = true
  | [], _, _ => rfl
  | .mk option shown body :: rest, base, h => by
    unfold openHeads at h
    split at h
    · cases h
    · next closed =>
      have guarded : Scene.isGuarded (.mk option shown body) = true := by
        cases known : Scene.isGuarded (.mk option shown body) <;> simp [known] at closed ⊢
      rw [List.all_cons, guarded, all_guarded_of_openHeads rest h, Bool.and_self]

/-- Taking a choice: its first entry shows a statement, and what follows it is refined up to the end
of the menu. -/
def Takes (σ : Staging) (finish head : Nat) (run : List Nat → Progress) : Prop :=
  ∃ statement guard body, σ.label head = some statement ∧
    σ.conversation.standAt? head = some ⟨.content false, guard⟩ ∧
    (∀ later, run later = (Progress.single statement none later).andThen body) ∧
    σ.Refines head finish body

/-- Choosing among the first entries of choices by their numbers. -/
structure Chooses (σ : Staging) (finish : Nat) (heads : List Nat)
    (choose : Nat → List Nat → Progress) :
    Prop where
  missing : ∀ n, heads[n]? = none → ∀ later, choose n later = .wait later
  taken : ∀ n head, heads[n]? = some head → σ.Takes finish head (choose n)

variable {base : Nat} {menu : List Choice}

/-- A menu on which nothing is on offer is passed by. -/
theorem refines_passed (ways : σ.conversation.waysAt? base = some ⟨true,
      (Conversation.heads (base + 2) menu).map .enter,
      if menu.all Scene.isGuarded then [.enter (base + 1)] else []⟩)
    (heads : σ.conversation.Offers σ.entryTruth
      ((Conversation.heads (base + 2) menu).map .enter) [])
    (guarded : menu.all Scene.isGuarded = true)
    (standEnd : σ.conversation.standAt? (base + 1) = some ⟨.control, none⟩) :
    σ.Refines base (base + 1) .idle := by
  rw [if_pos guarded] at ways
  have lower : σ.conversation.Offers σ.entryTruth [.enter (base + 1)] [.enter (base + 1)] :=
    Conversation.offers_open standEnd (.inl rfl) .nil
  exact refines_of_turns (fun choices => Conversation.turns_of_ways ways heads lower choices)
    standEnd
    (.inl rfl)

/-- Without a choice among those on offer, the run waits. -/
theorem Follows.waiting {exit : Nat} {choices visited : List Nat} {ending : Ending}
    (h : σ.Follows exit (.wait choices) visited ending) :
    visited = [] ∧ ending = .waiting :=
  ⟨h.1, (Option.some.inj h.2).symm⟩

/-- At a menu on which something is on offer, the run waits for a choice and takes it. -/
theorem refines_chosen {heads : List Nat} {choose : Nat → List Nat → Progress}
    (turns : ∀ choices, σ.conversation.Turns σ.entryTruth base choices
      (match choices with
      | [] => .wait
      | choice :: later =>
        match heads[choice]? with
        | some head => .follow (.enter head) later
        | none => .wait))
    (chooses : σ.Chooses (base + 1) heads choose) :
    σ.Refines base (base + 1) fun choices =>
      match choices with
      | [] => .wait []
      | choice :: later => choose choice later := by
  refine ⟨fun choices halt halted => ?_, fun choices visited ending follows => ?_⟩
  · cases choices with
    | nil =>
      cases halted
      rfl
    | cons choice later =>
      cases taken : heads[choice]? with
      | none =>
        simp only [chooses.missing choice taken later] at halted
        cases halted
        rfl
      | some head =>
        obtain ⟨statement, guard, body, -, -, runs, refines⟩ := chooses.taken choice head taken
        simp only [runs] at halted
        exact refines.ends later halt halted
  · have turn := turns choices
    cases choices with
    | nil =>
      obtain ⟨rfl, rfl⟩ := Follows.waiting follows
      exact ⟨[], .wait turn, rfl⟩
    | cons choice later =>
      cases taken : heads[choice]? with
      | none =>
        simp only [taken] at turn
        simp only [chooses.missing choice taken later] at follows ⊢
        obtain ⟨rfl, rfl⟩ := Follows.waiting follows
        exact ⟨[], .wait turn, rfl⟩
      | some head =>
        simp only [taken] at turn
        obtain ⟨statement, guard, body, label, stand, runs, refines⟩ :=
          chooses.taken choice head taken
        simp only [runs] at follows ⊢
        obtain ⟨visited', plays, shown'⟩ := refines.plays later visited ending follows
        have goesOn := Conversation.haltsAt_of_stand σ.stops stand
        rw [Bool.and_false] at goesOn
        refine ⟨head :: visited', .enter turn goesOn plays, ?_⟩
        rw [shown_content stand, label, shown']
        rfl

/-- The turn at a menu on which something is on offer is the player's. -/
theorem menu_turns {heads : List Nat} {lower : List Hop} (filled : heads.isEmpty = false)
    (choices : List Nat) : Turn.of true (heads.map .enter) lower choices =
      match choices with
      | [] => .wait
      | choice :: later =>
        match heads[choice]? with
        | some head => .follow (.enter head) later
        | none => .wait := by
  have some : (heads.map Hop.enter).isEmpty = false := by simpa using filled
  cases choices with
  | nil => simp [Turn.of, some]
  | cons choice later =>
    simp only [Turn.of, some, Bool.not_false, Bool.and_true, if_true, List.getElem?_map]
    cases heads[choice]? <;> rfl

private theorem refines_menu {pred exit : Nat} {offered : Bool} {choose : Nat → List Nat → Progress}
    (wired : σ.conversation.WiredItem σ.targets base pred exit (.menu menu))
    (someOffered : offered = !(σ.openHeads (base + 2) menu).isEmpty)
    (chooses : σ.Chooses (base + 1) (σ.openHeads (base + 2) menu) choose) :
    σ.Refines pred exit fun choices =>
      if offered then
        match choices with
        | [] => .wait []
        | choice :: later => choose choice later
      else .idle choices := by
  obtain ⟨rfl, ways, stand, standEnd, waysMenu, wired⟩ := wired
  refine (refines_plain ways stand (.inr rfl)).after ?_
  have heads := offers_heads menu wired
  cases none : (σ.openHeads (base + 2) menu).isEmpty with
  | true =>
    rw [none] at someOffered
    subst someOffered
    have nothing := List.isEmpty_iff.mp none
    rw [nothing] at heads
    exact refines_passed waysMenu heads (all_guarded_of_openHeads menu nothing) standEnd
  | false =>
    rw [none] at someOffered
    subst someOffered
    obtain ⟨found, lower⟩ : ∃ found, σ.conversation.Offers σ.entryTruth
        (if menu.all Scene.isGuarded then [.enter (base + 1)] else []) found := by
      split
      · exact ⟨_, Conversation.offers_open standEnd (.inl rfl) .nil⟩
      · exact ⟨_, .nil⟩
    refine refines_chosen (fun choices => ?_) chooses
    rw [← menu_turns none]
    exact Conversation.turns_of_ways waysMenu heads lower choices

end Menus

section Clauses

variable {previous start last fallback finish : Nat}

/-- A clause is taken if its guard holds. -/
theorem refines_taken (ways : σ.conversation.waysAt? previous =
      some ⟨false, [.enter start], [.enter fallback]⟩)
    (stand : σ.conversation.standAt? start = some ⟨.control, some .block⟩)
    (standFallback : σ.conversation.standAt? fallback = some ⟨.control, none⟩)
    (held : σ.entryTruth start = true) : σ.Refines previous start .idle := by
  have normal := Conversation.offers_open stand (.inr held) .nil
  have lower : σ.conversation.Offers σ.entryTruth [.enter fallback] [.enter fallback] :=
    Conversation.offers_open standFallback (.inl rfl) .nil
  exact refines_of_turns (fun choices => Conversation.turns_of_ways ways normal lower choices) stand
    (.inl rfl)

/-- A clause whose guard is false is left out, and its fallback is entered. -/
theorem refines_fallback (ways : σ.conversation.waysAt? previous =
      some ⟨false, [.enter start], [.enter fallback]⟩)
    (stand : σ.conversation.standAt? start = some ⟨.control, some .block⟩)
    (standFallback : σ.conversation.standAt? fallback = some ⟨.control, none⟩)
    (held : σ.entryTruth start = false) : σ.Refines previous fallback .idle := by
  have normal := Conversation.offers_blocked stand held .nil
  have lower : σ.conversation.Offers σ.entryTruth [.enter fallback] [.enter fallback] :=
    Conversation.offers_open standFallback (.inl rfl) .nil
  exact refines_of_turns (fun choices => Conversation.turns_of_ways ways normal lower choices)
    standFallback (.inl rfl)

/-- The body of a clause, from its first entry to the end of the branch. -/
theorem refines_arm {run : List Nat → Progress} {exit : Nat} (body : σ.Refines start exit run)
    (waysExit : σ.conversation.waysAt? exit = some (.only last))
    (waysLast : σ.conversation.waysAt? last = some (.only finish))
    (standLast : σ.conversation.standAt? last = some ⟨.control, none⟩)
    (standFinish : σ.conversation.standAt? finish = some ⟨.control, none⟩) :
    σ.Refines start finish run :=
  (body.before (refines_control waysExit standLast)).before (refines_control waysLast standFinish)

end Clauses

private theorem shown_eq {base : Nat} {id lineId : Nat} {option shown : Content Kind}
    (h : ∀ statement, Tree.guarding? [(id, option), (lineId, shown)] = some statement →
      σ.entryTruth base = σ.truth statement.1) (spoken : Spoken) (body : List Item)
    (following : List Tree) :
    Tree.isShown σ.truth (.node id option (.node lineId shown [] :: following)) =
      (!Scene.isGuarded (.mk (option.withKind ()) (shown.withKind spoken) body) ||
        σ.entryTruth base) := by
  simp only [Tree.isShown, Content.holds, Scene.isGuarded, Content.hasConditions_withKind]
  cases line : shown.hasConditions with
  | true =>
    have truth := h (lineId, shown) (Tree.guarding?_line line)
    simp [truth]
  | false =>
    cases own : option.hasConditions with
    | true =>
      have truth := h (id, option) (Tree.guarding?_option own line)
      simp [truth]
    | false => simp

private theorem Chooses.cons {finish head : Nat} {heads : List Nat} {first : List Nat → Progress}
    {choose : Nat → List Nat → Progress} (takes : σ.Takes finish head first)
    (h : σ.Chooses finish heads choose) :
    σ.Chooses finish (head :: heads) fun n later =>
      match n with
      | 0 => first later
      | n + 1 => choose n later where
  missing n none later := by
    cases n with
    | zero => cases none
    | succ n => exact h.missing n none later
  taken n entry found := by
    cases n with
    | zero =>
      cases found
      exact takes
    | succ n => exact h.taken n entry found

mutual

private theorem refines_tree : ∀ (t : Tree) {i : Item} {base pred exit : Nat}, t.item = .ok i →
    σ.conversation.WiredItem σ.targets base pred exit i → σ.Placed base t.origins →
    Tree.JumpsUnguarded t.leaves →
    σ.Refines pred exit fun choices => t.execute (Tree.isShown σ.truth) σ.truth σ.stops choices
  | .node id content children, i, base, pred, exit, h, wired, placed, unguarded => by
    cases Tree.stands_of_item h with
    | @basic b kind empty =>
      simp only [Tree.origins, kind] at placed
      simp only [Tree.execute, kind]
      refine refines_basic wired placed fun target jump => ?_
      exact unguarded (id, content) (by simp [Tree.leaves, kind]) target (by rw [kind, jump])
    | @branch clauses otherwise kind filled sound listed =>
      obtain ⟨rfl, ways, stand, standEnd, wiredClauses, wiredLast, linked⟩ := wired
      simp only [Tree.origins, kind, Placed] at placed
      simp only [Tree.leaves, kind] at unguarded
      simp only [Tree.execute, kind]
      refine (refines_control ways stand).after ?_
      exact refines_clauses children sound listed wiredClauses wiredLast
        (linked (Tree.arms_ne_nil filled sound listed)) standEnd placed.2.2 unguarded
    | @menu menu kind options listed =>
      have wiredChoices := wired.2.2.2.2.2
      have standEnd := wired.2.2.2.1
      simp only [Tree.origins, kind, Placed] at placed
      simp only [Tree.leaves, kind] at unguarded
      simp only [Tree.execute, kind]
      obtain ⟨offered, chooses⟩ :=
        refines_choices children options listed wiredChoices standEnd placed.2.2 unguarded
      exact (refines_menu wired offered chooses).meeting children

private theorem refines_list : ∀ (ts : List Tree) {items : List Item} {base pred exit : Nat},
    Tree.itemList ts = .ok items → σ.conversation.WiredBody σ.targets base pred exit items →
    σ.Placed base (Tree.originsList ts) → Tree.JumpsUnguarded (Tree.leavesList ts) →
    σ.Refines pred exit fun choices => Tree.executeList (Tree.isShown σ.truth)
      σ.truth σ.stops choices ts
  | [], items, base, pred, exit, h, wired, placed, unguarded => by
    cases h
    obtain rfl : exit = pred := wired
    exact refines_refl exit
  | t :: rest, items, base, pred, exit, h, wired, placed, unguarded => by
    obtain ⟨first, others, one, more, rfl⟩ := Tree.itemList_cons h
    obtain ⟨middle, wiredFirst, wiredRest⟩ := wired
    rw [Tree.originsList, placed_append, Tree.length_origins t one] at placed
    have free : ∀ leaf, leaf ∈ t.leaves ∨ leaf ∈ Tree.leavesList rest → _ :=
      fun leaf member => unguarded leaf (List.mem_append.mpr member)
    exact (refines_tree t one wiredFirst placed.1 fun leaf member => free leaf (.inl member)).trans
      (refines_list rest more wiredRest placed.2 fun leaf member => free leaf (.inr member))

private theorem refines_clauses : ∀ (ts : List Tree) {isFirst : Bool} {clauses : List Clause}
    {otherwise : Option (List Item)} {base previous finish : Nat},
    clausesFlaw? isFirst ts = none → Tree.clauseList ts = .ok (clauses, otherwise) →
    σ.conversation.WiredClauses σ.targets base clauses →
    σ.conversation.WiredLast σ.targets (base + clausesCount clauses) otherwise →
    Conversation.ArmsLinked σ.conversation.waysAt? finish previous
      (Scene.armsFrom base clauses ++ Scene.lastArm (base + clausesCount clauses) otherwise) →
    σ.conversation.standAt? finish = some ⟨.control, none⟩ →
    σ.Placed base (Tree.clauseOrigins ts) → Tree.JumpsUnguarded (Tree.leavesList ts) →
    σ.Refines previous finish fun choices =>
      Tree.executeClauses (Tree.isShown σ.truth) σ.truth σ.stops choices ts
  | [], isFirst, clauses, otherwise, base, previous, finish, sound, h, wired, wiredLast, linked,
      standFinish, placed, unguarded => by
    cases h
    exact refines_control linked standFinish
  | .node id content children :: rest, isFirst, clauses, otherwise, base, previous, finish, sound,
      h, wired, wiredLast, linked, standFinish, placed, unguarded => by
    obtain ⟨kind, block⟩ := Tree.clause_of_sound sound
    replace block : content.kind = .block (.ifClause kind) := block
    simp only [Tree.leavesList, Tree.leaves, block] at unguarded
    have freeBody : Tree.JumpsUnguarded (Tree.leavesList children) :=
      fun leaf member => unguarded leaf (List.mem_append_left _ member)
    have freeRest : Tree.JumpsUnguarded (Tree.leavesList rest) :=
      fun leaf member => unguarded leaf (List.mem_append_right _ member)
    obtain ⟨⟨-, truth⟩, -, placed⟩ := placed
    obtain ⟨body, listed, guarded | last⟩ := Tree.clauseList_cons sound h
    · obtain ⟨guard, others, known, soundRest, listedRest, rfl⟩ := guarded
      rw [add_clausesCount_cons] at wiredLast linked
      obtain ⟨stand, standLast, standFallback, ⟨exit, wiredBody, waysExit⟩, wiredRest⟩ := wired
      obtain ⟨ways, waysLast, linkedRest⟩ := linked
      have conditions : content.hasConditions = true := by simp [Content.hasConditions, known]
      have shared := truth _ (Tree.guarding?_single conditions)
      rw [placed_append, Tree.length_originsList children listed, if_pos conditions] at placed
      obtain ⟨placedBody, -, placedRest⟩ := placed
      cases held : σ.truth id with
      | true =>
        simp only [Tree.executeClauses, held, Content.holds, Bool.or_true, if_true]
        exact (refines_taken ways stand standFallback (shared.trans held)).after
          (refines_arm (refines_list children listed wiredBody placedBody freeBody) waysExit
            waysLast
            standLast standFinish)
      | false =>
        simp only [Tree.executeClauses, held, Content.holds, conditions,
          Bool.not_true, Bool.or_false, Bool.false_eq_true, if_false]
        have next : base + 1 + 1 + bodyCount body + 1 = base + 3 + bodyCount body := by omega
        rw [next] at placedRest
        exact (refines_fallback ways stand standFallback (shared.trans held)).after
          (refines_clauses rest soundRest listedRest wiredRest wiredLast linkedRest
            standFinish placedRest
            freeRest)
    · obtain ⟨bare, rfl, rfl, rfl⟩ := last
      obtain ⟨stand, standLast, exit, wiredBody, waysExit⟩ := wiredLast
      obtain ⟨ways, waysLast⟩ := linked
      have holds : content.holds (σ.truth id) = true := by
        simp [Content.holds, Content.hasConditions, bare]
      simp only [Tree.executeClauses, holds, if_true]
      exact (refines_control ways stand).after
        (refines_arm (refines_list children listed wiredBody
          ((placed_append _ _ _).mp placed).1 freeBody)
          waysExit waysLast standLast standFinish)

private theorem refines_choices : ∀ (ts : List Tree) {choices : List Choice} {base finish : Nat},
    (∀ t ∈ ts, t.kind = .block .option) → Tree.choiceList ts = .ok choices →
    σ.conversation.WiredChoices σ.targets finish base choices →
    σ.conversation.standAt? finish = some ⟨.control, none⟩ →
    σ.Placed base (Tree.optionOrigins ts) → Tree.JumpsUnguarded (Tree.leavesList ts) →
    ts.any (Tree.isShown σ.truth) = !(σ.openHeads base choices).isEmpty ∧
      σ.Chooses finish (σ.openHeads base choices) fun choice later =>
        Tree.executeChoice (Tree.isShown σ.truth) σ.truth σ.stops choice later ts
  | [], choices, base, finish, options, h, wired, standFinish, placed, unguarded => by
    cases h
    exact ⟨rfl, fun _ _ _ => rfl, nofun⟩
  | .node id option [] :: rest, choices, base, finish, options, h, _, _, _, _ => by cases h
  | .node id option (.node lineId shown below :: following) :: rest, choices, base, finish, options,
      h, wired, standFinish, placed, unguarded => by
    obtain ⟨_, _, _, spoken, body, others, same, kind, listed, listedRest, rfl⟩ :=
      Tree.choiceList_cons h
    cases same
    obtain ⟨stand, ⟨exit, wiredBody, waysExit⟩, wiredRest⟩ := wired
    have block : option.kind = .block .option := options _ List.mem_cons_self
    simp only [Tree.leavesList, Tree.leaves, block] at unguarded
    have freeBody : Tree.JumpsUnguarded (Tree.leavesList following) :=
      fun leaf member => unguarded leaf (List.mem_append_left _ (List.mem_append_right _ member))
    have freeRest : Tree.JumpsUnguarded (Tree.leavesList rest) :=
      fun leaf member => unguarded leaf (List.mem_append_right _ member)
    obtain ⟨⟨label, truth⟩, placed⟩ := placed
    rw [placed_append, Tree.length_originsList following listed] at placed
    obtain ⟨offeredRest, choosesRest⟩ := refines_choices rest
      (fun t member => options t (List.mem_cons_of_mem _ member)) listedRest wiredRest
        standFinish placed.2
      freeRest
    have refines := (refines_list following listed wiredBody placed.1 freeBody).before
      (refines_control waysExit standFinish)
    have takes : σ.Takes finish base fun later =>
      Tree.executeOption (Tree.isShown σ.truth) σ.truth σ.stops later
        (.node id option (.node lineId shown [] :: following)) :=
      ⟨lineId, _, _, label, stand, fun _ => rfl, refines⟩
    have offered := shown_eq truth spoken body following
    cases isOpen : !Scene.isGuarded (.mk (option.withKind ()) (shown.withKind spoken) body) ||
        σ.entryTruth base with
    | true =>
      rw [isOpen] at offered
      simp only [List.any_cons, Tree.executeChoice, openHeads, offered, isOpen,
        if_true, Bool.true_or]
      exact ⟨rfl, Chooses.cons takes choosesRest⟩
    | false =>
      rw [isOpen] at offered
      simp only [List.any_cons, Tree.executeChoice, openHeads, offered, isOpen, Bool.false_or,
        Bool.false_eq_true, if_false]
      exact ⟨offeredRest, choosesRest⟩

end

private theorem placed_of_getElem? : ∀ (origins : List (List Tree.Origin)) {base : Nat},
    (∀ (k : Nat) (origin : List Tree.Origin), origins[k]? = some origin →
      σ.label (base + k) = origin.getLast?.map Prod.fst ∧
        ∀ statement, Tree.guarding? origin = some statement →
          σ.entryTruth (base + k) = σ.truth statement.1) →
    σ.Placed base origins
  | [], _, _ => trivial
  | origin :: rest, base, h => by
    refine ⟨h 0 origin rfl, placed_of_getElem? rest fun k later found => ?_⟩
    have here := h (k + 1) later found
    rwa [Nat.add_comm k 1, ← Nat.add_assoc] at here

end Staging

private theorem Script.Shares.placed {s : Script} {entryTruth truth : Nat → Bool}
    (shares : s.Shares entryTruth truth) (c : Conversation) (targets : Dict Nat) (stops : Bool) :
    Staging.Placed ⟨c, targets, entryTruth, truth, stops, s.statementAt?⟩ 1
      (Tree.originsList s.tree.children) := by
  refine Staging.placed_of_getElem? _ fun k origin found => ?_
  have listed : s.origins[1 + k]? = some origin := by
    rw [Nat.add_comm]
    exact found
  exact ⟨by simp [Script.statementAt?, listed],
    fun statement guarding => shares (1 + k) origin statement listed guarding⟩

/-- A finished execution is followed by the end of the run, behind the last item. -/
theorem Staging.follows_end {σ : Staging} {exit : Nat} {p : Progress} {ending : Ending}
    (loose : σ.conversation.waysAt? exit = some .loose) (ends : p.ending? σ.targets = some ending) :
    σ.Follows exit p [] ending := by
  unfold Progress.ending? at ends
  unfold Follows
  cases halt : p.halt with
  | some how =>
    rw [halt] at ends
    exact ⟨rfl, ends⟩
  | none =>
    rw [halt] at ends
    obtain rfl := Option.some.inj ends
    exact .finish (Conversation.turns_of_ways loose .nil .nil p.choices)

/-- What a run shows is what an execution executes, and it ends as the execution does. -/
structure Script.Matches (s : Script) (c : Conversation) (targets : Dict Nat) (p : Progress)
    (visited : List Nat) (ending : Ending) : Prop where
  shown : c.shown s.statementAt? visited = p.executed.map some
  ends : p.ending? targets = some ending

private theorem Script.Matches.iff {s : Script} {c : Conversation}
    {targets : Dict Nat} {p q : Progress} {visited : List Nat} {ending : Ending}
    (h : s.Matches c targets p visited ending) :
    s.Matches c targets q visited ending ↔
      q.executed = p.executed ∧ q.ending? targets = p.ending? targets := by
  constructor
  · intro h'
    have same := h'.shown.symm.trans h.shown
    exact ⟨(List.map_inj_right fun _ _ => Option.some.inj).mp same, h'.ends.trans h.ends.symm⟩
  · rintro ⟨executed, ends⟩
    exact ⟨executed ▸ h.shown, ends.trans h.ends⟩

private theorem Script.exists_play {s : Script} {ctx : Context} {id : Nat} {c : Conversation}
    (lowered : s.lower ctx id = .ok c) (unguarded : s.JumpsUnguarded)
    {entryTruth truth : Nat → Bool} (shares : s.Shares entryTruth truth) (stops : Bool)
    (choices : List Nat) : ∃ visited ending,
      c.Plays entryTruth stops Conversation.startId choices visited ending ∧
      s.Matches c ctx.conversations (s.executeShown truth stops choices) visited ending := by
  obtain ⟨items, exit, listed, wired, loose⟩ := lower_wired lowered
  obtain ⟨node, _, _, checked, _⟩ := lower_ok lowered
  let σ : Staging := ⟨c, ctx.conversations, entryTruth, truth, stops, s.statementAt?⟩
  have free : Tree.JumpsUnguarded (Tree.leavesList s.tree.children) := by
    rw [← Tree.leaves_of_check checked]
    exact unguarded
  have refines : σ.Refines Conversation.startId exit
      fun choices => s.executeShown truth stops choices :=
    Staging.refines_list s.tree.children listed wired (shares.placed c ctx.conversations stops) free
  obtain ⟨ending, ends⟩ : ∃ ending,
      (s.executeShown truth stops choices).ending? ctx.conversations = some ending := by
    unfold Progress.ending?
    cases halt : (s.executeShown truth stops choices).halt with
    | none => exact ⟨_, rfl⟩
    | some how => exact Option.isSome_iff_exists.mp (refines.ends choices how halt)
  obtain ⟨visited, plays, shown⟩ :=
    refines.plays choices [] ending (Staging.follows_end loose ends)
  exact ⟨visited, ending, plays, shown.trans (List.append_nil _), ends⟩

/-- For every script in which no jump is guarded and whose lowering succeeds, and for every truth of
its guards, the entries can have their truth from the statements whose guards they have. Then, for
every sequence of choices, there is exactly one run from the start. The content entries that it
enters are those of the statements that the script executes, in order, and it ends as the script
does, if the guard of a line stands for that of the option that shows it. So it does what the script
does with both guards just if the two executions agree, and they agree unless the script comes to a
menu with an option whose own guard is false while that of its line holds. -/
theorem Script.lower_preserves_flow {s : Script} {ctx : Context} {id : Nat} {c : Conversation}
    (lowered : s.lower ctx id = .ok c) (unguarded : s.JumpsUnguarded) (truth : Nat → Bool) :
    (∃ entryTruth, s.Shares entryTruth truth) ∧
    ∀ entryTruth, s.Shares entryTruth truth → ∀ stops choices, ∃ visited ending,
      (∀ visited' ending',
        c.Plays entryTruth stops Conversation.startId choices visited' ending' ↔
          visited' = visited ∧ ending' = ending) ∧
      s.Matches c ctx.conversations (s.executeShown truth stops choices) visited ending ∧
      (s.Matches c ctx.conversations (s.execute truth stops choices) visited ending ↔
        (s.execute truth stops choices).executed =
            (s.executeShown truth stops choices).executed ∧
          (s.execute truth stops choices).ending? ctx.conversations =
            (s.executeShown truth stops choices).ending? ctx.conversations) ∧
      ((∀ option ∈ (s.execute truth stops choices).met, option.isOverridden truth = false) →
        s.Matches c ctx.conversations (s.execute truth stops choices) visited ending) := by
  refine ⟨⟨_, s.shares_entryTruth truth⟩, fun entryTruth shares stops choices => ?_⟩
  obtain ⟨visited, ending, plays, shows⟩ := exists_play lowered unguarded shares stops choices
  refine ⟨visited, ending, fun visited' ending' => ⟨fun other => other.unique plays, ?_⟩, shows,
    shows.iff, fun kept => ?_⟩
  · rintro ⟨rfl, rfl⟩
    exact plays
  · rw [executeShown_eq kept] at shows
    exact shows

namespace Sample

def context : Context :=
  ⟨.new "en" [] "Player" "Narrator", .insert (.insert .empty "Start" 1) "Other" 2, {}, "en"⟩

def guard : Option Expression := some [.variable "x"]

/-- A guarded line, a branch with two clauses, a menu of two guarded options, and a jump. -/
def script : Script where
  statements :=
    [⟨⟨.block (.node "Start" .empty), 1, none, none⟩, none, [1, 2, 7, 12]⟩,
      ⟨⟨.basic (.line {}), 2, guard, none⟩, some 0, []⟩,
      ⟨⟨.block .ifBlock, 3, none, none⟩, some 0, [3, 5]⟩,
      ⟨⟨.block (.ifClause .if_), 3, guard, none⟩, some 2, [4]⟩,
      ⟨⟨.basic (.line {}), 4, none, none⟩, some 3, []⟩,
      ⟨⟨.block (.ifClause .else_), 5, none, none⟩, some 2, [6]⟩,
      ⟨⟨.basic (.line {}), 6, none, none⟩, some 5, []⟩,
      ⟨⟨.block .options, 7, none, none⟩, some 0, [8, 10]⟩,
      ⟨⟨.block .option, 7, guard, none⟩, some 7, [9]⟩,
      ⟨⟨.basic (.line {}), 7, none, none⟩, some 8, []⟩,
      ⟨⟨.block .option, 8, none, none⟩, some 7, [11]⟩,
      ⟨⟨.basic (.line {}), 8, guard, none⟩, some 10, []⟩,
      ⟨⟨.basic (.jump (.node "Other")), 9, none, none⟩, some 0, []⟩]
  root := 0
  root_lt := by decide

/-- The guards of the script that hold: that of the line of its second option. -/
def truth (statement : Nat) : Bool := statement = 11

/-- A menu with one option, which is guarded twice. -/
def doubleGuard : Script where
  statements :=
    [⟨⟨.block (.node "Start" .empty), 1, none, none⟩, none, [1]⟩,
      ⟨⟨.block .options, 2, none, none⟩, some 0, [2]⟩,
      ⟨⟨.block .option, 2, guard, none⟩, some 1, [3]⟩,
      ⟨⟨.basic (.line {}), 2, some [.variable "y"], none⟩, some 2, []⟩]
  root := 0
  root_lt := by decide

/-- The guard of the line holds, that of its option does not. -/
def lineTruth (statement : Nat) : Bool := statement = 3

private theorem jumpsUnguarded_of_lines {s : Script} (guarded : ∀ leaf ∈ s.tree.leaves,
    leaf.2.hasConditions = true → leaf.2.kind = .basic (.line {})) : s.JumpsUnguarded := by
  intro leaf member target jump
  cases conditions : leaf.2.hasConditions with
  | false => rfl
  | true =>
    rw [guarded leaf member conditions] at jump
    cases jump

private theorem exists_of_isOk {ε α : Type} {x : Except ε α} (h : x.isOk = true) :
    ∃ a, x = .ok a := by
  cases x with
  | error e => cases h
  | ok a => exact ⟨a, rfl⟩

end Sample

open Sample in
theorem Script.lower_preserves_flow_sample :
    (∃ c, script.lower context 1 = .ok c ∧ script.JumpsUnguarded ∧
      ∃ visited, (∀ visited' ending',
          c.Plays (script.entryTruth truth) true Conversation.startId [0] visited' ending' ↔
            visited' = visited ∧ ending' = .left 2) ∧
        c.shown script.statementAt? visited = [some 6, some 11, some 12] ∧
        script.Matches c context.conversations (script.execute truth true [0]) visited
          (.left 2)) ∧
    ∃ c, doubleGuard.lower context 1 = .ok c ∧ doubleGuard.JumpsUnguarded ∧
      ∃ visited, (∀ visited' ending',
          c.Plays (doubleGuard.entryTruth lineTruth) true Conversation.startId [0] visited'
              ending' ↔
            visited' = visited ∧ ending' = .finished) ∧
        c.shown doubleGuard.statementAt? visited = [some 3] ∧
        (doubleGuard.execute lineTruth true [0]).executed = [] ∧
        ¬ doubleGuard.Matches c context.conversations (doubleGuard.execute lineTruth true [0])
          visited .finished := by
  constructor
  · have unguarded : script.JumpsUnguarded := jumpsUnguarded_of_lines (by decide +kernel)
    obtain ⟨c, lowered⟩ := exists_of_isOk (x := script.lower context 1) (by decide +kernel)
    obtain ⟨visited, ending, plays, shows, -, kept⟩ :=
      (lower_preserves_flow lowered unguarded truth).2 _ (script.shares_entryTruth truth) true [0]
    have ended : (script.executeShown truth true [0]).ending? context.conversations =
        some (.left 2) := by decide +kernel
    have executed : (script.executeShown truth true [0]).executed = [6, 11, 12] := by
      decide +kernel
    have honoured : ∀ option ∈ (script.execute truth true [0]).met,
        option.isOverridden truth = false := by decide +kernel
    obtain rfl := Option.some.inj (shows.ends.symm.trans ended)
    exact ⟨c, lowered, unguarded, visited, plays, by rw [shows.shown, executed]; rfl,
      kept honoured⟩
  · have unguarded : doubleGuard.JumpsUnguarded := jumpsUnguarded_of_lines (by decide +kernel)
    obtain ⟨c, lowered⟩ := exists_of_isOk (x := doubleGuard.lower context 1) (by decide +kernel)
    obtain ⟨visited, ending, plays, shows, agree, -⟩ :=
      (lower_preserves_flow lowered unguarded lineTruth).2 _
        (doubleGuard.shares_entryTruth lineTruth) true [0]
    have ended : (doubleGuard.executeShown lineTruth true [0]).ending? context.conversations =
        some .finished := by decide +kernel
    have executed : (doubleGuard.executeShown lineTruth true [0]).executed = [3] := by
      decide +kernel
    have intended : (doubleGuard.execute lineTruth true [0]).executed = [] := by decide +kernel
    obtain rfl := Option.some.inj (shows.ends.symm.trans ended)
    refine ⟨c, lowered, unguarded, visited, plays, by rw [shows.shown, executed]; rfl, intended,
      fun same => ?_⟩
    have lists := (agree.mp same).1
    rw [intended, executed] at lists
    cases lists

end Dialogue
