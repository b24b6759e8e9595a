import Dialogue.Proofs.ControlFlow

/-!
What statements attach to entries that were made before them. A `wait` or `seq` command adds a
directive to the entry that its body has come to, and an interpolated line adds calls to the script
of that entry.

`Script.bodyAttachments` lists these in advance, each with the entry that hosts it. The lowering of
a body is the lowering of the same body without them, with each then attached to its host. A host is
guarded so that the runtime may skip it exactly if it is the entry of a guarded statement.
-/

set_option autoImplicit false
set_option relaxedAutoImplicit false

namespace Dialogue

open Script

/-- What is attached to an entry: a statement of its script, or a directive of its sequence. -/
inductive Effect
  | script (text : String)
  | directive (text : String)
deriving DecidableEq

def Effect.on : Effect → Entry → Entry
  | .script text, e => { e with userScript := Draft.joinScript e.userScript text }
  | .directive text, e => { e with sequence := Draft.joinSequence e.sequence text }

namespace Draft

def attach (d : Draft) (effects : List (Nat × Effect)) : Draft :=
  effects.foldl (fun d (entry, effect) => d.modify entry effect.on) d

/-- A draft is another one with effects attached to entries that are there. -/
structure Attached (plain : Draft) (effects : List (Nat × Effect)) (d : Draft) : Prop where
  eq : d = plain.attach effects
  within : ∀ a ∈ effects, a.1 < plain.nextId

private theorem modify_push (d : Draft) (e : Entry) {i : Nat} (h : i < d.nextId)
    (f : Entry → Entry) :
    (d.push e).modify i f = (d.modify i f).push e := by
  have entries : ∀ j, ((d.push e).modify i f).entryAt? j = ((d.modify i f).push e).entryAt? j := by
    intro j
    rw [entryAt?_modify, entryAt?_push, entryAt?_push, entryAt?_modify, nextId_modify]
    by_cases new : j = d.nextId
    · rw [if_neg (by omega), if_pos new, if_pos new]
    · rw [if_neg new, if_neg new]
  exact congrArg d.withEntries (List.ext_getElem? entries)

private theorem modify_modify {f g : Entry → Entry} (comm : ∀ e, f (g e) = g (f e))
    (d : Draft) (i j : Nat) :
    (d.modify j g).modify i f = (d.modify i f).modify j g := by
  have entries : ∀ k, ((d.modify j g).modify i f).entryAt? k =
      ((d.modify i f).modify j g).entryAt? k := by
    intro k
    simp only [entryAt?_modify]
    by_cases first : i = k <;> by_cases second : j = k <;>
      simp [first, second, Option.map_map, Function.comp_def, comm]
  exact congrArg d.withEntries (List.ext_getElem? entries)

private theorem nextId_attach (d : Draft) (effects : List (Nat × Effect)) :
    (d.attach effects).nextId = d.nextId := by
  induction effects generalizing d with
  | nil => rfl
  | cons a rest ih => exact (ih _).trans (d.nextId_modify _ _)

private theorem fresh_attach (d : Draft) (effects : List (Nat × Effect)) (title : String) :
    (d.attach effects).fresh title = d.fresh title := by
  induction effects generalizing d with
  | nil => rfl
  | cons a rest ih =>
    refine (ih _).trans ?_
    simp only [fresh, nextId_modify]
    rfl

private theorem attach_append (d : Draft) (effects more : List (Nat × Effect)) :
    d.attach (effects ++ more) = (d.attach effects).attach more :=
  List.foldl_append

private theorem attach_push (e : Entry) (effects : List (Nat × Effect)) (d : Draft)
    (within : ∀ a ∈ effects, a.1 < d.nextId) :
    (d.push e).attach effects = (d.attach effects).push e := by
  induction effects generalizing d with
  | nil => rfl
  | cons a rest ih =>
    have first := within a List.mem_cons_self
    have others : ∀ b ∈ rest, b.1 < (d.modify a.1 a.2.on).nextId := by
      intro b member
      rw [nextId_modify]
      exact within b (List.mem_cons_of_mem _ member)
    calc (d.push e).attach (a :: rest)
        = ((d.modify a.1 a.2.on).push e).attach rest := by rw [← modify_push d e first]; rfl
      _ = (d.attach (a :: rest)).push e := ih _ others

private theorem attach_modify {f : Entry → Entry}
    (comm : ∀ (effect : Effect) e, effect.on (f e) = f (effect.on e))
    (i : Nat) (effects : List (Nat × Effect)) (d : Draft) :
    (d.modify i f).attach effects = (d.attach effects).modify i f := by
  induction effects generalizing d with
  | nil => rfl
  | cons a rest ih =>
    calc (d.modify i f).attach (a :: rest)
        = ((d.modify a.1 a.2.on).modify i f).attach rest := by
          rw [← modify_modify (comm a.2) d a.1 i]; rfl
      _ = (d.attach (a :: rest)).modify i f := ih _

namespace Attached

variable {plain d : Draft} {effects : List (Nat × Effect)}

theorem refl (d : Draft) : d.Attached [] d :=
  ⟨rfl, nofun⟩

private theorem nextId_eq (h : plain.Attached effects d) : d.nextId = plain.nextId := by
  rw [h.eq, nextId_attach]

private theorem fresh_eq (h : plain.Attached effects d) (title : String) :
    d.fresh title = plain.fresh title := by
  rw [h.eq, fresh_attach]

private theorem id_eq (h : plain.Attached effects d) : d.conversation.id = plain.conversation.id :=
  congrArg Entry.conversationId (h.fresh_eq "")

private theorem push (h : plain.Attached effects d) (e : Entry) :
    (plain.push e).Attached effects (d.push e) where
  eq := by rw [h.eq, attach_push e effects plain h.within]
  within a member := by
    rw [nextId_push]
    exact Nat.lt_succ_of_lt (h.within a member)

private theorem modify (h : plain.Attached effects d) {f : Entry → Entry}
    (comm : ∀ (effect : Effect) e, effect.on (f e) = f (effect.on e)) (i : Nat) :
    (plain.modify i f).Attached effects (d.modify i f) where
  eq := by rw [h.eq, attach_modify comm]
  within a member := by
    rw [nextId_modify]
    exact h.within a member

private theorem link (h : plain.Attached effects d) (i j : Nat) (p : Priority) :
    (plain.link i j p).Attached effects (d.link i j p) := by
  rw [link_eq, link_eq, h.id_eq]
  exact h.modify (by rintro (_ | _) e <;> rfl) i

private theorem connect (h : plain.Attached effects d) (i k j : Nat) :
    (plain.connect i k j).Attached effects (d.connect i k j) := by
  rw [connect_eq, connect_eq, h.id_eq]
  exact h.modify (by rintro (_ | _) e <;> rfl) i

private theorem setGroup (h : plain.Attached effects d) (i : Nat) :
    (plain.setGroup i).Attached effects (d.setGroup i) :=
  h.modify (by rintro (_ | _) e <;> rfl) i

private theorem setConditions (h : plain.Attached effects d) (i : Nat)
    (condition : String) (a : FalseAction) :
    (plain.setConditions i condition a).Attached effects (d.setConditions i condition a) :=
  h.modify (by rintro (_ | _) e <;> rfl) i

private theorem control (h : plain.Attached effects d) (title : String) :
    (plain.control title).Attached effects (d.control title) := by
  rw [Draft.control, Draft.control, h.fresh_eq]
  exact h.push _

private theorem scriptEntry (h : plain.Attached effects d) (pred : Nat) (title script : String)
    (condition : Option String) : (plain.scriptEntry pred title script condition).Attached effects
      (d.scriptEntry pred title script condition) := by
  rw [Draft.scriptEntry, Draft.scriptEntry, h.fresh_eq, h.nextId_eq]
  exact (h.push _).link _ _ _

/-- Further effects on entries that are there. -/
theorem more (h : plain.Attached effects d) {others : List (Nat × Effect)}
    (within : ∀ a ∈ others, a.1 < d.nextId) :
    plain.Attached (effects ++ others) (d.attach others) where
  eq := by rw [attach_append, h.eq]
  within a member := by
    rcases List.mem_append.mp member with member | member
    · exact h.within a member
    · exact h.nextId_eq ▸ within a member

end Attached

end Draft

namespace Script

/-- A statement that attaches something to the entry before it, by what that is. -/
inductive Source
  | sequence (line : Nat) (rawText : String) (arguments : List Command.Argument)
  | wait (line : Nat) (arguments : List Command.Argument)
  /-- The format arguments of a line, with the entry of the line. -/
  | format (line : Nat) (tokens : Expression) (entry : Nat)
deriving DecidableEq

/-- The entry that a body has come to, and whether the runtime may skip it. -/
structure Host where
  entry : Nat
  isSkippable : Bool
deriving DecidableEq

/-- What a basic statement attaches, if its entry is at `base`. -/
def Content.source? (s : Content Basic) (base : Nat) : Option Source :=
  match s.kind with
  | .line _ => s.payload?.map fun tokens => .format s.line tokens base
  | .command name arguments rawText =>
    match Command.Kind.ofName name with
    | .playSequence => some (.sequence s.line rawText arguments)
    | .wait => some (.wait s.line arguments)
    | .stop | .custom => none
  | .call _ | .jump _ | .set .. | .declare _ => none

/-- A statement without its payload. -/
def Content.plain {κ : Type} (s : Content κ) : Content κ :=
  { s with expression := none }

/-- What is left of a basic statement without what it attaches: nothing of a directive. -/
def Content.quiet (s : Content Basic) : List Item :=
  match s.kind with
  | .line _ => [.basic s.plain]
  | kind => if kind.entryCount = 0 then [] else [.basic s]

/-- The host for what follows an item. The entry of a guarded statement may be skipped. -/
def Item.exit (base : Nat) (host : Host) : Item → Host
  | .basic s =>
    match s.kind.entryCount with
    | 0 => host
    | 1 => ⟨base, s.hasConditions⟩
    | _ => ⟨base + 1, false⟩
  | .branch .. => ⟨base + 1, false⟩
  | .menu _ => ⟨base + 1, false⟩

mutual

/-- An item without what its statements attach. -/
def Item.quiet : Item → List Item
  | .basic s => s.quiet
  | .branch clauses none => [.branch (quietClauses clauses) none]
  | .branch clauses (some body) => [.branch (quietClauses clauses) (some (quietBody body))]
  | .menu choices => [.menu (quietChoices choices)]

def quietBody : List Item → List Item
  | [] => []
  | item :: rest => item.quiet ++ quietBody rest

def quietClauses : List Clause → List Clause
  | [] => []
  | .mk line guard body :: rest => .mk line guard (quietBody body) :: quietClauses rest

def quietChoices : List Choice → List Choice
  | [] => []
  | .mk option shown body :: rest => .mk option shown.plain (quietBody body) :: quietChoices rest

end

mutual

/-- What the statements of an item attach, in order, if its entries start at `base` and the body has
come to a host. -/
def Item.attachments (base : Nat) (host : Host) : Item → List (Host × Source)
  | .basic s => (s.source? base).toList.map (host, ·)
  | .branch clauses none => clauseAttachments (base + 2) clauses
  | .branch clauses (some body) =>
    clauseAttachments (base + 2) clauses ++
      bodyAttachments (base + 2 + clausesCount clauses + 2)
        ⟨base + 2 + clausesCount clauses, false⟩ body
  | .menu choices => choiceAttachments base (base + 2) choices

def bodyAttachments (base : Nat) (host : Host) : List Item → List (Host × Source)
  | [] => []
  | item :: rest =>
    item.attachments base host ++ bodyAttachments (base + item.entryCount)
      (item.exit base host) rest

def clauseAttachments (base : Nat) : List Clause → List (Host × Source)
  | [] => []
  | .mk _ _ body :: rest =>
    bodyAttachments (base + 2) ⟨base, false⟩ body ++
      clauseAttachments (base + 3 + bodyCount body) rest

/-- The line of a choice attaches its format arguments to the start of the menu. -/
def choiceAttachments (start base : Nat) : List Choice → List (Host × Source)
  | [] => []
  | .mk _ shown body :: rest =>
    shown.payload?.toList.map (fun tokens => (⟨start, false⟩, .format shown.line tokens base)) ++
      (bodyAttachments (base + 1) ⟨base, false⟩ body ++
        choiceAttachments start (base + 1 + bodyCount body) rest)

end

private theorem bodyAttachments_append : ∀ (items more : List Item) (base : Nat) (host : Host),
    ∃ base' host', bodyAttachments base host (items ++ more) =
      bodyAttachments base host items ++ bodyAttachments base' host' more
  | [], more, base, host => ⟨base, host, rfl⟩
  | item :: rest, more, base, host => by
    obtain ⟨base', host', split⟩ :=
      bodyAttachments_append rest more (base + item.entryCount) (item.exit base host)
    refine ⟨base', host', ?_⟩
    rw [List.cons_append, bodyAttachments, split, bodyAttachments, List.append_assoc]

mutual

private theorem Item.attachments_quiet : ∀ (item : Item) (base : Nat) (host : Host),
    bodyAttachments base host item.quiet = []
  | .basic s, base, host => by
    unfold Item.quiet Content.quiet
    cases kind : s.kind with
    | line spoken =>
      simp [bodyAttachments, Item.attachments, Content.source?, Content.plain,
        kind, Content.payload?]
    | command name arguments rawText =>
      cases sort : Command.Kind.ofName name <;>
        simp [bodyAttachments, Item.attachments, Content.source?, kind, sort, Basic.entryCount]
    | call | jump | set | declare =>
      simp [bodyAttachments, Item.attachments, Content.source?, kind, Basic.entryCount]
  | .branch clauses none, base, host => by
    simp [Item.quiet, bodyAttachments, Item.attachments, attachments_quietClauses clauses]
  | .branch clauses (some body), base, host => by
    simp [Item.quiet, bodyAttachments, Item.attachments, attachments_quietClauses clauses,
      attachments_quietBody body]
  | .menu choices, base, host => by
    simp [Item.quiet, bodyAttachments, Item.attachments, attachments_quietChoices choices]

theorem attachments_quietBody : ∀ (items : List Item) (base : Nat) (host : Host),
    bodyAttachments base host (quietBody items) = []
  | [], _, _ => rfl
  | item :: rest, base, host => by
    obtain ⟨base', host', split⟩ := bodyAttachments_append item.quiet (quietBody rest) base host
    rw [quietBody, split, item.attachments_quiet, attachments_quietBody rest, List.append_nil]

private theorem attachments_quietClauses : ∀ (clauses : List Clause) (base : Nat),
    clauseAttachments base (quietClauses clauses) = []
  | [], _ => rfl
  | .mk line guard body :: rest, base => by
    rw [quietClauses, clauseAttachments, attachments_quietBody body, attachments_quietClauses rest,
      List.append_nil]

private theorem attachments_quietChoices : ∀ (choices : List Choice) (start base : Nat),
    choiceAttachments start base (quietChoices choices) = []
  | [], _, _ => rfl
  | .mk option shown body :: rest, start, base => by
    rw [quietChoices, choiceAttachments, attachments_quietBody body, attachments_quietChoices rest]
    rfl

end

end Script

namespace Scene

def effects (scene : Scene) (conversation : Nat) : Source → Except CompileError (List Effect)
  | .sequence line rawText arguments => do
    return [.directive (← scene.located line (Command.sequenceText rawText arguments))]
  | .wait line arguments => do
    return [.directive (← scene.located line (Command.waitText arguments))]
  | .format line tokens entry => do
    let fragments ← scene.located line tokens.fragments
    return (Lua.formatCalls conversation entry fragments).map .script

/-- What sources attach to their hosts, in order. -/
def hostedEffects (scene : Scene) (conversation : Nat) :
    List (Host × Source) → Except CompileError (List (Nat × Effect))
  | [] => .ok []
  | (host, source) :: rest => do
    let first ← scene.effects conversation source
    return first.map (host.entry, ·) ++ (← scene.hostedEffects conversation rest)

variable {scene : Scene}

private theorem hostedEffects_append {conversation : Nat} : ∀ {sources more : List (Host × Source)}
    {effects others : List (Nat × Effect)}, scene.hostedEffects conversation sources = .ok effects →
    scene.hostedEffects conversation more = .ok others →
    scene.hostedEffects conversation (sources ++ more) = .ok (effects ++ others)
  | [], more, effects, others, first, second => by
    cases first
    exact second
  | (host, source) :: rest, more, effects, others, first, second => by
    simp only [hostedEffects, bind_eq_ok_iff, pure_eq_ok_iff] at first
    obtain ⟨here, found, later, foundLater, rfl⟩ := first
    have joined := hostedEffects_append foundLater second
    simp only [List.cons_append, hostedEffects, bind_eq_ok_iff, pure_eq_ok_iff]
    exact ⟨here, found, _, joined, by rw [List.append_assoc]⟩

private theorem hostedEffects_single {conversation : Nat} {source : Source} {found : List Effect}
    (h : scene.effects conversation source = .ok found) (host : Host) :
    scene.hostedEffects conversation [(host, source)] = .ok (found.map (host.entry, ·)) := by
  simp only [hostedEffects, bind_eq_ok_iff, pure_eq_ok_iff]
  exact ⟨found, h, [], rfl, List.append_nil _⟩

private theorem addFormatArguments_eq (pred entry : Nat) (fragments : List String) (d : Draft) :
    d.addFormatArguments pred entry fragments = d.attach
      (((Lua.formatCalls d.conversation.id entry fragments).map Effect.script).map (pred, ·)) := by
  rw [Draft.addFormatArguments, Draft.attach, List.map_map, List.foldl_map]
  rfl

section Parts

variable {plain d : Draft} {effects : List (Nat × Effect)}

private theorem withEntry_attached (h : plain.Attached effects d) {pred : Nat}
    (lt : pred < d.nextId) (e : Entry) (fragments : List String) :
    (withEntry plain pred e []).Attached
      (effects ++
        ((Lua.formatCalls d.conversation.id d.nextId fragments).map Effect.script).map (pred, ·))
      (withEntry d pred e fragments) := by
  unfold withEntry
  rw [addFormatArguments_eq, addFormatArguments_eq, ← h.nextId_eq]
  refine ((h.push e).more fun a member => ?_).link _ _ _
  obtain ⟨effect, -, rfl⟩ := List.mem_map.mp member
  rw [Draft.nextId_push]
  exact Nat.lt_succ_of_lt lt

private theorem openArm_attached (h : plain.Attached effects d) (kind : ClauseKind) :
    (openArm plain kind).Attached effects (openArm d kind) :=
  (h.control _).control _

private theorem openBranch_attached (h : plain.Attached effects d) (pred : Nat) :
    (openBranch plain pred).Attached effects (openBranch d pred) := by
  unfold openBranch
  rw [h.nextId_eq]
  exact (((h.control _).setGroup _).link _ _ _).control _

private theorem openMenu_attached (h : plain.Attached effects d) (pred : Nat)
    {choices others : List Choice} (same : choices.length = others.length) :
    (openMenu plain pred choices).Attached effects (openMenu d pred others) := by
  unfold openMenu
  rw [h.nextId_eq, same]
  split
  · exact (((h.control _).setGroup _).link _ _ _).control _
  · exact ((h.control _).link _ _ _).control _

private theorem closeMenu_attached (h : plain.Attached effects d) (start : Nat)
    {choices others : List Choice} (same : choices.all isGuarded = others.all isGuarded) :
    (closeMenu plain start choices).Attached effects (closeMenu d start others) := by
  unfold closeMenu
  rw [same]
  split
  · exact h.link _ _ _
  · exact h

private theorem closeClause_attached (h : plain.Attached effects d)
    (start exit : Nat) (kind : ClauseKind) (condition : String) :
    (closeClause plain start exit kind condition).Attached effects
      (closeClause d start exit kind condition) :=
  ((h.link _ _ _).setConditions _ _ _).control _

private theorem enterArms_attached (h : plain.Attached effects d) (start : Nat) (arms : List Arm) :
    (enterArms plain start arms).Attached effects (enterArms d start arms) := by
  unfold enterArms
  split
  · exact h.link _ _ _
  · exact h

private theorem linkArms_attached (finish : Nat) :
    ∀ (arms : List Arm) {plain d : Draft} (previous : Nat),
    plain.Attached effects d →
    (linkArms plain previous finish arms).Attached effects (linkArms d previous finish arms)
  | [], _, _, _, h => h
  | ⟨_, _, none⟩ :: rest, _, _, previous, h =>
    linkArms_attached finish rest previous (h.link _ _ _)
  | ⟨_, _, some fallback⟩ :: rest, _, _, _, h =>
    linkArms_attached finish rest fallback ((((h.link _ _ _).link _ _ _).setGroup _).link _ _ _)

private theorem addScript_attached (h : plain.Attached effects d) {d' : Draft} {pred exit : Nat}
    {s : Content Basic} {title script : String}
    (added : scene.addScript d pred s title script = .ok (d', exit)) :
    ∃ plain', scene.addScript plain pred s title script = .ok (plain', exit) ∧
      plain'.Attached effects d' := by
  simp only [addScript, bind_eq_ok_iff, pure_eq_ok_iff, Prod.mk.injEq] at added ⊢
  obtain ⟨condition, guarded, rfl, rfl⟩ := added
  exact ⟨_, ⟨condition, guarded, rfl, h.nextId_eq.symm⟩, h.scriptEntry _ _ _ _⟩

private theorem addAssignment_attached (h : plain.Attached effects d) {d' : Draft} {pred exit : Nat}
    {s : Content Basic} {name : String} {op : Update}
    (added : scene.addAssignment d pred s name op = .ok (d', exit)) :
    ∃ plain', scene.addAssignment plain pred s name op = .ok (plain', exit) ∧
      plain'.Attached effects d' := by
  unfold addAssignment at added ⊢
  cases payload : s.payload? with
  | none =>
    rw [payload] at added
    cases added
  | some tokens =>
    simp only [payload, bind_eq_ok_iff] at added ⊢
    obtain ⟨value, found, added⟩ := added
    obtain ⟨plain', same, attached⟩ := addScript_attached h added
    exact ⟨plain', ⟨value, found, same⟩, attached⟩

private theorem addJump_attached (h : plain.Attached effects d) {d' : Draft} {pred exit : Nat}
    {s : Content Basic} {target : Target}
    (added : scene.addJump d pred s target = .ok (d', exit)) :
    ∃ plain', scene.addJump plain pred s target = .ok (plain', exit) ∧
      plain'.Attached effects d' := by
  unfold addJump at added ⊢
  cases target with
  | computed tokens => cases added
  | node name =>
    simp only at added ⊢
    cases known : scene.context.conversations.get? name with
    | none =>
      rw [known] at added
      cases added
    | some destination =>
      simp only [known, bind_eq_ok_iff, pure_eq_ok_iff, Prod.mk.injEq] at added ⊢
      obtain ⟨⟨jumped, jump⟩, scripted, rfl, rfl⟩ := added
      obtain ⟨plain', same, attached⟩ := addScript_attached h scripted
      have connected := attached.connect jump destination Conversation.startId
      refine ⟨_, ⟨(plain', jump), same, rfl, connected.nextId_eq.symm⟩, ?_⟩
      simp only [connected.fresh_eq, connected.nextId_eq]
      exact (connected.push _).link _ _ _

private theorem addItems_single {item : Item} {pred : Nat} {result : Draft × Nat}
    (added : scene.addItem d pred item = .ok result) :
    scene.addItems d pred [item] = .ok result := by
  simp only [addItems, bind_eq_ok_iff]
  exact ⟨result, added, rfl⟩

private theorem addItems_append : ∀ {items more : List Item} {d middle : Draft} {pred between : Nat}
    {result : Draft × Nat}, scene.addItems d pred items = .ok (middle, between) →
    scene.addItems middle between more = .ok result →
    scene.addItems d pred (items ++ more) = .ok result
  | [], _, _, _, _, _, _, first, second => by
    cases first
    exact second
  | item :: rest, more, d, middle, pred, between, result, first, second => by
    simp only [addItems, bind_eq_ok_iff] at first
    obtain ⟨grown, here, first⟩ := first
    simp only [List.cons_append, addItems, bind_eq_ok_iff]
    exact ⟨grown, here, addItems_append first second⟩

private theorem addLine_attached (h : plain.Attached effects d) {d' : Draft} {pred exit : Nat}
    (lt : pred < d.nextId) {s : Content Spoken} {choiceOf : Option (Content Unit)}
    (added : scene.addLine d pred s choiceOf = .ok (d', exit)) (host : Host)
    (here : host.entry = pred) :
    ∃ plain' more, scene.addLine plain pred s.plain choiceOf = .ok (plain', exit) ∧
      scene.hostedEffects d.conversation.id
        (s.payload?.toList.map fun tokens => (host, .format s.line tokens d.nextId)) = .ok more ∧
      plain'.Attached (effects ++ more) d' := by
  simp only [addLine_eq, bind_eq_ok_iff, pure_eq_ok_iff, Prod.mk.injEq] at added ⊢
  obtain ⟨condition, guarded, fragments, found, rfl, rfl⟩ := added
  have entry : scene.lineEntry plain s.plain choiceOf = scene.lineEntry d s choiceOf := by
    unfold lineEntry
    rw [h.fresh_eq]
    rfl
  have guard : lineGuard s.plain choiceOf = lineGuard s choiceOf := by cases choiceOf <;> rfl
  refine ⟨_,
    ((Lua.formatCalls d.conversation.id d.nextId fragments).map Effect.script).map (pred, ·),
    ⟨condition, guard ▸ guarded, [], rfl, rfl, h.nextId_eq.symm⟩, ?_, ?_⟩
  · unfold lineFragments at found
    cases payload : s.payload? with
    | none =>
      rw [payload] at found
      cases found
      rfl
    | some tokens =>
      rw [payload] at found
      rw [← here]
      refine hostedEffects_single ?_ host
      simp only [Scene.effects, bind_eq_ok_iff, pure_eq_ok_iff]
      exact ⟨fragments, found, rfl⟩
  · rw [entry]
    exact withEntry_attached h lt _ fragments

/-- A statement that attaches nothing is lowered as it stands. -/
theorem silent_attached {d' : Draft} {pred exit : Nat}
    {s : Content Basic} (host : Host) (quiet : s.quiet = [.basic s])
    (silent : s.source? d.nextId = none)
    (added : ∃ plain', scene.addBasic plain pred s = .ok (plain', exit) ∧
      plain'.Attached effects d') :
    ∃ plain' more, scene.addItems plain pred s.quiet = .ok (plain', exit) ∧
      scene.hostedEffects d.conversation.id ((s.source? d.nextId).toList.map (host, ·)) = .ok more ∧
      plain'.Attached (effects ++ more) d' := by
  obtain ⟨plain', added, attached⟩ := added
  refine ⟨plain', [], ?_, ?_, ?_⟩
  · rw [quiet]
    exact addItems_single (by rw [addItem]; exact added)
  · rw [silent]
    rfl
  · rw [List.append_nil]
    exact attached

/-- Nothing is left of a directive but what it attaches. -/
theorem directive_attached (h : plain.Attached effects d) {pred : Nat} (lt : pred < d.nextId)
    {s : Content Basic} {source : Source} {text : String} (host : Host) (here : host.entry = pred)
    (quiet : s.quiet = []) (directive : s.source? d.nextId = some source)
    (found : scene.effects d.conversation.id source = .ok [.directive text]) :
    ∃ plain' more, scene.addItems plain pred s.quiet = .ok (plain', pred) ∧
      scene.hostedEffects d.conversation.id ((s.source? d.nextId).toList.map (host, ·)) = .ok more ∧
      plain'.Attached (effects ++ more) (d.appendSequence pred text) := by
  refine ⟨plain, [(pred, .directive text)], ?_, ?_, ?_⟩
  · rw [quiet]
    rfl
  · rw [directive, ← here]
    exact hostedEffects_single found host
  · refine h.more fun a member => ?_
    obtain rfl := List.mem_singleton.mp member
    exact lt

private theorem addBasic_attached (h : plain.Attached effects d) {d' : Draft} {pred exit : Nat}
    (lt : pred < d.nextId) {s : Content Basic} (added : scene.addBasic d pred s = .ok (d', exit))
    (host : Host) (here : host.entry = pred) :
    ∃ plain' more, scene.addItems plain pred s.quiet = .ok (plain', exit) ∧
      scene.hostedEffects d.conversation.id ((s.source? d.nextId).toList.map (host, ·)) = .ok more ∧
      plain'.Attached (effects ++ more) d' := by
  unfold addBasic at added
  cases kind : s.kind with
  | line spoken =>
    simp only [kind] at added
    obtain ⟨plain', more, same, hosted, attached⟩ := addLine_attached h lt added host here
    refine ⟨plain', more, ?_, ?_, attached⟩
    · simp only [Content.quiet, kind]
      refine addItems_single ?_
      simp only [addItem, addBasic, Content.plain, kind]
      exact same
    · rw [← hosted]
      simp only [Content.source?, kind, Option.toList_map, List.map_map]
      rfl
  | command name arguments rawText =>
    simp only [kind] at added
    cases sort : Command.Kind.ofName name with
    | playSequence | wait =>
      simp only [sort, bind_eq_ok_iff, pure_eq_ok_iff, Prod.mk.injEq] at added
      obtain ⟨text, found, rfl, rfl⟩ := added
      refine directive_attached h lt host here ?_
        (by simp only [Content.source?, kind, sort]; rfl) ?_
      · simp [Content.quiet, kind, Basic.entryCount, sort]
      · simp only [Scene.effects, bind_eq_ok_iff]
        exact ⟨text, found, rfl⟩
    | stop =>
      simp only [sort] at added
      refine silent_attached host (by simp [Content.quiet, kind, Basic.entryCount, sort])
        (by simp [Content.source?, kind, sort]) ?_
      obtain ⟨plain', same, attached⟩ := addScript_attached h added
      exact ⟨plain', by simp only [addBasic, kind, sort]; exact same, attached⟩
    | custom =>
      simp only [sort, bind_eq_ok_iff] at added
      obtain ⟨script, found, added⟩ := added
      refine silent_attached host (by simp [Content.quiet, kind, Basic.entryCount, sort])
        (by simp [Content.source?, kind, sort]) ?_
      obtain ⟨plain', same, attached⟩ := addScript_attached h added
      refine ⟨plain', ?_, attached⟩
      simp only [addBasic, kind, sort, bind_eq_ok_iff]
      exact ⟨script, found, same⟩
  | call name =>
    simp only [kind] at added
    refine silent_attached host (by simp [Content.quiet, kind, Basic.entryCount])
      (by simp [Content.source?, kind]) ?_
    cases payload : s.payload? with
    | none =>
      rw [payload] at added
      cases added
    | some tokens =>
      simp only [payload, bind_eq_ok_iff] at added
      obtain ⟨script, found, added⟩ := added
      obtain ⟨plain', same, attached⟩ := addScript_attached h added
      refine ⟨plain', ?_, attached⟩
      simp only [addBasic, kind, payload, bind_eq_ok_iff]
      exact ⟨script, found, same⟩
  | jump target =>
    simp only [kind] at added
    refine silent_attached host (by simp [Content.quiet, kind, Basic.entryCount])
      (by simp [Content.source?, kind]) ?_
    obtain ⟨plain', same, attached⟩ := addJump_attached h added
    exact ⟨plain', by simp only [addBasic, kind]; exact same, attached⟩
  | set | declare =>
    simp only [kind] at added
    refine silent_attached host (by simp [Content.quiet, kind, Basic.entryCount])
      (by simp [Content.source?, kind]) ?_
    obtain ⟨plain', same, attached⟩ := addAssignment_attached h added
    exact ⟨plain', by simp only [addBasic, kind]; exact same, attached⟩

private theorem addItem_branch_of {pred : Nat} {clauses : List Clause}
    {otherwise : Option (List Item)}
    {guarded complete : Draft} {arms last : List Arm}
    (added : scene.addClauses (openBranch d pred) .if_ clauses = .ok (guarded, arms))
    (addedLast : scene.addOtherwise guarded otherwise = .ok (complete, last)) :
    scene.addItem d pred (.branch clauses otherwise) =
      .ok (linkArms (enterArms complete d.nextId (arms ++ last)) d.nextId
        (d.nextId + 1) (arms ++ last),
        d.nextId + 1) := by
  simp only [addItem_branch, bind_eq_ok_iff, pure_eq_ok_iff]
  exact ⟨_, added, _, addedLast, rfl⟩

private theorem addItem_menu_of {pred : Nat} {choices : List Choice}
    {complete : Draft} {allGuarded : Bool}
    (added : scene.addChoices (openMenu d pred choices) d.nextId (d.nextId + 1) choices =
      .ok (complete, allGuarded)) :
    scene.addItem d pred (.menu choices) =
      .ok (closeMenu complete d.nextId choices, d.nextId + 1) := by
  simp only [addItem_menu, bind_eq_ok_iff, pure_eq_ok_iff]
  exact ⟨_, added, rfl⟩

private theorem addClauses_cons_of {grown d' : Draft} {kind : ClauseKind} {line exit : Nat}
    {guard : Expression} {body : List Item} {rest : List Clause} {condition : String}
    {others : List Arm}
    (added : scene.addItems (openArm d kind) d.nextId body = .ok (grown, exit))
    (guarded : scene.located line guard.fragment = .ok condition)
    (addedRest : scene.addClauses (closeClause grown d.nextId exit kind condition) .elseIf rest =
      .ok (d', others)) :
    scene.addClauses d kind (.mk line guard body :: rest) =
      .ok (d', ⟨d.nextId, d.nextId + 1, some grown.nextId⟩ :: others) := by
  simp only [addClauses_cons, bind_eq_ok_iff, pure_eq_ok_iff]
  exact ⟨_, added, condition, guarded, _, addedRest, rfl⟩

private theorem branch_attached (h : plain.Attached effects d) {pred : Nat} {clauses : List Clause}
    {otherwise : Option (List Item)} {guarded' complete complete' : Draft} {arms last : List Arm}
    {all : List (Nat × Effect)}
    (added : scene.addClauses (openBranch plain pred) .if_ clauses = .ok (guarded', arms))
    (addedLast : scene.addOtherwise guarded' otherwise = .ok (complete', last))
    (attached : complete'.Attached all complete) :
    ∃ plain', scene.addItems plain pred [.branch clauses otherwise] = .ok (plain', d.nextId + 1) ∧
      plain'.Attached all (linkArms (enterArms complete d.nextId (arms ++ last)) d.nextId
        (d.nextId + 1) (arms ++ last)) := by
  rw [h.nextId_eq]
  exact ⟨_, addItems_single (addItem_branch_of added addedLast),
    linkArms_attached _ _ _ (enterArms_attached attached _ _)⟩

end Parts

private theorem quietChoices_guarded (choices : List Choice) :
    (quietChoices choices).all isGuarded = choices.all isGuarded := by
  induction choices with
  | nil => rfl
  | cons choice rest ih =>
    obtain ⟨option, shown, body⟩ := choice
    rw [quietChoices, List.all_cons, List.all_cons, ih]
    rfl

private theorem length_quietChoices (choices : List Choice) :
    (quietChoices choices).length = choices.length := by
  induction choices with
  | nil => rfl
  | cons choice rest ih =>
    obtain ⟨option, shown, body⟩ := choice
    rw [quietChoices, List.length_cons, List.length_cons, ih]

private theorem entry_exit {item : Item} {d d' : Draft} {pred exit : Nat}
    (added : scene.addItem d pred item = .ok (d', exit)) {host : Host} (here : host.entry = pred) :
    (item.exit d.nextId host).entry = exit := by
  cases item with
  | basic s =>
    simp only [addItem] at added
    cases addBasic_adds added with
    | directive none => simp [Item.exit, none, here]
    | entry one => simp [Item.exit, one]
    | jump kind => simp [Item.exit, kind, Basic.entryCount]
  | branch clauses otherwise =>
    obtain ⟨_, _, _, _, -, -, -, rfl⟩ := addItem_branch_ok added
    rfl
  | menu choices =>
    obtain ⟨_, _, -, -, rfl⟩ := addItem_menu_ok added
    rfl

theorem Grown.id_eq {d d' : Draft} {pred count exit : Nat}
    (grown : Grown scene d pred count d' exit) :
    d'.conversation.id = d.conversation.id := by
  rw [Draft.Steps.conversation_eq grown.steps]

theorem openMenu_id (d : Draft) (pred : Nat) (choices : List Choice) :
    (openMenu d pred choices).conversation.id = d.conversation.id := by
  unfold openMenu
  split <;> rfl

private theorem attach_id (effects : List (Nat × Effect)) (d : Draft) :
    (d.attach effects).conversation.id = d.conversation.id :=
  congrArg Entry.conversationId (d.fresh_attach effects "")

private theorem addLine_grown {d d' : Draft} {pred exit : Nat} {s : Content Spoken}
    {choiceOf : Option (Content Unit)} (added : scene.addLine d pred s choiceOf = .ok (d', exit)) :
    d.nextId = exit ∧ d'.nextId = d.nextId + 1 ∧ d'.conversation.id = d.conversation.id := by
  simp only [addLine_eq, bind_eq_ok_iff, pure_eq_ok_iff, Prod.mk.injEq] at added
  obtain ⟨condition, -, fragments, -, rfl, rfl⟩ := added
  refine ⟨rfl, nextId_withEntry _ _ _ _, ?_⟩
  unfold withEntry
  rw [addFormatArguments_eq]
  exact attach_id _ _

mutual

private theorem addItem_attached :
    ∀ (item : Item) {plain d d' : Draft} {effects : List (Nat × Effect)}
    {id pred exit : Nat} (host : Host), scene.addItem d pred item = .ok (d', exit) →
    plain.Attached effects d → d.conversation.id = id → pred < d.nextId → host.entry = pred →
    ∃ plain' more, scene.addItems plain pred item.quiet = .ok (plain', exit) ∧
      scene.hostedEffects id (item.attachments d.nextId host) = .ok more ∧
      plain'.Attached (effects ++ more) d'
  | .basic s, plain, d, d', effects, id, pred, exit, host, added, attached, same, lt, here => by
    rw [addItem] at added
    rw [← same]
    exact addBasic_attached attached lt added host here
  | .branch clauses none, plain, d, d', effects, id, pred, exit, host, added, attached, same, lt,
      here => by
    obtain ⟨guarded, arms, complete, last, addedClauses, addedLast, rfl, rfl⟩ :=
      addItem_branch_ok added
    cases addedLast
    obtain ⟨guarded', more, quiet, hosted, attached'⟩ :=
      addClauses_attached clauses addedClauses (openBranch_attached attached pred) same
    have quietLast : scene.addOtherwise guarded' none = .ok (guarded', []) := rfl
    obtain ⟨plain', quiet, attached⟩ := branch_attached attached quiet quietLast attached'
    rw [nextId_openBranch] at hosted
    exact ⟨plain', more, quiet, hosted, attached⟩
  | .branch clauses (some body), plain, d, d', effects, id, pred, exit, host, added, attached, same,
      lt, here => by
    obtain ⟨guarded, arms, complete, last, addedClauses, addedLast, rfl, rfl⟩ :=
      addItem_branch_ok added
    simp only [addOtherwise, bind_eq_ok_iff, pure_eq_ok_iff, Prod.mk.injEq] at addedLast
    obtain ⟨⟨grown, exit⟩, addedBody, rfl, rfl⟩ := addedLast
    obtain ⟨steps, count, -⟩ := addClauses_grown clauses addedClauses
    have kept : guarded.conversation.id = id := by
      rw [Draft.Steps.conversation_eq steps]
      exact same
    have lt' : guarded.nextId < (openArm guarded .else_).nextId := by
      rw [nextId_openArm]
      omega
    obtain ⟨guarded', more₁, quiet₁, hosted₁, attached₁⟩ :=
      addClauses_attached clauses addedClauses (openBranch_attached attached pred) same
    obtain ⟨grown', more₂, quiet₂, hosted₂, attached₂⟩ :=
      addItems_attached body ⟨guarded.nextId, false⟩ addedBody
        (openArm_attached attached₁ .else_) kept lt' rfl
    have quietLast : scene.addOtherwise guarded' (some (quietBody body)) = .ok
        (grown'.link exit (guarded.nextId + 1) .normal,
          [⟨guarded.nextId, guarded.nextId + 1, none⟩]) := by
      simp only [addOtherwise, bind_eq_ok_iff, pure_eq_ok_iff, ← attached₁.nextId_eq]
      exact ⟨_, quiet₂, rfl⟩
    obtain ⟨plain', quiet, attached⟩ :=
      branch_attached attached quiet₁ quietLast (attached₂.link exit (guarded.nextId + 1) .normal)
    rw [nextId_openBranch] at hosted₁
    rw [nextId_openArm, count, nextId_openBranch] at hosted₂
    refine ⟨plain', more₁ ++ more₂, quiet, hostedEffects_append hosted₁ hosted₂, ?_⟩
    rw [← List.append_assoc]
    exact attached
  | .menu choices, plain, d, d', effects, id, pred, exit, host, added, attached, same, lt,
      here => by
    obtain ⟨complete, _, addedChoices, rfl, rfl⟩ := addItem_menu_ok added
    have lt' : d.nextId < (openMenu d pred choices).nextId := by
      rw [nextId_openMenu]
      omega
    obtain ⟨complete', more, quiet, hosted, attached'⟩ := addChoices_attached choices addedChoices
      (openMenu_attached attached pred (length_quietChoices choices))
        ((openMenu_id _ _ _).trans same) lt'
    rw [attached.nextId_eq] at quiet
    rw [nextId_openMenu] at hosted
    have menu := addItems_single (addItem_menu_of quiet)
    rw [← attached.nextId_eq] at menu
    exact ⟨_, more, menu, hosted, closeMenu_attached attached' _ (quietChoices_guarded choices)⟩

theorem addItems_attached :
    ∀ (items : List Item) {plain d d' : Draft} {effects : List (Nat × Effect)}
    {id pred exit : Nat} (host : Host), scene.addItems d pred items = .ok (d', exit) →
    plain.Attached effects d → d.conversation.id = id → pred < d.nextId → host.entry = pred →
    ∃ plain' more, scene.addItems plain pred (quietBody items) = .ok (plain', exit) ∧
      scene.hostedEffects id (bodyAttachments d.nextId host items) = .ok more ∧
      plain'.Attached (effects ++ more) d'
  | [], plain, d, d', effects, id, pred, exit, host, added, attached, same, lt, here => by
    cases added
    refine ⟨plain, [], rfl, rfl, ?_⟩
    rw [List.append_nil]
    exact attached
  | item :: rest, plain, d, d', effects, id, pred, exit, host, added, attached, same, lt, here => by
    simp only [addItems, bind_eq_ok_iff] at added
    obtain ⟨⟨grown, middle⟩, first, added⟩ := added
    have growth := addItem_grown item lt first
    obtain ⟨plain₁, more₁, quiet₁, hosted₁, attached₁⟩ :=
      addItem_attached item host first attached same lt here
    obtain ⟨plain₂, more₂, quiet₂, hosted₂, attached₂⟩ :=
      addItems_attached rest (item.exit d.nextId host) added attached₁ (growth.id_eq.trans same)
        growth.exit_lt (entry_exit first here)
    rw [growth.nextId] at hosted₂
    refine ⟨plain₂, more₁ ++ more₂, addItems_append quiet₁ quiet₂,
      hostedEffects_append hosted₁ hosted₂, ?_⟩
    rw [← List.append_assoc]
    exact attached₂

private theorem addClauses_attached : ∀ (clauses : List Clause) {plain d d' : Draft}
    {effects : List (Nat × Effect)} {kind : ClauseKind} {id : Nat} {arms : List Arm},
    scene.addClauses d kind clauses = .ok (d', arms) → plain.Attached effects d →
    d.conversation.id = id →
    ∃ plain' more, scene.addClauses plain kind (quietClauses clauses) = .ok (plain', arms) ∧
      scene.hostedEffects id (clauseAttachments d.nextId clauses) = .ok more ∧
      plain'.Attached (effects ++ more) d'
  | [], plain, d, d', effects, kind, id, arms, added, attached, same => by
    cases added
    refine ⟨plain, [], rfl, rfl, ?_⟩
    rw [List.append_nil]
    exact attached
  | .mk line guard body :: rest, plain, d, d', effects, kind, id, arms, added, attached, same => by
    obtain ⟨grown, exit, condition, others, addedBody, guarded, addedRest, rfl⟩ :=
      addClauses_cons_ok added
    have lt : d.nextId < (openArm d kind).nextId := by
      rw [nextId_openArm]
      omega
    have growth := addItems_grown body lt addedBody
    obtain ⟨grown', more₁, quiet₁, hosted₁, attached₁⟩ :=
      addItems_attached body ⟨d.nextId, false⟩ addedBody
        (openArm_attached attached kind) same lt rfl
    obtain ⟨plain', more₂, quiet₂, hosted₂, attached₂⟩ := addClauses_attached rest addedRest
      (closeClause_attached attached₁ d.nextId exit kind condition) (growth.id_eq.trans same)
    have next : (closeClause grown d.nextId exit kind condition).nextId =
        d.nextId + 3 + bodyCount body := by
      simp only [closeClause, Draft.nextId_control, Draft.nextId_setConditions, Draft.nextId_link,
        growth.nextId, nextId_openArm]
      omega
    rw [nextId_openArm] at hosted₁
    rw [next] at hosted₂
    rw [attached.nextId_eq] at quiet₁ quiet₂
    refine ⟨plain', more₁ ++ more₂, ?_, hostedEffects_append hosted₁ hosted₂, ?_⟩
    · rw [attached.nextId_eq, attached₁.nextId_eq]
      exact addClauses_cons_of quiet₁ guarded quiet₂
    · rw [← List.append_assoc]
      exact attached₂

private theorem addChoices_attached : ∀ (choices : List Choice) {plain d d' : Draft}
    {effects : List (Nat × Effect)} {id start finish : Nat} {allGuarded : Bool},
    scene.addChoices d start finish choices = .ok (d', allGuarded) → plain.Attached effects d →
    d.conversation.id = id → start < d.nextId →
    ∃ plain' more,
      scene.addChoices plain start finish (quietChoices choices) = .ok (plain', allGuarded) ∧
      scene.hostedEffects id (choiceAttachments start d.nextId choices) = .ok more ∧
      plain'.Attached (effects ++ more) d'
  | [], plain, d, d', effects, id, start, finish, _, added, attached, same, lt => by
    cases added
    refine ⟨plain, [], rfl, rfl, ?_⟩
    rw [List.append_nil]
    exact attached
  | .mk option shown body :: rest, plain, d, d', effects, id, start, finish, _, added, attached,
      same, lt => by
    simp only [addChoices_cons, bind_eq_ok_iff, pure_eq_ok_iff, Prod.mk.injEq] at added
    obtain ⟨⟨headed, head⟩, addedLine, ⟨grown, exit⟩, addedBody, ⟨_, others⟩,
        addedRest, rfl, rfl⟩ :=
      added
    obtain ⟨rfl, count, kept⟩ := addLine_grown addedLine
    have lt' : d.nextId < headed.nextId := by omega
    have growth := addItems_grown body lt' addedBody
    obtain ⟨headed', more₁, quiet₁, hosted₁, attached₁⟩ :=
      addLine_attached attached lt addedLine ⟨start, false⟩ rfl
    obtain ⟨grown', more₂, quiet₂, hosted₂, attached₂⟩ :=
      addItems_attached body ⟨d.nextId, false⟩ addedBody attached₁ (kept.trans same) lt' rfl
    have next : (grown.link exit finish .normal).nextId = d.nextId + 1 + bodyCount body := by
      rw [Draft.nextId_link, growth.nextId, count]
    have lt₃ : start < (grown.link exit finish .normal).nextId := by omega
    obtain ⟨plain', more₃, quiet₃, hosted₃, attached₃⟩ :=
      addChoices_attached rest addedRest (attached₂.link exit finish .normal)
        (growth.id_eq.trans (kept.trans same)) lt₃
    rw [same] at hosted₁
    rw [count] at hosted₂
    rw [next] at hosted₃
    refine ⟨plain', more₁ ++ (more₂ ++ more₃), ?_,
      hostedEffects_append hosted₁ (hostedEffects_append hosted₂ hosted₃), ?_⟩
    · simp only [quietChoices, addChoices_cons, bind_eq_ok_iff]
      exact ⟨_, quiet₁, _, quiet₂, _, quiet₃, rfl⟩
    · rw [← List.append_assoc, ← List.append_assoc]
      exact attached₃

end

end Scene

/-- Whether the runtime skips an entry, with its script and its sequence, when its guard is
false. -/
def Entry.isSkippable (e : Entry) : Bool :=
  e.hasConditions && e.falseAction = .passthrough

private theorem Entry.isSkippable_iff (e : Entry) :
    e.isSkippable = true ↔ e.stand.guard? = some .passthrough := by
  unfold isSkippable hasConditions stand
  by_cases bare : e.conditions = ""
  · simp [bare]
  · simp [bare]

namespace Conversation

variable {c : Conversation} {targets : Dict Nat}

/-- A host is an entry of the conversation, and says whether it may be skipped. -/
def Hosts (c : Conversation) (host : Host) : Prop :=
  ∃ e, c.entryById? host.entry = some e ∧ e.isSkippable = host.isSkippable

private theorem hosts_of_stand {i : Nat} {stand : Stand} {skips : Bool}
    (found : c.standAt? i = some stand) (h : stand.guard? = some .passthrough ↔ skips = true) :
    c.Hosts ⟨i, skips⟩ := by
  obtain ⟨e, entry, rfl⟩ := Option.map_eq_some_iff.mp found
  exact ⟨e, entry, Bool.eq_iff_iff.mpr (e.isSkippable_iff.trans h)⟩

private theorem hosts_exit {item : Item} {base exit : Nat} {host : Host} (hosted : c.Hosts host)
    (wired : c.WiredItem targets base host.entry exit item) :
    c.Hosts (item.exit base host) ∧ (item.exit base host).entry = exit := by
  cases item with
  | basic s =>
    cases wired with
    | directive none =>
      have stays : (Item.basic s).exit base host = host := by simp [Item.exit, none]
      rw [stays]
      exact ⟨hosted, rfl⟩
    | entry one _ stand =>
      have moves : (Item.basic s).exit base host =
          ⟨base, s.hasConditions⟩ := by simp [Item.exit, one]
      rw [moves]
      refine ⟨hosts_of_stand stand ?_, rfl⟩
      unfold Content.hasConditions
      cases s.guard? <;> simp
    | jump kind _ _ _ _ placeholder =>
      have moves : (Item.basic s).exit base host = ⟨base + 1, false⟩ := by
        simp [Item.exit, kind, Basic.entryCount]
      rw [moves]
      exact ⟨hosts_of_stand placeholder (by decide), rfl⟩
  | branch clauses otherwise =>
    obtain ⟨rfl, -, -, stand, -⟩ := wired
    exact ⟨hosts_of_stand stand (by decide), rfl⟩
  | menu choices =>
    obtain ⟨rfl, -, -, stand, -⟩ := wired
    exact ⟨hosts_of_stand stand (by decide), rfl⟩

mutual

private theorem hosts_item : ∀ (item : Item) {base exit : Nat} {host : Host}, c.Hosts host →
    c.WiredItem targets base host.entry exit item → ∀ a ∈ item.attachments base host, c.Hosts a.1
  | .basic s, base, exit, host, hosted, wired => by
    intro a member
    obtain ⟨source, -, rfl⟩ := List.mem_map.mp member
    exact hosted
  | .branch clauses none, base, exit, host, hosted, wired => by
    obtain ⟨-, -, -, -, wiredClauses, -⟩ := wired
    exact hosts_clauses clauses wiredClauses
  | .branch clauses (some body), base, exit, host, hosted, wired => by
    obtain ⟨-, -, -, -, wiredClauses, ⟨stand, -, last, wiredBody, -⟩, -⟩ := wired
    intro a member
    rcases List.mem_append.mp member with member | member
    · exact hosts_clauses clauses wiredClauses a member
    · exact hosts_body body (hosts_of_stand stand (by decide)) wiredBody a member
  | .menu choices, base, exit, host, hosted, wired => by
    obtain ⟨-, -, stand, -, -, wiredChoices⟩ := wired
    exact hosts_choices choices (hosts_of_stand stand (by decide)) wiredChoices

private theorem hosts_body : ∀ (items : List Item) {base exit : Nat} {host : Host}, c.Hosts host →
    c.WiredBody targets base host.entry exit items →
    ∀ a ∈ bodyAttachments base host items, c.Hosts a.1
  | [], _, _, _, _, _ => by
    intro a member
    cases member
  | item :: rest, base, exit, host, hosted, wired => by
    obtain ⟨middle, first, others⟩ := wired
    obtain ⟨next, rfl⟩ := hosts_exit hosted first
    intro a member
    rcases List.mem_append.mp member with member | member
    · exact hosts_item item hosted first a member
    · exact hosts_body rest next others a member

private theorem hosts_clauses : ∀ (clauses : List Clause) {base : Nat},
    c.WiredClauses targets base clauses →
    ∀ a ∈ clauseAttachments base clauses, c.Hosts a.1
  | [], _, _ => by
    intro a member
    cases member
  | .mk line guard body :: rest, base, wired => by
    obtain ⟨stand, -, -, ⟨last, wiredBody, -⟩, wiredRest⟩ := wired
    intro a member
    rcases List.mem_append.mp member with member | member
    · exact hosts_body body (hosts_of_stand stand (by decide)) wiredBody a member
    · exact hosts_clauses rest wiredRest a member

private theorem hosts_choices : ∀ (choices : List Choice) {start finish base : Nat},
    c.Hosts ⟨start, false⟩ →
    c.WiredChoices targets finish base choices →
    ∀ a ∈ choiceAttachments start base choices, c.Hosts a.1
  | [], _, _, _, _, _ => by
    intro a member
    cases member
  | .mk option shown body :: rest, start, finish, base, hosted, wired => by
    obtain ⟨stand, ⟨last, wiredBody, -⟩, wiredRest⟩ := wired
    intro a member
    rcases List.mem_append.mp member with member | member
    · obtain ⟨tokens, -, rfl⟩ := List.mem_map.mp member
      exact hosted
    · rcases List.mem_append.mp member with member | member
      · have head : c.Hosts ⟨base, false⟩ := hosts_of_stand stand (by split <;> simp)
        exact hosts_body body head wiredBody a member
      · exact hosts_choices rest hosted wiredRest a member

end

end Conversation

/-- What the statements of a script attach to earlier entries is attached to the entries that their
bodies have come to, and apart from it the script is lowered as if they attached nothing. The
runtime may skip such an entry exactly if it is that of a guarded statement. -/
theorem Script.lower_attaches {s : Script} {ctx : Context} {id : Nat} {c : Conversation}
    (lowered : s.lower ctx id = .ok c) :
    ∃ (node : Node) (quiet : Draft) (exit : Nat) (effects : List (Nat × Effect)),
      s.tree.check = .ok node ∧
      (Scene.ofNode ctx node).addItems ((Scene.ofNode ctx node).opening id) Conversation.startId
        (quietBody node.body) = .ok (quiet, exit) ∧
      (∀ host, bodyAttachments 1 host (quietBody node.body) = []) ∧
      (Scene.ofNode ctx node).hostedEffects id
        (bodyAttachments 1 ⟨Conversation.startId, false⟩ node.body) = .ok effects ∧
      c = (quiet.attach effects).conversation ∧
      ∀ a ∈ bodyAttachments 1 ⟨Conversation.startId, false⟩ node.body,
        ∃ e, c.entryById? a.1.entry = some e ∧ e.isSkippable = a.1.isSkippable := by
  obtain ⟨node, complete, exit, checked, added, rfl⟩ := lower_ok lowered
  obtain ⟨quiet, effects, addedQuiet, hosted, attached⟩ :=
    Scene.addItems_attached node.body ⟨Conversation.startId, false⟩ added (.refl _)
      rfl Nat.zero_lt_one rfl
  obtain ⟨wired, -⟩ := Scene.opening_wired added
  have start : complete.conversation.Hosts ⟨Conversation.startId, false⟩ := by
    have grown := Scene.addItems_grown node.body Nat.zero_lt_one added
    have head := Draft.Steps.head_eq grown.steps Nat.zero_lt_one (Nat.le_refl _)
    rw [Draft.getElem?_view] at head
    obtain ⟨e, found, same⟩ := Option.map_eq_some_iff.mp head
    refine ⟨e, (Scene.opening_entryById? added _).trans found, ?_⟩
    exact congrArg Entry.isSkippable same
  refine ⟨node, quiet, exit, effects, checked, addedQuiet,
    attachments_quietBody node.body 1, hosted, ?_, Conversation.hosts_body node.body start wired⟩
  rw [attached.eq]
  rfl

namespace Sample

/-- A guarded assignment, then a delay and an interpolated line. -/
def waitingScript : Script where
  statements :=
    [⟨⟨.block (.node "Start" .empty), 1, none, none⟩, none, [1, 2, 3]⟩,
      ⟨⟨.basic (.set "y" .assign), 2, guard, some [.variable "z"]⟩, some 0, []⟩,
      ⟨⟨.basic (.command "wait" [.text "1"] "wait 1"), 3, none, none⟩, some 0, []⟩,
      ⟨⟨.basic (.line {}), 4, none, some [.variable "y"]⟩, some 0, []⟩]
  root := 0
  root_lt := by decide

end Sample

open Sample in
/-- The delay and the argument of the line are skipped with the assignment. -/
theorem Script.lower_attaches_sample : ∃ c e, waitingScript.lower context 1 = .ok c ∧
    c.entryById? 1 = some e ∧ e.isSkippable = true ∧ e.sequence = "Delay(1)" ∧
    e.userScript =
      "Variable['y'] = Variable['z']\nds_clr_add_fmt_arg(1, 2, tostring(Variable['y']))" := by
  have attached : (waitingScript.tree.check.toOption.map fun node =>
      (bodyAttachments 1 ⟨Conversation.startId, false⟩ node.body).map Prod.fst) =
      some [⟨1, true⟩, ⟨1, true⟩] := by decide +kernel
  have texts : ((waitingScript.lower context 1).toOption.bind fun c =>
      (c.entryById? 1).map fun e => (e.sequence, e.userScript)) = some ("Delay(1)",
      "Variable['y'] = Variable['z']\nds_clr_add_fmt_arg(1, 2, tostring(Variable['y']))") := by
    decide +kernel
  cases lowered : waitingScript.lower context 1 with
  | error e =>
    rw [lowered] at texts
    cases texts
  | ok c =>
    obtain ⟨node, quiet, exit, effects, checked, -, -, -, -, hosts⟩ := Script.lower_attaches lowered
    rw [lowered] at texts
    rw [checked] at attached
    have listed : (bodyAttachments 1 ⟨Conversation.startId, false⟩ node.body).map Prod.fst =
        [⟨1, true⟩, ⟨1, true⟩] := Option.some.inj attached
    obtain ⟨a, member, host⟩ := List.mem_map.mp (listed ▸ List.mem_cons_self)
    obtain ⟨e, found, skips⟩ := hosts a member
    rw [host] at found skips
    obtain ⟨e', found', same⟩ := Option.map_eq_some_iff.mp texts
    obtain rfl := Option.some.inj (found.symm.trans found')
    obtain ⟨sequence, script⟩ := Prod.mk.inj same
    exact ⟨c, e, rfl, found, skips, sequence, script⟩

end Dialogue
