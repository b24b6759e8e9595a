import Dialogue.Proofs.EntryScripts
import Mathlib.Data.List.DropRight

/-!
The sequences of the entries that go on by themselves. Such an entry is made with a directive that
advances it, and the `wait` and `seq` commands behind it join theirs to it, in order; the first
takes the place of a bare continuation. A `seq` command without a text of its own joins the empty
directive, which takes that place as well. An entry that only such commands and bare continuations
are joined to is therefore left with an empty sequence, and no other is.
-/

set_option autoImplicit false
set_option relaxedAutoImplicit false

namespace Dialogue

open Script

namespace Entry

/-- Whether an entry goes on by itself: it shows no line, and is not the placeholder behind a
jump. -/
def advances (e : Entry) : Bool :=
  !e.isSpoken && e.title ≠ "Unreachable Entry"

/-- The directive that an entry which goes on by itself is made with. -/
def opening (e : Entry) : String :=
  if e.isRoot then Draft.startSequence else Lua.continueSequence

private theorem opening_ne_empty (e : Entry) : e.opening ≠ "" := by
  unfold opening
  split <;> decide

end Entry

namespace Draft

/-- Whether a sequence gives way to the next directive. -/
def isIdle (sequence : String) : Bool :=
  sequence = "" || sequence = Lua.continueSequence

private theorem isIdle_opening (e : Entry) : isIdle e.opening = !e.isRoot := by
  unfold Entry.opening
  cases e.isRoot <;> decide

private theorem isIdle_joined (sequence directive : String) :
    isIdle (sequence ++ "; " ++ directive) = false := by
  have separator : ';' ∈ (sequence ++ "; " ++ directive).toList := by simp
  unfold isIdle
  rw [Bool.or_eq_false_iff, decide_eq_false_iff_not, decide_eq_false_iff_not]
  constructor
  · intro same
    rw [same] at separator
    revert separator
    decide
  · intro same
    rw [same] at separator
    revert separator
    decide

private theorem joinSequence_of_isIdle {sequence : String} (idle : isIdle sequence = true)
    (directive : String) :
    joinSequence sequence directive = directive :=
  if_pos idle

private theorem isIdle_joinSequence (sequence directive : String) :
    isIdle (joinSequence sequence directive) = (isIdle sequence && isIdle directive) := by
  cases idle : isIdle sequence with
  | true => rw [joinSequence_of_isIdle idle, Bool.true_and]
  | false =>
    have joined : joinSequence sequence directive = sequence ++ "; " ++ directive :=
      if_neg (Bool.eq_false_iff.mp idle)
    rw [joined, isIdle_joined, Bool.false_and]

private theorem isIdle_foldl : ∀ (directives : List String) (sequence : String),
    isIdle (directives.foldl joinSequence sequence) = (isIdle sequence && directives.all isIdle)
  | [], sequence => by rw [List.foldl_nil, List.all_nil, Bool.and_true]
  | directive :: rest, sequence => by
    rw [List.foldl_cons, isIdle_foldl rest, isIdle_joinSequence, List.all_cons, Bool.and_assoc]

private theorem joinSequence_eq_empty_iff (sequence directive : String) :
    joinSequence sequence directive = "" ↔ isIdle sequence = true ∧ directive = "" := by
  constructor
  · intro empty
    have idle := isIdle_joinSequence sequence directive
    rw [empty, show isIdle "" = true by decide, eq_comm, Bool.and_eq_true] at idle
    rw [joinSequence_of_isIdle idle.1] at empty
    exact ⟨idle.1, empty⟩
  · rintro ⟨idle, rfl⟩
    exact joinSequence_of_isIdle idle ""

/-- Joined directives come to nothing exactly if the last is empty and all before it give way. -/
theorem foldl_joinSequence_eq_empty_iff {sequence : String} (written : sequence ≠ "")
    (directives : List String) : directives.foldl joinSequence sequence = "" ↔
      isIdle sequence = true ∧ directives.getLast? = some "" ∧ directives.all isIdle = true := by
  rcases List.eq_nil_or_concat' directives with rfl | ⟨earlier, last, rfl⟩
  · simp [written]
  · have empty : isIdle "" = true := by decide
    rw [List.foldl_append, List.foldl_cons, List.foldl_nil, joinSequence_eq_empty_iff, isIdle_foldl,
      List.getLast?_append, List.getLast?_singleton, Option.some_or,
        Option.some_inj, List.all_append,
      Bool.and_eq_true, Bool.and_eq_true, List.all_cons, List.all_nil, Bool.and_true]
    constructor
    · rintro ⟨⟨start, idle⟩, rfl⟩
      exact ⟨start, rfl, idle, empty⟩
    · rintro ⟨start, rfl, idle, -⟩
      exact ⟨⟨start, idle⟩, rfl⟩

end Draft

def Effect.directive? : Effect → Option String
  | .script _ => none
  | .directive text => some text

private theorem Effect.sequence_on (effect : Effect) (e : Entry) : (effect.on e).sequence =
    effect.directive?.toList.foldl Draft.joinSequence e.sequence := by
  cases effect <;> rfl

private theorem Effect.title_on (effect : Effect) (e : Entry) : (effect.on e).title = e.title := by
  cases effect <;> rfl

private theorem Effect.isRoot_on (effect : Effect) (e : Entry) :
    (effect.on e).isRoot = e.isRoot := by
  cases effect <;> rfl

/-- The directives among what is attached to an entry. -/
def Draft.directivesAt (entry : Nat) (effects : List (Nat × Effect)) : List String :=
  effects.flatMap fun (host, effect) => if host = entry then effect.directive?.toList else []

namespace Script

/-- Whether a statement joins a directive. -/
def Source.isDirective : Source → Bool
  | .sequence .. | .wait .. => true
  | .format .. => false

/-- Whether a statement is a `seq` command whose text is its name and nothing else. -/
def Source.isBare : Source → Bool
  | .sequence _ rawText _ => (Text.trim rawText.toList).all fun c => !Text.isBlank c
  | .wait .. | .format .. => false

/-- The statements that join a directive to an entry, in order. -/
def directivesOf (entry : Nat) (sources : List (Host × Source)) : List Source :=
  sources.flatMap fun (host, source) =>
    if host.entry = entry then if source.isDirective then [source] else [] else []

/-- The commands of a node that join a directive to an entry, in order. -/
def Node.directivesOf (node : Node) (entry : Nat) : List Source :=
  Script.directivesOf entry (bodyAttachments 1 ⟨Conversation.startId, false⟩ node.body)

private theorem directivesOf_cons (entry : Nat) (host : Host) (source : Source)
    (rest : List (Host × Source)) :
    directivesOf entry ((host, source) :: rest) =
      (if host.entry = entry then if source.isDirective then [source] else [] else []) ++
        directivesOf entry rest :=
  List.flatMap_cons

end Script

/-- The directive that a statement joins. -/
def Scene.Directs (scene : Scene) : Source → String → Prop
  | .sequence line rawText arguments, directive =>
    scene.located line (Command.sequenceText rawText arguments) = .ok directive
  | .wait line arguments, directive =>
    scene.located line (Command.waitText arguments) = .ok directive
  | .format .., _ => False

namespace Draft

private theorem directivesAt_cons (entry host : Nat) (effect : Effect)
    (rest : List (Nat × Effect)) :
    directivesAt entry ((host, effect) :: rest) =
      (if host = entry then effect.directive?.toList else []) ++ directivesAt entry rest :=
  List.flatMap_cons

private theorem directivesAt_append (entry : Nat) (effects more : List (Nat × Effect)) :
    directivesAt entry (effects ++ more) = directivesAt entry effects ++ directivesAt entry more :=
  List.flatMap_append

private theorem directivesAt_map (entry host : Nat) (effects : List Effect) :
    directivesAt entry (effects.map (host, ·)) =
      if host = entry then effects.flatMap (·.directive?.toList) else [] := by
  rw [directivesAt, List.flatMap_map]
  by_cases here : host = entry <;> simp [here]

/-- What an entry is made of, apart from what is attached to it. -/
theorem entryAt?_attach : ∀ (effects : List (Nat × Effect)) {d : Draft} {i : Nat} {e : Entry},
    (d.attach effects).entryAt? i = some e → ∃ plain, d.entryAt? i = some plain ∧
      e.title = plain.title ∧ e.isRoot = plain.isRoot ∧
      e.sequence = (directivesAt i effects).foldl joinSequence plain.sequence
  | [], _, _, e, found => ⟨e, found, rfl, rfl, rfl⟩
  | (host, effect) :: rest, d, i, e, found => by
    obtain ⟨middle, here, title, root, sequence⟩ :=
      entryAt?_attach rest (show ((d.modify host effect.on).attach rest).entryAt? i =
        some e from found)
    rw [entryAt?_modify] at here
    rw [directivesAt_cons]
    by_cases hosted : host = i
    · rw [if_pos hosted] at here
      obtain ⟨plain, was, rfl⟩ := Option.map_eq_some_iff.mp here
      refine ⟨plain, was, title.trans (effect.title_on plain),
        root.trans (effect.isRoot_on plain), ?_⟩
      rw [sequence, if_pos hosted, List.foldl_append, effect.sequence_on]
    · rw [if_neg hosted] at here
      refine ⟨middle, here, title, root, ?_⟩
      rw [sequence, if_neg hosted, List.nil_append]

end Draft

namespace Scene

variable {scene : Scene}

/-- What a statement attaches has its directive, if it joins one, and no other. -/
theorem directs_effects {conversation : Nat} {source : Source} {first : List Effect}
    (found : scene.effects conversation source = .ok first) :
    List.Forall₂ scene.Directs (if source.isDirective then [source] else [])
      (first.flatMap (·.directive?.toList)) := by
  cases source with
  | sequence line rawText arguments | wait line arguments =>
    simp only [Scene.effects, bind_eq_ok_iff, pure_eq_ok_iff] at found
    obtain ⟨directive, found, rfl⟩ := found
    exact .cons found .nil
  | format line tokens entry =>
    simp only [Scene.effects, bind_eq_ok_iff, pure_eq_ok_iff] at found
    obtain ⟨fragments, -, rfl⟩ := found
    have calls : ((Lua.formatCalls conversation entry fragments).map Effect.script).flatMap
        (·.directive?.toList) = [] := by
      rw [List.flatMap_eq_nil_iff]
      intro effect member
      obtain ⟨-, -, rfl⟩ := List.mem_map.mp member
      rfl
    rw [calls]
    exact .nil

/-- The directives attached to an entry are those of the statements that join one to it. -/
theorem directs_hostedEffects (entry : Nat) {conversation : Nat} :
    ∀ (sources : List (Host × Source)) {effects : List (Nat × Effect)},
    scene.hostedEffects conversation sources = .ok effects →
    List.Forall₂ scene.Directs (directivesOf entry sources) (Draft.directivesAt entry effects)
  | [], effects, hosted => by
    cases hosted
    exact .nil
  | (host, source) :: rest, effects, hosted => by
    simp only [hostedEffects, bind_eq_ok_iff, pure_eq_ok_iff] at hosted
    obtain ⟨first, found, later, hosted, rfl⟩ := hosted
    have others := directs_hostedEffects entry rest hosted
    rw [directivesOf_cons, Draft.directivesAt_append, Draft.directivesAt_map]
    by_cases here : host.entry = entry
    · rw [if_pos here, if_pos here]
      exact List.rel_append (directs_effects found) others
    · rw [if_neg here, if_neg here]
      exact others

end Scene

private theorem Text.forall_isBlank_of_trim {cs : List Char} (h : trim cs = []) :
    ∀ c ∈ cs, isBlank c = true := by
  have ending : ∀ c ∈ cs.dropWhile isBlank, isBlank c = true := List.rdropWhile_eq_nil_iff.mp h
  intro c member
  rw [← List.takeWhile_append_dropWhile (p := isBlank) (l := cs)] at member
  rcases List.mem_append.mp member with start | rest
  · exact List.all_eq_true.mp List.all_takeWhile c start
  · exact ending c rest

namespace Command

private theorem directiveText_eq_nil_iff (rawText : String) : directiveText rawText = [] ↔
    ((Text.trim rawText.toList).all fun c => !Text.isBlank c) = true := by
  rw [List.all_eq_true, ← List.dropWhile_eq_nil_iff]
  constructor
  · intro empty
    have blank := Text.forall_isBlank_of_trim empty
    -- A rest behind the name would end as the trimmed text does, with a solid character.
    by_contra rest
    have written : Text.trim rawText.toList ≠ [] := by
      intro nothing
      rw [nothing] at rest
      exact rest rfl
    have last := List.rdropWhile_last_not Text.isBlank (Text.trimStart rawText.toList) written
    apply last
    apply blank
    have same := (List.dropWhile_suffix fun c => !Text.isBlank c).getLast rest
    exact same ▸ List.getLast_mem rest
  · intro nothing
    rw [directiveText, nothing]
    rfl

private theorem substitute_eq_nil_iff (fragments : List String) (directive : List Char) :
    substitute fragments directive = [] ↔ directive = [] := by
  cases directive with
  | nil => simp [substitute]
  | cons c rest =>
    rw [substitute]
    split
    · split <;> simp [embedded]
    · simp

private theorem sequenceText_eq_empty_iff {rawText directive : String} {arguments : List Argument}
    (h : sequenceText rawText arguments = .ok directive) : directive = "" ↔
      ((Text.trim rawText.toList).all fun c => !Text.isBlank c) = true := by
  simp only [sequenceText, bind_eq_ok_iff, pure_eq_ok_iff] at h
  obtain ⟨fragments, -, rfl⟩ := h
  rw [← directiveText_eq_nil_iff, ← substitute_eq_nil_iff fragments, ← String.toList_inj]
  simp

private theorem exists_delay_of_expressionDelay {tokens : Expression} {directive : String}
    (h : expressionDelay tokens = .ok directive) : ∃ seconds, directive = delay seconds := by
  unfold expressionDelay at h
  simp only [bind_eq_ok_iff] at h
  obtain ⟨trees, -, h⟩ := h
  split at h
  · split at h
    · exact ⟨_, (pure_eq_ok_iff.mp h).symm⟩
    · simp only [bind_eq_ok_iff, pure_eq_ok_iff] at h
      obtain ⟨fragment, -, rfl⟩ := h
      exact ⟨_, rfl⟩
  · simp only [bind_eq_ok_iff, pure_eq_ok_iff] at h
    obtain ⟨fragment, -, rfl⟩ := h
    exact ⟨_, rfl⟩

private theorem exists_delay_of_waitText {arguments : List Argument} {directive : String}
    (h : waitText arguments = .ok directive) : ∃ seconds, directive = delay seconds := by
  induction arguments with
  | nil => cases h
  | cons argument rest ih =>
    cases argument with
    | expression tokens => exact exists_delay_of_expressionDelay h
    | text s =>
      rw [waitText] at h
      split at h
      · unfold wordDelay at h
        split at h
        · cases h
          exact ⟨_, rfl⟩
        · cases h
      · exact ih h

private theorem delay_ne_empty (seconds : String) : delay seconds ≠ "" := by
  simp [delay]

end Command

private theorem Scene.Directs.eq_empty_iff {scene : Scene} {source : Source} {directive : String}
    (h : scene.Directs source directive) : directive = "" ↔ source.isBare = true := by
  cases source with
  | sequence line rawText arguments =>
    exact Command.sequenceText_eq_empty_iff (eq_ok_of_mapError h)
  | wait line arguments =>
    obtain ⟨seconds, rfl⟩ := Command.exists_delay_of_waitText (eq_ok_of_mapError h)
    simp [Command.delay_ne_empty, Source.isBare]
  | format line tokens entry => exact h.elim

private theorem Scene.getLast?_directs {scene : Scene} {commands : List Source}
    {directives : List String} (h : List.Forall₂ scene.Directs commands directives) :
    directives.getLast? = some "" ↔
      ∃ last, commands.getLast? = some last ∧ last.isBare = true := by
  induction h with
  | nil => simp
  | cons first rest ih =>
    cases rest with
    | nil => simp [first.eq_empty_iff]
    | cons second rest => rw [List.getLast?_cons_cons, List.getLast?_cons_cons, ih]

/-- Every entry that goes on by itself has the sequence that it is made with. -/
def Draft.Poised (d : Draft) : Prop :=
  ∀ i e, d.entryAt? i = some e → e.advances = true → e.sequence = e.opening

namespace Draft.Poised

variable {d : Draft}

private theorem push (h : d.Poised) {e : Entry}
    (made : e.advances = true → e.sequence = e.opening) :
    (d.push e).Poised := by
  intro i e' found
  rw [entryAt?_push] at found
  split at found
  · cases found
    exact made
  · exact h i e' found

/-- A change that an entry's sequence does not depend on. -/
theorem modify (h : d.Poised) {f : Entry → Entry} (title : ∀ e, (f e).title = e.title)
    (root : ∀ e, (f e).isRoot = e.isRoot) (sequence : ∀ e, (f e).sequence = e.sequence) (i : Nat) :
    (d.modify i f).Poised := by
  intro j e found advances
  rw [entryAt?_modify] at found
  split at found
  · obtain ⟨old, was, rfl⟩ := Option.map_eq_some_iff.mp found
    rw [Entry.advances, Entry.isSpoken, title] at advances
    rw [sequence, Entry.opening, root]
    exact h j old was advances
  · exact h j e found advances

private theorem link (h : d.Poised) (i j : Nat) (p : Priority) : (d.link i j p).Poised :=
  h.modify (by intro; rfl) (by intro; rfl) (by intro; rfl) i

private theorem connect (h : d.Poised) (i k j : Nat) : (d.connect i k j).Poised :=
  h.modify (by intro; rfl) (by intro; rfl) (by intro; rfl) i

private theorem setGroup (h : d.Poised) (i : Nat) : (d.setGroup i).Poised :=
  h.modify (by intro; rfl) (by intro; rfl) (by intro; rfl) i

private theorem setConditions (h : d.Poised) (i : Nat) (conditions : String) (a : FalseAction) :
    (d.setConditions i conditions a).Poised :=
  h.modify (by intro; rfl) (by intro; rfl) (by intro; rfl) i

private theorem control (h : d.Poised) (title : String) : (d.control title).Poised :=
  h.push fun _ => rfl

private theorem scriptEntry (h : d.Poised) (pred : Nat) (title script : String)
    (condition : Option String) :
    (d.scriptEntry pred title script condition).Poised := by
  refine (h.push fun _ => ?_).link _ _ _
  cases condition <;> rfl

/-- An entry that shows a line may have any sequence. -/
theorem withEntry (h : d.Poised) (pred : Nat) {e : Entry} (spoken : e.isSpoken = true)
    (fragments : List String) : (Scene.withEntry d pred e fragments).Poised := by
  unfold Scene.withEntry
  rw [addFormatArguments_eq_modify]
  refine ((h.push fun advances => ?_).modify (by intro; rfl) (by intro; rfl) (by intro; rfl) _).link
    _ _ _
  rw [Entry.advances, spoken] at advances
  cases advances

end Draft.Poised

namespace Scene

variable {scene : Scene}

section Parts

variable {d d' : Draft} {pred exit : Nat}

private theorem addScript_poised {κ : Type} {s : Content κ} {title script : String} (h : d.Poised)
    (added : scene.addScript d pred s title script = .ok (d', exit)) : d'.Poised := by
  simp only [addScript, bind_eq_ok_iff, pure_eq_ok_iff, Prod.mk.injEq] at added
  obtain ⟨condition, -, rfl, -⟩ := added
  exact h.scriptEntry pred title script condition

private theorem addLine_poised {s : Content Spoken}
    {choiceOf : Option (Content Unit)} (h : d.Poised)
    (added : scene.addLine d pred s choiceOf = .ok (d', exit)) : d'.Poised := by
  simp only [addLine_eq, bind_eq_ok_iff, pure_eq_ok_iff, Prod.mk.injEq] at added
  obtain ⟨condition, -, fragments, -, rfl, -⟩ := added
  refine h.withEntry pred ?_ fragments
  rw [Entry.isSpoken_guarded, Entry.isSpoken, lineEntry_title]
  cases choiceOf <;> rfl

private theorem addAssignment_poised {κ : Type} {s : Content κ} {name : String}
    {op : Update} (h : d.Poised) (added : scene.addAssignment d pred s name op = .ok (d', exit)) :
    d'.Poised := by
  unfold addAssignment at added
  split at added
  · obtain ⟨value, -, added⟩ := bind_eq_ok_iff.mp added
    exact addScript_poised h added
  · cases added

private theorem addJump_poised {κ : Type} {s : Content κ} {target : Target} (h : d.Poised)
    (added : scene.addJump d pred s target = .ok (d', exit)) : d'.Poised := by
  unfold addJump at added
  split at added
  · cases added
  · split at added
    · simp only [bind_eq_ok_iff, pure_eq_ok_iff, Prod.mk.injEq] at added
      obtain ⟨⟨jumped, jump⟩, scripted, rfl, -⟩ := added
      refine (((addScript_poised h scripted).connect _ _ _).push fun advances => ?_).link _ _ _
      cases advances
    · cases added

private theorem addBasic_poised {s : Content Basic} {base : Nat}
    (silent : s.source? base = none) (h : d.Poised)
    (added : scene.addBasic d pred s = .ok (d', exit)) : d'.Poised := by
  unfold addBasic at added
  cases kind : s.kind with
  | line spoken =>
    simp only [kind] at added
    exact addLine_poised h added
  | command name arguments rawText =>
    simp only [kind] at added
    cases sort : Command.Kind.ofName name with
    | playSequence | wait => simp [Content.source?, kind, sort] at silent
    | stop =>
      simp only [sort] at added
      exact addScript_poised h added
    | custom =>
      simp only [sort, bind_eq_ok_iff] at added
      obtain ⟨script, -, added⟩ := added
      exact addScript_poised h added
  | call name =>
    simp only [kind] at added
    split at added
    · obtain ⟨script, -, added⟩ := bind_eq_ok_iff.mp added
      exact addScript_poised h added
    · cases added
  | jump target =>
    simp only [kind] at added
    exact addJump_poised h added
  | set | declare =>
    simp only [kind] at added
    exact addAssignment_poised h added

private theorem openArm_poised (h : d.Poised) (kind : ClauseKind) : (openArm d kind).Poised :=
  (h.control _).control _

private theorem openBranch_poised (h : d.Poised) (pred : Nat) : (openBranch d pred).Poised :=
  (((h.control _).setGroup _).link _ _ _).control _

private theorem openMenu_poised (h : d.Poised) (pred : Nat) (choices : List Choice) :
    (openMenu d pred choices).Poised := by
  unfold openMenu
  split
  · exact (((h.control _).setGroup _).link _ _ _).control _
  · exact ((h.control _).link _ _ _).control _

private theorem closeMenu_poised (h : d.Poised) (start : Nat) (choices : List Choice) :
    (closeMenu d start choices).Poised := by
  unfold closeMenu
  split
  · exact h.link _ _ _
  · exact h

private theorem closeClause_poised (h : d.Poised) (start exit : Nat) (kind : ClauseKind)
    (condition : String) :
    (closeClause d start exit kind condition).Poised :=
  ((h.link _ _ _).setConditions _ _ _).control _

private theorem enterArms_poised (h : d.Poised) (start : Nat) (arms : List Arm) :
    (enterArms d start arms).Poised := by
  unfold enterArms
  split
  · exact h.link _ _ _
  · exact h

private theorem linkArms_poised (finish : Nat) :
    ∀ (arms : List Arm) {d : Draft} (previous : Nat), d.Poised →
    (linkArms d previous finish arms).Poised
  | [], _, _, h => h
  | ⟨_, _, none⟩ :: rest, _, previous, h => linkArms_poised finish rest previous (h.link _ _ _)
  | ⟨_, _, some fallback⟩ :: rest, _, _, h =>
    linkArms_poised finish rest fallback ((((h.link _ _ _).link _ _ _).setGroup _).link _ _ _)

end Parts

mutual

/-- An item that attaches nothing leaves the sequences as they are made. -/
theorem addItem_poised : ∀ (item : Item) {d d' : Draft} {base pred exit : Nat} {host : Host},
    item.attachments base host = [] → d.Poised →
    scene.addItem d pred item = .ok (d', exit) → d'.Poised
  | .basic s, d, d', base, pred, exit, host, silent, h, added => by
    rw [addItem] at added
    have nothing : s.source? base = none := by
      simpa [Item.attachments] using silent
    exact addBasic_poised nothing h added
  | .branch clauses none, d, d', base, pred, exit, host, silent, h, added => by
    obtain ⟨guarded, arms, complete, last, addedClauses, addedLast, rfl, rfl⟩ :=
      addItem_branch_ok added
    cases addedLast
    have grown := addClauses_poised clauses silent (openBranch_poised h pred) addedClauses
    exact linkArms_poised _ _ _ (enterArms_poised grown _ _)
  | .branch clauses (some body), d, d', base, pred, exit, host, silent, h, added => by
    obtain ⟨guarded, arms, complete, last, addedClauses, addedLast, rfl, rfl⟩ :=
      addItem_branch_ok added
    simp only [addOtherwise, bind_eq_ok_iff, pure_eq_ok_iff, Prod.mk.injEq] at addedLast
    obtain ⟨⟨grown, exit⟩, addedBody, rfl, rfl⟩ := addedLast
    obtain ⟨silentClauses, silentBody⟩ := List.append_eq_nil_iff.mp silent
    have guardedPoised :=
      addClauses_poised clauses silentClauses (openBranch_poised h pred) addedClauses
    have grownPoised :=
      addItems_poised body silentBody (openArm_poised guardedPoised .else_) addedBody
    exact linkArms_poised _ _ _ (enterArms_poised (grownPoised.link _ _ _) _ _)
  | .menu choices, d, d', base, pred, exit, host, silent, h, added => by
    obtain ⟨complete, _, addedChoices, rfl, rfl⟩ := addItem_menu_ok added
    have grown := addChoices_poised choices silent (openMenu_poised h pred choices) addedChoices
    exact closeMenu_poised grown _ _

private theorem addItems_poised :
    ∀ (items : List Item) {d d' : Draft} {base pred exit : Nat} {host : Host},
    bodyAttachments base host items = [] → d.Poised → scene.addItems d pred items = .ok (d', exit) →
    d'.Poised
  | [], d, d', base, pred, exit, host, silent, h, added => by
    cases added
    exact h
  | item :: rest, d, d', base, pred, exit, host, silent, h, added => by
    simp only [addItems, bind_eq_ok_iff] at added
    obtain ⟨⟨grown, middle⟩, first, added⟩ := added
    obtain ⟨silentItem, silentRest⟩ := List.append_eq_nil_iff.mp silent
    exact addItems_poised rest silentRest (addItem_poised item silentItem h first) added

private theorem addClauses_poised :
    ∀ (clauses : List Clause) {d d' : Draft} {kind : ClauseKind} {base : Nat}
    {arms : List Arm}, clauseAttachments base clauses = [] → d.Poised →
    scene.addClauses d kind clauses = .ok (d', arms) → d'.Poised
  | [], d, d', kind, base, arms, silent, h, added => by
    cases added
    exact h
  | .mk line guard body :: rest, d, d', kind, base, arms, silent, h, added => by
    obtain ⟨grown, exit, condition, others, addedBody, -, addedRest, rfl⟩ :=
      addClauses_cons_ok added
    obtain ⟨silentBody, silentRest⟩ := List.append_eq_nil_iff.mp silent
    have grownPoised := addItems_poised body silentBody (openArm_poised h kind) addedBody
    exact addClauses_poised rest silentRest
      (closeClause_poised grownPoised _ _ kind condition) addedRest

private theorem addChoices_poised {allGuarded : Bool} :
    ∀ (choices : List Choice) {d d' : Draft} {start finish first base : Nat},
    choiceAttachments first base choices = [] → d.Poised →
    scene.addChoices d start finish choices = .ok (d', allGuarded) → d'.Poised
  | [], d, d', start, finish, first, base, silent, h, added => by
    cases added
    exact h
  | .mk option shown body :: rest, d, d', start, finish, first, base, silent, h, added => by
    simp only [addChoices_cons, bind_eq_ok_iff, pure_eq_ok_iff, Prod.mk.injEq] at added
    obtain ⟨⟨headed, head⟩, addedLine, ⟨grown, exit⟩, addedBody, ⟨_, _⟩, addedRest, rfl, -⟩ := added
    obtain ⟨-, silent⟩ := List.append_eq_nil_iff.mp silent
    obtain ⟨silentBody, silentRest⟩ := List.append_eq_nil_iff.mp silent
    have grownPoised := addItems_poised body silentBody (addLine_poised h addedLine) addedBody
    exact addChoices_poised rest silentRest (grownPoised.link _ _ _) addedRest

end

end Scene

private theorem Scene.opening_poised (scene : Scene) (id : Nat) : (scene.opening id).Poised := by
  let empty : Draft :=
    ⟨⟨id, scene.name, scene.actor, scene.conversant, []⟩, scene.narrator, scene.player⟩
  have nothing : empty.Poised := nofun
  exact nothing.push fun _ => rfl

/-- An entry that goes on by itself plays what it is made with, joined with the directives of the
`wait` and `seq` commands that come to it, in order. That is nothing exactly if the entry is not the
start, the last of these commands is a `seq` command with no text behind its name, and every other
directive is empty or a bare continuation; so an entry that no such command comes to keeps a
directive that advances it. -/
theorem Script.lower_joins_directives {s : Script} {ctx : Context} {id : Nat} {c : Conversation}
    (lowered : s.lower ctx id = .ok c) : ∃ node, s.tree.check = .ok node ∧
      ∀ e ∈ c.entries, e.advances = true → ∃ directives,
        List.Forall₂ (Scene.ofNode ctx node).Directs (node.directivesOf e.id) directives ∧
        e.sequence = directives.foldl Draft.joinSequence e.opening ∧
        (e.sequence = "" ↔ e.isRoot = false ∧
          (∃ last, (node.directivesOf e.id).getLast? = some last ∧ last.isBare = true) ∧
          ∀ directive ∈ directives, directive = "" ∨ directive = Lua.continueSequence) := by
  obtain ⟨node, complete, exit, checked, added, rfl⟩ := lower_ok lowered
  obtain ⟨quiet, effects, addedQuiet, hosted, attached⟩ :=
    Scene.addItems_attached node.body ⟨Conversation.startId, false⟩ added (.refl _)
      rfl Nat.zero_lt_one rfl
  have poised :=
    Scene.addItems_poised _ (attachments_quietBody node.body 1 ⟨Conversation.startId, false⟩)
      ((Scene.ofNode ctx node).opening_poised id) addedQuiet
  have grown := Scene.addItems_grown _ Nat.zero_lt_one added
  have fits := Draft.Steps.fits grown.steps ((Scene.ofNode ctx node).opening_fits id)
  refine ⟨node, checked, fun e member advances => ?_⟩
  obtain ⟨i, found⟩ := List.mem_iff_getElem?.mp member
  obtain rfl : e.id = i := (fits.entry i e found).id
  have joined : e.sequence = (Draft.directivesAt e.id effects).foldl
      Draft.joinSequence e.opening := by
    have foundAttached : (quiet.attach effects).entryAt? e.id = some e := attached.eq ▸ found
    obtain ⟨plain, was, title, root, sequence⟩ := Draft.entryAt?_attach effects foundAttached
    rw [Entry.advances, Entry.isSpoken, title] at advances
    rw [sequence, poised e.id plain was advances, Entry.opening, Entry.opening, root]
  have directs := Scene.directs_hostedEffects e.id _ hosted
  refine ⟨_, directs, joined, ?_⟩
  rw [joined, Draft.foldl_joinSequence_eq_empty_iff e.opening_ne_empty, Draft.isIdle_opening,
    Scene.getLast?_directs directs, List.all_eq_true, Bool.not_eq_true']
  simp only [Draft.isIdle, Bool.or_eq_true, decide_eq_true_eq]
  rfl

namespace Sample

/-- A command, and then a `seq` command without a text of its own. -/
def fadingScript : Script where
  statements :=
    [⟨⟨.block (.node "Start" .empty), 1, none, none⟩, none, [1, 2]⟩,
      ⟨⟨.basic (.command "fade" [] "fade"), 2, none, none⟩, some 0, []⟩,
      ⟨⟨.basic (.command "seq" [] "seq"), 3, none, none⟩, some 0, []⟩]
  root := 0
  root_lt := by decide

end Sample

open Sample in
/-- The entry of the command is left with no directive that would advance it. -/
theorem Script.lower_joins_directives_sample : ∃ c e node, fadingScript.lower context 1 = .ok c ∧
    e ∈ c.entries ∧ e.title = "Run Command" ∧ e.sequence = "" ∧ fadingScript.tree.check = .ok node ∧
    ∃ last, (node.directivesOf 1).getLast? = some last ∧ last.isBare = true := by
  have texts : ((fadingScript.lower context 1).toOption.map fun c =>
      c.entries.map fun e => (e.id, e.title, e.sequence)) =
      some [(0, "START", "None()"), (1, "Run Command", "")] := by
    decide +kernel
  cases lowered : fadingScript.lower context 1 with
  | error e =>
    rw [lowered] at texts
    cases texts
  | ok c =>
    rw [lowered] at texts
    have entries : (c.entries.map fun e => (e.id, e.title, e.sequence)) =
        [(0, "START", "None()"), (1, "Run Command", "")] := Option.some.inj texts
    have listed : (1, "Run Command", "") ∈ c.entries.map fun e => (e.id, e.title, e.sequence) := by
      rw [entries]
      exact .tail _ (.head _)
    obtain ⟨e, member, same⟩ := List.mem_map.mp listed
    simp only [Prod.mk.injEq] at same
    obtain ⟨id, title, sequence⟩ := same
    obtain ⟨node, checked, joins⟩ := Script.lower_joins_directives lowered
    have advances : e.advances = true := by
      rw [Entry.advances, Entry.isSpoken, title]
      decide
    obtain ⟨directives, -, -, empty⟩ := joins e member advances
    obtain ⟨-, bare, -⟩ := empty.mp sequence
    exact ⟨c, e, node, rfl, member, title, sequence, checked, id ▸ bare⟩

end Dialogue
