import Dialogue.Proofs.Nesting
import Dialogue.Proofs.Posts
import Dialogue.Proofs.Reference

/-!
Who speaks. Registration walks over a script before it is checked, and adds an actor for each
speaker that it finds; lowering looks the speakers up. The two agree, because both say the same of
each line: whether an option shows it, and which speaker its text names.

`Tree.marked` lists the lines with whether an option shows them, in the order of both walks. What is
registered and the actors of the entries of a conversation are both read off this list.
-/

set_option autoImplicit false
set_option relaxedAutoImplicit false

namespace Dialogue

open Compile Registration Script

namespace Script

/-- The line of a line statement. -/
def Content.spoken? (content : Content Kind) : Option (Content Spoken) :=
  match content.kind with
  | .basic (.line spoken) => some (content.withKind spoken)
  | _ => none

/-- The lines of a script with their ids, in source order. -/
def lines (s : Script) : List (Nat × Content Spoken) :=
  s.tree.leaves.filterMap fun leaf => leaf.2.spoken?.map fun line => (leaf.1, line)

/-- The lines of a script with their ids, each with whether it is the first in an option of the
tree. -/
def markedLines (s : Script) : List (Bool × (Nat × Content Spoken)) :=
  (s.tree.marked false).filterMap fun mark =>
    mark.2.2.spoken?.map fun line => (mark.1, (mark.2.1, line))

/-- In a built script, the id of a line says whether an option shows it. -/
theorem Built.markedLines_eq {s : Script} (built : s.Built) :
    s.markedLines = s.lines.map fun line => (s.isChoiceLine line.1, line) := by
  rw [markedLines, built.marked_tree, List.filterMap_map, lines, List.map_filterMap]
  congr 1
  funext leaf
  cases spoken : leaf.2.spoken? <;> simp [Tree.choiceMark, spoken]

/-- The headers of a script: those of the node at its root. -/
def headers (s : Script) : Dict String :=
  match s.rootStatement.content.kind with
  | .block (.node _ headers) => headers
  | _ => .empty

private theorem Content.spoken?_of_line {content : Content Kind} {spoken : Spoken}
    (kind : content.kind = .basic (.line spoken)) :
    content.spoken? = some (content.withKind spoken) := by
  simp [spoken?, kind]

private theorem Content.spoken?_of_silent {content : Content Kind} {b : Basic}
    (kind : content.kind = .basic b) (silent : ∀ spoken, b ≠ .line spoken) :
    content.spoken? = none := by
  cases b with
  | line spoken => exact absurd rfl (silent spoken)
  | command | call | jump | set | declare => simp [spoken?, kind]

private theorem Basic.title_of_silent {b : Basic} (silent : ∀ spoken, b ≠ .line spoken) :
    b.title ≠ "Line" ∧ b.title ≠ "Shortcut Option Start" := by
  cases b with
  | line spoken => exact absurd rfl (silent spoken)
  | command name arguments rawText =>
    by_cases stop : Command.Kind.ofName name = .stop <;> simp [title, stop]
  | call | jump | set | declare => simp [title]

end Script

def Entry.isSpoken (e : Entry) : Bool :=
  e.title = "Line" || e.title = "Shortcut Option Start"

/-- The title and the actor of an entry, if it is that of a line. -/
def Entry.voice? (e : Entry) : Option (String × Nat) :=
  if e.isSpoken then some (e.title, e.actorId) else none

instance : Entry.Steady Entry.voice? where
  links_eq _ _ := rfl
  group_eq _ _ := rfl
  guard_eq _ _ _ := rfl
  script_eq _ _ := rfl
  sequence_eq _ _ := rfl

/-- The titles and the actors of the entries of lines. -/
def Draft.voices (d : Draft) : List (String × Nat) :=
  (d.view Entry.voice?).filterMap id

private theorem Draft.voices_congr {d d' : Draft}
    (same : d'.view Entry.voice? = d.view Entry.voice?) :
    d'.voices = d.voices :=
  congrArg (List.filterMap id) same

private theorem Draft.voices_push (d : Draft) (e : Entry) :
    (d.push e).voices = d.voices ++ e.voice?.toList := by
  rw [voices, view_push, List.filterMap_append, voices]
  cases e.voice? <;> rfl

private theorem Draft.voices_eq (d : Draft) : d.voices = d.entries.filterMap Entry.voice? := by
  rw [voices, view, List.filterMap_map]
  rfl

private theorem Entry.voice?_of_title {e : Entry} (line : e.title ≠ "Line")
    (choice : e.title ≠ "Shortcut Option Start") : e.voice? = none := by
  simp [voice?, isSpoken, line, choice]

private theorem Draft.voices_control (d : Draft) {title : String} (line : title ≠ "Line")
    (choice : title ≠ "Shortcut Option Start") : (d.control title).voices = d.voices := by
  have silent : ({ d.fresh title with sequence := Lua.continueSequence } : Entry).voice? = none :=
    Entry.voice?_of_title line choice
  rw [control, voices_push, silent]
  exact List.append_nil _

namespace Scene

variable {scene : Scene}

private theorem voices_withEntry (d : Draft) (pred : Nat) (e : Entry) (condition : Option String)
    (action : FalseAction) (fragments : List String) :
    (withEntry d pred (e.guarded condition action) fragments).voices =
      d.voices ++ e.voice?.toList := by
  rw [← Entry.view_guarded Entry.voice? e condition action, ← Draft.voices_push]
  exact Draft.voices_congr (by rw [view_withEntry, Draft.view_push])

private theorem voices_openArm (d : Draft) (kind : ClauseKind) :
    (openArm d kind).voices = d.voices := by
  unfold openArm
  cases kind <;> rw [Draft.voices_control _ (by decide) (by decide),
    Draft.voices_control _ (by decide) (by decide)]

private theorem voices_openBranch (d : Draft) (pred : Nat) :
    (openBranch d pred).voices = d.voices := by
  have opened :
      (((d.control "If Block Start").setGroup d.nextId).link pred d.nextId .normal).voices =
        (d.control "If Block Start").voices := Draft.voices_congr (by simp)
  rw [openBranch, Draft.voices_control _ (by decide) (by decide), opened,
    Draft.voices_control _ (by decide) (by decide)]

private theorem voices_closeClause (grown : Draft) (start exit : Nat) (kind : ClauseKind)
    (condition : String) :
    (closeClause grown start exit kind condition).voices = grown.voices := by
  have linked :
    ((grown.link exit (start + 1) .normal).setConditions start condition .block).voices =
      grown.voices := Draft.voices_congr (by simp)
  unfold closeClause
  cases kind <;> rw [Draft.voices_control _ (by decide) (by decide), linked]

private theorem voices_openMenu (d : Draft) (pred : Nat) (choices : List Choice) :
    (openMenu d pred choices).voices = d.voices := by
  obtain ⟨grouped, same, -, opened⟩ := openMenu_grouped d pred choices
  have linked : (grouped.link pred d.nextId .normal).voices =
      (d.control "Shortcut Option List Start").voices :=
    Draft.voices_congr (by rw [Draft.view_link, same])
  rw [opened, Draft.voices_control _ (by decide) (by decide), linked,
    Draft.voices_control _ (by decide) (by decide)]

private theorem voice?_lineEntry (d : Draft) (s : Content Spoken)
    (choiceOf : Option (Content Unit)) :
    (scene.lineEntry d s choiceOf).voice? =
      some (if choiceOf.isSome then "Shortcut Option Start" else "Line",
        (scene.lineCast s choiceOf).1) := by
  have spoken : (scene.lineEntry d s choiceOf).isSpoken = true := by
    rw [Entry.isSpoken, lineEntry_title]
    cases choiceOf <;> rfl
  rw [Entry.voice?, if_pos spoken, lineEntry_title]
  rfl

/-- The title and the actor of the entry of a line, given whether an option shows it. -/
def voiceOf (scene : Scene) (isChoice : Bool) (line : Content Spoken) : String × Nat :=
  if isChoice then ("Shortcut Option Start", scene.player)
    else ("Line", (scene.lineCast line none).1)

/-- The same of a basic statement, if it is a line. -/
def voice? (scene : Scene) (mark : Bool × (Nat × Content Kind)) : Option (String × Nat) :=
  mark.2.2.spoken?.map (scene.voiceOf mark.1)

private theorem Adds.voices_silent {d d' : Draft} {pred exit : Nat} {s : Content Basic}
    (h : Adds scene d pred s d' exit) (silent : ∀ spoken, s.kind ≠ .line spoken) :
    d'.voices = d.voices := by
  cases h with
  | directive => exact Draft.voices_congr (d.view_appendSequence pred _)
  | @entry e condition fragments count guarded joins title bare =>
    obtain ⟨line, choice⟩ := Basic.title_of_silent silent
    have quiet : e.voice? = none := Entry.voice?_of_title (title ▸ line) (title ▸ choice)
    rw [voices_withEntry, quiet]
    exact List.append_nil _
  | @jump name target condition kind known guarded =>
    have jumped (e : Entry) (title : e.title = "Jump to Conversation") : e.voice? = none := by
      apply Entry.voice?_of_title <;> rw [title] <;> decide
    have placeholder (e : Entry) (title : e.title = "Unreachable Entry") : e.voice? = none := by
      apply Entry.voice?_of_title <;> rw [title] <;> decide
    simp [Draft.voices, withJump, Draft.scriptEntry, jumped, placeholder]

private theorem addBasic_voices {d d' : Draft} {pred exit : Nat} (id : Nat)
    {content : Content Kind} {b : Basic} (kind : content.kind = .basic b)
    (h : scene.addBasic d pred (content.withKind b) = .ok (d', exit)) :
    d'.voices = d.voices ++ (scene.voice? (false, (id, content))).toList := by
  cases b with
  | line spoken =>
    have line : scene.addLine d pred (content.withKind spoken) none = .ok (d', exit) := h
    simp only [addLine_eq, bind_eq_ok_iff, pure_eq_ok_iff, Prod.mk.injEq] at line
    obtain ⟨condition, -, fragments, -, rfl, -⟩ := line
    rw [voices_withEntry, voice?_lineEntry, voice?, Content.spoken?_of_line kind]
    rfl
  | command | call | jump | set | declare =>
    rw [(addBasic_adds h).voices_silent (by rintro _ ⟨⟩), voice?,
      Content.spoken?_of_silent kind (by rintro _ ⟨⟩)]
    exact (List.append_nil _).symm

mutual

/-- The lowering of an item adds the entries of its lines. -/
theorem addItem_voices : ∀ (t : Tree) {i : Item} {d d' : Draft} {pred exit : Nat}, t.item = .ok i →
    scene.addItem d pred i = .ok (d', exit) →
    d'.voices = d.voices ++ (t.marked false).filterMap scene.voice?
  | .node id content children, i, d, d', pred, exit, stands, h => by
    cases Tree.stands_of_item stands with
    | @basic b kind empty =>
      have marks : (Script.Tree.node id content children).marked false =
          [(false, (id, content))] := by
        simp only [Tree.marked, kind]
      simp only [addItem] at h
      rw [marks, addBasic_voices id kind h, List.filterMap_cons]
      cases scene.voice? (false, (id, content)) <;> rfl
    | @branch clauses otherwise kind filled sound listed =>
      obtain ⟨guarded, arms, complete, last, added, addedLast, rfl, -⟩ := addItem_branch_ok h
      have linked : (linkArms (enterArms complete d.nextId (arms ++ last)) d.nextId (d.nextId + 1)
          (arms ++ last)).voices = complete.voices := Draft.voices_congr (by simp)
      rw [Tree.marked_block kind, linked, addClauses_voices children sound listed added addedLast,
        voices_openBranch]
      rfl
    | @menu choices kind options listed =>
      obtain ⟨complete, _, added, rfl, -⟩ := addItem_menu_ok h
      rw [Tree.marked_block kind, Draft.voices_congr (view_closeMenu ..),
        addChoices_voices children options listed added, voices_openMenu]
      rfl

private theorem addItems_voices :
    ∀ (ts : List Tree) {items : List Item} {d d' : Draft} {pred exit : Nat},
    Tree.itemList ts = .ok items → scene.addItems d pred items = .ok (d', exit) →
    d'.voices = d.voices ++ (Tree.markedList false ts).filterMap scene.voice?
  | [], items, d, d', pred, exit, listed, h => by
    cases listed
    simp only [addItems, Except.ok.injEq, Prod.mk.injEq] at h
    rw [← h.1]
    exact (List.append_nil _).symm
  | t :: rest, items, d, d', pred, exit, listed, h => by
    obtain ⟨first, others, one, more, rfl⟩ := Tree.itemList_cons listed
    simp only [addItems, bind_eq_ok_iff] at h
    obtain ⟨⟨grown, middle⟩, here, h⟩ := h
    rw [addItems_voices rest more h, addItem_voices t one here, Tree.markedList,
      List.filterMap_append, List.append_assoc]

/-- The clauses of a branch, the last of which may be without a guard. -/
theorem addClauses_voices : ∀ (ts : List Tree) {isFirst : Bool} {clauses : List Clause}
    {otherwise : Option (List Item)} {d guarded complete : Draft} {kind : ClauseKind}
    {arms last : List Arm}, clausesFlaw? isFirst ts = none →
    Tree.clauseList ts = .ok (clauses, otherwise) →
    scene.addClauses d kind clauses = .ok (guarded, arms) →
    scene.addOtherwise guarded otherwise = .ok (complete, last) →
    complete.voices = d.voices ++ (Tree.markedList false ts).filterMap scene.voice?
  | [], isFirst, clauses, otherwise, d, guarded, complete, kind, arms, last, sound, listed, h,
      hlast => by
    cases listed
    simp only [addClauses, Except.ok.injEq, Prod.mk.injEq] at h
    simp only [addOtherwise, Except.ok.injEq, Prod.mk.injEq] at hlast
    rw [← hlast.1, ← h.1]
    exact (List.append_nil _).symm
  | .node id content children :: rest, isFirst, clauses, otherwise, d, guarded, complete, kind,
      arms, last, sound, listed, h, hlast => by
    obtain ⟨clause, block⟩ := Tree.clause_of_sound sound
    replace block : content.kind = .block (.ifClause clause) := block
    have marks : Tree.markedList false (.node id content children :: rest) =
        Tree.markedList false children ++ Tree.markedList false rest := by
      rw [Tree.markedList, Tree.marked_block block]
      rfl
    rw [marks, List.filterMap_append, ← List.append_assoc]
    obtain ⟨body, listedBody, inner | final⟩ := Tree.clauseList_cons sound listed
    · obtain ⟨guard, others, -, soundRest, listedRest, rfl⟩ := inner
      obtain ⟨grown, exit, condition, armsRest, added, -, addedRest, -⟩ := addClauses_cons_ok h
      rw [addClauses_voices rest soundRest listedRest addedRest hlast, voices_closeClause,
        addItems_voices children listedBody added, voices_openArm]
    · obtain ⟨-, rfl, rfl, rfl⟩ := final
      simp only [addClauses, Except.ok.injEq, Prod.mk.injEq] at h
      simp only [addOtherwise, bind_eq_ok_iff, pure_eq_ok_iff, Prod.mk.injEq] at hlast
      obtain ⟨⟨grown, exit⟩, added, rfl, -⟩ := hlast
      rw [Draft.voices_congr (Draft.view_link ..), addItems_voices children listedBody added,
        voices_openArm, ← h.1]
      exact (List.append_nil _).symm

private theorem addChoices_voices {allGuarded : Bool} :
    ∀ (ts : List Tree) {choices : List Choice} {d d' : Draft}
    {start finish : Nat}, (∀ t ∈ ts, t.kind = .block .option) → Tree.choiceList ts = .ok choices →
    scene.addChoices d start finish choices = .ok (d', allGuarded) →
    d'.voices = d.voices ++ (Tree.markedList false ts).filterMap scene.voice?
  | [], choices, d, d', start, finish, options, listed, h => by
    cases listed
    cases h
    exact (List.append_nil _).symm
  | .node id option [] :: rest, choices, d, d', start, finish, options, listed, h => by cases listed
  | .node id option (.node lineId shown below :: following) :: rest, choices, d, d', start, finish,
      options, listed, h => by
    obtain ⟨_, _, _, spoken, body, others, same, line, listedBody, listedRest, rfl⟩ :=
      Tree.choiceList_cons listed
    cases same
    have block : option.kind = .block .option := options _ List.mem_cons_self
    have marks : Tree.markedList false
        (.node id option (.node lineId shown [] :: following) :: rest) =
        (true, (lineId, shown)) :: (Tree.markedList false following ++
          Tree.markedList false rest) := by
      rw [Tree.markedList, Tree.marked_block block, Tree.markedList]
      simp only [Tree.marked, line]
      rfl
    have voice : scene.voice? (true, (lineId, shown)) =
        some ("Shortcut Option Start", scene.player) := by
      rw [voice?, Content.spoken?_of_line line]
      rfl
    obtain ⟨condition, fragments, grown, exit, _, -, -, added, h⟩ := addChoices_cons_ok h
    rw [addChoices_voices rest (fun t member => options t (List.mem_cons_of_mem _ member))
      listedRest h, Draft.voices_congr (Draft.view_link ..),
      addItems_voices following listedBody added, withChoice, voices_withEntry, voice?_lineEntry,
      marks, List.filterMap_cons_some voice, List.filterMap_append]
    simp only [List.append_assoc]
    rfl

end

end Scene

namespace Registration

variable {source : Source}

/-- What the statements of a script of a file share. -/
abbrev Source.ofScript (file : ScriptFile) (defaultLocale : String) (s : Script) : Source :=
  ⟨file.file, file.lines, defaultLocale, s.name⟩

/-- The speaker that the text of a line names. -/
def Source.speakerOf? (source : Source) (line : Content Spoken) : Option String :=
  source.speaker? line.kind.lineId line.line

/-- The actor that a basic statement asks for, given whether an option shows it. -/
def Source.asked? (source : Source) (mark : Bool × (Nat × Content Kind)) : Option (String × Bool) :=
  if mark.1 then none else (mark.2.2.spoken?.bind source.speakerOf?).map fun name => (name, false)

private theorem actors_mentioned {content : Content Kind} {b : Basic}
    (kind : content.kind = .basic b) (isChoice : Bool) (id : Nat) :
    (source.mentioned isChoice content b).filterMap Mention.actor? =
      (source.asked? (isChoice, (id, content))).toList := by
  cases b with
  | line spoken =>
    cases isChoice with
    | true => rfl
    | false =>
      have speaker : source.asked? (false, (id, content)) =
          (source.speaker? spoken.lineId content.line).map fun name => (name, false) := by
        simp only [Source.asked?, Content.spoken?_of_line kind]
        rfl
      rw [speaker]
      cases found : source.speaker? spoken.lineId content.line <;>
        simp [Source.mentioned, found, Mention.actor?]
  | command | call | jump | set | declare =>
    have silent : source.asked? (isChoice, (id, content)) = none := by
      simp [Source.asked?, Content.spoken?_of_silent kind]
    rw [silent]
    rfl

mutual

private theorem actors_mentions : ∀ (t : Tree) (isChoice : Bool),
    (mentions source isChoice t).filterMap Mention.actor? =
      (t.marked isChoice).filterMap source.asked?
  | .node id content children, isChoice => by
    unfold mentions Tree.marked
    cases kind : content.kind with
    | basic b =>
      simp only
      rw [actors_mentioned kind isChoice id, List.filterMap_cons]
      cases source.asked? (isChoice, (id, content)) <;> rfl
    | block b =>
      have below := actors_mentionsList children
      cases b <;> exact below _

private theorem actors_mentionsList : ∀ (ts : List Tree) (isChoice : Bool),
    (mentionsList source isChoice ts).filterMap Mention.actor? =
      (Tree.markedList isChoice ts).filterMap source.asked?
  | [], _ => rfl
  | t :: rest, isChoice => by
    rw [mentionsList, Tree.markedList, List.filterMap_append, List.filterMap_append,
      actors_mentions t isChoice, actors_mentionsList rest false]

end

private theorem headerActors_eq (s : Script) : headerActors s =
    ((s.headers.get? actorHeader).map fun name => .actor name true).toList ++
      ((s.headers.get? conversantHeader).map fun name => .actor name false).toList := by
  unfold headerActors Script.headers
  cases s.rootStatement.content.kind with
  | basic b => rfl
  | block b => cases b <;> rfl

/-- Registration asks for the speakers of the lines that no option shows. -/
theorem actors_of_tree (s : Script) (source : Source) :
    (mentions source false s.tree).filterMap Mention.actor? = s.markedLines.filterMap fun mark =>
      if mark.1 then none else (source.speakerOf? mark.2.2).map fun name => (name, false) := by
  rw [actors_mentions, Script.markedLines, List.filterMap_filterMap]
  congr 1
  funext mark
  cases spoken : mark.2.2.spoken? <;> simp [Source.asked?, spoken]

end Registration

namespace Database

theorem mem_names_addActor (db : Database) (name : String) (isPlayer : Bool) :
    name ∈ (db.addActor name isPlayer).actors.map Actor.name := by
  unfold addActor
  cases found : db.actorId? name with
  | none => simp
  | some id =>
    obtain ⟨actor, here, -⟩ := Option.map_eq_some_iff.mp found
    have same : actor.name = name := by simpa using List.find?_some here
    exact List.mem_map.mpr ⟨actor, List.mem_of_find?_eq_some here, same⟩

private theorem mem_names_foldl_addActor {actors : List (String × Bool)} {actor : String × Bool}
    (member : actor ∈ actors) (db : Database) :
    actor.1 ∈ (actors.foldl (fun db a => db.addActor a.1 a.2) db).actors.map Actor.name := by
  induction actors generalizing db with
  | nil => cases member
  | cons first rest ih =>
    rcases List.mem_cons.mp member with rfl | member
    · have kept := foldl_extends (fun db (a : String × Bool) => db.addActor_extends a.1 a.2) rest
        (db.addActor actor.1 actor.2)
      exact (kept.actors.map Actor.name).subset (db.mem_names_addActor _ _)
    · exact ih member (db.addActor first.1 first.2)

private theorem not_mem_names_of_actorId? {db : Database} {name : String}
    (h : db.actorId? name = none) :
    name ∉ db.actors.map Actor.name := by
  intro member
  obtain ⟨actor, here, same⟩ := List.mem_map.mp member
  have other := List.find?_eq_none.mp (Option.map_eq_none_iff.mp h) actor here
  exact other (by simpa using same)

/-- The actors are numbered from one in their order. -/
def Numbered (db : Database) : Prop :=
  db.actors.map Actor.id = List.range' 1 db.actors.length

private theorem Numbered.nextActorId {db : Database} (numbered : db.Numbered) :
    db.nextActorId = db.actors.length + 1 := by
  have highest : ∀ n, (List.range' 1 n).foldl max 0 = n := by
    intro n
    induction n with
    | zero => rfl
    | succ n ih =>
      rw [List.range'_concat, List.foldl_append, ih]
      simp
      omega
  have ids : (db.actors.map Actor.id).foldl max 0 = db.actors.length := by
    rw [numbered]
    exact highest _
  rw [List.foldl_map] at ids
  rw [Database.nextActorId, ids]

theorem Numbered.addActor {db : Database} (numbered : db.Numbered)
    (name : String) (isPlayer : Bool) :
    (db.addActor name isPlayer).Numbered := by
  unfold Database.addActor
  split
  · exact numbered
  · have next := numbered.nextActorId
    unfold Numbered at numbered ⊢
    rw [List.map_append, numbered, List.length_append, List.length_singleton, List.range'_concat]
    simp [next, Nat.add_comm]

private theorem nodup_names_addActor {db : Database} (distinct : (db.actors.map Actor.name).Nodup)
    (name : String) (isPlayer : Bool) :
    ((db.addActor name isPlayer).actors.map Actor.name).Nodup := by
  unfold addActor
  split
  · exact distinct
  · next unknown =>
    have fresh := not_mem_names_of_actorId? unknown
    rw [List.map_append, List.nodup_append]
    refine ⟨distinct, by simp, ?_⟩
    intro old known other new
    rw [List.map_singleton, List.mem_singleton] at new
    rw [new]
    rintro rfl
    exact fresh known

/-- What one more actor keeps, any number of actors keep. -/
theorem foldl_addActor_induction {motive : Database → Prop} {db : Database} (start : motive db)
    (step : ∀ db name isPlayer, motive db → motive (db.addActor name isPlayer))
    (actors : List (String × Bool)) :
    motive (actors.foldl (fun db a => db.addActor a.1 a.2) db) := by
  induction actors generalizing db with
  | nil => exact start
  | cons actor rest ih => exact ih (step db actor.1 actor.2 start)

private theorem actors_define (db : Database) (v : Variable) :
    (db.define v).actors = db.actors := by
  unfold define
  split <;> rfl

end Database

namespace Registration

private theorem actors_declare (state : Database × List Diagnostic) (usage : VariableUse) :
    (declare state usage).1.actors = state.1.actors := by
  obtain ⟨db, reports⟩ := state
  simp only [declare]
  cases db.findVariable? usage.name with
  | none => exact db.actors_define _
  | some existing =>
    simp only
    split <;> rfl

/-- The actors after registration. -/
theorem actors_register (files : List ScriptFile) (db : Database) (defaultLocale : String) :
    (register files db defaultLocale).1.actors =
      (((ofFiles files defaultLocale).filterMap Mention.actor?).foldl
        (fun db a => db.addActor a.1 a.2) db).actors := by
  have declared : ∀ (usages : List VariableUse) (state : Database × List Diagnostic),
      (usages.foldl declare state).1.actors = state.1.actors := by
    intro usages
    induction usages with
    | nil => exact fun _ => rfl
    | cons usage rest ih => exact fun state => (ih _).trans (actors_declare state usage)
  have assigned : ∀ (usages : List VariableUse) (db : Database),
      (usages.foldl (fun db usage => db.define (.emptyText usage.name)) db).actors = db.actors := by
    intro usages
    induction usages with
    | nil => exact fun _ => rfl
    | cons usage rest ih => exact fun db => (ih _).trans (db.actors_define _)
  exact (assigned _ _).trans (declared _ _)

private theorem mem_names_register {files : List ScriptFile} {file : ScriptFile}
    (known : file ∈ files) {s : Script} (member : s ∈ file.scripts) (db : Database)
    {defaultLocale name : String}
    {isPlayer : Bool}
    (asked : (name, isPlayer) ∈ (ofScript file defaultLocale s).filterMap Mention.actor?) :
    name ∈ (register files db defaultLocale).1.actors.map Actor.name := by
  obtain ⟨mention, listed, found⟩ := List.mem_filterMap.mp asked
  have mentioned : mention ∈ ofFiles files defaultLocale :=
    List.mem_flatMap.mpr ⟨file, known, List.mem_flatMap.mpr ⟨s, member, listed⟩⟩
  rw [actors_register]
  exact Database.mem_names_foldl_addActor (List.mem_filterMap.mpr ⟨mention, mentioned, found⟩) db

end Registration

/-- Who has a part: an actor of the given name, or else the actor who has it by default. -/
def Database.Assigns (db : Database) (name? : Option String) (byDefault id : Nat) : Prop :=
  match name? with
  | some name => ∃ actor ∈ db.actors, actor.name = name ∧ actor.id = id
  | none => id = byDefault

private theorem Database.assigns_of_known {db : Database} {name? : Option String} (byDefault : Nat)
    (known : ∀ name, name? = some name → name ∈ db.actors.map Actor.name) :
    db.Assigns name? byDefault ((name?.bind db.actorId?).getD byDefault) := by
  cases name? with
  | none => rfl
  | some name =>
    have member := known name rfl
    cases found : db.actorId? name with
    | none => exact absurd member (not_mem_names_of_actorId? found)
    | some id =>
      obtain ⟨actor, here, same⟩ := Option.map_eq_some_iff.mp found
      refine ⟨actor, List.mem_of_find?_eq_some here, by simpa using List.find?_some here, ?_⟩
      rw [same, Option.bind_some, found]
      rfl

/-- The entry of a line: its title says whether it is a choice, which the player takes; any other
line is spoken by the speaker that it names, and by the default actor if it names none. -/
structure Entry.Voices (e : Entry) (db : Database) (isChoice : Bool) (speaker? : Option String) :
    Prop where
  title : e.title = if isChoice then "Shortcut Option Start" else "Line"
  choice : isChoice = true → e.actorId = db.metadata.playerActor
  line : isChoice = false → db.Assigns speaker? db.metadata.defaultActor e.actorId

namespace Script

private theorem voices_opening (scene : Scene) (id : Nat) : (scene.opening id).voices = [] := rfl

private theorem filterMap_voice? (entries : List Entry) : entries.filterMap Entry.voice? =
    (entries.filter Entry.isSpoken).map fun e => (e.title, e.actorId) := by
  induction entries with
  | nil => rfl
  | cons e rest ih =>
    cases spoken : e.isSpoken with
    | false => simpa [Entry.voice?, spoken] using ih
    | true => simpa [Entry.voice?, spoken] using ih

private theorem Tree.marked_of_check {t : Tree} {node : Node} (h : t.check = .ok node) :
    t.marked false = markedList false t.children := by
  have kind := (check_ok h).1
  obtain ⟨id, content, children⟩ := t
  replace kind : content.kind = .block (.node node.name node.headers) := kind
  rw [marked_block kind]
  rfl

variable {s : Script} {ctx : Context} {id : Nat} {c : Conversation}

/-- The spoken entries of a conversation are those of the lines of its script, in order. -/
theorem lower_voices (h : s.lower ctx id = .ok c) : ∃ node, s.tree.check = .ok node ∧
    (c.entries.filter Entry.isSpoken).map (fun e => (e.title, e.actorId)) =
      s.markedLines.map fun mark =>
      (Scene.ofNode ctx node).voiceOf mark.1 mark.2.2 := by
  obtain ⟨node, complete, exit, checked, added, rfl⟩ := lower_ok h
  refine ⟨node, checked, ?_⟩
  have voices := Scene.addItems_voices s.tree.children (Tree.check_ok checked).2 added
  rw [voices_opening, List.nil_append, ← Tree.marked_of_check checked] at voices
  rw [← filterMap_voice?, markedLines, List.map_filterMap]
  refine (complete.voices_eq.symm.trans voices).trans ?_
  congr 1
  funext mark
  cases spoken : mark.2.2.spoken? <;> simp [Scene.voice?, spoken]

private theorem titles_lower (h : s.lower ctx id = .ok c) :
    (c.entries.filter Entry.isSpoken).map Entry.title =
      s.markedLines.map fun mark => if mark.1 then "Shortcut Option Start" else "Line" := by
  obtain ⟨node, -, voices⟩ := lower_voices h
  have titles := congrArg (List.map Prod.fst) voices
  rw [List.map_map, List.map_map] at titles
  refine titles.trans (List.map_congr_left fun mark _ => ?_)
  simp only [Function.comp, Scene.voiceOf]
  split <;> rfl

private theorem headers_of_check {node : Node} (h : s.tree.check = .ok node) :
    s.headers = node.headers := by
  have kind := (Tree.check_ok h).1
  rw [Tree.kind, content_tree] at kind
  rw [headers, kind]

/-- The actors of a conversation are those of its scene. -/
theorem lower_roles {node : Node} (h : s.lower ctx id = .ok c) (checked : s.tree.check = .ok node) :
    c.actorId = (Scene.ofNode ctx node).actor ∧
    c.conversantId = (Scene.ofNode ctx node).conversant := by
  obtain ⟨node', complete, exit, checked', added, rfl⟩ := lower_ok h
  obtain rfl : node' = node := Except.ok.inj (checked'.symm.trans checked)
  have grown := Scene.addItems_grown node'.body Nat.zero_lt_one added
  rw [Draft.Steps.conversation_eq grown.steps]
  exact ⟨rfl, rfl⟩

/-- Registration and lowering read the same speaker off a line. -/
theorem lineCast_eq {node : Node} (name : s.name = node.name) (file : String)
    (line : Content Spoken) :
    ((Scene.ofNode ctx node).lineCast line none).1 =
      ((Registration.Source.speakerOf? ⟨file, ctx.lines, ctx.defaultLocale, s.name⟩ line).bind
        ctx.database.actorId?).getD ctx.database.metadata.defaultActor := by
  unfold Registration.Source.speakerOf? Registration.Source.speaker?
  rw [name]
  simp only [Scene.lineCast, Scene.lineTexts, Scene.ofNode, Scene.narrator]
  cases ctx.lines.resolve? line.kind.lineId node.name line.line with
  | none => rfl
  | some found => rfl

end Script

section Compile

variable {files : List ScriptFile} {options : Options} {file : ScriptFile} {s : Script}

/-- The actors of a compiled database are those that nodes are lowered with. -/
theorem actors_compile : (compile files options).database.actors =
    (registered files options).1.actors := by
  rw [compile_eq]

private theorem metadata_compile :
    (compile files options).database.metadata = (registered files options).1.metadata := by
  rw [compile_eq]

private theorem assigns_compile {name? : Option String} (byDefault : Nat)
    (known : ∀ name, name? = some name →
      name ∈ (registered files options).1.actors.map Actor.name) :
    (compile files options).database.Assigns name? byDefault
      ((name?.bind (registered files options).1.actorId?).getD byDefault) := by
  have here := Database.assigns_of_known byDefault known
  unfold Database.Assigns at here ⊢
  rwa [actors_compile]

/-- The actor of a header is registered. -/
theorem mem_names_of_header (known : file ∈ files) (member : s ∈ file.scripts)
    {header name : String} (isRole : header = actorHeader ∨ header = conversantHeader)
    (named : s.headers.get? header = some name) :
    name ∈ (registered files options).1.actors.map Actor.name := by
  obtain ⟨isPlayer, mentioned⟩ : ∃ isPlayer, .actor name isPlayer ∈ headerActors s := by
    rw [headerActors_eq]
    rcases isRole with rfl | rfl
    · exact ⟨true, by simp [named]⟩
    · exact ⟨false, by simp [named]⟩
  have asked : (name, isPlayer) ∈ (ofScript file options.defaultLocale s).filterMap
      Mention.actor? :=
    List.mem_filterMap.mpr ⟨_, List.mem_append_left _ mentioned, rfl⟩
  exact mem_names_register known member _ asked

/-- The speaker of a line that no option shows is registered. -/
theorem mem_names_of_line (known : file ∈ files) (member : s ∈ file.scripts) {id : Nat}
    {line : Content Spoken} (listed : (false, (id, line)) ∈ s.markedLines) {name : String}
    (speaks : (Registration.Source.ofScript file options.defaultLocale s).speakerOf? line =
      some name) :
    name ∈ (registered files options).1.actors.map Actor.name := by
  have asked : (name, false) ∈ (ofScript file options.defaultLocale s).filterMap
      Mention.actor? := by
    rw [ofScript, List.filterMap_append]
    apply List.mem_append_right
    rw [actors_of_tree]
    exact List.mem_filterMap.mpr ⟨_, listed, by simp [speaks]⟩
  exact mem_names_register known member _ asked

end Compile

/-- The parts of a conversation are played by the actors that its script names. -/
structure Conversation.CastFrom (c : Conversation) (db : Database) (source : Registration.Source)
    (s : Script) : Prop where
  actor : db.Assigns (s.headers.get? actorHeader) db.metadata.playerActor c.actorId
  conversant : db.Assigns (s.headers.get? conversantHeader) db.metadata.defaultActor c.conversantId
  lines : List.Forall₂ (fun mark e => e.Voices db mark.1 (source.speakerOf? mark.2.2)) s.markedLines
    (c.entries.filter Entry.isSpoken)

private theorem voices_withoutDangling (present : List Nat) (c : Conversation) :
    (withoutDangling present c).entries.filterMap Entry.voice? =
      c.entries.filterMap Entry.voice? := by
  rw [withoutDangling, List.filterMap_map]
  rfl

/-- What a script of a project is lowered to is cast from the script, also without its dangling
links. -/
theorem Script.lower_castFrom {files : List ScriptFile} {options : Options} {file : ScriptFile}
    (known : file ∈ files) {s : Script} (member : s ∈ file.scripts) {id : Nat} {c : Conversation}
    (h : s.lower (contextOf files options file) id = .ok c) (present : List Nat) :
    (withoutDangling present c).CastFrom (compile files options).database
      (.ofScript file options.defaultLocale s) s := by
  obtain ⟨node, checked, voices⟩ := lower_voices h
  obtain ⟨actor, conversant⟩ := lower_roles h checked
  have role : ∀ (header : String) (byDefault : Nat), header = actorHeader ∨
    header = conversantHeader →
      (compile files options).database.Assigns (s.headers.get? header) byDefault
        (((node.headers.get? header).bind (registered files options).1.actorId?).getD
          byDefault) := by
    intro header byDefault isRole
    rw [← headers_of_check checked]
    exact assigns_compile byDefault fun name named => mem_names_of_header known member isRole named
  refine ⟨?_, ?_, ?_⟩
  · change Database.Assigns _ _ _ c.actorId
    rw [metadata_compile, actor]
    exact role actorHeader _ (.inl rfl)
  · change Database.Assigns _ _ _ c.conversantId
    rw [metadata_compile, conversant]
    exact role conversantHeader _ (.inr rfl)
  · rw [← filterMap_voice?, ← voices_withoutDangling present, filterMap_voice?] at voices
    have equal : List.Forall₂ (· = ·) _ _ := List.forall₂_eq_eq_eq ▸ voices.symm
    have pairs := List.forall₂_map_right_iff.mp (List.forall₂_map_left_iff.mp equal)
    have within : ∀ mark ∈ s.markedLines, mark ∈ s.markedLines := fun _ listed => listed
    refine ((List.forall₂_and_left _ _).mpr ⟨within, pairs⟩).imp ?_
    rintro ⟨isChoice, lineId, line⟩ e ⟨listed, voice⟩
    cases isChoice with
    | true =>
      obtain ⟨title, player⟩ := Prod.mk.inj voice
      refine ⟨title.symm, fun _ => ?_, nofun⟩
      rw [metadata_compile]
      exact player.symm
    | false =>
      obtain ⟨title, speaker⟩ := Prod.mk.inj voice
      refine ⟨title.symm, nofun, fun _ => ?_⟩
      rw [metadata_compile, ← speaker, lineCast_eq (name_of_check checked) file.file]
      exact assigns_compile _ fun name speaks => mem_names_of_line known member listed speaks

/-- Registration and lowering agree on who speaks. Every conversation is what a script is lowered
to, with the actors that the headers of the script name, and with an entry for each line of the
script: one of the player for a line that an option shows, and otherwise one of the speaker that the
text names, or of the default actor if it names none. Registration passes over the same lines as
choices, which in a built script are those that `isChoiceLine` finds. It only adds actors; these are
numbered in order, and told apart by name if the player and the default actor are. -/
theorem compile_casts_speakers (files : List ScriptFile) (options : Options) :
    let db := (compile files options).database
    (∀ c ∈ db.conversations, ∃ file ∈ files, ∃ s ∈ file.scripts,
      (∃ whole, s.lower (contextOf files options file) c.id = .ok whole ∧
        c = withoutDangling (db.conversations.map Conversation.id) whole) ∧
      c.CastFrom db (.ofScript file options.defaultLocale s) s) ∧
    (∀ file ∈ files, ∀ s ∈ file.scripts,
      ((mentions (.ofScript file options.defaultLocale s) false s.tree).filterMap Mention.actor? =
        s.markedLines.filterMap fun mark =>
          if mark.1 then none
          else ((Registration.Source.ofScript file options.defaultLocale s).speakerOf? mark.2.2).map
            fun name => (name, false)) ∧
      (∀ ctx id c, s.lower ctx id = .ok c → (c.entries.filter Entry.isSpoken).map Entry.title =
        s.markedLines.map fun mark => if mark.1 then "Shortcut Option Start" else "Line") ∧
      (s.Built → s.markedLines = s.lines.map fun line => (s.isChoiceLine line.1, line))) ∧
    (∀ known : Database, known.actors <+: (register files known options.defaultLocale).1.actors) ∧
    [⟨1, options.playerName, true⟩, ⟨2, options.defaultActorName, false⟩] <+: db.actors ∧
    db.actors.map Actor.id = List.range' 1 db.actors.length ∧
    (options.playerName ≠ options.defaultActorName → (db.actors.map Actor.name).Nodup) := by
  intro db
  let empty : Database := { Database.new options.defaultLocale options.locales options.playerName
    options.defaultActorName with sourceFiles := files.map ScriptFile.file }
  have actors : db.actors = (((ofFiles files options.defaultLocale).filterMap Mention.actor?).foldl
      (fun db a => db.addActor a.1 a.2) empty).actors :=
    actors_compile.trans (actors_register files empty options.defaultLocale)
  refine ⟨?_, ?_, ?_, ?_, ?_, ?_⟩
  · intro c member
    obtain ⟨f, site, whole, known, listed, lowered, same⟩ := exists_script_of_mem_compile member
    have id : c.id = site.id := by
      obtain ⟨node, complete, -, rfl, -⟩ := Script.lower_fits lowered
      rw [same]
      rfl
    refine ⟨f.file, known, site.script, listed, ⟨whole, id ▸ lowered, same⟩, ?_⟩
    rw [same]
    exact Script.lower_castFrom known listed lowered _
  · intro file known s member
    exact ⟨actors_of_tree s _, fun ctx id c lowered => Script.titles_lower lowered,
      fun built => built.markedLines_eq⟩
  · intro known
    exact (register_extends files known options.defaultLocale).actors
  · rw [actors_compile]
    exact (register_extends files empty options.defaultLocale).actors
  · rw [actors]
    have numbered : empty.Numbered := rfl
    exact Database.foldl_addActor_induction numbered
      (fun _ name isPlayer h => h.addActor name isPlayer) _
  · intro different
    rw [actors]
    have distinct : (empty.actors.map Actor.name).Nodup := by simpa [empty, Database.new]
      using different
    exact Database.foldl_addActor_induction
      (motive := fun db => (db.actors.map Actor.name).Nodup) distinct
      (fun _ name isPlayer h => Database.nodup_names_addActor h name isPlayer) _

namespace Sample

/-- A node with an actor in its headers, a speaker in a line, and another one in the line of an
option. -/
def castBundle : Bundle :=
  { files :=
      [{ file := "a"
         conversations :=
          [.mk (.node "Start" (.insert .empty "actor" "Ann")) 1 none none
            [.mk (.line (some "hello") []) 2 none none [],
              .mk .options 3 none none
                [.mk .option 3 none none
                  [.mk (.line (some "yes") []) 3 none none [],
                    .mk (.line none []) 4 none none []]]]]
         strings := (Dict.insert .empty "hello" (.insert .empty "en" "Bob: Hello.")).insert "yes"
          (.insert .empty "en" "Cat: Yes.") }] }

end Sample

open Sample in
/-- The speaker in the line of the option is no actor. -/
theorem compile_casts_speakers_sample : ∃ files, Bundle.read castBundle = .ok files ∧
    (compile files {}).database.actors.map (fun actor => (actor.id, actor.name)) =
      [(1, "Player"), (2, "NPC"), (3, "Ann"), (4, "Bob")] ∧
    ((compile files {}).database.actors.map Actor.name).Nodup ∧
    (compile files {}).database.conversations.map (fun c =>
        (c.entries.filter Entry.isSpoken).map Entry.actorId) = [[4, 1, 2]] ∧
    (∀ c ∈ (compile files {}).database.conversations, ∃ file ∈ files, ∃ s ∈ file.scripts,
      c.CastFrom (compile files {}).database (.ofScript file "en" s) s) ∧
    ∀ file ∈ files, ∀ s ∈ file.scripts, s.Built ∧
      s.markedLines = s.lines.map fun line => (s.isChoiceLine line.1, line) := by
  obtain ⟨files, read⟩ : ∃ files, Bundle.read castBundle = .ok files := ⟨_, rfl⟩
  have actors : (Bundle.read castBundle).toOption.map (fun files =>
      (compile files {}).database.actors.map fun actor => (actor.id, actor.name)) =
      some [(1, "Player"), (2, "NPC"), (3, "Ann"), (4, "Bob")] := by decide +kernel
  have spoken : (Bundle.read castBundle).toOption.map (fun files =>
      (compile files {}).database.conversations.map fun c =>
        (c.entries.filter Entry.isSpoken).map Entry.actorId) = some [[4, 1, 2]] := by decide +kernel
  rw [read] at actors spoken
  obtain ⟨casts, scripts, -, -, -, distinct⟩ := compile_casts_speakers files {}
  refine ⟨files, read, Option.some.inj actors, distinct (by decide), Option.some.inj spoken, ?_, ?_⟩
  · intro c member
    obtain ⟨file, known, s, listed, -, cast⟩ := casts c member
    exact ⟨file, known, s, listed, cast⟩
  · intro file known s member
    have built := Bundle.read_built read file known s member
    exact ⟨built, (scripts file known s member).2.2 built⟩

end Dialogue
