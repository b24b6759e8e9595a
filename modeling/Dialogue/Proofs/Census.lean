import Dialogue.Proofs.Guards
import Mathlib.Algebra.BigOperators.Group.List.Basic
import Mathlib.Tactic.Abel

/-!
How many entries and links a conversation has. Every change of a draft adds to what it holds, so the
entries, the links of lower priority, the links that leave the conversation and the placeholders are
tallied together: one sum over the entries of the draft, and one over the statements of the script.
Lowering a statement adds to the first what the second says.
-/

set_option autoImplicit false
set_option relaxedAutoImplicit false

namespace Dialogue

/-- Numbers of entries, of links of lower priority, of links that leave the conversation, and of
entries that are never entered. -/
@[ext]
structure Tally where
  entries : Nat
  lower : Nat
  outer : Nat
  placeholders : Nat
deriving DecidableEq

namespace Tally

instance : Zero Tally := ⟨⟨0, 0, 0, 0⟩⟩

instance : Add Tally :=
  ⟨fun a b => ⟨a.entries + b.entries, a.lower + b.lower, a.outer + b.outer,
    a.placeholders + b.placeholders⟩⟩

private theorem mk_add_mk (a b c d a' b' c' d' : Nat) :
    (⟨a, b, c, d⟩ : Tally) + ⟨a', b', c', d'⟩ = ⟨a + a', b + b', c + c', d + d'⟩ := rfl

instance : AddCommMonoid Tally where
  add_assoc a b c := by
    cases a; cases b; cases c
    simp only [mk_add_mk, Nat.add_assoc]
  zero_add a := by
    cases a
    exact Tally.ext (Nat.zero_add _) (Nat.zero_add _) (Nat.zero_add _) (Nat.zero_add _)
  add_zero a := rfl
  add_comm a b := by
    cases a; cases b
    exact Tally.ext (Nat.add_comm _ _) (Nat.add_comm _ _) (Nat.add_comm _ _) (Nat.add_comm _ _)
  nsmul := nsmulRec

/-- One entry without links that leads on. -/
def entry : Tally := ⟨1, 0, 0, 0⟩

def lowerLink : Tally := ⟨0, 1, 0, 0⟩

/-- One link that leaves the conversation. -/
def outerLink : Tally := ⟨0, 0, 1, 0⟩

end Tally

def Entry.isPlaceholder (e : Entry) : Bool :=
  e.title = "Unreachable Entry" ∧ e.conditions = "false" ∧ e.falseAction = .block

/-- What an entry adds to the tally of its conversation. -/
def Entry.tally (e : Entry) : Tally :=
  ⟨1, e.links.countP (·.priority = .belowNormal), e.links.countP (·.isConnector),
    if e.isPlaceholder then 1 else 0⟩

instance : Entry.IgnoresGroup Entry.tally := ⟨fun _ _ => rfl⟩

instance : Entry.IgnoresScript Entry.tally := ⟨fun _ _ => rfl⟩

instance : Entry.IgnoresSequence Entry.tally := ⟨fun _ _ => rfl⟩

def Draft.tally (d : Draft) : Tally :=
  (d.view Entry.tally).sum

private theorem Entry.tally_of_title {e : Entry} (bare : e.links = [])
    (title : e.title ≠ "Unreachable Entry") :
    e.tally = .entry := by
  have other : e.isPlaceholder = false := decide_eq_false fun h => title h.1
  simp [tally, bare, other, Tally.entry]

namespace Draft

variable (d : Draft)

variable {d} in
private theorem tally_congr {d' : Draft} (same : d'.view Entry.tally = d.view Entry.tally) :
    d'.tally = d.tally :=
  congrArg List.sum same

private theorem tally_push (e : Entry) : (d.push e).tally = d.tally + e.tally := by
  rw [tally, view_push, List.sum_append, List.sum_singleton, tally]

/-- A change of one entry that adds to what is counted of it adds as much to the sum over all
entries. -/
theorem sum_view_modify {M : Type} [AddCommMonoid M] {v : Entry → M} {i : Nat} (lt : i < d.nextId)
    {f : Entry → Entry} {added : M} (more : ∀ e, d.entryAt? i = some e → v (f e) = v e + added) :
    ((d.modify i f).view v).sum = (d.view v).sum + added := by
  have list : ∀ (entries : List Entry) (i : Nat), i < entries.length →
      (∀ e, entries[i]? = some e → v (f e) = v e + added) →
      ((entries.modify i f).map v).sum = (entries.map v).sum + added := by
    intro entries
    induction entries with
    | nil => exact fun _ lt => absurd lt (Nat.not_lt_zero _)
    | cons e rest ih =>
      intro i lt more
      cases i with
      | zero =>
        have here := more e rfl
        simp only [List.modify_zero_cons, List.map_cons, List.sum_cons, here]
        exact add_right_comm _ _ _
      | succ i =>
        have later := ih i (Nat.lt_of_succ_lt_succ lt) more
        simp only [List.modify_succ_cons, List.map_cons, List.sum_cons, later]
        exact (add_assoc _ _ _).symm
  exact list d.entries i lt more

private theorem tally_link_normal (i j : Nat) : (d.link i j .normal).tally = d.tally := by
  refine tally_congr (d.view_modify (fun e => ?_) i)
  simp [Entry.tally, Entry.isPlaceholder]

private theorem tally_link_lower {i : Nat} (lt : i < d.nextId) (j : Nat) :
    (d.link i j .belowNormal).tally = d.tally + .lowerLink := by
  refine d.sum_view_modify lt fun e _ => ?_
  simp [Entry.tally, Entry.isPlaceholder, Tally.lowerLink, Tally.mk_add_mk]

private theorem tally_connect {i : Nat} (lt : i < d.nextId) (k j : Nat) :
    (d.connect i k j).tally = d.tally + .outerLink := by
  refine d.sum_view_modify lt fun e _ => ?_
  simp [Entry.tally, Entry.isPlaceholder, Tally.outerLink, Tally.mk_add_mk]

private theorem tally_control {title : String} (other : title ≠ "Unreachable Entry") :
    (d.control title).tally = d.tally + .entry := by
  rw [control, tally_push]
  exact congrArg _ (Entry.tally_of_title rfl other)

/-- Guarding an entry makes it no placeholder if its title does not. -/
theorem tally_setConditions {i : Nat} (conditions : String) (action : FalseAction)
    (other : ∀ e, d.entryAt? i = some e → e.title ≠ "Unreachable Entry") (lt : i < d.nextId) :
    (d.setConditions i conditions action).tally = d.tally := by
  rw [← add_zero d.tally]
  refine d.sum_view_modify lt fun e found => ?_
  have plain (e' : Entry) (same : e'.title = e.title) : e'.isPlaceholder = false :=
    decide_eq_false fun h => other e found (same ▸ h.1)
  simp [Entry.tally, plain]

end Draft

namespace Script

/-- What a basic statement adds. A jump has two entries, the second of which is a placeholder; it is
linked out of the conversation, and with lower priority to the placeholder. -/
def Basic.tally : Basic → Tally
  | .jump _ => ⟨2, 1, 1, 1⟩
  | b => ⟨b.entryCount, 0, 0, 0⟩

private theorem Basic.title_ne (b : Basic) : b.title ≠ "Unreachable Entry" := by
  cases b with
  | command name _ _ =>
    rw [Basic.title]
    split <;> decide
  | line | call | jump | set | declare => simp [Basic.title]

namespace Tree

/-- Whether an option, or the line that it shows, is guarded. -/
def isGuardedOption (option : Tree) : Bool :=
  option.content.hasConditions || option.children.head?.any fun shown => shown.content.hasConditions

/-- What a statement adds besides what the statements in it do. A guarded clause has a fallback, and
a menu of guarded options a way around them. -/
def share (t : Tree) : Tally :=
  match t.kind with
  | .basic b => b.tally
  | .block .ifBlock => ⟨2, 0, 0, 0⟩
  | .block (.ifClause _) => if t.content.hasConditions then ⟨3, 1, 0, 0⟩ else ⟨2, 0, 0, 0⟩
  | .block .options => ⟨2, if t.children.all isGuardedOption then 1 else 0, 0, 0⟩
  | .block _ => ⟨0, 0, 0, 0⟩

def census (ts : List Tree) : Tally :=
  (ts.map share).sum

private theorem census_cons (t : Tree) (ts : List Tree) :
    census (t :: ts) = t.share + census ts := by
  rw [census, List.map_cons, List.sum_cons, census]

private theorem census_append (ts us : List Tree) : census (ts ++ us) = census ts + census us := by
  rw [census, List.map_append, List.sum_append, census, census]

/-- A menu can be passed by exactly if each of its options or the line that it shows is guarded. -/
theorem all_isGuarded : ∀ (ts : List Tree) {choices : List Choice}, choiceList ts = .ok choices →
    choices.all Scene.isGuarded = ts.all isGuardedOption
  | [], choices, h => by
    cases h
    rfl
  | .node id option children :: rest, choices, h => by
    obtain ⟨lineId, shown, following, spoken, body, others, rfl, -, -, listed, rfl⟩ :=
      choiceList_cons h
    rw [List.all_cons, List.all_cons, all_isGuarded rest listed]
    exact congrArg (· && _) (Bool.or_comm _ _)

end Tree

end Script

open Script

namespace Scene

variable {scene : Scene}

private theorem tally_withEntry (d : Draft) (pred : Nat) (e : Entry) (fragments : List String) :
    (withEntry d pred e fragments).tally = d.tally + e.tally := by
  rw [withEntry, Draft.tally_link_normal, Draft.tally_congr (Draft.view_addFormatArguments ..),
    Draft.tally_push]

private theorem tally_guarded {e : Entry} (bare : e.links = [])
    (title : e.title ≠ "Unreachable Entry") (condition : Option String) (action : FalseAction) :
    (e.guarded condition action).tally = .entry := by
  apply Entry.tally_of_title
  · cases condition <;> exact bare
  · rwa [Entry.title_guarded]

private theorem tally_withJump (d : Draft) (pred : Nat) (condition : Option String) (target : Nat) :
    (withJump d pred condition target).tally = d.tally + ⟨2, 1, 1, 1⟩ := by
  let entry :=
    { d.fresh "Jump to Conversation" with sequence := Lua.continueSequence, userScript := "" }
  let jumped := d.scriptEntry pred "Jump to Conversation" "" condition
  let connected := jumped.connect d.nextId target Conversation.startId
  have first : jumped.tally = d.tally + .entry := by
    have own : (entry.guarded condition .passthrough).tally = .entry :=
      tally_guarded rfl (show "Jump to Conversation" ≠ "Unreachable Entry" by decide) condition _
    rw [← own]
    exact tally_withEntry d pred (entry.guarded condition .passthrough) []
  have second : connected.tally = jumped.tally + .outerLink :=
    jumped.tally_connect (by simp [jumped]) target Conversation.startId
  have here : d.nextId <
      (connected.push
        ((connected.fresh "Unreachable Entry").guarded (some "false") .block)).nextId := by
    rw [Draft.nextId_push, Draft.nextId_connect, Draft.nextId_scriptEntry]
    omega
  rw [withJump, Draft.tally_link_lower _ here, Draft.tally_push, second, first,
    add_assoc, add_assoc, add_assoc]
  rfl

private theorem Adds.tally {d d' : Draft} {pred exit : Nat} {s : Content Basic}
    (h : Adds scene d pred s d' exit) : d'.tally = d.tally + s.kind.tally := by
  have counted (count : s.kind.entryCount ≠ 2) : s.kind.tally = ⟨s.kind.entryCount, 0, 0, 0⟩ := by
    cases kind : s.kind with
    | jump => exact absurd (by rw [kind]; rfl) count
    | line | command | call | set | declare => rfl
  cases h with
  | directive count =>
    rw [Draft.tally_congr (d.view_appendSequence pred _), counted (by omega), count]
    rfl
  | entry count guarded joins title =>
    have own := tally_guarded joins.links (title ▸ Basic.title_ne s.kind) ‹_› .passthrough
    rw [tally_withEntry, own, counted (by omega), count]
    rfl
  | jump kind =>
    rw [tally_withJump, kind]
    rfl

private theorem tally_openArm (d : Draft) (kind : ClauseKind) :
    (openArm d kind).tally = d.tally + ⟨2, 0, 0, 0⟩ := by
  rw [openArm, Draft.tally_control _ (by cases kind <;> decide),
    Draft.tally_control _ (by cases kind <;> decide), add_assoc]
  rfl

private theorem tally_openBranch (d : Draft) (pred : Nat) :
    (openBranch d pred).tally = d.tally + ⟨2, 0, 0, 0⟩ := by
  rw [openBranch, Draft.tally_control _ (by decide), Draft.tally_link_normal,
    Draft.tally_congr (Draft.view_setGroup ..), Draft.tally_control _ (by decide), add_assoc]
  rfl

private theorem tally_openMenu (d : Draft) (pred : Nat) (choices : List Choice) :
    (openMenu d pred choices).tally = d.tally + ⟨2, 0, 0, 0⟩ := by
  obtain ⟨grouped, same, -, opened⟩ := openMenu_grouped d pred choices
  rw [opened, Draft.tally_control _ (by decide), Draft.tally_link_normal,
    Draft.tally_congr (same Entry.tally), Draft.tally_control _ (by decide), add_assoc]
  rfl

private theorem tally_closeMenu {d : Draft} {start : Nat} (lt : start < d.nextId)
    (choices : List Choice) :
    (closeMenu d start choices).tally =
      d.tally + ⟨0, if choices.all isGuarded then 1 else 0, 0, 0⟩ := by
  unfold closeMenu
  split
  · exact d.tally_link_lower lt _
  · exact (add_zero _).symm

/-- Closing a clause adds its fallback; its first entry is guarded, which is no placeholder. -/
theorem tally_closeClause {d grown : Draft} {kind : ClauseKind} {count exit : Nat}
    (body : Grown scene (openArm d kind) d.nextId count grown exit) (condition : String) :
    (closeClause grown d.nextId exit kind condition).tally = grown.tally + .entry := by
  have opened := nextId_openArm d kind
  have start : d.nextId < grown.nextId := by
    have := body.nextId
    omega
  have made : ((grown.link exit (d.nextId + 1) .normal).view Entry.head)[d.nextId]? =
      some (d.fresh (kind.name ++ " Clause Start")).head := by
    rw [Draft.view_link, Draft.Steps.head_eq body.steps (by omega) (Nat.le_refl _), openArm,
      Draft.view_control_of_lt _ _ (by simp), Draft.view_control_self]
    rfl
  have titled : ∀ e, (grown.link exit (d.nextId + 1) .normal).entryAt? d.nextId = some e →
      e.title ≠ "Unreachable Entry" := by
    intro e found
    obtain ⟨e', found', same⟩ := Draft.exists_of_view made
    obtain rfl := Option.some.inj (found'.symm.trans found)
    have title : e'.title = kind.name ++ " Clause Start" := congrArg Entry.title same
    rw [title]
    cases kind <;> decide
  rw [closeClause, Draft.tally_control _ (by cases kind <;> decide),
    Draft.tally_setConditions _ condition .block titled (by simpa using start),
    Draft.tally_link_normal]

/-- A branch has one link of lower priority for each fallback. -/
theorem tally_linkArms {base : Nat} (finish : Nat) :
    ∀ (arms : List Arm) {d : Draft} {previous : Nat},
    previous < d.nextId → (∀ arm ∈ arms, arm.Within base d.nextId) →
    (linkArms d previous finish arms).tally =
      d.tally + ⟨0, arms.countP (·.fallback.isSome), 0, 0⟩
  | [], _, _, _, _ => (add_zero _).symm
  | arm :: rest, d, previous, lt, within => by
    have later : ∀ arm ∈ rest, arm.Within base d.nextId :=
      fun arm member => within arm (List.mem_cons_of_mem _ member)
    unfold linkArms
    cases fallback : arm.fallback with
    | none =>
      simp only
      rw [tally_linkArms finish rest (by simpa using lt) (by simpa using later),
        Draft.tally_link_normal]
      simp [fallback]
    | some next =>
      have here := ((within arm List.mem_cons_self).fallback next fallback).2
      simp only
      rw [tally_linkArms finish rest (by simpa using here) (by simpa using later),
        Draft.tally_link_normal, Draft.tally_congr (Draft.view_setGroup ..),
          Draft.tally_link_normal,
        Draft.tally_link_lower _ lt, add_assoc]
      simp only [List.countP_cons, fallback, Option.isSome_some, if_true, Tally.lowerLink,
        Tally.mk_add_mk, Nat.add_comm 1, Nat.zero_add]

private theorem tally_enterArms (d : Draft) (start : Nat) (arms : List Arm) :
    (enterArms d start arms).tally = d.tally := by
  unfold enterArms
  split
  · exact d.tally_link_normal _ _
  · rfl

private theorem countP_fallback (start : Nat) (clauses : List Clause) (finish : Nat)
    (otherwise : Option (List Item)) :
    (armsFrom start clauses ++ lastArm finish otherwise).countP (·.fallback.isSome) =
      clauses.length := by
  have guarded : ∀ (clauses : List Clause) (start : Nat),
      (armsFrom start clauses).countP (·.fallback.isSome) = clauses.length := by
    intro clauses
    induction clauses with
    | nil => exact fun _ => rfl
    | cons clause rest ih =>
      intro start
      obtain ⟨line, guard, body⟩ := clause
      rw [armsFrom, List.countP_cons, ih]
      rfl
  have last : (lastArm finish otherwise).countP (·.fallback.isSome) = 0 := by
    cases otherwise <;> rfl
  rw [List.countP_append, guarded, last, Nat.add_zero]

mutual

/-- Lowering an item adds what the statements it stands for say. -/
theorem addItem_tally : ∀ (t : Tree) {i : Item} {d d' : Draft} {pred exit : Nat}, t.item = .ok i →
    pred < d.nextId → scene.addItem d pred i = .ok (d', exit) →
    d'.tally = d.tally + Tree.census t.parts
  | .node id content children, i, d, d', pred, exit, read, lt, h => by
    rw [Tree.parts, Tree.census_cons]
    cases Tree.stands_of_item read with
    | basic kind leaf =>
      simp only [addItem] at h
      subst leaf
      rw [(addBasic_adds h).tally, Tree.partsList]
      simp only [Tree.share, Tree.kind, Tree.content, kind]
      rfl
    | @branch clauses otherwise kind filled sound listed =>
      obtain ⟨guarded, arms, complete, last, added, addedLast, rfl, rfl⟩ := addItem_branch_ok h
      have opened := nextId_openBranch d pred
      have inner := addClauses_tally children sound listed added addedLast
      obtain ⟨-, count, rfl⟩ := addClauses_grown clauses added
      obtain ⟨-, countLast, rfl⟩ := addOtherwise_grown otherwise addedLast
      have within := arms_within (openBranch d pred).nextId clauses otherwise
      rw [← count, ← countLast] at within
      rw [tally_linkArms _ _ (by rw [nextId_enterArms]; omega) (by rwa [nextId_enterArms]),
        tally_enterArms, countP_fallback, inner, tally_openBranch, add_assoc]
      simp only [Tree.share, Tree.kind, Tree.content, kind]
    | @menu choices kind options listed =>
      obtain ⟨complete, _, added, rfl, rfl⟩ := addItem_menu_ok h
      have opened := nextId_openMenu d pred choices
      obtain ⟨-, count⟩ := addChoices_grown choices (Nat.le_refl d.nextId) (Nat.le_succ d.nextId)
        (by omega) (by omega) added
      have own : (Script.Tree.node id content children).share =
          ⟨2, 0, 0, 0⟩ + ⟨0, if choices.all isGuarded then 1 else 0, 0, 0⟩ := by
        rw [Tree.all_isGuarded children listed]
        simp only [Tree.share, Tree.kind, Tree.content, kind, Tally.mk_add_mk, Nat.zero_add]
        rfl
      rw [tally_closeMenu (by omega), addChoices_tally children options listed (by omega) added,
        tally_openMenu, own]
      abel

private theorem addItems_tally :
    ∀ (ts : List Tree) {items : List Item} {d d' : Draft} {pred exit : Nat},
    Tree.itemList ts = .ok items → pred < d.nextId → scene.addItems d pred items = .ok (d', exit) →
    d'.tally = d.tally + Tree.census (Tree.partsList ts)
  | [], items, d, d', pred, exit, read, lt, h => by
    cases read
    cases h
    exact (add_zero _).symm
  | t :: rest, items, d, d', pred, exit, read, lt, h => by
    obtain ⟨first, others, one, more, rfl⟩ := Tree.itemList_cons read
    simp only [addItems, bind_eq_ok_iff] at h
    obtain ⟨⟨grown, middle⟩, added, h⟩ := h
    have here := addItem_grown first lt added
    rw [addItems_tally rest more here.exit_lt h, addItem_tally t one lt added, Tree.partsList,
      Tree.census_append, add_assoc]

/-- The links of lower priority to the fallbacks are made when all clauses are lowered. -/
theorem addClauses_tally : ∀ (ts : List Tree) {isFirst : Bool} {clauses : List Clause}
    {otherwise : Option (List Item)} {d guarded complete : Draft} {kind : ClauseKind}
    {arms last : List Arm}, clausesFlaw? isFirst ts = none →
    Tree.clauseList ts = .ok (clauses, otherwise) →
    scene.addClauses d kind clauses = .ok (guarded, arms) →
    scene.addOtherwise guarded otherwise = .ok (complete, last) →
    complete.tally + ⟨0, clauses.length, 0, 0⟩ = d.tally + Tree.census (Tree.partsList ts)
  | [], _, clauses, otherwise, d, guarded, complete, kind, arms, last, _, read, h, hlast => by
    cases read
    cases h
    cases hlast
    rfl
  | .node id content body :: rest, isFirst, clauses, otherwise, d, guarded, complete, kind, arms,
      last, sound, read, h, hlast => by
    rw [Tree.partsList, Tree.parts, List.cons_append, Tree.census_cons, Tree.census_append]
    obtain ⟨clauseKind, isClause⟩ : ∃ kind, content.kind = .block (.ifClause kind) :=
      Tree.clause_of_sound sound
    obtain ⟨items, listed, guarded | last⟩ := Tree.clauseList_cons sound read
    · obtain ⟨guard, others, guard?, soundRest, listedRest, rfl⟩ := guarded
      obtain ⟨grown, exit, condition, otherArms, added, -, addedRest, rfl⟩ := addClauses_cons_ok h
      have start : d.nextId < (openArm d kind).nextId := by rw [nextId_openArm]; omega
      have rest := addClauses_tally rest soundRest listedRest addedRest hlast
      have closed := tally_closeClause (addItems_grown items start added) condition
      have own : (Script.Tree.node id content body).share = ⟨2, 0, 0, 0⟩ + .entry + .lowerLink := by
        simp only [Tree.share, Tree.kind, Tree.content, isClause, Content.hasConditions, guard?]
        rfl
      have body := addItems_tally body listed start added
      calc complete.tally + ⟨0, others.length + 1, 0, 0⟩
        _ = complete.tally + ⟨0, others.length, 0, 0⟩ + .lowerLink := by
          rw [add_assoc]
          rfl
        _ = _ := by
          rw [rest, closed, body, tally_openArm, own]
          abel
    · obtain ⟨bare, rfl, rfl, rfl⟩ := last
      cases h
      simp only [addOtherwise, bind_eq_ok_iff, pure_eq_ok_iff, Prod.mk.injEq] at hlast
      obtain ⟨⟨grown, exit⟩, added, rfl, -⟩ := hlast
      have start : d.nextId < (openArm d .else_).nextId := by rw [nextId_openArm]; omega
      have own : (Script.Tree.node id content body).share = ⟨2, 0, 0, 0⟩ := by
        simp only [Tree.share, Tree.kind, Tree.content, isClause, Content.hasConditions, bare]
        rfl
      rw [Draft.tally_link_normal, addItems_tally body listed start added,
        tally_openArm, own, add_assoc, add_assoc]
      rfl

private theorem addChoices_tally : ∀ (ts : List Tree) {choices : List Choice} {d d' : Draft}
    {start finish : Nat} {allGuarded : Bool}, (∀ t ∈ ts, t.kind = .block .option) →
    Tree.choiceList ts = .ok choices →
    start < d.nextId → scene.addChoices d start finish choices = .ok (d', allGuarded) →
    d'.tally = d.tally + Tree.census (Tree.partsList ts)
  | [], choices, d, d', start, finish, _, _, read, _, h => by
    cases read
    cases h
    exact (add_zero _).symm
  | .node id option children :: rest, choices, d, d', start, finish, _, options, read, lt, h => by
    obtain ⟨lineId, shown, following, spoken, body, others, rfl, kind, listed, listedRest, rfl⟩ :=
      Tree.choiceList_cons read
    obtain ⟨condition, fragments, grown, exit, _, -, -, added, h⟩ := addChoices_cons_ok h
    obtain ⟨isOption, options⟩ := List.forall_mem_cons.mp options
    replace isOption : option.kind = .block .option := isOption
    have headed :=
      nextId_withChoice scene d start (option.withKind ())
        (shown.withKind spoken) condition fragments
    have lowered := addItems_grown body (by omega) added
    have total := lowered.nextId
    have first : (scene.withChoice d start (option.withKind ()) (shown.withKind spoken) condition
        fragments).tally = d.tally + .entry := by
      rw [withChoice, tally_withEntry, tally_guarded (lineEntry_joins scene d _ _).links]
      simp [lineEntry_title]
    have none : (Script.Tree.node id option (.node lineId shown [] :: following)).share = 0 := by
      simp only [Tree.share, Tree.kind, Tree.content, isOption]
      rfl
    have line : (Script.Tree.node lineId shown []).share = .entry := by
      simp only [Tree.share, Tree.kind, Tree.content, kind]
      rfl
    rw [addChoices_tally rest options listedRest (by rw [Draft.nextId_link]; omega) h,
      Draft.tally_link_normal, addItems_tally following listed (by omega) added, first]
    simp only [Tree.partsList, Tree.parts, List.cons_append, List.nil_append, Tree.census_cons,
      Tree.census_append, none, line]
    abel

end

end Scene

namespace Script

namespace Tree

def isLine (t : Tree) : Bool :=
  t.kind matches .basic (.line _)

/-- A command that has an entry: one that ends the conversation, or one that is not known. -/
def isRun (t : Tree) : Bool :=
  match t.kind with
  | .basic (.command name _ _) =>
    Command.Kind.ofName name = .stop || Command.Kind.ofName name = .custom
  | _ => false

def isCall (t : Tree) : Bool :=
  t.kind matches .basic (.call _)

def isSet (t : Tree) : Bool :=
  t.kind matches .basic (.set ..)

def isDeclare (t : Tree) : Bool :=
  t.kind matches .basic (.declare _)

def isJump (t : Tree) : Bool :=
  t.kind matches .basic (.jump _)

def isIfBlock (t : Tree) : Bool :=
  t.kind matches .block .ifBlock

def isIfClause (t : Tree) : Bool :=
  t.kind matches .block (.ifClause _)

def isOptionList (t : Tree) : Bool :=
  t.kind matches .block .options

def isGuardedClause (t : Tree) : Bool :=
  t.isIfClause && t.content.hasConditions

/-- An option list in which every option is guarded. -/
def isGuardedList (t : Tree) : Bool :=
  t.isOptionList && t.children.all isGuardedOption

private theorem share_eq (t : Tree) : t.share =
    ⟨(if t.isLine then 1 else 0) + (if t.isRun then 1 else 0) + (if t.isCall then 1 else 0) +
      (if t.isSet then 1 else 0) + (if t.isDeclare then 1 else 0) + 2 *
        (if t.isJump then 1 else 0) +
      2 * (if t.isIfBlock then 1 else 0) + 2 * (if t.isIfClause then 1 else 0) +
      (if t.isGuardedClause then 1 else 0) + 2 * (if t.isOptionList then 1 else 0),
    (if t.isGuardedClause then 1 else 0) + (if t.isJump then 1 else 0) +
      (if t.isGuardedList then 1 else 0),
    if t.isJump then 1 else 0, if t.isJump then 1 else 0⟩ := by
  obtain ⟨id, ⟨kind, line, conditions, expression⟩, children⟩ := t
  simp only [share, isLine, isRun, isCall, isSet, isDeclare, isJump, isIfBlock, isIfClause,
    isOptionList, isGuardedClause, isGuardedList, Tree.kind, Tree.content]
  cases kind with
  | basic b =>
    cases b with
    | command name arguments rawText =>
      cases sort : Command.Kind.ofName name <;> simp [Basic.tally, Basic.entryCount, sort]
    | line | call | jump | set | declare => rfl
  | block b =>
    cases b with
    | ifClause kind =>
      by_cases guarded : Content.hasConditions
        (⟨.block (.ifClause kind), line, conditions, expression⟩ : Content Kind) = true <;>
      simp [guarded]
    | options => simp
    | node | ifBlock | option => rfl

private theorem census_eq (ts : List Tree) : census ts =
    ⟨ts.countP isLine + ts.countP isRun + ts.countP isCall + ts.countP isSet + ts.countP isDeclare +
      2 * ts.countP isJump + 2 * ts.countP isIfBlock + 2 * ts.countP isIfClause +
      ts.countP isGuardedClause + 2 * ts.countP isOptionList,
    ts.countP isGuardedClause + ts.countP isJump + ts.countP isGuardedList, ts.countP isJump,
    ts.countP isJump⟩ := by
  induction ts with
  | nil => rfl
  | cons t rest ih =>
    rw [census_cons, ih, share_eq, Tally.mk_add_mk]
    simp only [List.countP_cons, Tally.mk.injEq]
    omega

end Tree

end Script

private theorem Draft.tally_eq (d : Draft) : d.tally =
    ⟨d.entries.length, d.conversation.links.countP (·.priority = .belowNormal),
      d.conversation.links.countP (·.isConnector), d.entries.countP Entry.isPlaceholder⟩ := by
  have list : ∀ entries : List Entry, (entries.map Entry.tally).sum =
      ⟨entries.length, (entries.flatMap Entry.links).countP (·.priority = .belowNormal),
        (entries.flatMap Entry.links).countP (·.isConnector),
          entries.countP Entry.isPlaceholder⟩ := by
    intro entries
    induction entries with
    | nil => rfl
    | cons e rest ih =>
      rw [List.map_cons, List.sum_cons, ih, Entry.tally, Tally.mk_add_mk]
      simp only [List.length_cons, List.flatMap_cons, List.countP_append, List.countP_cons,
        Nat.add_comm]
  exact list d.entries

/-- What a lowered conversation holds is what the statements of its script, at any depth, say: so
many entries; a link of lower priority for each guarded clause, each jump and each option list in
which every option is guarded; and a link out of the conversation and a placeholder for each
jump. -/
theorem Script.lower_census {s : Script} {ctx : Context} {id : Nat} {c : Conversation}
    (lowered : s.lower ctx id = .ok c) :
    let parts := s.tree.parts
    c.entries.length = 1 + parts.countP Tree.isLine + parts.countP Tree.isRun +
        parts.countP Tree.isCall + parts.countP Tree.isSet + parts.countP Tree.isDeclare +
        2 * parts.countP Tree.isJump + 2 * parts.countP Tree.isIfBlock +
        2 * parts.countP Tree.isIfClause + parts.countP Tree.isGuardedClause +
        2 * parts.countP Tree.isOptionList ∧
      c.links.countP (·.priority = .belowNormal) = parts.countP Tree.isGuardedClause +
        parts.countP Tree.isJump + parts.countP Tree.isGuardedList ∧
      c.links.countP (·.isConnector) = parts.countP Tree.isJump ∧
      c.entries.countP Entry.isPlaceholder = parts.countP Tree.isJump := by
  obtain ⟨node, complete, exit, checked, added, rfl⟩ := lower_ok lowered
  obtain ⟨kind, listed⟩ := Tree.check_ok checked
  have own : s.tree.share = ⟨0, 0, 0, 0⟩ := by simp only [Tree.share, kind]
  have total := Scene.addItems_tally s.tree.children listed Nat.zero_lt_one added
  have opening : ((Scene.ofNode ctx node).opening id).tally = ⟨1, 0, 0, 0⟩ := by
    rw [Scene.opening, Draft.start, Draft.tally_push, Entry.tally_of_title rfl
      (show Draft.startTitle ≠ "Unreachable Entry" by decide)]
    rfl
  have census : Tree.census s.tree.parts = Tree.census (Tree.partsList s.tree.children) := by
    rw [Tree.parts_eq, Tree.census_cons, own]
    exact zero_add _
  rw [opening, ← census, Tree.census_eq, Draft.tally_eq, Tally.mk_add_mk, Tally.mk.injEq] at total
  obtain ⟨entries, lower, outer, placeholders⟩ := total
  simp only [Nat.zero_add] at lower outer placeholders
  refine ⟨?_, lower, outer, placeholders⟩
  rw [show complete.conversation.entries.length = complete.entries.length from rfl, entries]
  omega

open Sample in
theorem Script.lower_census_sample : ∃ c, script.lower context 1 = .ok c ∧ c.entries.length = 17 ∧
    c.links.countP (·.priority = .belowNormal) = 3 ∧ c.links.countP (·.isConnector) = 1 ∧
    c.entries.countP Entry.isPlaceholder = 1 := by
  have succeeds : (script.lower context 1).isOk = true := by decide +kernel
  cases lowered : script.lower context 1 with
  | error e =>
    rw [lowered] at succeeds
    cases succeeds
  | ok c =>
    obtain ⟨entries, lower, outer, placeholders⟩ := Script.lower_census lowered
    exact ⟨c, rfl, entries.trans (by decide +kernel), lower.trans (by decide +kernel),
      outer.trans (by decide +kernel), placeholders.trans (by decide +kernel)⟩

end Dialogue
