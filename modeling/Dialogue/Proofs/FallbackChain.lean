import Dialogue.Proofs.Attachment
import Dialogue.Proofs.BlockLayout

/-!
The chain of fallbacks of an if block. From the start of a block each guarded clause is tried first
and its fallback after it, and each clause leads to the end of the block. Once a block is lowered
only its last entry gets further links, so what the lowering of the block has made of the others is
what the finished conversation holds.
-/

set_option autoImplicit false
set_option relaxedAutoImplicit false

namespace Dialogue

open Script

/-- Whether an entry is a group, and its links. -/
structure Sign where
  isGroup : Bool
  links : List Link

/-- An entry without links. -/
def Sign.blank : Sign := ⟨false, []⟩

def Entry.sign (e : Entry) : Sign :=
  ⟨e.isGroup, e.links⟩

namespace Draft

variable (d : Draft)

private theorem sign_link_self (i j : Nat) (p : Priority) : ((d.link i j p).view Entry.sign)[i]? =
    ((d.view Entry.sign)[i]?).map fun s =>
      ⟨s.isGroup, s.links ++ [.inner d.conversation.id i j p]⟩ :=
  d.view_modify_self (by intro; rfl) i

private theorem sign_setGroup_self (i : Nat) : ((d.setGroup i).view Entry.sign)[i]? =
    ((d.view Entry.sign)[i]?).map fun s => ⟨true, s.links⟩ :=
  d.view_modify_self (by intro; rfl) i

end Draft

namespace Scene

variable {scene : Scene}

/-- How the clauses of a branch are linked, from the entry where the choice between them is made: to
the clause, and with lower priority to its fallback if it has one, where the choice between the
clauses that are left is made. Every clause leads to the end. -/
def Chained (sign? : Nat → Option Sign) (id finish : Nat) : Nat → List Arm → Prop
  | previous, [] => sign? previous = some ⟨false, [.inner id previous finish .normal]⟩
  | previous, ⟨start, last, some fallback⟩ :: rest =>
    sign? previous = some ⟨true,
        [.inner id previous start .normal, .inner id previous fallback .belowNormal]⟩ ∧
      sign? last = some ⟨false, [.inner id last finish .normal]⟩ ∧
      Chained sign? id finish fallback rest
  | previous, ⟨start, last, none⟩ :: rest =>
    sign? previous = some ⟨false, [.inner id previous start .normal]⟩ ∧
      sign? last = some ⟨false, [.inner id last finish .normal]⟩ ∧ rest = []

section LinkArm

variable {d : Draft} {previous last fallback : Nat} (next finish : Nat)

private theorem sign_linkArm_previous {s : Sign} (first : (d.view Entry.sign)[previous]? = some s)
    (apart : fallback ≠ previous) (apart' : last ≠ previous) :
    ((linkArm d previous last fallback next finish).view Entry.sign)[previous]? = some
      ⟨true, s.links ++ [.inner d.conversation.id previous fallback .belowNormal]⟩ := by
  rw [linkArm, Draft.view_link_of_ne _ _ _ apart', Draft.sign_setGroup_self,
    Draft.view_link_of_ne _ _ _ apart, Draft.sign_link_self, first]
  rfl

private theorem sign_linkArm_fallback (blank : (d.view Entry.sign)[fallback]? = some .blank)
    (apart : previous ≠ fallback) (apart' : last ≠ fallback) :
    ((linkArm d previous last fallback next finish).view Entry.sign)[fallback]? =
      some ⟨false, [.inner d.conversation.id fallback next .normal]⟩ := by
  rw [linkArm, Draft.view_link_of_ne _ _ _ apart', Draft.view_setGroup_of_ne _ apart,
    Draft.sign_link_self, Draft.view_link_of_ne _ _ _ apart, blank]
  rfl

private theorem sign_linkArm_last (blank : (d.view Entry.sign)[last]? = some .blank)
    (apart : previous ≠ last) (apart' : fallback ≠ last) :
    ((linkArm d previous last fallback next finish).view Entry.sign)[last]? =
      some ⟨false, [.inner d.conversation.id last finish .normal]⟩ := by
  rw [linkArm, Draft.sign_link_self, Draft.view_setGroup_of_ne _ apart,
    Draft.view_link_of_ne _ _ _ apart', Draft.view_link_of_ne _ _ _ apart, blank]
  rfl

private theorem sign_linkArm_of_lt {i : Nat} (h : previous < i) (h' : last < i)
    (h'' : fallback < i) :
    ((linkArm d previous last fallback next finish).view Entry.sign)[i]? =
      (d.view Entry.sign)[i]? := by
  rw [linkArm, Draft.view_link_of_ne _ _ _ (by omega), Draft.view_setGroup_of_ne _ (by omega),
    Draft.view_link_of_ne _ _ _ (by omega), Draft.view_link_of_ne _ _ _ (by omega)]

end LinkArm

/-- The links that the end of a branch adds make the chain, if the entries of the clauses had none
before. The entry before the first clause has its first link already, and may be a group if there is
a guarded clause. -/
theorem linkArms_chained {id finish : Nat} (otherwise : Option (List Item)) :
    ∀ (clauses : List Clause) {base previous : Nat} {isGroup : Bool} {d : Draft} {all : List Arm},
      all = armsFrom base clauses ++ lastArm (base + clausesCount clauses) otherwise →
      previous < base → d.conversation.id = id →
      (d.view Entry.sign)[previous]? =
        some ⟨isGroup, [.inner id previous ((all.head?.map Arm.start).getD finish) .normal]⟩ →
      (clauses = [] → isGroup = false) →
      (∀ arm ∈ all, arm.Ends fun i => (d.view Entry.sign)[i]? = some .blank) →
      Chained (((linkArms d previous finish all).view Entry.sign)[·]?) id finish previous all
  | [], base, previous, isGroup, d, all, list, before, same, first, plain, blank => by
    obtain rfl := plain rfl
    cases otherwise with
    | none =>
      subst list
      exact first
    | some body =>
      replace list : all = [⟨base, base + 1, none⟩] := list
      subst list
      have last : (d.view Entry.sign)[base + 1]? = some .blank :=
        (blank _ List.mem_cons_self).finish
      refine ⟨?_, ?_, rfl⟩
      · change ((d.link (base + 1) finish .normal).view Entry.sign)[previous]? = _
        rw [Draft.view_link_of_ne _ _ _ (by omega)]
        exact first
      · change ((d.link (base + 1) finish .normal).view Entry.sign)[base + 1]? = _
        rw [Draft.sign_link_self, last, same]
        rfl
  | .mk line guard body :: rest, base, previous, isGroup, d, all, list, before, same, first, _,
      blank => by
    obtain ⟨fallback, found⟩ : ∃ fallback, fallback = base + 2 + bodyCount body := ⟨_, rfl⟩
    obtain ⟨others, later⟩ : ∃ others, others = armsFrom (fallback + 1) rest ++
        lastArm (fallback + 1 + clausesCount rest) otherwise := ⟨_, rfl⟩
    have split : all = ⟨base, base + 1, some fallback⟩ :: others := by
      have next : base + 3 + bodyCount body = fallback + 1 := by omega
      rw [list, later, add_clausesCount_cons, armsFrom, next, ← found, List.cons_append]
    subst split
    have within := arms_within (fallback + 1) rest otherwise
    rw [← later] at within
    have here := blank _ List.mem_cons_self
    let next := (others.head?.map Arm.start).getD finish
    let linked := linkArm d previous (base + 1) fallback next finish
    have frame : ∀ i, i < fallback →
        ((linkArms linked fallback finish others).view Entry.sign)[i]? =
          (linked.view Entry.sign)[i]? := by
      intro i low
      have apart : ∀ arm ∈ others, arm.Ends (· ≠ i) :=
        fun arm member => (within arm member).ends.mono (fun j bounds => by omega)
      exact Draft.view_congr (linkArms_entryAt?_eq finish others (by omega) apart)
    have blankOthers : ∀ arm ∈ others, arm.Ends fun i =>
        (linked.view Entry.sign)[i]? = some .blank := by
      intro arm member
      have bounds := (within arm member).ends
      have old := blank arm (List.mem_cons_of_mem _ member)
      have kept : ∀ i, fallback + 1 ≤ i → (d.view Entry.sign)[i]? = some .blank →
          (linked.view Entry.sign)[i]? = some .blank := by
        intro i high blank
        rw [sign_linkArm_of_lt _ _ (by omega) (by omega) (by omega), blank]
      exact ⟨kept _ bounds.finish.1 old.finish,
        fun i found => kept i (bounds.fallback i found).1 (old.fallback i found)⟩
    have atPrevious := sign_linkArm_previous next finish first
      (show fallback ≠ previous by omega) (show base + 1 ≠ previous by omega)
    have atLast := sign_linkArm_last next finish here.finish
      (show previous ≠ base + 1 by omega) (show fallback ≠ base + 1 by omega)
    have atFallback := sign_linkArm_fallback next finish (here.fallback _ rfl)
      (show previous ≠ fallback by omega) (show base + 1 ≠ fallback by omega)
    rw [same] at atPrevious atLast atFallback
    exact ⟨(frame previous (by omega)).trans atPrevious, (frame (base + 1) (by omega)).trans atLast,
      linkArms_chained otherwise rest later (Nat.lt_succ_self _) same atFallback (fun _ => rfl)
        blankOthers⟩

end Scene

namespace Script.Tree

/-- What a clause is called in the titles of its entries. -/
def clauseName (clause : Tree) : String :=
  match clause.kind with
  | .block (.ifClause kind) => kind.name
  | kind => kind.name

/-- The clauses of a sound block are called by their place and by whether they are guarded. -/
theorem clauseName_of_sound {isFirst : Bool} {t : Tree} {rest : List Tree}
    (sound : clausesFlaw? isFirst (t :: rest) = none) : t.clauseName =
      (if t.content.hasConditions then if isFirst then ClauseKind.if_ else .elseIf
        else .else_).name := by
  have here := (Option.or_eq_none_iff.mp sound).1
  unfold clauseFlaw? at here
  unfold clauseName
  split at here
  · cases isFirst <;> simp_all
  · cases isFirst <;> simp_all
  · cases isFirst <;> cases rest <;> simp_all
  · cases here

end Script.Tree

namespace Scene

variable {scene : Scene}

/-- An entry as the first one of a clause, with the guard of the clause if it has one. -/
structure Enters (clause : Tree) (e : Entry) : Prop where
  title : e.title = clause.clauseName ++ " Clause Start"
  guard : match clause.content.guard? with
    | some tokens => tokens.fragment = .ok e.conditions ∧ e.falseAction = .block
    | none => e.conditions = ""

/-- What the entries of a clause are known by. -/
structure Headed (head? : Nat → Option Entry) (arm : Arm) (clause : Tree) : Prop where
  start : ∃ e, head? arm.start = some e ∧ Enters clause e
  finish : ∃ e, head? arm.finish = some e ∧ e.title = clause.clauseName ++ " Clause End"
  fallback : ∀ i, arm.fallback = some i →
    ∃ e, head? i = some e ∧ e.title = clause.clauseName ++ " Clause Fallback"

/-- The entries of a clause before the clauses of its block are linked. -/
structure Opened (d : Draft) (arm : Arm) (clause : Tree) : Prop where
  headed : Headed ((d.view Entry.head)[·]?) arm clause
  blank : arm.Ends fun i => (d.view Entry.sign)[i]? = some .blank

private theorem Headed.congr {head? head?' : Nat → Option Entry} {arm : Arm}
    {clause : Tree} {base limit : Nat} (h : Headed head? arm clause)
    (within : arm.Within base limit)
    (same : ∀ i, base ≤ i → i < limit → head?' i = head? i) : Headed head?' arm clause where
  start := by
    rw [same _ within.start.1 within.start.2]
    exact h.start
  finish := by
    rw [same _ within.finish.1 within.finish.2]
    exact h.finish
  fallback i found := by
    have bounds := within.fallback i found
    rw [same i bounds.1 bounds.2]
    exact h.fallback i found

private theorem headed_congr {head? head?' : Nat → Option Entry} {arms : List Arm}
    {clauses : List Tree} {base limit : Nat} (within : ∀ arm ∈ arms, arm.Within base limit)
    (same : ∀ i, base ≤ i → i < limit → head?' i = head? i)
    (h : List.Forall₂ (Headed head?) arms clauses) : List.Forall₂ (Headed head?') arms clauses := by
  induction h with
  | nil => exact .nil
  | cons here _ ih =>
    obtain ⟨first, later⟩ := List.forall_mem_cons.mp within
    exact .cons (here.congr first same) (ih later)

section Arms

variable {d grown : Draft} {kind : ClauseKind} {count exit : Nat}

/-- The two entries that a clause is opened with, when its body is lowered and linked to its end. -/
theorem Grown.arm_entries (lowered : Grown scene (openArm d kind) d.nextId count grown exit) :
    ((grown.link exit (d.nextId + 1) .normal).view Entry.head)[d.nextId]? =
        some (d.fresh (kind.name ++ " Clause Start")).head ∧
      ∃ e, (grown.link exit (d.nextId + 1) .normal).entryAt? (d.nextId + 1) = some e ∧
        e.title = kind.name ++ " Clause End" ∧ e.sign = .blank := by
  have opened := nextId_openArm d kind
  obtain ⟨-, apart⟩ := lowered.start_lt
  constructor
  · rw [Draft.view_link]
    refine (Draft.Steps.head_eq lowered.steps (by omega) (Nat.le_refl _)).trans ?_
    rw [openArm, Draft.control, Draft.view_push_of_lt _ _ (by simp)]
    exact d.view_push_self _
  · rw [Draft.link_eq, Draft.entryAt?_modify_of_ne _ _ apart,
      Draft.Steps.entryAt?_eq lowered.steps (Nat.le_refl _) (by omega) (by omega)]
    have last := (d.control (kind.name ++ " Clause Start")).entryAt?_push_self
      { (d.control (kind.name ++ " Clause Start")).fresh (kind.name ++ " Clause End") with
        sequence := Lua.continueSequence }
    rw [Draft.nextId_control] at last
    exact ⟨_, last, rfl, rfl⟩

private theorem opened_of_entries {d : Draft} {arm : Arm} {clause : Tree}
    (start : ∃ e, (d.view Entry.head)[arm.start]? = some e ∧ Enters clause e)
    (finish : ∃ e, d.entryAt? arm.finish = some e ∧
      e.title = clause.clauseName ++ " Clause End" ∧ e.sign = .blank)
    (fallback : ∀ i, arm.fallback = some i → ∃ e, d.entryAt? i = some e ∧
      e.title = clause.clauseName ++ " Clause Fallback" ∧ e.sign = .blank) :
      Opened d arm clause := by
  have head {i : Nat} {e : Entry} (found : d.entryAt? i = some e) :
      (d.view Entry.head)[i]? = some e.head := by
    rw [Draft.getElem?_view, found, Option.map_some]
  have sign {i : Nat} {e : Entry} (found : d.entryAt? i = some e) (blank : e.sign = .blank) :
      (d.view Entry.sign)[i]? = some .blank := by
    rw [Draft.getElem?_view, found, Option.map_some, blank]
  obtain ⟨last, found, title, blank⟩ := finish
  refine ⟨⟨start, ⟨last.head, head found, title⟩, ?_⟩, sign found blank, ?_⟩
  · intro i listed
    obtain ⟨e, found, title, -⟩ := fallback i listed
    exact ⟨e.head, head found, title⟩
  · intro i listed
    obtain ⟨e, found, -, blank⟩ := fallback i listed
    exact sign found blank

/-- A guarded clause that is lowered. -/
theorem closeClause_opened (lowered : Grown scene (openArm d kind) d.nextId count grown exit)
    {condition : String} {clause : Tree} (named : clause.clauseName = kind.name)
    {tokens : Expression} (guard : clause.content.guard? = some tokens)
    (written : tokens.fragment = .ok condition) :
    Opened (closeClause grown d.nextId exit kind condition)
      ⟨d.nextId, d.nextId + 1, some grown.nextId⟩ clause := by
  obtain ⟨total, -⟩ := lowered.start_lt
  obtain ⟨first, last⟩ := lowered.arm_entries
  obtain ⟨e, found, same⟩ := Draft.exists_of_view first
  apply opened_of_entries
  · refine ⟨{ e with conditions := condition, falseAction := .block : Entry }.head, ?_, ?_, ?_⟩
    · rw [closeClause, Draft.control, Draft.view_push_of_lt _ _ (by simp; omega),
        Draft.getElem?_view, Draft.setConditions, Draft.entryAt?_modify_self, found]
      rfl
    · rw [named]
      exact congrArg Entry.title same
    · rw [guard]
      exact ⟨written, rfl⟩
  · simp only [named]
    rwa [closeClause_entryAt?_eq _ _ (by omega) (by omega)]
  · rintro i ⟨⟩
    have fallback := ((grown.link exit (d.nextId + 1) .normal).setConditions d.nextId condition
      .block).entryAt?_push_self
      { ((grown.link exit (d.nextId + 1) .normal).setConditions d.nextId condition .block).fresh
          (kind.name ++ " Clause Fallback") with sequence := Lua.continueSequence }
    rw [Draft.nextId_setConditions, Draft.nextId_link] at fallback
    rw [named]
    exact ⟨_, fallback, rfl, rfl⟩

/-- The last clause, which has no guard. -/
theorem otherwise_opened (lowered : Grown scene (openArm d kind) d.nextId count grown exit)
    {clause : Tree} (named : clause.clauseName = kind.name) (bare : clause.content.guard? = none) :
    Opened (grown.link exit (d.nextId + 1) .normal) ⟨d.nextId, d.nextId + 1, none⟩ clause := by
  obtain ⟨first, last⟩ := lowered.arm_entries
  refine opened_of_entries ⟨_, first, ?_, ?_⟩ ?_ nofun
  · rw [named]
    rfl
  · rw [bare]
    rfl
  · rwa [named]

private theorem Opened.congr {d d' : Draft} {arm : Arm} {clause : Tree} (h : Opened d arm clause)
    (start : arm.start < d.nextId) (same : ∀ i, i < d.nextId → d'.entryAt? i = d.entryAt? i) :
    Opened d' arm clause := by
  have within : arm.Within 0 d.nextId :=
    ⟨⟨Nat.zero_le _, start⟩, ⟨Nat.zero_le _, d.lt_nextId_of_view h.blank.finish⟩,
      fun i found => ⟨Nat.zero_le _, d.lt_nextId_of_view (h.blank.fallback i found)⟩⟩
  refine ⟨h.headed.congr within fun i _ lt => ?_, ?_, ?_⟩
  · exact Draft.view_congr (same i lt)
  · exact (Draft.view_congr (same _ within.finish.2)).trans h.blank.finish
  · intro i found
    exact (Draft.view_congr (same i (within.fallback i found).2)).trans (h.blank.fallback i found)

end Arms

private theorem blank_of_opened {d : Draft} {arms : List Arm} {clauses : List Tree}
    (h : List.Forall₂ (Opened d) arms clauses) :
    ∀ arm ∈ arms, arm.Ends fun i => (d.view Entry.sign)[i]? = some .blank := by
  induction h with
  | nil => exact nofun
  | cons here _ ih => exact List.forall_mem_cons.mpr ⟨here.blank, ih⟩

/-- All clauses of a block when they are lowered and not yet linked. -/
theorem addClauses_opened : ∀ (ts : List Tree) {isFirst : Bool} {clauses : List Clause}
    {otherwise : Option (List Item)} {d guarded complete : Draft} {arms last : List Arm},
    clausesFlaw? isFirst ts = none → Tree.clauseList ts = .ok (clauses, otherwise) →
    scene.addClauses d (if isFirst then .if_ else .elseIf) clauses = .ok (guarded, arms) →
    scene.addOtherwise guarded otherwise = .ok (complete, last) →
    List.Forall₂ (Opened complete) (Tree.arms d.nextId ts) ts
  | [], _, _, _, _, _, _, _, _, _, _, _, _ => .nil
  | .node id content body :: rest, isFirst, clauses, otherwise, d, guarded, complete, arms, last,
      sound, h, added, addedLast => by
    have named := Tree.clauseName_of_sound sound
    obtain ⟨items, listed, guardedClause | lastClause⟩ := Tree.clauseList_cons sound h
    · obtain ⟨guard, others, known, soundRest, listedRest, rfl⟩ := guardedClause
      obtain ⟨grown, exit, condition, _, addedBody, written, addedRest, rfl⟩ :=
        addClauses_cons_ok added
      have conditions : content.hasConditions = true := by simp [Content.hasConditions, known]
      rw [Tree.content, if_pos conditions] at named
      have lowered := addItems_grown items (by rw [nextId_openArm]; omega) addedBody
      obtain ⟨total, -⟩ := lowered.start_lt
      have here := closeClause_opened lowered named known (fragment_of_located written)
      have closed : (closeClause grown d.nextId exit (if isFirst then .if_ else .elseIf)
          condition).nextId = grown.nextId + 1 := by
        simp [closeClause]
      have steps := (addClauses_grown others addedRest).1
      have stepsLast := (addOtherwise_grown otherwise addedLast).1
      have later := addClauses_opened rest soundRest listedRest addedRest addedLast
      rw [closed] at later
      have place : Tree.arms d.nextId (.node id content body :: rest) =
          ⟨d.nextId, d.nextId + 1, some grown.nextId⟩ :: Tree.arms (grown.nextId + 1) rest := by
        simp only [Tree.arms, conditions, if_true, Tree.length_originsList body listed, total]
      rw [place]
      refine .cons (here.congr (by simp only; omega) fun i lt => ?_) later
      have grownLater := Draft.Steps.nextId_le steps
      rw [Draft.Steps.entryAt?_eq stepsLast (Nat.le_refl _) (by omega) (by omega),
        Draft.Steps.entryAt?_eq steps (Nat.le_refl _) lt (by omega)]
    · obtain ⟨bare, rfl, rfl, rfl⟩ := lastClause
      have conditions : content.hasConditions = false := by simp [Content.hasConditions, bare]
      rw [Tree.content, if_neg (by simp [conditions])] at named
      cases added
      simp only [addOtherwise, bind_eq_ok_iff, pure_eq_ok_iff, Prod.mk.injEq] at addedLast
      obtain ⟨⟨grown, exit⟩, addedBody, rfl, -⟩ := addedLast
      have lowered := addItems_grown items (by rw [nextId_openArm]; omega) addedBody
      have place : Tree.arms d.nextId [.node id content body] =
          [⟨d.nextId, d.nextId + 1, none⟩] := by
        simp [Tree.arms, conditions]
      rw [place]
      exact .cons (otherwise_opened lowered named bare) .nil

end Scene

private theorem Scene.Chained.congr {sign? sign?' : Nat → Option Sign}
    {id finish : Nat} {P : Nat → Prop} (same : ∀ i, P i → sign?' i = sign? i) :
    ∀ (arms : List Scene.Arm) {previous : Nat}, P previous →
      (∀ arm ∈ arms, arm.Ends P) → Scene.Chained sign? id finish previous arms →
      Scene.Chained sign?' id finish previous arms
  | [], previous, first, _, h => (same previous first).trans h
  | ⟨start, last, some fallback⟩ :: rest, previous, first, ends, h => by
    have here := ends _ List.mem_cons_self
    have later := fun arm member => ends arm (List.mem_cons_of_mem _ member)
    exact ⟨(same previous first).trans h.1, (same last here.finish).trans h.2.1,
      Chained.congr same rest (here.fallback fallback rfl) later h.2.2⟩
  | ⟨start, last, none⟩ :: rest, previous, first, ends, h => by
    have here := ends _ List.mem_cons_self
    exact ⟨(same previous first).trans h.1, (same last here.finish).trans h.2.1, h.2.2⟩

namespace Script.Chain

variable {b : Chain} {id : Nat} {scene : Scene} {d d' : Draft}

/-- A draft that holds the entries of an if block as they stay. -/
structure Holds (b : Chain) (id : Nat) (d : Draft) : Prop where
  kind : b.block.kind = .block .ifBlock
  filled : b.block.children ≠ []
  sound : clausesFlaw? true b.block.children = none
  start : ∃ e, (d.view Entry.head)[b.start]? = some e ∧ e.title = "If Block Start"
  finish : ∃ e, (d.view Entry.head)[b.finish]? = some e ∧ e.title = "If Block End"
  headed : List.Forall₂ (Scene.Headed ((d.view Entry.head)[·]?)) b.arms b.block.children
  chained : Scene.Chained ((d.view Entry.sign)[·]?) id b.finish b.start b.arms
  inside : b.limit ≤ d.nextId

/-- An entry that may get further links when the block is lowered. -/
def Clear (b : Chain) (j : Nat) : Prop :=
  j = b.finish ∨ j < b.start ∨ b.limit ≤ j

namespace Holds

private theorem congr (h : b.Holds id d) (more : d.nextId ≤ d'.nextId)
    (head : ∀ i, b.start ≤ i → i < b.limit → (d'.view Entry.head)[i]? = (d.view Entry.head)[i]?)
    (sign : ∀ i, b.start ≤ i → i < b.limit → i ≠ b.finish →
      (d'.view Entry.sign)[i]? = (d.view Entry.sign)[i]?) :
    b.Holds id d' := by
  have limit := limit_eq h.kind
  have last : b.finish = b.start + 1 := rfl
  have within : ∀ arm ∈ b.arms, arm.Within (b.start + 2) b.limit := by
    rw [limit]
    exact Tree.arms_within_origins b.block.children (b.start + 2)
  refine { h with start := ?_, finish := ?_, headed := ?_, chained := ?_, inside := ?_ }
  · rw [head b.start (Nat.le_refl _) (by omega)]
    exact h.start
  · rw [head b.finish (by omega) (by omega)]
    exact h.finish
  · exact Scene.headed_congr within (fun i low high => head i (by omega) high) h.headed
  · refine Scene.Chained.congr (P := fun i => b.start ≤ i ∧ i < b.limit ∧ i ≠ b.finish)
      (fun i bounds => sign i bounds.1 bounds.2.1 bounds.2.2) b.arms
      ⟨Nat.le_refl _, by omega, by omega⟩ ?_ h.chained
    intro arm member
    exact (within arm member).ends.mono fun i bounds => ⟨by omega, bounds.2, by omega⟩
  · exact Nat.le_trans h.inside more

private theorem of_entries (h : b.Holds id d) (more : d.nextId ≤ d'.nextId)
    (same : ∀ i, b.start ≤ i → i < b.limit → d'.entryAt? i = d.entryAt? i) : b.Holds id d' := by
  refine h.congr more (fun i low high => ?_) fun i low high _ => ?_
  · exact Draft.view_congr (same i low high)
  · exact Draft.view_congr (same i low high)

private theorem steps {base pred floor : Nat} (h : b.Holds id d)
    (steps : Draft.Steps scene base pred floor d d') (hbase : base ≤ d.nextId)
    (low : b.limit ≤ base) (clear : b.Clear pred) : b.Holds id d' := by
  refine h.congr (Draft.Steps.nextId_le steps) (fun i _ high => ?_) fun i low high apart => ?_
  · exact Draft.Steps.head_eq steps (by omega) hbase
  · unfold Clear at clear
    exact Draft.Steps.view_eq steps hbase (by omega) (by omega)

private theorem link (h : b.Holds id d) {i : Nat} (j : Nat) (p : Priority) (clear : b.Clear i) :
    b.Holds id (d.link i j p) := by
  refine h.congr (Nat.le_of_eq (d.nextId_link i j p).symm) (fun k _ _ => ?_)
    fun k low high apart => ?_
  · rw [Draft.view_link]
  · unfold Clear at clear
    exact d.view_link_of_ne j p (by omega)

private theorem closeClause {start exit : Nat} (h : b.Holds id d) (kind : ClauseKind)
    (condition : String) (before : start < b.start) (clear : b.Clear exit) :
    b.Holds id (Scene.closeClause d start exit kind condition) := by
  have inside := h.inside
  have next : (Scene.closeClause d start exit kind condition).nextId = d.nextId + 1 := by
    simp [Scene.closeClause]
  refine (h.link (start + 1) .normal clear).of_entries ?_ fun i low high => ?_
  · rw [next, Draft.nextId_link]
    exact Nat.le_succ _
  · exact Scene.closeClause_entryAt?_eq kind condition (by omega) (by omega)

end Holds

end Script.Chain

namespace Scene

variable {scene : Scene}

private theorem id_enterArms (d : Draft) (start : Nat) (arms : List Arm) :
    (enterArms d start arms).conversation.id = d.conversation.id := by
  unfold enterArms
  split <;> rfl

/-- The first two entries of a branch, as they are before its clauses are linked. -/
theorem openBranch_entries {d : Draft} {pred : Nat} (before : pred < d.nextId) :
    (∃ e, (openBranch d pred).entryAt? d.nextId = some e ∧ e.title = "If Block Start" ∧
        e.sign = ⟨true, []⟩) ∧
      ∃ e, (openBranch d pred).entryAt? (d.nextId + 1) = some e ∧ e.title = "If Block End" := by
  let started := ((d.control "If Block Start").setGroup d.nextId).link pred d.nextId .normal
  have next : started.nextId = d.nextId + 1 := by simp [started]
  constructor
  · have first : (openBranch d pred).entryAt? d.nextId = some
        { d.fresh "If Block Start" with sequence := Lua.continueSequence, isGroup := true } := by
      rw [openBranch, Draft.control, Draft.entryAt?_push_of_lt _ _ (by simp), Draft.link_eq,
        Draft.entryAt?_modify_of_ne _ _ (by omega), Draft.setGroup, Draft.entryAt?_modify_self,
        Draft.control, Draft.entryAt?_push_self]
      rfl
    exact ⟨_, first, rfl, rfl⟩
  · have last := started.entryAt?_push_self
      { started.fresh "If Block End" with sequence := Lua.continueSequence }
    rw [next] at last
    exact ⟨_, last, rfl⟩

/-- An if block holds as soon as it is lowered. -/
theorem branch_holds {d d' guarded complete : Draft} {pred : Nat} {statement : Nat}
    {content : Content Kind} {children : List Tree} {clauses : List Clause}
    {otherwise : Option (List Item)} (before : pred < d.nextId)
    (kind : content.kind = .block .ifBlock) (filled : children ≠ [])
    (sound : clausesFlaw? true children = none)
    (listed : Tree.clauseList children = .ok (clauses, otherwise))
    (branched : Branched scene d pred clauses otherwise guarded complete d') :
    Chain.Holds ⟨.node statement content children, d.nextId⟩ d.conversation.id d' := by
  obtain ⟨⟨first, foundFirst, titleFirst, signFirst⟩, last, foundLast, titleLast⟩ :=
    openBranch_entries before
  have opened := nextId_openBranch d pred
  have arms_eq := Tree.arms_eq children (d.nextId + 2) sound listed
  rw [← Conversation.arms] at arms_eq
  have head (i : Nat) : (d'.view Entry.head)[i]? = (complete.view Entry.head)[i]? := by
    rw [branched.linked, view_linkArms, view_enterArms]
  have clausesOpened : List.Forall₂ (Opened complete)
      (Tree.arms (d.nextId + 2) children) children := by
    have all := addClauses_opened children sound listed branched.added branched.addedLast
    rwa [opened] at all
  have guardedFirst : clauses ≠ [] := by
    obtain ⟨t, rest, rfl⟩ := List.exists_cons_of_ne_nil filled
    exact Tree.guarded_of_first sound listed
  have all_ne : Conversation.arms d.nextId clauses otherwise ≠ [] := by
    obtain ⟨⟨line, guard, body⟩, rest, rfl⟩ := List.exists_cons_of_ne_nil guardedFirst
    simp [Conversation.arms, armsFrom]
  have same : complete.conversation.id = d.conversation.id := by
    rw [Draft.Steps.conversation_eq (addOtherwise_grown otherwise branched.addedLast).1,
      Draft.Steps.conversation_eq (addClauses_grown clauses branched.added).1]
    rfl
  have entered :
    ((enterArms complete d.nextId (Conversation.arms d.nextId clauses otherwise)).view
      Entry.sign)[d.nextId]? = some ⟨true, [.inner d.conversation.id d.nextId
        (((Conversation.arms d.nextId clauses otherwise).head?.map Arm.start).getD (d.nextId + 1))
        .normal]⟩ := by
    obtain ⟨arm, rest, list⟩ := List.exists_cons_of_ne_nil all_ne
    have start : (complete.view Entry.sign)[d.nextId]? = some ⟨true, []⟩ := by
      rw [Draft.getElem?_view, branched.opened_entryAt?_eq (by omega), foundFirst,
        Option.map_some, signFirst]
    rw [list]
    change ((complete.link d.nextId arm.start .normal).view Entry.sign)[d.nextId]? = _
    rw [Draft.sign_link_self, start, same]
    rfl
  have blank : ∀ arm ∈ Conversation.arms d.nextId clauses otherwise, arm.Ends fun i =>
      ((enterArms complete d.nextId (Conversation.arms d.nextId clauses otherwise)).view
        Entry.sign)[i]? =
        some .blank := by
    intro arm member
    have bounds := Branched.within d clauses otherwise arm member
    have before : arm.Ends fun i => (complete.view Entry.sign)[i]? = some .blank :=
      blank_of_opened clausesOpened arm (arms_eq ▸ member)
    have kept (i : Nat) (high : d.nextId + 2 ≤ i) : ((enterArms complete d.nextId
        (Conversation.arms d.nextId clauses otherwise)).view Entry.sign)[i]? =
          (complete.view Entry.sign)[i]? := by
      exact Draft.view_congr (enterArms_entryAt?_eq complete _ (by omega))
    exact ⟨(kept _ bounds.finish.1).trans before.finish,
      fun i found => (kept i (bounds.fallback i found).1).trans (before.fallback i found)⟩
  exact {
    kind := kind
    filled := filled
    sound := sound
    start := by
      refine ⟨first.head, ?_, titleFirst⟩
      change (d'.view Entry.head)[d.nextId]? = _
      rw [head, Draft.getElem?_view, branched.opened_entryAt?_eq (by omega),
        foundFirst, Option.map_some]
    finish := by
      refine ⟨last.head, ?_, titleLast⟩
      change (d'.view Entry.head)[d.nextId + 1]? = _
      rw [head, Draft.getElem?_view, branched.opened_entryAt?_eq (by omega),
        foundLast, Option.map_some]
    headed := by
      rw [show d'.view Entry.head = complete.view Entry.head by
        rw [branched.linked, view_linkArms, view_enterArms]]
      exact clausesOpened.imp fun _ _ opened => opened.headed
    chained := by
      change Chained ((d'.view Entry.sign)[·]?) d.conversation.id (d.nextId + 1) d.nextId
        (Tree.arms (d.nextId + 2) children)
      rw [branched.linked, arms_eq]
      exact linkArms_chained otherwise clauses rfl (by omega)
        ((id_enterArms _ _ _).trans same) entered
        (fun none => absurd none guardedFirst) blank
    inside := by
      have limit : Chain.limit ⟨.node statement content children, d.nextId⟩ =
          d.nextId + 2 + (Tree.clauseOrigins children).length := Chain.limit_eq kind
      rw [limit, branched.nextId, Tree.length_clauseOrigins children sound listed]
      omega }

/-- A block that is lowered keeps its entries, apart from its end, behind which the next item is. -/
structure Kept (b : Chain) (id : Nat) (d : Draft) (exit : Nat) : Prop where
  holds : b.Holds id d
  clear : b.Clear exit

/-- Choices that are lowered later leave a block as it is. -/
theorem holds_addChoices {b : Chain} {id : Nat} (choices : List Choice) {d d' : Draft}
    {start finish : Nat} (h : b.Holds id d) (before : start < b.start) (lt : finish < d.nextId)
    {allGuarded : Bool}
    (added : scene.addChoices d start finish choices = .ok (d', allGuarded)) : b.Holds id d' := by
  have inside := h.inside
  have stays : b.start ≤ b.limit := Nat.le_add_right _ _
  obtain ⟨steps, -⟩ :=
    addChoices_grown choices (Nat.zero_le start) (Nat.zero_le finish) (by omega) lt added
  exact Chain.Holds.steps h steps (Nat.le_refl _) inside (.inr (.inl before))

mutual

private theorem addItem_chains : ∀ (t : Tree) {i : Item} {d d' : Draft} {pred exit : Nat},
    t.item = .ok i →
    pred < d.nextId → scene.addItem d pred i = .ok (d', exit) →
    ∀ b ∈ t.chains d.nextId, Kept b d.conversation.id d' exit
  | .node statement content children, i, d, d', pred, exit, h, before, added, b, member => by
    cases Tree.stands_of_item h with
    | basic kind => simp [Tree.chains, kind] at member
    | @branch clauses otherwise kind filled sound listed =>
      simp only [Tree.chains, kind] at member
      obtain ⟨rfl, guarded, complete, branched⟩ := exists_branched added
      rcases List.mem_cons.mp member with rfl | member
      · exact ⟨branch_holds before kind filled sound listed branched, .inl rfl⟩
      · have opened := nextId_openBranch d pred
        have bounds := (Tree.stands_of_mem_clauseChains children member).bounds
        have outside := Tree.outside_of_mem_clauseChains children member
        rw [Tree.arms_eq children _ sound listed, ← Conversation.arms] at outside
        rw [← opened] at member
        have holds :=
          addClauses_chains children sound listed branched.added branched.addedLast b member
        refine ⟨holds.of_entries ?_ fun i low high => ?_, .inr (.inl (by omega))⟩
        · rw [branched.nextId, branched.nextComplete, branched.nextGuarded]
        · refine branched.entryAt?_eq (by omega) fun arm listed => ?_
          exact (outside arm listed).mono fun j apart => by omega
    | @menu choices kind options listed =>
      simp only [Tree.chains, kind] at member
      obtain ⟨complete, _, addedChoices, rfl, rfl⟩ := addItem_menu_ok added
      have opened := nextId_openMenu d pred choices
      have bounds := (Tree.stands_of_mem_optionChains children member).bounds
      rw [← opened] at member
      have holds := addChoices_chains children listed (by omega) (by omega) addedChoices b member
      rw [openMenu_id] at holds
      refine ⟨?_, .inr (.inl (by omega))⟩
      unfold closeMenu
      split
      · exact holds.link _ .belowNormal (.inr (.inl (by omega)))
      · exact holds

private theorem addItems_chains :
    ∀ (ts : List Tree) {items : List Item} {d d' : Draft} {pred exit : Nat},
    Tree.itemList ts = .ok items → pred < d.nextId → scene.addItems d pred items = .ok (d', exit) →
    ∀ b ∈ Tree.chainsList d.nextId ts, Kept b d.conversation.id d' exit
  | [], _, _, _, _, _, _, _, _, _, member => by cases member
  | t :: rest, items, d, d', pred, exit, h, before, added, b, member => by
    obtain ⟨first, others, one, more, rfl⟩ := Tree.itemList_cons h
    simp only [addItems, bind_eq_ok_iff] at added
    obtain ⟨⟨grown, middle⟩, addedFirst, addedRest⟩ := added
    have lowered := addItem_grown first before addedFirst
    have later := addItems_grown others lowered.exit_lt addedRest
    rcases List.mem_append.mp member with member | member
    · obtain ⟨holds, clear⟩ := addItem_chains t one before addedFirst b member
      have inside := holds.inside
      refine ⟨holds.steps later.steps (Nat.le_refl _) inside clear, ?_⟩
      rcases later.exit_new with rfl | new
      · exact clear
      · exact .inr (.inr (by omega))
    · rw [Tree.length_origins t one, ← lowered.nextId] at member
      have kept := addItems_chains rest more lowered.exit_lt addedRest b member
      rwa [Draft.Steps.conversation_eq lowered.steps] at kept

private theorem addClauses_chains : ∀ (ts : List Tree) {isFirst : Bool} {clauses : List Clause}
    {otherwise : Option (List Item)} {d guarded complete : Draft} {kind : ClauseKind}
    {arms last : List Arm}, clausesFlaw? isFirst ts = none →
    Tree.clauseList ts = .ok (clauses, otherwise) →
    scene.addClauses d kind clauses = .ok (guarded, arms) →
    scene.addOtherwise guarded otherwise = .ok (complete, last) →
    ∀ b ∈ Tree.clauseChains d.nextId ts, b.Holds d.conversation.id complete
  | [], _, _, _, _, _, _, _, _, _, _, _, _, _, _, member => by cases member
  | .node statement content children :: rest, isFirst, clauses, otherwise, d, guarded, complete,
      kind, arms, last, sound, h, added, addedLast, b, member => by
    have opened : ∀ kind, (openArm d kind).nextId = d.nextId + 2 := nextId_openArm d
    obtain ⟨body, listed, guardedClause | lastClause⟩ := Tree.clauseList_cons sound h
    · obtain ⟨guard, others, known, soundRest, listedRest, rfl⟩ := guardedClause
      obtain ⟨grown, exit, condition, _, addedBody, -, addedRest, rfl⟩ := addClauses_cons_ok added
      have conditions : content.hasConditions = true := by simp [Content.hasConditions, known]
      have lowered := addItems_grown body (by rw [opened]; omega) addedBody
      obtain ⟨total, -⟩ := lowered.start_lt
      have closed : (closeClause grown d.nextId exit kind condition).nextId = grown.nextId + 1 := by
        simp [closeClause]
      rw [Tree.clauseChains, List.mem_append, if_pos conditions,
        Tree.length_originsList children listed, total, ← closed] at member
      rcases member with inner | later
      · have bounds := (Tree.stands_of_mem_chainsList children inner).bounds
        rw [← opened kind] at inner
        obtain ⟨holds, clear⟩ :=
          addItems_chains children listed (by rw [opened]; omega) addedBody b inner
        have holds := holds.closeClause kind condition (show d.nextId < b.start by omega) clear
        have stepsRest := (addClauses_grown others addedRest).1
        have stepsLast := (addOtherwise_grown otherwise addedLast).1
        have inside := holds.inside
        have holds := holds.steps stepsRest (Nat.le_refl _) inside (.inr (.inr inside))
        have inside := holds.inside
        exact holds.steps stepsLast (Nat.le_refl _) inside (.inr (.inr inside))
      · have holds := addClauses_chains rest soundRest listedRest addedRest addedLast b later
        have same : (closeClause grown d.nextId exit kind condition).conversation.id =
            d.conversation.id := lowered.id_eq
        rwa [same] at holds
    · obtain ⟨bare, rfl, rfl, rfl⟩ := lastClause
      have conditions : content.hasConditions = false := by simp [Content.hasConditions, bare]
      rw [Tree.clauseChains, Tree.clauseChains, List.append_nil, ← opened .else_] at member
      cases added
      simp only [addOtherwise, bind_eq_ok_iff, pure_eq_ok_iff, Prod.mk.injEq] at addedLast
      obtain ⟨⟨grown, exit⟩, addedBody, rfl, -⟩ := addedLast
      obtain ⟨holds, clear⟩ :=
        addItems_chains children listed (by rw [opened]; omega) addedBody b member
      exact holds.link _ .normal clear

private theorem addChoices_chains {allGuarded : Bool} :
    ∀ (ts : List Tree) {choices : List Choice} {d d' : Draft}
    {start finish : Nat}, Tree.choiceList ts = .ok choices → start < d.nextId → finish < d.nextId →
    scene.addChoices d start finish choices = .ok (d', allGuarded) →
    ∀ b ∈ Tree.optionChains d.nextId ts, b.Holds d.conversation.id d'
  | [], _, _, _, _, _, _, _, _, _, _, member => by cases member
  | .node _ _ [] :: rest, _, _, _, _, _, h, _, _, _, _, _ => by cases h
  | .node statement option (.node lineId shown below :: following) :: rest, choices, d, d', start,
      finish, h, before, last, added, b, member => by
    obtain ⟨_, _, _, spoken, body, others, same, kind, listed, listedRest, rfl⟩ :=
      Tree.choiceList_cons h
    cases same
    obtain ⟨condition, fragments, grown, exit, _, -, -, addedBody, addedRest⟩ :=
      addChoices_cons_ok added
    have headed :=
      nextId_withChoice scene d start (option.withKind ())
        (shown.withKind spoken) condition fragments
    have first :=
      withChoice_steps scene d start (option.withKind ()) (shown.withKind spoken) condition
        fragments (Nat.le_refl d.nextId)
    have lowered := addItems_grown body (by omega) addedBody
    have total := lowered.nextId
    have same : (scene.withChoice d start (option.withKind ()) (shown.withKind spoken) condition
        fragments).conversation.id = d.conversation.id := by
      rw [Draft.Steps.conversation_eq first]
    rw [Tree.optionChains, List.mem_append, Tree.length_originsList following listed] at member
    rcases member with inner | later
    · have bounds := (Tree.stands_of_mem_chainsList following inner).bounds
      rw [← headed] at inner
      obtain ⟨holds, clear⟩ := addItems_chains following listed (by omega) addedBody b inner
      rw [same] at holds
      exact holds_addChoices others (holds.link finish .normal clear) (by omega)
        (by rw [Draft.nextId_link]; omega) addedRest
    · have next : d.nextId + 1 + bodyCount body = (grown.link exit finish .normal).nextId := by
        rw [Draft.nextId_link]
        omega
      rw [next] at later
      have holds := addChoices_chains rest listedRest (by omega) (by omega) addedRest b later
      rwa [show (grown.link exit finish .normal).conversation.id = d.conversation.id from
        lowered.id_eq.trans same] at holds

end

end Scene

namespace Scene.Chained

variable {sign? : Nat → Option Sign} {id finish : Nat}

/-- The entry where the choice is made for the `k`-th time leads to the `k`-th clause, or to the end
if there is none, and else to the next such entry. -/
theorem station : ∀ {arms : List Arm} {previous : Nat}, Chained sign? id finish previous arms →
    ∀ {k i : Nat}, (previous :: arms.filterMap Arm.fallback)[k]? = some i →
      sign? i = some ⟨decide (k < (arms.filterMap Arm.fallback).length),
        .inner id i ((arms[k]?.map Arm.start).getD finish) .normal ::
          ((arms.filterMap Arm.fallback)[k]?.map (.inner id i · .belowNormal)).toList⟩
  | [], _, h, k, i, found => by
    obtain ⟨rfl, rfl⟩ : k = 0 ∧ _ = i := by simpa using List.getElem?_eq_some_iff.mp found
    exact h
  | ⟨_, _, some _⟩ :: _, _, h, 0, i, found => by
    cases found
    exact h.1
  | ⟨_, _, some _⟩ :: _, _, h, k + 1, i, found => by
    have later := station h.2.2 found
    simpa using later
  | ⟨_, _, none⟩ :: _, _, h, k, i, found => by
    obtain ⟨first, -, rfl⟩ := h
    obtain ⟨rfl, rfl⟩ : k = 0 ∧ _ = i := by simpa using List.getElem?_eq_some_iff.mp found
    exact first

/-- Every clause leads to the end. -/
theorem last : ∀ {arms : List Arm} {previous : Nat}, Chained sign? id finish previous arms →
    ∀ arm ∈ arms, sign? arm.finish = some ⟨false, [.inner id arm.finish finish .normal]⟩
  | ⟨_, _, some _⟩ :: _, _, h, arm, member => by
    rcases List.mem_cons.mp member with rfl | member
    · exact h.2.1
    · exact last h.2.2 arm member
  | ⟨_, _, none⟩ :: _, _, h, arm, member => by
    obtain ⟨-, here, rfl⟩ := h
    cases List.mem_singleton.mp member
    exact here

/-- As many fallbacks come before the fallback of a clause as clauses come before the clause. -/
theorem fallback_eq : ∀ {arms : List Arm} {previous : Nat}, Chained sign? id finish previous arms →
    ∀ {k : Nat} {arm : Arm}, arms[k]? = some arm → (arms.filterMap Arm.fallback)[k]? = arm.fallback
  | ⟨_, _, some _⟩ :: _, _, _, 0, _, found => by
    cases found
    rfl
  | ⟨_, _, some _⟩ :: _, _, h, k + 1, _, found => fallback_eq h.2.2 found
  | ⟨_, _, none⟩ :: _, _, h, k, _, found => by
    obtain ⟨-, -, rfl⟩ := h
    cases k with
    | zero =>
      cases found
      rfl
    | succ k => cases found

end Scene.Chained

/-- The entries of the `k`-th clause of an if block in a conversation: the first has the guard of
the clause, the last leads to the end of the block and nowhere else, and the fallback, if there is
one, is the next entry where a choice is made. -/
structure Conversation.HoldsArm (c : Conversation) (b : Chain) (k : Nat) (arm : Scene.Arm)
    (clause : Tree) : Prop where
  start : ∃ e, c.entryById? arm.start = some e ∧ Scene.Enters clause e
  finish : ∃ e, c.entryById? arm.finish = some e ∧ e.title = clause.clauseName ++ " Clause End" ∧
    e.links = [.inner c.id arm.finish b.finish .normal]
  fallback : b.stations[k + 1]? = arm.fallback ∧ ∀ i, arm.fallback = some i →
    ∃ e, c.entryById? i = some e ∧ e.title = clause.clauseName ++ " Clause Fallback"

/-- The entries of an if block in a conversation. The `k`-th entry where a choice is made leads to
the `k`-th clause, or to the end of the block if there is none; while there are guarded clauses it
is a group and leads to its fallback too, with lower priority. -/
structure Conversation.HoldsChain (c : Conversation) (b : Chain) : Prop where
  guards : 0 < b.guards ∧
    (b.guards = b.block.children.length ∨ b.guards + 1 = b.block.children.length)
  guarded : ∀ k clause, b.block.children[k]? = some clause →
    (clause.content.hasConditions = true ↔ k < b.guards)
  unguarded : ∀ clause, b.block.children[b.guards]? = some clause →
    clause.kind = .block (.ifClause .else_)
  length_stations : b.stations.length = b.guards + 1
  start : ∃ e, c.entryById? b.start = some e ∧ e.title = "If Block Start"
  finish : ∃ e, c.entryById? b.finish = some e ∧ e.title = "If Block End"
  station : ∀ k i, b.stations[k]? = some i → ∃ e, c.entryById? i = some e ∧
    e.isGroup = decide (k < b.guards) ∧
    e.links = .inner c.id i ((b.arms[k]?.map Scene.Arm.start).getD b.finish) .normal ::
      (b.stations[k + 1]?.map (.inner c.id i · .belowNormal)).toList
  length_arms : b.arms.length = b.block.children.length
  arm : ∀ k arm clause, b.arms[k]? = some arm → b.block.children[k]? = some clause →
    c.HoldsArm b k arm clause

namespace Script.Chain.Holds

variable {b : Chain} {d : Draft}

private theorem arms (h : b.Holds d.conversation.id d)
    (same : ∀ i, d.conversation.entryById? i = d.entryAt? i) {k : Nat}
    {arm : Scene.Arm} {clause : Tree} (found : b.arms[k]? = some arm)
    (listed : b.block.children[k]? = some clause) :
    d.conversation.HoldsArm b k arm clause := by
  have headed : Scene.Headed ((d.view Entry.head)[·]?) arm clause := by
    obtain ⟨lt, rfl⟩ := List.getElem?_eq_some_iff.mp found
    obtain ⟨lt', rfl⟩ := List.getElem?_eq_some_iff.mp listed
    exact h.headed.get lt lt'
  have head {i : Nat} {head : Entry} (known : (d.view Entry.head)[i]? = some head) :
      ∃ e, d.conversation.entryById? i = some e ∧ e.head = head := by
    rw [same]
    exact Draft.exists_of_view known
  refine ⟨?_, ?_, h.chained.fallback_eq found, fun i last => ?_⟩
  · obtain ⟨_, known, enters⟩ := headed.start
    obtain ⟨e, found, rfl⟩ := head known
    exact ⟨e, found, enters.title, enters.guard⟩
  · obtain ⟨_, known, title⟩ := headed.finish
    obtain ⟨e, here, rfl⟩ := head known
    have sign := h.chained.last arm (List.mem_of_getElem? found)
    rw [Draft.getElem?_view, ← same, here] at sign
    exact ⟨e, here, title, congrArg Sign.links (Option.some.inj sign)⟩
  · obtain ⟨_, known, title⟩ := headed.fallback i last
    obtain ⟨e, here, rfl⟩ := head known
    exact ⟨e, here, title⟩

/-- What a draft holds, its conversation holds. -/
theorem chains (h : b.Holds d.conversation.id d)
    (same : ∀ i, d.conversation.entryById? i = d.entryAt? i) : d.conversation.HoldsChain b where
  guards := ⟨Tree.guards_pos h.filled h.sound, Tree.guards_of_sound _ h.sound⟩
  guarded _ _ found := Tree.guarded_iff_lt _ h.sound found
  unguarded clause found := by
    refine Tree.else_of_unguarded _ h.sound clause (List.mem_of_getElem? found) ?_
    rw [← Bool.not_eq_true, Tree.guarded_iff_lt _ h.sound found]
    exact Nat.lt_irrefl _
  length_stations := congrArg Nat.succ (Tree.length_fallbacks b.block.children (b.start + 2))
  start := by
    obtain ⟨_, known, title⟩ := h.start
    obtain ⟨e, found, rfl⟩ := Draft.exists_of_view known
    exact ⟨e, (same _).trans found, title⟩
  finish := by
    obtain ⟨_, known, title⟩ := h.finish
    obtain ⟨e, found, rfl⟩ := Draft.exists_of_view known
    exact ⟨e, (same _).trans found, title⟩
  station k i found := by
    have sign := h.chained.station found
    rw [show (b.arms.filterMap Scene.Arm.fallback).length = b.guards from
      Tree.length_fallbacks b.block.children (b.start + 2)] at sign
    obtain ⟨e, here, known⟩ := Draft.exists_of_view sign
    exact ⟨e, (same i).trans here, congrArg Sign.isGroup known, congrArg Sign.links known⟩
  length_arms := h.headed.length_eq
  arm _ _ _ found listed := h.arms same found listed

end Script.Chain.Holds

/-- In the conversation of a script the chain of fallbacks of every if block, at any depth, is the
one that its clauses say, whatever the bodies of the clauses are. -/
theorem Script.lower_chains {s : Script} {ctx : Context} {id : Nat} {c : Conversation}
    (lowered : s.lower ctx id = .ok c) :
    s.chains.map Chain.block = s.tree.parts.filter Tree.isIfBlock ∧
      ∀ b ∈ s.chains, b.Stands 0 s.origins ∧ c.HoldsChain b := by
  obtain ⟨node, complete, exit, checked, added, rfl⟩ := lower_ok lowered
  obtain ⟨kind, listed⟩ := Tree.check_ok checked
  have other : s.tree.isIfBlock = false := by simp [Tree.isIfBlock, kind]
  refine ⟨?_, fun b member => ⟨?_, ?_⟩⟩
  · rw [Tree.parts_eq, List.filter_cons_of_neg (by simp [other])]
    exact Tree.blocks_chainsList s.tree.children 1 listed
  · exact .append_left [[]] (Tree.stands_of_mem_chainsList s.tree.children member)
  · obtain ⟨holds, -⟩ := Scene.addItems_chains s.tree.children listed Nat.zero_lt_one added b member
    have grown := Scene.addItems_grown _ Nat.zero_lt_one added
    rw [← grown.id_eq] at holds
    exact holds.chains (Scene.opening_entryById? added)

open Sample in
theorem Script.lower_chains_sample : ∃ c, script.lower context 1 = .ok c ∧
    ∃ b ∈ script.chains, b.start = 2 ∧ b.guards = 1 ∧ b.stations = [2, 7] ∧
      b.arms = [⟨4, 5, some 7⟩, ⟨8, 9, none⟩] ∧ c.HoldsChain b := by
  have succeeds : (script.lower context 1).isOk = true := by decide +kernel
  cases lowered : script.lower context 1 with
  | error e =>
    rw [lowered] at succeeds
    cases succeeds
  | ok c =>
    have only : script.chains.map (fun b => (b.start, b.guards, b.stations, b.arms)) =
        [(2, 1, [2, 7], [⟨4, 5, some 7⟩, ⟨8, 9, none⟩])] := by decide +kernel
    obtain ⟨b, single, values⟩ := List.map_eq_singleton_iff.mp only
    simp only [Prod.mk.injEq] at values
    obtain ⟨start, guards, stations, arms⟩ := values
    obtain ⟨-, chains⟩ := Script.lower_chains lowered
    have member : b ∈ script.chains := single ▸ List.mem_singleton_self b
    exact ⟨c, rfl, b, member, start, guards, stations, arms, (chains b member).2⟩

end Dialogue
