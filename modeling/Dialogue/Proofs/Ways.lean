import Dialogue.Proofs.Fragment
import Dialogue.Proofs.Lowering
import Dialogue.Proofs.Playback

/-!
Entries by what a run sees of them: their role and guard (`Entry.stand`), and where their links lead
(`Entry.ways`). For each stage of the lowering, what it makes of the entries that it adds, and which
entries it leaves as they are.
-/

set_option autoImplicit false
set_option relaxedAutoImplicit false

namespace Dialogue

open Script

/-- What an entry is there for: to guide the flow, to offer choices, or to show or do something. -/
inductive Role
  | control
  | menu
  | content (isStop : Bool)
deriving DecidableEq

/-- What decides whether an entry is entered, and what that means. -/
structure Stand where
  role : Role
  /-- What happens when the guard is false, if there is one. -/
  guard? : Option FalseAction := none
deriving DecidableEq

/-- Where the links of an entry lead. -/
structure Ways where
  isMenu : Bool
  normal : List Hop
  lower : List Hop
deriving DecidableEq

/-- The ways of an entry with one more link. -/
def Ways.add (w : Ways) (hop : Hop) : Priority → Ways
  | .normal => { w with normal := w.normal ++ [hop] }
  | .belowNormal => { w with lower := w.lower ++ [hop] }

def Ways.loose : Ways := ⟨false, [], []⟩

def Ways.only (entry : Nat) : Ways := ⟨false, [.enter entry], []⟩

namespace Entry

def role (e : Entry) : Role :=
  if e.isMenu then .menu else if e.isContent then .content e.isStop else .control

/-- The role and the guard of an entry. -/
def stand (e : Entry) : Stand :=
  ⟨e.role, if e.conditions = "" then none else some e.falseAction⟩

def ways (e : Entry) : Ways :=
  ⟨e.isMenu, e.hops .normal, e.hops .belowNormal⟩

end Entry

instance : Entry.IgnoresGroup Entry.ways := ⟨fun _ _ => rfl⟩

instance : Entry.IgnoresGuard Entry.ways := ⟨fun _ _ _ => rfl⟩

instance : Entry.IgnoresScript Entry.ways := ⟨fun _ _ => rfl⟩

instance : Entry.IgnoresSequence Entry.ways := ⟨fun _ _ => rfl⟩

instance : Entry.IgnoresLinks Entry.stand := ⟨fun _ _ => rfl⟩

instance : Entry.IgnoresGroup Entry.stand := ⟨fun _ _ => rfl⟩

instance : Entry.IgnoresScript Entry.stand := ⟨fun _ _ => rfl⟩

/-- Where the links of an entry of a conversation lead. -/
def Conversation.waysAt? (c : Conversation) (i : Nat) : Option Ways :=
  (c.entryById? i).map Entry.ways

/-- The role and the guard of an entry of a conversation. -/
def Conversation.standAt? (c : Conversation) (i : Nat) : Option Stand :=
  (c.entryById? i).map Entry.stand

namespace Draft

variable (d : Draft)

/-- Nothing follows an entry yet. -/
def Loose (i : Nat) : Prop :=
  (d.view Entry.ways)[i]? = some .loose

theorem Loose.lt_nextId {d : Draft} {i : Nat} (h : d.Loose i) : i < d.nextId :=
  d.lt_nextId_of_view h

theorem ways_link_self (i j : Nat) (p : Priority) :
    ((d.link i j p).view Entry.ways)[i]? = ((d.view Entry.ways)[i]?).map (·.add (.enter j) p) := by
  refine d.view_modify_self (fun e => ?_) i
  cases p <;> simp [Entry.ways, Entry.hops, Entry.isMenu, Ways.add, Link.hop]

private theorem ways_connect_self (i k j : Nat) : ((d.connect i k j).view Entry.ways)[i]? =
    ((d.view Entry.ways)[i]?).map (·.add (.leave k) .normal) := by
  refine d.view_modify_self (fun e => ?_) i
  simp [Entry.ways, Entry.hops, Entry.isMenu, Ways.add, Link.hop]

private theorem ways_control_self (title : String) :
    ((d.control title).view Entry.ways)[d.nextId]? = some ⟨(d.fresh title).isMenu, [], []⟩ :=
  d.view_control_self title

private theorem stand_setConditions_self {c : String} (filled : c ≠ "")
    (a : FalseAction) (i : Nat) :
    ((d.setConditions i c a).view Entry.stand)[i]? =
      ((d.view Entry.stand)[i]?).map fun s => ⟨s.role, some a⟩ := by
  refine d.view_modify_self (fun e => ?_) i
  change Stand.mk e.role (if c = "" then none else some a) = ⟨e.role, some a⟩
  rw [if_neg filled]

private theorem stand_control_self (title : String) :
    ((d.control title).view Entry.stand)[d.nextId]? = some ⟨(d.fresh title).role, none⟩ := by
  rw [view_control_self]
  simp [Entry.stand, fresh, Entry.role, Entry.isMenu, Entry.isContent, Entry.isStop]

theorem Steps.stand_eq {d d' : Draft} {scene : Scene} {base pred floor : Nat}
    (h : Steps scene base pred floor d d') (hbase : base ≤ d.nextId) {i : Nat} (hi : i < base) :
    (d'.view Entry.stand)[i]? = (d.view Entry.stand)[i]? := by
  have same := congrArg (Option.map Entry.stand) (Steps.head_eq h hi hbase)
  rw [getElem?_view, getElem?_view, Option.map_map, Option.map_map] at same
  rw [getElem?_view, getElem?_view]
  exact same

end Draft

namespace Scene

/-- An entry with the condition of a guard is guarded exactly if there is a guard. -/
theorem stand_guarded {scene : Scene} {line : Nat} {guard : Option Expression}
    {condition : Option String} (h : scene.condition line guard = .ok condition) {e : Entry}
    (action : FalseAction) (bare : e.conditions = "") :
    (e.guarded condition action).stand = ⟨e.role, guard.map fun _ => action⟩ := by
  cases guard with
  | none =>
    cases h
    simp [Entry.guarded, Entry.stand, bare]
  | some tokens =>
    simp only [Scene.condition, bind_eq_ok_iff, pure_eq_ok_iff] at h
    obtain ⟨t, written, rfl⟩ := h
    have filled := located_fragment_ne_empty written
    change Stand.mk e.role (if t = "" then none else some action) = ⟨e.role, some action⟩
    rw [if_neg filled]

theorem ways_guarded (e : Entry) (condition : Option String) (action : FalseAction) :
    (e.guarded condition action).ways = e.ways := by
  cases condition <;> rfl

theorem role_of_title {e : Entry} (b : Basic) (h : e.title = b.title) :
    e.role = .content (b.title = "Stop") := by
  have titles : b.title ∈ ["Line", "Shortcut Option Start", "Run Command", "Stop", "Call Function",
      "Store Variable", "Jump to Conversation"] := by
    cases b with
    | command name arguments rawText =>
      simp only [Basic.title]
      split <;> decide
    | line | call | jump | set | declare => simp [Basic.title]
  have other : b.title ≠ "Shortcut Option List Start" := by
    intro clash
    rw [clash] at titles
    revert titles
    decide
  simp only [Entry.role, Entry.isMenu, Entry.isContent, Entry.isStop, h]
  rw [if_neg (by simpa using other), if_pos (List.contains_iff_mem.mpr titles)]

theorem ways_of_joins {e : Entry} {scene : Scene} {d : Draft} (joins : e.Joins scene d)
    (plain : e.isMenu = false) : e.ways = .loose := by
  simp [Entry.ways, Entry.hops, joins.links, plain, Ways.loose]

theorem isMenu_eq_false {e : Entry} {isStop : Bool} (h : e.role = .content isStop) :
    e.isMenu = false := by
  unfold Entry.role at h
  split at h
  · cases h
  · next plain => simpa using plain

section Entries

variable {d : Draft} {pred : Nat}

theorem ways_withEntry_pred (loose : d.Loose pred) (e : Entry) (fragments : List String) :
    ((withEntry d pred e fragments).view Entry.ways)[pred]? = some (.only d.nextId) := by
  rw [withEntry, Draft.ways_link_self, Draft.view_addFormatArguments,
    Draft.view_push_of_lt _ _ loose.lt_nextId, loose]
  rfl

theorem ways_withEntry_self (before : pred < d.nextId) (e : Entry) (fragments : List String) :
    ((withEntry d pred e fragments).view Entry.ways)[d.nextId]? = some e.ways := by
  rw [withEntry, Draft.view_link_of_ne _ _ _ (by omega), Draft.view_addFormatArguments,
    Draft.view_push_self]

end Entries

end Scene

namespace Scene

variable {scene : Scene}

theorem withJump_ways {d : Draft} {pred : Nat} (loose : d.Loose pred) (condition : Option String)
    (target : Nat) :
    ((withJump d pred condition target).view Entry.ways)[pred]? = some (.only d.nextId) ∧
      ((withJump d pred condition target).view Entry.ways)[d.nextId]? =
        some ⟨false, [.leave target], [.enter (d.nextId + 1)]⟩ ∧
      (withJump d pred condition target).Loose (d.nextId + 1) := by
  have before := loose.lt_nextId
  let bare : Entry := { d.fresh "Jump to Conversation" with sequence := Lua.continueSequence }
  let jumped := (d.push (bare.guarded condition .passthrough)).link pred d.nextId .normal
  let connected := jumped.connect d.nextId target Conversation.startId
  have next : connected.nextId = d.nextId + 1 := by simp [connected, jumped]
  have atPred : (connected.view Entry.ways)[pred]? = some (.only d.nextId) := by
    rw [Draft.view_connect_of_ne _ _ _ (by omega), Draft.ways_link_self,
      Draft.view_push_of_lt _ _ before, loose]
    rfl
  have atJump : (connected.view Entry.ways)[d.nextId]? = some ⟨false, [.leave target], []⟩ := by
    rw [Draft.ways_connect_self, Draft.view_link_of_ne _ _ _ (by omega),
      Draft.view_push_self, ways_guarded]
    rfl
  let placeholder := (connected.fresh "Unreachable Entry").guarded (some "false") .block
  change (((connected.push placeholder).link d.nextId (d.nextId + 1) .belowNormal).view
    Entry.ways)[pred]? = _ ∧
    (((connected.push placeholder).link d.nextId (d.nextId + 1) .belowNormal).view
      Entry.ways)[d.nextId]? = _ ∧
    (((connected.push placeholder).link d.nextId (d.nextId + 1) .belowNormal).view
      Entry.ways)[d.nextId + 1]? = _
  refine ⟨?_, ?_, ?_⟩
  · rw [Draft.view_link_of_ne _ _ _ (by omega), Draft.view_push_of_lt _ _ (by omega), atPred]
  · rw [Draft.ways_link_self, Draft.view_push_of_lt _ _ (by omega), atJump]
    rfl
  · rw [Draft.view_link_of_ne _ _ _ (by omega), ← next, Draft.view_push_self]
    rfl

theorem withJump_stands {d : Draft} {pred line : Nat} {guard : Option Expression}
    {condition : Option String} (guarded : scene.condition line guard = .ok condition)
    (target : Nat) :
    ((withJump d pred condition target).view Entry.stand)[d.nextId]? =
        some ⟨.content false, guard.map fun _ => .passthrough⟩ ∧
      ((withJump d pred condition target).view Entry.stand)[d.nextId + 1]? =
        some ⟨.control, some .block⟩ := by
  let bare : Entry := { d.fresh "Jump to Conversation" with sequence := Lua.continueSequence }
  let jumped := (d.push (bare.guarded condition .passthrough)).link pred d.nextId .normal
  let connected := jumped.connect d.nextId target Conversation.startId
  have next : connected.nextId = d.nextId + 1 := by simp [connected, jumped]
  let placeholder := (connected.fresh "Unreachable Entry").guarded (some "false") .block
  change (((connected.push placeholder).link d.nextId (d.nextId + 1) .belowNormal).view
    Entry.stand)[d.nextId]? = _ ∧
    (((connected.push placeholder).link d.nextId (d.nextId + 1) .belowNormal).view
      Entry.stand)[d.nextId + 1]? = _
  constructor
  · rw [Draft.view_link, Draft.view_push_of_lt _ _ (by omega), Draft.view_connect,
      Draft.view_link, Draft.view_push_self, stand_guarded guarded .passthrough rfl]
    simp [bare, Draft.fresh, Entry.role, Entry.isMenu, Entry.isContent, Entry.isStop]
  · rw [Draft.view_link, ← next, Draft.view_push_self]
    simp [placeholder, Draft.fresh, Entry.guarded, Entry.stand, Entry.role, Entry.isMenu,
      Entry.isContent]

theorem Adds.loose {d d' : Draft} {pred exit : Nat} {s : Content Basic}
    (h : Adds scene d pred s d' exit) (loose : d.Loose pred) : d'.Loose exit := by
  cases h with
  | directive => rwa [Draft.Loose, Draft.view_appendSequence]
  | entry count guarded joins title bare =>
    rw [Draft.Loose, ways_withEntry_self loose.lt_nextId, ways_guarded,
      ways_of_joins joins (isMenu_eq_false (role_of_title _ title))]
  | jump => exact (withJump_ways loose _ _).2.2

/-- A property of the entries of a clause to which the end of a branch adds links. -/
structure Arm.Ends (P : Nat → Prop) (arm : Arm) : Prop where
  finish : P arm.finish
  fallback : ∀ fallback, arm.fallback = some fallback → P fallback

theorem Arm.Ends.mono {P Q : Nat → Prop} {arm : Arm} (h : arm.Ends P) (imp : ∀ i, P i → Q i) :
    arm.Ends Q :=
  ⟨imp _ h.finish, fun _ found => imp _ (h.fallback _ found)⟩

theorem Arm.Within.ends {base limit : Nat} {arm : Arm} (h : arm.Within base limit) :
    arm.Ends fun i => base ≤ i ∧ i < limit :=
  ⟨h.finish, h.fallback⟩

theorem arms_within (base : Nat) (clauses : List Clause) (otherwise : Option (List Item)) :
    ∀ arm ∈ armsFrom base clauses ++ lastArm (base + clausesCount clauses) otherwise,
      arm.Within base (base + clausesCount clauses + otherwiseCount otherwise) := by
  intro arm member
  rcases List.mem_append.mp member with member | member
  · exact armsFrom_within clauses base (Nat.le_refl _) (by omega) arm member
  · exact lastArm_within otherwise (by omega) (by omega) arm member

theorem linkArms_entryAt?_eq (finish : Nat) {i : Nat} :
    ∀ (arms : List Arm) {d : Draft} {previous : Nat},
    previous ≠ i → (∀ arm ∈ arms, arm.Ends (· ≠ i)) →
    (linkArms d previous finish arms).entryAt? i = d.entryAt? i
  | [], _, _, _, _ => rfl
  | arm :: rest, d, previous, apart, ends => by
    have here := ends arm List.mem_cons_self
    have there : ∀ later ∈ rest, later.Ends (· ≠ i) :=
      fun later member => ends later (List.mem_cons_of_mem _ member)
    unfold linkArms
    cases found : arm.fallback with
    | none =>
      rw [linkArms_entryAt?_eq finish rest apart there]
      exact d.entryAt?_modify_of_ne _ here.finish
    | some fallback =>
      have other := here.fallback _ found
      rw [linkArms_entryAt?_eq finish rest other there]
      simp only [Draft.link_eq, Draft.setGroup]
      rw [Draft.entryAt?_modify_of_ne _ _ here.finish, Draft.entryAt?_modify_of_ne _ _ apart,
        Draft.entryAt?_modify_of_ne _ _ other, Draft.entryAt?_modify_of_ne _ _ apart]

theorem enterArms_entryAt?_eq (d : Draft) {start i : Nat} (arms : List Arm) (apart : start ≠ i) :
    (enterArms d start arms).entryAt? i = d.entryAt? i := by
  unfold enterArms
  split
  · exact d.entryAt?_modify_of_ne _ apart
  · rfl

/-- The draft with the links of one guarded clause. -/
def linkArm (d : Draft) (previous last fallback next finish : Nat) : Draft :=
  (((d.link previous fallback .belowNormal).link fallback next .normal).setGroup previous).link
    last finish .normal

section LinkArm

variable {d : Draft} {previous last fallback : Nat} (next finish : Nat)

theorem ways_linkArm_previous {w : Ways} (first : (d.view Entry.ways)[previous]? = some w)
    (apart : fallback ≠ previous) (apart' : last ≠ previous) :
    ((linkArm d previous last fallback next finish).view Entry.ways)[previous]? =
      some (w.add (.enter fallback) .belowNormal) := by
  rw [linkArm, Draft.view_link_of_ne _ _ _ apart', Draft.view_setGroup,
    Draft.view_link_of_ne _ _ _ apart, Draft.ways_link_self, first]
  rfl

theorem ways_linkArm_fallback (loose : d.Loose fallback) (apart : previous ≠ fallback)
    (apart' : last ≠ fallback) :
    ((linkArm d previous last fallback next finish).view Entry.ways)[fallback]? =
      some (.only next) := by
  rw [linkArm, Draft.view_link_of_ne _ _ _ apart', Draft.view_setGroup, Draft.ways_link_self,
    Draft.view_link_of_ne _ _ _ apart, loose]
  rfl

theorem ways_linkArm_last (loose : d.Loose last) (apart : previous ≠ last)
    (apart' : fallback ≠ last) :
    ((linkArm d previous last fallback next finish).view Entry.ways)[last]? =
      some (.only finish) := by
  rw [linkArm, Draft.ways_link_self, Draft.view_setGroup, Draft.view_link_of_ne _ _ _ apart',
    Draft.view_link_of_ne _ _ _ apart, loose]
  rfl

theorem ways_linkArm_of_lt {i : Nat} (h : previous < i) (h' : last < i) (h'' : fallback < i) :
    ((linkArm d previous last fallback next finish).view Entry.ways)[i]? =
      (d.view Entry.ways)[i]? := by
  rw [linkArm, Draft.view_link_of_ne _ _ _ (by omega), Draft.view_setGroup,
    Draft.view_link_of_ne _ _ _ (by omega), Draft.view_link_of_ne _ _ _ (by omega)]

end LinkArm

section Clauses

variable {d grown : Draft} {kind : ClauseKind} {count exit : Nat}

theorem openArm_loose (d : Draft) (kind : ClauseKind) :
    (openArm d kind).Loose d.nextId ∧ (openArm d kind).Loose (d.nextId + 1) := by
  have second := Draft.ways_control_self (d.control (kind.name ++ " Clause Start"))
    (kind.name ++ " Clause End")
  rw [Draft.nextId_control] at second
  constructor
  · rw [Draft.Loose, openArm, Draft.view_control_of_lt _ _ (by simp), Draft.ways_control_self]
    cases kind <;> rfl
  · rw [Draft.Loose, openArm, second]
    cases kind <;> rfl

theorem openArm_stands (d : Draft) (kind : ClauseKind) :
    ((openArm d kind).view Entry.stand)[d.nextId]? = some ⟨.control, none⟩ ∧
      ((openArm d kind).view Entry.stand)[d.nextId + 1]? = some ⟨.control, none⟩ := by
  have second := Draft.stand_control_self (d.control (kind.name ++ " Clause Start"))
    (kind.name ++ " Clause End")
  rw [Draft.nextId_control] at second
  constructor
  · rw [openArm, Draft.view_control_of_lt _ _ (by simp), Draft.stand_control_self]
    cases kind <;> rfl
  · rw [openArm, second]
    cases kind <;> rfl

theorem Grown.start_lt (lowered : Grown scene (openArm d kind) d.nextId count grown exit) :
    d.nextId + 2 + count = grown.nextId ∧ exit ≠ d.nextId + 1 := by
  have opened := nextId_openArm d kind
  have total := lowered.nextId
  have new := lowered.exit_new
  omega

private theorem closeClause_loose (lowered : Grown scene (openArm d kind) d.nextId count grown exit)
    (condition : String) :
    (closeClause grown d.nextId exit kind condition).Loose (d.nextId + 1) ∧
      (closeClause grown d.nextId exit kind condition).Loose grown.nextId := by
  obtain ⟨total, apart⟩ := lowered.start_lt
  have opened := nextId_openArm d kind
  have fallback := Draft.ways_control_self ((grown.link exit (d.nextId + 1) .normal).setConditions
    d.nextId condition .block) (kind.name ++ " Clause Fallback")
  rw [Draft.nextId_setConditions, Draft.nextId_link] at fallback
  constructor
  · rw [Draft.Loose, closeClause, Draft.view_control_of_lt _ _ (by simp; omega),
      Draft.view_setConditions, Draft.view_link_of_ne _ _ _ apart,
      Draft.Steps.view_eq lowered.steps (Nat.le_refl _) (by omega) (by omega)]
    exact (openArm_loose d kind).2
  · rw [Draft.Loose, closeClause, fallback]
    cases kind <;> rfl

theorem closeClause_stands (lowered : Grown scene (openArm d kind) d.nextId count grown exit)
    {condition : String} (filled : condition ≠ "") :
    ((closeClause grown d.nextId exit kind condition).view Entry.stand)[d.nextId]? =
        some ⟨.control, some .block⟩ ∧
      ((closeClause grown d.nextId exit kind condition).view Entry.stand)[d.nextId + 1]? =
        some ⟨.control, none⟩ ∧
      ((closeClause grown d.nextId exit kind condition).view Entry.stand)[grown.nextId]? =
        some ⟨.control, none⟩ := by
  obtain ⟨total, -⟩ := lowered.start_lt
  have opened := nextId_openArm d kind
  have fallback := Draft.stand_control_self ((grown.link exit (d.nextId + 1) .normal).setConditions
    d.nextId condition .block) (kind.name ++ " Clause Fallback")
  rw [Draft.nextId_setConditions, Draft.nextId_link] at fallback
  obtain ⟨first, second⟩ := openArm_stands d kind
  refine ⟨?_, ?_, ?_⟩
  · rw [closeClause, Draft.view_control_of_lt _ _ (by simp; omega),
      Draft.stand_setConditions_self _ filled, Draft.view_link,
      Draft.Steps.stand_eq lowered.steps (Nat.le_refl _) (by omega), first]
    rfl
  · rw [closeClause, Draft.view_control_of_lt _ _ (by simp; omega),
      Draft.view_setConditions_of_ne _ _ _ (by omega), Draft.view_link,
      Draft.Steps.stand_eq lowered.steps (Nat.le_refl _) (by omega), second]
  · rw [closeClause, fallback]
    cases kind <;> rfl

theorem closeClause_entryAt?_eq {start i : Nat} (kind : ClauseKind) (condition : String)
    (apart : start ≠ i) (lt : i < grown.nextId) :
    (closeClause grown start exit kind condition).entryAt? i =
      (grown.link exit (start + 1) .normal).entryAt? i := by
  rw [closeClause, Draft.control, Draft.entryAt?_push_of_lt _ _ (by simpa using lt),
    Draft.setConditions, Draft.entryAt?_modify_of_ne _ _ apart]

theorem ways_closeClause {start i : Nat} (kind : ClauseKind) (condition : String)
    (lt : i < grown.nextId) :
    ((closeClause grown start exit kind condition).view Entry.ways)[i]? =
      ((grown.link exit (start + 1) .normal).view Entry.ways)[i]? := by
  rw [closeClause, Draft.view_control_of_lt _ _ (by simpa using lt), Draft.view_setConditions]

theorem addClauses_loose : ∀ (clauses : List Clause) {d d' : Draft} {kind : ClauseKind}
    {arms : List Arm}, scene.addClauses d kind clauses = .ok (d', arms) →
    ∀ arm ∈ arms, arm.Ends d'.Loose := by
  intro clauses
  induction clauses with
  | nil =>
    intro d d' kind arms h
    simp only [addClauses, Except.ok.injEq, Prod.mk.injEq] at h
    obtain ⟨-, rfl⟩ := h
    exact List.forall_mem_nil _
  | cons clause rest ih =>
    intro d d' kind arms h
    obtain ⟨line, guard, body⟩ := clause
    obtain ⟨grown, exit, condition, others, added, _, addedRest, rfl⟩ := addClauses_cons_ok h
    have lowered := addItems_grown body (by rw [nextId_openArm]; omega) added
    obtain ⟨looseLast, looseFallback⟩ := closeClause_loose lowered condition
    have steps := (addClauses_grown rest addedRest).1
    obtain ⟨total, -⟩ := lowered.start_lt
    have kept : ∀ i, (closeClause grown d.nextId exit kind condition).Loose i → d'.Loose i := by
      intro i loose
      rw [Draft.Loose, Draft.Steps.view_eq steps (Nat.le_refl _) loose.lt_nextId
        (Nat.ne_of_lt loose.lt_nextId), loose]
    intro arm member
    rcases List.mem_cons.mp member with rfl | member
    · refine ⟨kept _ looseLast, ?_⟩
      rintro fallback ⟨⟩
      exact kept _ looseFallback
    · exact ih addedRest arm member

end Clauses

theorem addOtherwise_grown {d d' : Draft} {last : List Arm} (otherwise : Option (List Item))
    (h : scene.addOtherwise d otherwise = .ok (d', last)) :
    Draft.Steps scene d.nextId d.nextId d.nextId d d' ∧
      d'.nextId = d.nextId + otherwiseCount otherwise ∧ last = lastArm d.nextId otherwise := by
  cases otherwise with
  | none =>
    simp only [addOtherwise, Except.ok.injEq, Prod.mk.injEq] at h
    obtain ⟨rfl, rfl⟩ := h
    exact ⟨.refl, rfl, rfl⟩
  | some body =>
    exact Grown.otherwise (fun added => addItems_grown body (by rw [nextId_openArm]; omega) added) h

theorem addOtherwise_loose {d d' : Draft} {last : List Arm} (otherwise : Option (List Item))
    (h : scene.addOtherwise d otherwise = .ok (d', last)) : ∀ arm ∈ last, arm.Ends d'.Loose := by
  cases otherwise with
  | none =>
    simp only [addOtherwise, Except.ok.injEq, Prod.mk.injEq] at h
    obtain ⟨-, rfl⟩ := h
    exact List.forall_mem_nil _
  | some body =>
    simp only [addOtherwise, bind_eq_ok_iff, pure_eq_ok_iff, Prod.mk.injEq] at h
    obtain ⟨⟨grown, exit⟩, added, rfl, rfl⟩ := h
    have lowered := addItems_grown body (by rw [nextId_openArm]; omega) added
    obtain ⟨total, apart⟩ := lowered.start_lt
    have opened := nextId_openArm d .else_
    intro arm member
    obtain rfl := List.mem_singleton.mp member
    refine ⟨?_, by rintro _ ⟨⟩⟩
    rw [Draft.Loose, Draft.view_link_of_ne _ _ _ apart,
      Draft.Steps.view_eq lowered.steps (Nat.le_refl _) (by omega) (by omega)]
    exact (openArm_loose d .else_).2

section Opening

variable {d : Draft} {pred : Nat}

theorem openBranch_ways (loose : d.Loose pred) :
    ((openBranch d pred).view Entry.ways)[pred]? = some (.only d.nextId) ∧
      (openBranch d pred).Loose d.nextId ∧ (openBranch d pred).Loose (d.nextId + 1) := by
  have before := loose.lt_nextId
  let started := ((d.control "If Block Start").setGroup d.nextId).link pred d.nextId .normal
  have next : started.nextId = d.nextId + 1 := by simp [started]
  have last : (started.control "If Block End").Loose started.nextId := by
    rw [Draft.Loose, Draft.ways_control_self]
    rfl
  refine ⟨?_, ?_, next ▸ last⟩
  · rw [openBranch, Draft.view_control_of_lt _ _ (by simp; omega), Draft.ways_link_self,
      Draft.view_setGroup, Draft.view_control_of_lt _ _ before, loose]
    rfl
  · rw [Draft.Loose, openBranch, Draft.view_control_of_lt _ _ (by simp),
      Draft.view_link_of_ne _ _ _ (by omega), Draft.view_setGroup, Draft.ways_control_self]
    rfl

theorem openBranch_stands (d : Draft) (pred : Nat) :
    ((openBranch d pred).view Entry.stand)[d.nextId]? = some ⟨.control, none⟩ ∧
      ((openBranch d pred).view Entry.stand)[d.nextId + 1]? = some ⟨.control, none⟩ := by
  let started := ((d.control "If Block Start").setGroup d.nextId).link pred d.nextId .normal
  have next : started.nextId = d.nextId + 1 := by simp [started]
  have last : ((started.control "If Block End").view Entry.stand)[started.nextId]? =
      some ⟨.control, none⟩ := by
    rw [Draft.stand_control_self]
    rfl
  refine ⟨?_, next ▸ last⟩
  rw [openBranch, Draft.view_control_of_lt _ _ (by simp), Draft.view_link,
    Draft.view_setGroup, Draft.stand_control_self]
  rfl

theorem openMenu_ways (loose : d.Loose pred) (choices : List Choice) :
    ((openMenu d pred choices).view Entry.ways)[pred]? = some (.only d.nextId) ∧
      ((openMenu d pred choices).view Entry.ways)[d.nextId]? = some ⟨true, [], []⟩ ∧
      (openMenu d pred choices).Loose (d.nextId + 1) := by
  have before := loose.lt_nextId
  obtain ⟨grouped, same, next, opened⟩ := openMenu_grouped d pred choices
  have last := Draft.ways_control_self (grouped.link pred d.nextId .normal)
    "Shortcut Option List End"
  rw [Draft.nextId_link, next] at last
  rw [opened]
  refine ⟨?_, ?_, last⟩
  · rw [Draft.view_control_of_lt _ _ (by simp; omega), Draft.ways_link_self, same Entry.ways,
      Draft.view_control_of_lt _ _ before, loose]
    rfl
  · rw [Draft.view_control_of_lt _ _ (by simp; omega), Draft.view_link_of_ne _ _ _ (by omega),
      same Entry.ways, Draft.ways_control_self]
    rfl

theorem openMenu_stands (d : Draft) (pred : Nat) (choices : List Choice) :
    ((openMenu d pred choices).view Entry.stand)[d.nextId]? = some ⟨.menu, none⟩ ∧
      ((openMenu d pred choices).view Entry.stand)[d.nextId + 1]? = some ⟨.control, none⟩ := by
  obtain ⟨grouped, same, next, opened⟩ := openMenu_grouped d pred choices
  have last := Draft.stand_control_self (grouped.link pred d.nextId .normal)
    "Shortcut Option List End"
  rw [Draft.nextId_link, next] at last
  rw [opened]
  refine ⟨?_, last⟩
  rw [Draft.view_control_of_lt _ _ (by simp; omega), Draft.view_link, same Entry.stand,
    Draft.stand_control_self]
  rfl

end Opening

end Scene

end Dialogue
