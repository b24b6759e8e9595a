import Dialogue.Proofs.SingleExit

/-!
The entries that enforce guards. A guarded statement with an entry of its own has its condition
there, a guarded clause at its first entry, and of an option and the line it shows the one that is
guarded, the line before the option, at the entry that the two share. `Tree.gates` lists these
entries with what lies behind each of them.

Nothing behind such an entry has a link from elsewhere, because links are only made to new entries,
to the ends of blocks, and to the starts and fallbacks of clauses. A run therefore gets behind a
gate by entering it, or not at all.
-/

set_option autoImplicit false
set_option relaxedAutoImplicit false

namespace Dialogue

open Relation Script

namespace Draft

variable {scene : Scene} {base pred floor lo hi : Nat} {d d' : Draft}

/-- Links to entries after `lo` and before `hi` start at entries from `lo` on and before `hi`. -/
def Seals (d : Draft) (lo hi : Nat) : Prop :=
  ∀ i e j, d.entryAt? i = some e → j ∈ e.successors → lo < j → j < hi → lo ≤ i ∧ i < hi

private theorem Fits.successors_lt (fits : d.Fits scene) {i j : Nat} {e : Entry}
    (found : d.entryAt? i = some e) (member : j ∈ e.successors) : j < d.nextId := by
  obtain ⟨l, listed, rfl⟩ := List.mem_map.mp member
  obtain ⟨listed, inner⟩ := List.mem_filter.mp listed
  exact (((fits.entry i e found).links l listed).inner (by simpa using inner)).2

private theorem Seals.modify (h : d.Seals lo hi) (k : Nat) {f : Entry → Entry}
    (safe : ∀ e j, j ∈ (f e).successors → j ∈ e.successors ∨
      ¬ (lo < j ∧ j < hi) ∨ lo ≤ k ∧ k < hi) :
    (d.modify k f).Seals lo hi := by
  intro i e j found member low high
  rw [entryAt?_modify] at found
  split at found
  · next here =>
    subst here
    obtain ⟨old, known, rfl⟩ := Option.map_eq_some_iff.mp found
    rcases safe old j member with kept | outside | inside
    · exact h k old j known kept low high
    · exact absurd ⟨low, high⟩ outside
    · exact inside
  · exact h i e j found member low high

private theorem Seals.push (h : d.Seals lo hi) {e : Entry} (bare : e.links = []) :
    (d.push e).Seals lo hi := by
  intro i other j found member low high
  rw [entryAt?_push] at found
  split at found
  · obtain rfl := Option.some.inj found
    rw [Entry.successors, bare] at member
    cases member
  · exact h i other j found member low high

private theorem Seals.link (h : d.Seals lo hi) {i j : Nat} (p : Priority)
    (safe : ¬ (lo < j ∧ j < hi) ∨ lo ≤ i ∧ i < hi) : (d.link i j p).Seals lo hi := by
  refine Seals.modify h i fun e k member => ?_
  have listed : k ∈ e.successors ∨ k = j := by simpa [Entry.successors] using member
  rcases listed with kept | rfl
  · exact .inl kept
  · exact .inr safe

private theorem Step.seals (h : Step scene base pred floor d d') (high : hi ≤ floor)
    (sealed : d.Seals lo hi) :
    d'.Seals lo hi := by
  cases h with
  | push joins => exact sealed.push joins.links
  | link _ above _ => exact sealed.link _ (.inl (by omega))
  | connect =>
    refine Seals.modify sealed _ fun e j member => .inl ?_
    simpa [Entry.successors] using member
  | guard | group | script | sequence => exact Seals.modify sealed _ fun e j member => .inl member

/-- What is sealed stays so when links are only made to later entries. -/
theorem Steps.seals (h : Steps scene base pred floor d d') (high : hi ≤ floor)
    (sealed : d.Seals lo hi) : d'.Seals lo hi := by
  induction h with
  | refl => exact sealed
  | tail _ step ih => exact step.seals high ih

/-- Entries that are added while no older entry changes are sealed. -/
theorem Steps.seals_new (h : Steps scene base pred floor d d') (hbase : base ≤ d.nextId)
    (low : lo ≤ base) (hpred : lo ≤ pred)
    (old : ∀ i e j, i < lo → d.entryAt? i = some e → j ∈ e.successors → j ≤ lo) :
    d'.Seals lo d'.nextId := by
  intro i e j found member above _
  have within := d'.lt_nextId_of_entryAt? found
  refine ⟨Nat.le_of_not_lt fun below => ?_, within⟩
  rw [Steps.entryAt?_eq h hbase (by omega) (by omega)] at found
  have bound := old i e j (by omega) found member
  omega

end Draft

namespace Script

namespace Tree

/-- Among entries from `base` on whose origins are given, those from `entry` on are made from a
part. -/
def StandsAt (part : List (List Origin)) (entry base : Nat) (origins : List (List Origin)) : Prop :=
  ∃ before after, origins = before ++ (part ++ after) ∧ entry = base + before.length

namespace StandsAt

variable {part origins : List (List Origin)} {entry base id lineId : Nat}
  {content shown : Content Kind} {below body rest : List Tree}

theorem append_right (h : StandsAt part entry base origins) (more : List (List Origin)) :
    StandsAt part entry base (origins ++ more) := by
  obtain ⟨before, after, rfl, place⟩ := h
  exact ⟨before, after ++ more, by simp, place⟩

theorem append_left (first : List (List Origin))
    (h : StandsAt part entry (base + first.length) origins) :
    StandsAt part entry base (first ++ origins) := by
  obtain ⟨before, after, rfl, place⟩ := h
  exact ⟨first ++ before, after, by simp, by rw [place, List.length_append, Nat.add_assoc]⟩

theorem bounds (h : StandsAt part entry base origins) :
    base ≤ entry ∧ entry + part.length ≤ base + origins.length := by
  obtain ⟨before, after, rfl, place⟩ := h
  simp only [List.length_append]
  omega

theorem clause_body (h : StandsAt part entry (base + 2) (originsList body)) :
    StandsAt part entry base (clauseOrigins (.node id content body :: rest)) :=
  append_left [_, _] (h.append_right _)

theorem clause_rest (h : StandsAt part entry
      (base + 2 + (originsList body).length + if content.hasConditions then 1 else 0)
      (clauseOrigins rest)) :
    StandsAt part entry base (clauseOrigins (.node id content body :: rest)) := by
  refine append_left [_, _] (append_left _ (append_left _ ?_))
  have place : (if content.hasConditions then [[]] else [] : List (List Origin)).length =
      if content.hasConditions then 1 else 0 := by
    split <;> rfl
  rwa [place]

theorem option_body (h : StandsAt part entry (base + 1) (originsList body)) :
    StandsAt part entry base
      (optionOrigins (.node id content (.node lineId shown below :: body) :: rest)) :=
  append_left [_] (h.append_right _)

theorem option_rest
    (h : StandsAt part entry (base + 1 + (originsList body).length) (optionOrigins rest)) :
    StandsAt part entry base
      (optionOrigins (.node id content (.node lineId shown below :: body) :: rest)) :=
  append_left [_] (h.append_left _)

end StandsAt

end Tree

/-- An entry that enforces a guard. -/
structure Gate where
  statement : Tree.Origin
  /-- The statements that the entry is made from. -/
  made : List Tree.Origin
  entry : Nat
  title : String
  action : FalseAction
  /-- What the further entries behind the gate are made from. -/
  body : List (List Tree.Origin)
  stated : statement ∈ made
  /-- An entry that is skipped has nothing behind it. -/
  stays : action = .block ∨ body = []

namespace Gate

/-- The first entry after a gate and all that is behind it. -/
def limit (g : Gate) : Nat :=
  g.entry + (g.body.length + 1)

/-- The entry of a gate is not behind another one. -/
def Clear (g : Gate) (j : Nat) : Prop :=
  j ≤ g.entry ∨ g.limit ≤ j

/-- A gate has its place among entries from `base` on, whose origins are given. -/
def Stands (g : Gate) (base : Nat) (origins : List (List Tree.Origin)) : Prop :=
  Tree.StandsAt (g.made :: g.body) g.entry base origins

theorem Stands.bounds {g : Gate} {base : Nat} {origins : List (List Tree.Origin)}
    (h : g.Stands base origins) : base ≤ g.entry ∧ g.limit ≤ base + origins.length :=
  Tree.StandsAt.bounds h

end Gate

namespace Tree

mutual

/-- The gates of a statement whose entries start at `base`. A directive has no entry to be
guarded. -/
def gates (base : Nat) : Tree → List Gate
  | .node id content children =>
    match content.kind with
    | .basic b =>
      if content.hasConditions && b.entryCount ≠ 0 then
        [⟨(id, content), [(id, content)], base, b.title, .passthrough, [], List.mem_cons_self,
          .inr rfl⟩]
      else []
    | .block .ifBlock => clauseGates (base + 2) .if_ children
    | .block .options => optionGates (base + 2) children
    | .block _ => []

def gatesList (base : Nat) : List Tree → List Gate
  | [] => []
  | t :: rest => gates base t ++ gatesList (base + t.origins.length) rest

def clauseGates (base : Nat) (kind : ClauseKind) : List Tree → List Gate
  | [] => []
  | .node id content body :: rest =>
    (if content.hasConditions then
      [⟨(id, content), [(id, content)], base, kind.name ++ " Clause Start", .block,
        [] :: originsList body, List.mem_cons_self, .inl rfl⟩]
    else []) ++
      (gatesList (base + 2) body ++
        clauseGates (base + 2 + (originsList body).length + if content.hasConditions then 1 else 0)
          .elseIf rest)

/-- The gates of options. The guard of an option is overruled by that of the line it shows. -/
def optionGates (base : Nat) : List Tree → List Gate
  | [] => []
  | .node _ _ [] :: rest => optionGates base rest
  | .node id option (.node lineId shown _ :: body) :: rest =>
    (if shown.hasConditions || option.hasConditions then
      [⟨if shown.hasConditions then (lineId, shown) else (id, option),
        [(id, option), (lineId, shown)], base, "Shortcut Option Start", .block, originsList body,
        by split <;> simp, .inl rfl⟩]
    else []) ++
      (gatesList (base + 1) body ++ optionGates (base + 1 + (originsList body).length) rest)

end

private theorem exists_basicOrigins (origin : Origin) {b : Basic} (some : b.entryCount ≠ 0) :
    ∃ more, basicOrigins origin b = [origin] :: more := by
  cases b with
  | command name arguments rawText =>
    cases sort : Command.Kind.ofName name <;>
      simp [Basic.entryCount, basicOrigins, sort] at some ⊢
  | line | call | jump | set | declare => exact ⟨_, rfl⟩

mutual

private theorem stands_of_mem_gates {g : Gate} : ∀ (t : Tree) {base : Nat}, g ∈ t.gates base →
    g.Stands base t.origins
  | .node id content children, base, member => by
    cases kind : content.kind with
    | basic b =>
      simp only [gates, kind] at member
      split at member
      · next guarded =>
        obtain rfl := List.mem_singleton.mp member
        have some : b.entryCount ≠ 0 := by
          simp only [Bool.and_eq_true, decide_eq_true_eq] at guarded
          exact guarded.2
        obtain ⟨more, first⟩ := exists_basicOrigins (id, content) some
        simp only [origins, kind, first]
        exact ⟨[], more, rfl, rfl⟩
      · cases member
    | block b =>
      cases b with
      | ifBlock =>
        simp only [gates, kind] at member
        simp only [origins, kind]
        exact (stands_of_mem_clauseGates children member).append_left [[], []]
      | options =>
        simp only [gates, kind] at member
        simp only [origins, kind]
        exact (stands_of_mem_optionGates children member).append_left [[], []]
      | node | ifClause | option => simp [gates, kind] at member

theorem stands_of_mem_gatesList {g : Gate} :
    ∀ (ts : List Tree) {base : Nat}, g ∈ gatesList base ts →
    g.Stands base (originsList ts)
  | [], _, member => by cases member
  | t :: rest, base, member => by
    rw [originsList]
    rcases List.mem_append.mp member with member | member
    · exact (stands_of_mem_gates t member).append_right _
    · exact (stands_of_mem_gatesList rest member).append_left _

private theorem stands_of_mem_clauseGates {g : Gate} :
    ∀ (ts : List Tree) {base : Nat} {kind : ClauseKind},
    g ∈ clauseGates base kind ts → g.Stands base (clauseOrigins ts)
  | [], _, _, member => by cases member
  | .node id content body :: rest, base, kind, member => by
    rw [clauseGates, List.mem_append, List.mem_append] at member
    rcases member with own | inner | later
    · split at own
      · obtain rfl := List.mem_singleton.mp own
        exact ⟨[], _, rfl, rfl⟩
      · cases own
    · exact (stands_of_mem_gatesList body inner).clause_body
    · exact (stands_of_mem_clauseGates rest later).clause_rest

private theorem stands_of_mem_optionGates {g : Gate} : ∀ (ts : List Tree) {base : Nat},
    g ∈ optionGates base ts → g.Stands base (optionOrigins ts)
  | [], _, member => by cases member
  | .node _ _ [] :: rest, base, member => stands_of_mem_optionGates rest member
  | .node id option (.node lineId shown below :: body) :: rest, base, member => by
    rw [optionGates, List.mem_append, List.mem_append] at member
    rcases member with own | inner | later
    · split at own
      · obtain rfl := List.mem_singleton.mp own
        exact ⟨[], _, rfl, rfl⟩
      · cases own
    · exact (stands_of_mem_gatesList body inner).option_body
    · exact (stands_of_mem_optionGates rest later).option_rest

end

end Tree

end Script

namespace Scene

private theorem head_withJump (d : Draft) (pred : Nat) (condition : Option String) (target : Nat) :
    ((withJump d pred condition target).view Entry.head)[d.nextId]? =
      some ((d.fresh "Jump to Conversation").guarded condition .passthrough).head := by
  have next : (d.scriptEntry pred "Jump to Conversation" "" condition).nextId =
      d.nextId + 1 := by simp
  rw [withJump, Draft.view_link, Draft.view_push_of_lt]
  · rw [Draft.view_connect, Draft.scriptEntry, Draft.view_link, Draft.view_push_self]
    cases condition <;> rfl
  · rw [Draft.nextId_connect, next]
    omega

theorem fragment_of_located {scene : Scene} {line : Nat} {tokens : Expression} {text : String}
    (h : scene.located line tokens.fragment = .ok text) : tokens.fragment = .ok text :=
  eq_ok_of_mapError h

private theorem exists_of_condition {scene : Scene} {line : Nat} {tokens : Expression}
    {condition : Option String} (h : scene.condition line (some tokens) = .ok condition) :
    ∃ text, tokens.fragment = .ok text ∧ condition = some text := by
  simp only [Scene.condition, bind_eq_ok_iff, pure_eq_ok_iff] at h
  obtain ⟨text, written, rfl⟩ := h
  exact ⟨text, fragment_of_located written, rfl⟩

end Scene

namespace Script.Gate

variable {g : Gate} {scene : Scene} {d d' : Draft}

/-- An entry that enforces the guard of a gate's statement. -/
structure Enforced (g : Gate) (e : Entry) : Prop where
  title : e.title = g.title
  action : e.falseAction = g.action
  condition : ∃ tokens, g.statement.2.guard? = some tokens ∧ tokens.fragment = .ok e.conditions

private theorem enforced_guarded {line : Nat} {tokens : Expression}
    {condition : Option String} {e : Entry} (guard : g.statement.2.guard? = some tokens)
    (h : scene.condition line (some tokens) = .ok condition) (title : e.title = g.title) :
    g.Enforced (e.guarded condition g.action).head := by
  obtain ⟨text, written, rfl⟩ := Scene.exists_of_condition h
  exact ⟨title, rfl, tokens, guard, written⟩

/-- A draft in which a gate is in its place and nothing behind it has a link from elsewhere. -/
structure Holds (g : Gate) (d : Draft) : Prop where
  guarded : ∃ e, (d.view Entry.head)[g.entry]? = some e ∧ g.Enforced e
  sealed : d.Seals g.entry g.limit
  inside : g.limit ≤ d.nextId

private theorem entry_lt_limit (g : Gate) : g.entry < g.limit := by
  unfold limit
  omega

private theorem Clear.not_behind {j : Nat} (h : g.Clear j) : ¬ (g.entry < j ∧ j < g.limit) := by
  unfold Clear at h
  omega

namespace Holds

private theorem steps {base pred floor : Nat} (h : g.Holds d)
    (steps : Draft.Steps scene base pred floor d d') (hbase : base ≤ d.nextId)
    (low : g.limit ≤ base) (high : g.limit ≤ floor) : g.Holds d' where
  guarded := by
    obtain ⟨e, found, enforced⟩ := h.guarded
    have before := g.entry_lt_limit
    exact ⟨e, (Draft.Steps.head_eq steps (by omega) hbase).trans found, enforced⟩
  sealed := Draft.Steps.seals steps high h.sealed
  inside := Nat.le_trans h.inside (Draft.Steps.nextId_le steps)

private theorem link (h : g.Holds d) (i : Nat) {j : Nat} (p : Priority)
    (safe : g.Clear j ∨ g.entry ≤ i ∧ i < g.limit) : g.Holds (d.link i j p) where
  guarded := by
    obtain ⟨e, found, enforced⟩ := h.guarded
    exact ⟨e, by rwa [Draft.view_link], enforced⟩
  sealed := h.sealed.link p (safe.imp_left Clear.not_behind)
  inside := by
    rw [Draft.nextId_link]
    exact h.inside

private theorem setGroup (h : g.Holds d) (i : Nat) : g.Holds (d.setGroup i) where
  guarded := by
    obtain ⟨e, found, enforced⟩ := h.guarded
    exact ⟨e, by rwa [Draft.view_setGroup], enforced⟩
  sealed := h.sealed.modify i fun _ _ member => .inl member
  inside := by
    rw [Draft.nextId_setGroup]
    exact h.inside

private theorem setConditions (h : g.Holds d) {i : Nat} (condition : String) (action : FalseAction)
    (apart : i ≠ g.entry) : g.Holds (d.setConditions i condition action) where
  guarded := by
    obtain ⟨e, found, enforced⟩ := h.guarded
    exact ⟨e, (d.view_setConditions_of_ne condition action apart).trans found, enforced⟩
  sealed := h.sealed.modify i fun _ _ member => .inl member
  inside := by
    rw [Draft.nextId_setConditions]
    exact h.inside

private theorem control (h : g.Holds d) (title : String) : g.Holds (d.control title) where
  guarded := by
    obtain ⟨e, found, enforced⟩ := h.guarded
    have before := g.entry_lt_limit
    have within := h.inside
    exact ⟨e, (d.view_push_of_lt _ (by omega)).trans found, enforced⟩
  sealed := h.sealed.push rfl
  inside := by
    rw [Draft.nextId_control]
    exact Nat.le_succ_of_le h.inside

private theorem enterArms (h : g.Holds d) (start : Nat) {arms : List Scene.Arm}
    (clear : ∀ arm ∈ arms, g.Clear arm.start) : g.Holds (Scene.enterArms d start arms) := by
  cases arms with
  | nil => exact h
  | cons arm rest => exact h.link start .normal (.inl (clear arm List.mem_cons_self))

/-- The links between the clauses of a branch lead to starts, fallbacks and the end. -/
theorem linkArms {finish : Nat} (ends : g.Clear finish) :
    ∀ (arms : List Scene.Arm) {d : Draft} {previous : Nat}, g.Holds d →
      (∀ arm ∈ arms, g.Clear arm.start ∧
        ∀ fallback, arm.fallback = some fallback → g.Clear fallback) →
      g.Holds (Scene.linkArms d previous finish arms)
  | [], _, _, h, _ => h
  | arm :: rest, d, previous, h, clear => by
    have later := fun other member => clear other (List.mem_cons_of_mem arm member)
    unfold Scene.linkArms
    cases fallback : arm.fallback with
    | none => exact linkArms ends rest (h.link arm.finish .normal (.inl ends)) later
    | some next =>
      have here := (clear arm List.mem_cons_self).2 next fallback
      have goesOn : g.Clear ((rest.head?.map Scene.Arm.start).getD finish) := by
        cases rest with
        | nil => exact ends
        | cons other rest => exact (later other List.mem_cons_self).1
      have linked := h.link previous .belowNormal (.inl here)
      have chained := (linked.link next .normal (.inl goesOn)).setGroup previous
      exact linkArms ends rest (chained.link arm.finish .normal (.inl ends)) later

end Holds

end Script.Gate

/-- No clause of a branch starts behind a gate of the branch, nor is a fallback there. -/
theorem Script.Tree.clear_of_mem_clauseGates {g : Gate} :
    ∀ (ts : List Tree) {isFirst : Bool} {clauses : List Clause} {otherwise : Option (List Item)}
      {base : Nat} {kind : ClauseKind}, clausesFlaw? isFirst ts = none →
      clauseList ts = .ok (clauses, otherwise) → g ∈ clauseGates base kind ts →
      ∀ arm ∈ Scene.armsFrom base clauses ++ Scene.lastArm (base + clausesCount clauses) otherwise,
        g.Clear arm.start ∧ ∀ fallback, arm.fallback = some fallback → g.Clear fallback
  | [], _, _, _, _, _, _, _, member => by cases member
  | .node id content children :: rest, isFirst, clauses, otherwise, base, kind, sound, h,
      member => by
    obtain ⟨body, listed, guarded | last⟩ := clauseList_cons sound h
    · obtain ⟨guard, others, known, soundRest, listedRest, rfl⟩ := guarded
      have conditions : content.hasConditions = true := by simp [Content.hasConditions, known]
      have count := length_originsList children listed
      rw [clauseGates, if_pos conditions, if_pos conditions, List.mem_append, List.mem_append]
        at member
      -- The gates of the clause lie before its fallback, those of the later clauses behind it.
      have place : base ≤ g.entry ∧ g.limit ≤ base + 2 + bodyCount body ∨
          g ∈ clauseGates (base + 3 + bodyCount body) .elseIf rest := by
        rcases member with own | inner | later
        · obtain rfl := List.mem_singleton.mp own
          simp only [Gate.limit, List.length_cons]
          omega
        · have bounds := (stands_of_mem_gatesList children inner).bounds
          omega
        · rw [count] at later
          have next : base + 2 + bodyCount body + 1 = base + 3 + bodyCount body := by omega
          rw [next] at later
          exact .inr later
      intro arm listedArm
      rw [add_clausesCount_cons] at listedArm
      rcases List.mem_cons.mp listedArm with rfl | listedArm
      · have outside : ∀ j, j = base ∨ j = base + 2 + bodyCount body → g.Clear j := by
          intro j position
          unfold Gate.Clear
          rcases place with place | later
          · omega
          · have bounds := (stands_of_mem_clauseGates rest later).bounds
            omega
        refine ⟨outside base (.inl rfl), ?_⟩
        rintro fallback ⟨⟩
        exact outside _ (.inr rfl)
      · rcases place with place | later
        · have within : arm.Within (base + 3 + bodyCount body) (base + 3 + bodyCount body +
              clausesCount others + Scene.otherwiseCount otherwise) := by
            rcases List.mem_append.mp listedArm with listedArm | listedArm
            · exact Scene.armsFrom_within others _ (Nat.le_refl _) (by omega) arm listedArm
            · exact Scene.lastArm_within otherwise (by omega) (Nat.le_refl _) arm listedArm
          refine ⟨.inr (by have := within.start; omega), ?_⟩
          intro fallback found
          have := within.fallback fallback found
          exact .inr (by omega)
        · exact clear_of_mem_clauseGates rest soundRest listedRest later arm listedArm
    · obtain ⟨bare, rfl, rfl, rfl⟩ := last
      have conditions : content.hasConditions = false := by simp [Content.hasConditions, bare]
      rw [clauseGates, if_neg (by simp [conditions]), List.nil_append, clauseGates, List.append_nil]
        at member
      have bounds := (stands_of_mem_gatesList children member).bounds
      intro arm listedArm
      obtain rfl := List.mem_singleton.mp listedArm
      exact ⟨.inl (by change base + 0 ≤ g.entry; omega), nofun⟩

namespace Scene

variable {scene : Scene} {g : Gate}

private theorem Adds.enforced {d d' : Draft} {pred exit : Nat} {s : Content Basic}
    (h : Adds scene d pred s d' exit) (some : s.kind.entryCount ≠ 0) {tokens : Expression}
    (guard : s.guard? = .some tokens) (stated : g.statement.2.guard? = .some tokens)
    (title : s.kind.title = g.title) (action : g.action = .passthrough) :
    ∃ e, (d'.view Entry.head)[d.nextId]? = .some e ∧ g.Enforced e := by
  cases h with
  | directive none => exact absurd none some
  | entry count guarded joins named bare =>
    rw [guard] at guarded
    refine ⟨_, view_withEntry_self d pred _ _, ?_⟩
    rw [← action]
    exact Gate.enforced_guarded stated guarded (named.trans title)
  | jump kind known guarded =>
    rw [guard] at guarded
    refine ⟨_, head_withJump d pred _ _, ?_⟩
    rw [← action]
    refine Gate.enforced_guarded stated guarded ?_
    rw [← title, kind]
    rfl

/-- The gate of a clause: its first entry gets the condition when the body is lowered. -/
theorem closeClause_holds {d grown : Draft} {kind : ClauseKind} {exit line : Nat}
    {condition : String} {tokens : Expression} (fits : d.Fits scene) {count : Nat}
    (lowered : Grown scene (openArm d kind) d.nextId count grown exit)
    (written : scene.located line tokens.fragment = .ok condition)
    (stated : g.statement.2.guard? = some tokens) (title : g.title = kind.name ++ " Clause Start")
    (action : g.action = .block) (entry : g.entry = d.nextId) (limit : g.limit = grown.nextId) :
    g.Holds (closeClause grown d.nextId exit kind condition) := by
  obtain ⟨steps, total⟩ := lowered.arm
  rw [Draft.nextId_link] at total
  have opened := nextId_openArm d kind
  have old : ∀ i e j, i < d.nextId → d.entryAt? i = some e → j ∈ e.successors → j ≤ d.nextId :=
    fun i e j _ found member => Nat.le_of_lt (fits.successors_lt found member)
  have sealed : (grown.link exit (d.nextId + 1) .normal).Seals g.entry g.limit := by
    have new := Draft.Steps.seals_new steps (Nat.le_refl _) (Nat.le_refl _) (Nat.le_refl _) old
    rw [Draft.nextId_link] at new
    rwa [entry, limit]
  have first : ((grown.link exit (d.nextId + 1) .normal).view Entry.head)[d.nextId]? =
      some (d.fresh (kind.name ++ " Clause Start")).head := by
    rw [Draft.view_link]
    refine (Draft.Steps.head_eq lowered.steps (by omega) (Nat.le_refl _)).trans ?_
    rw [openArm, Draft.control, Draft.view_push_of_lt _ _ (by simp)]
    exact d.view_push_self _
  obtain ⟨e, found, same⟩ := Draft.exists_of_view first
  refine ⟨⟨{ e with conditions := condition, falseAction := .block : Entry }.head, ?_, ?_⟩, ?_, ?_⟩
  · rw [closeClause, Draft.control, entry, Draft.view_push_of_lt _ _ (by simp; omega),
      Draft.getElem?_view, Draft.setConditions, Draft.entryAt?_modify_self, found]
    rfl
  · refine ⟨?_, action.symm, tokens, stated, fragment_of_located written⟩
    exact (congrArg Entry.title same).trans title.symm
  · have marked : ((grown.link exit (d.nextId + 1) .normal).setConditions d.nextId condition
        .block).Seals g.entry g.limit := by
      refine Draft.Seals.modify sealed d.nextId ?_
      intro e j member
      exact .inl member
    rw [closeClause, Draft.control]
    exact marked.push rfl
  · rw [closeClause, Draft.nextId_control, Draft.nextId_setConditions, Draft.nextId_link, limit]
    omega

/-- The gate of a choice: its entry, and what is lowered behind it. -/
theorem withChoice_holds {d grown : Draft} {start exit line : Nat} {option : Content Unit}
    {shown : Content Spoken} {condition : Option String} {fragments : List String}
    {tokens : Expression} (fits : d.Fits scene) {count : Nat}
    (lowered : Grown scene (scene.withChoice d start option shown condition fragments)
      d.nextId count
      grown exit)
    (written : scene.condition line (some tokens) = .ok condition)
    (stated : g.statement.2.guard? = some tokens) (title : g.title = "Shortcut Option Start")
    (action : g.action = .block) (entry : g.entry = d.nextId) (limit : g.limit = grown.nextId) :
    g.Holds grown := by
  have headed := nextId_withChoice scene d start option shown condition fragments
  have added := withChoice_steps scene d start option shown condition fragments (Nat.le_refl _)
  have fitsHeaded := Draft.Steps.fits added fits
  have old : ∀ i e j, i < d.nextId →
      (scene.withChoice d start option shown condition fragments).entryAt? i = some e →
      j ∈ e.successors → j ≤ d.nextId := by
    intro i e j _ found member
    have := fitsHeaded.successors_lt found member
    omega
  have sealed := Draft.Steps.seals_new lowered.steps (Nat.le_refl _) (by omega) (Nat.le_refl _) old
  rw [← entry, ← limit] at sealed
  refine ⟨⟨((scene.lineEntry d shown (some option)).guarded condition .block).head, ?_, ?_⟩, sealed,
    Nat.le_of_eq limit⟩
  · rw [entry]
    exact (Draft.Steps.head_eq lowered.steps (by omega) (Nat.le_refl _)).trans
      (view_withEntry_self d start _ fragments)
  · rw [← action]
    refine Gate.enforced_guarded stated written ?_
    rw [lineEntry_title, title]
    rfl

/-- The guard of a choice is that of the line it shows, or else that of the option. -/
theorem exists_choiceGuard (id lineId : Nat) {option shown : Content Kind} (spoken : Spoken)
    (isGuarded : (shown.hasConditions || option.hasConditions) = true) : ∃ tokens,
      (if shown.hasConditions then (lineId, shown) else (id, option)).2.guard? = some tokens ∧
        (lineGuard (shown.withKind spoken) (some (option.withKind ()))).2 = some tokens := by
  rw [lineGuard, Content.hasConditions_withKind]
  cases conditions : shown.hasConditions with
  | true =>
    obtain ⟨tokens, guard⟩ := Option.isSome_iff_exists.mp conditions
    exact ⟨tokens, guard, guard⟩
  | false =>
    rw [conditions, Bool.false_or] at isGuarded
    obtain ⟨tokens, guard⟩ := Option.isSome_iff_exists.mp isGuarded
    exact ⟨tokens, guard, guard⟩

/-- Choices that are lowered later leave a gate as it is. -/
theorem Holds.addChoices {finish : Nat} {allGuarded : Bool} (clear : g.Clear finish) :
    ∀ (choices : List Choice) {d d' : Draft} {start : Nat}, g.Holds d → start < d.nextId →
      scene.addChoices d start finish choices = .ok (d', allGuarded) → g.Holds d'
  | [], d, d', start, h, _, added => by
    cases added
    exact h
  | .mk option shown body :: rest, d, d', start, h, before, added => by
    obtain ⟨condition, fragments, grown, exit, _, _, -, addedBody, addedRest⟩ :=
      addChoices_cons_ok added
    have headed := nextId_withChoice scene d start option shown condition fragments
    have first := withChoice_steps scene d start option shown condition fragments (Nat.le_refl _)
    have lowered := addItems_grown body (by omega) addedBody
    have total := lowered.nextId
    have atHead := Gate.Holds.steps h first (Nat.le_refl _) h.inside h.inside
    have atBody := atHead.steps lowered.steps (Nat.le_refl _) atHead.inside atHead.inside
    refine Holds.addChoices clear rest (atBody.link exit .normal (.inl clear)) ?_ addedRest
    rw [Draft.nextId_link]
    omega

mutual

private theorem addItem_gates : ∀ (t : Tree) {i : Item} {d d' : Draft} {pred exit : Nat},
    t.item = .ok i →
    d.Fits scene → pred < d.nextId → scene.addItem d pred i = .ok (d', exit) →
    ∀ g ∈ t.gates d.nextId, g.Holds d'
  | .node id content children, i, d, d', pred, exit, h, fits, before, added, g, member => by
    have lowered := addItem_grown i before added
    cases Tree.stands_of_item h with
    | @basic b kind empty =>
      simp only [Tree.gates, kind] at member
      split at member
      · next guarded =>
        obtain rfl := List.mem_singleton.mp member
        simp only [Bool.and_eq_true, decide_eq_true_eq] at guarded
        obtain ⟨tokens, guard⟩ := Option.isSome_iff_exists.mp guarded.1
        have adds := addBasic_adds added
        have filled : b.entryCount ≠ 0 := guarded.2
        have total : d'.nextId = d.nextId + b.entryCount := lowered.nextId
        refine ⟨adds.enforced guarded.2 guard guard rfl rfl, ?_, ?_⟩
        · intro _ _ j _ _ low high
          change d.nextId < j at low
          change j < d.nextId + (0 + 1) at high
          omega
        · change d.nextId + (0 + 1) ≤ d'.nextId
          omega
      · cases member
    | @branch clauses otherwise kind filled sound listed =>
      simp only [Tree.gates, kind] at member
      obtain ⟨guarded, arms, complete, last, addedClauses, addedLast, rfl, rfl⟩ :=
        addItem_branch_ok added
      have opened := nextId_openBranch d pred
      have fitsOpened : (openBranch d pred).Fits scene :=
        Draft.Steps.fits (openBranch_steps scene) fits
      obtain ⟨-, count, rfl⟩ := addClauses_grown clauses addedClauses
      obtain ⟨-, -, rfl⟩ := addOtherwise_grown otherwise addedLast
      rw [← opened] at member
      have clear := Tree.clear_of_mem_clauseGates children sound listed member
      have bounds := (Tree.stands_of_mem_clauseGates children member).bounds
      have holds :=
        addClauses_gates children sound listed fitsOpened addedClauses addedLast g member
      rw [← count] at clear
      exact Gate.Holds.linkArms (.inl (by omega)) _
        (holds.enterArms d.nextId fun arm listed => (clear arm listed).1) clear
    | @menu choices kind options listed =>
      simp only [Tree.gates, kind] at member
      obtain ⟨complete, _, addedChoices, rfl, rfl⟩ := addItem_menu_ok added
      have opened := nextId_openMenu d pred choices
      have fitsOpened : (openMenu d pred choices).Fits scene :=
        Draft.Steps.fits (openMenu_steps scene choices) fits
      rw [← opened] at member
      have bounds := (Tree.stands_of_mem_optionGates children member).bounds
      have holds :=
        addChoices_gates children listed fitsOpened (by omega) (by omega) addedChoices g member
      unfold closeMenu
      split
      · exact holds.link d.nextId .belowNormal (.inl (.inl (by omega)))
      · exact holds

theorem addItems_gates : ∀ (ts : List Tree) {items : List Item} {d d' : Draft} {pred exit : Nat},
    Tree.itemList ts = .ok items → d.Fits scene → pred < d.nextId →
    scene.addItems d pred items = .ok (d', exit) → ∀ g ∈ Tree.gatesList d.nextId ts, g.Holds d'
  | [], _, _, _, _, _, _, _, _, _, _, member => by cases member
  | t :: rest, items, d, d', pred, exit, h, fits, before, added, g, member => by
    obtain ⟨first, others, one, more, rfl⟩ := Tree.itemList_cons h
    simp only [addItems, bind_eq_ok_iff] at added
    obtain ⟨⟨grown, middle⟩, addedFirst, addedRest⟩ := added
    have lowered := addItem_grown first before addedFirst
    have later := addItems_grown others lowered.exit_lt addedRest
    rcases List.mem_append.mp member with member | member
    · have holds := addItem_gates t one fits before addedFirst g member
      exact holds.steps later.steps (Nat.le_refl _) holds.inside holds.inside
    · have fitsGrown := Draft.Steps.fits lowered.steps fits
      rw [Tree.length_origins t one, ← lowered.nextId] at member
      exact addItems_gates rest more fitsGrown lowered.exit_lt addedRest g member

private theorem addClauses_gates : ∀ (ts : List Tree) {isFirst : Bool} {clauses : List Clause}
    {otherwise : Option (List Item)} {d guarded complete : Draft} {kind : ClauseKind}
    {arms last : List Arm}, clausesFlaw? isFirst ts = none →
    Tree.clauseList ts = .ok (clauses, otherwise) → d.Fits scene →
    scene.addClauses d kind clauses = .ok (guarded, arms) →
    scene.addOtherwise guarded otherwise = .ok (complete, last) →
    ∀ g ∈ Tree.clauseGates d.nextId kind ts, g.Holds complete
  | [], _, _, _, _, _, _, _, _, _, _, _, _, _, _, _, member => by cases member
  | .node id content children :: rest, isFirst, clauses, otherwise, d, guarded, complete, kind,
      arms, last, sound, h, fits, added, addedLast, g, member => by
    have opened : ∀ kind, (openArm d kind).nextId = d.nextId + 2 := nextId_openArm d
    have fitsOpened : ∀ kind, (openArm d kind).Fits scene := by
      intro kind
      have start : Draft.Steps scene d.nextId d.nextId d.nextId d d := .refl
      exact Draft.Steps.fits (Draft.Steps.control (Draft.Steps.control start _) _) fits
    obtain ⟨body, listed, guardedClause | lastClause⟩ := Tree.clauseList_cons sound h
    · obtain ⟨guard, others, known, soundRest, listedRest, rfl⟩ := guardedClause
      obtain ⟨grown, exit, condition, _, addedBody, written, addedRest, rfl⟩ :=
        addClauses_cons_ok added
      have conditions : content.hasConditions = true := by simp [Content.hasConditions, known]
      have count := Tree.length_originsList children listed
      have lowered := addItems_grown body (by rw [opened]; omega) addedBody
      have total := lowered.nextId
      rw [opened] at total
      have closed : (closeClause grown d.nextId exit kind condition).nextId = grown.nextId + 1 := by
        simp [closeClause]
      have fitsClosed : (closeClause grown d.nextId exit kind condition).Fits scene := by
        have steps := Draft.Steps.setConditions lowered.arm.1 condition .block (Nat.le_refl _)
        exact Draft.Steps.fits (Draft.Steps.control steps _) fits
      rw [Tree.clauseGates, if_pos conditions, if_pos conditions, List.mem_append, List.mem_append]
        at member
      have goesOn : ∀ {g : Gate}, g.Holds (closeClause grown d.nextId exit kind condition) →
          g.Holds complete := by
        intro g holds
        obtain ⟨stepsRest, -, -⟩ := addClauses_grown others addedRest
        obtain ⟨stepsLast, -, -⟩ := addOtherwise_grown otherwise addedLast
        have atRest := holds.steps stepsRest (Nat.le_refl _) holds.inside holds.inside
        exact atRest.steps stepsLast (Nat.le_refl _) atRest.inside atRest.inside
      rcases member with own | inner | later
      · obtain rfl := List.mem_singleton.mp own
        refine goesOn (closeClause_holds fits lowered written known rfl rfl rfl ?_)
        simp only [Gate.limit, List.length_cons]
        omega
      · have bounds := (Tree.stands_of_mem_gatesList children inner).bounds
        rw [← opened kind] at inner
        have holds :=
          addItems_gates children listed (fitsOpened kind) (by rw [opened]; omega) addedBody g inner
        have ended := holds.link exit .normal (.inl (.inl (show d.nextId + 1 ≤ g.entry by omega)))
        exact goesOn ((ended.setConditions condition .block (by omega)).control _)
      · have next : d.nextId + 2 + (Tree.originsList children).length + 1 =
            (closeClause grown d.nextId exit kind condition).nextId := by omega
        rw [next] at later
        exact addClauses_gates rest soundRest listedRest fitsClosed addedRest addedLast g later
    · obtain ⟨bare, rfl, rfl, rfl⟩ := lastClause
      have conditions : content.hasConditions = false := by simp [Content.hasConditions, bare]
      rw [Tree.clauseGates, if_neg (by simp [conditions]), List.nil_append, Tree.clauseGates,
        List.append_nil] at member
      simp only [addClauses, Except.ok.injEq, Prod.mk.injEq] at added
      obtain ⟨rfl, rfl⟩ := added
      simp only [addOtherwise, bind_eq_ok_iff, pure_eq_ok_iff, Prod.mk.injEq] at addedLast
      obtain ⟨⟨grown, exit⟩, addedBody, rfl, rfl⟩ := addedLast
      have bounds := (Tree.stands_of_mem_gatesList children member).bounds
      rw [← opened .else_] at member
      have holds :=
        addItems_gates children listed (fitsOpened .else_)
          (by rw [opened]; omega) addedBody g member
      exact holds.link exit .normal (.inl (.inl (show d.nextId + 1 ≤ g.entry by omega)))

private theorem addChoices_gates {allGuarded : Bool} :
    ∀ (ts : List Tree) {choices : List Choice} {d d' : Draft}
    {start finish : Nat}, Tree.choiceList ts = .ok choices → d.Fits scene → start < d.nextId →
    finish < d.nextId → scene.addChoices d start finish choices = .ok (d', allGuarded) →
    ∀ g ∈ Tree.optionGates d.nextId ts, g.Holds d'
  | [], _, _, _, _, _, _, _, _, _, _, _, member => by cases member
  | .node id option [] :: rest, _, _, _, _, _, h, _, _, _, _, _, _ => by cases h
  | .node id option (.node lineId shown below :: following) :: rest, choices, d, d', start, finish,
      h, fits, before, finishBefore, added, g, member => by
    obtain ⟨_, _, _, spoken, body, others, same, line, listed, listedRest, rfl⟩ :=
      Tree.choiceList_cons h
    cases same
    obtain ⟨condition, fragments, grown, exit, _, guarded, -, addedBody, addedRest⟩ :=
      addChoices_cons_ok added
    have headed :=
      nextId_withChoice scene d start (option.withKind ())
        (shown.withKind spoken) condition fragments
    have first :=
      withChoice_steps scene d start (option.withKind ()) (shown.withKind spoken) condition
        fragments (Nat.le_refl _)
    have fitsHeaded := Draft.Steps.fits first fits
    have lowered := addItems_grown body (by omega) addedBody
    have total := lowered.nextId
    have count := Tree.length_originsList following listed
    have goesOn : ∀ {g : Gate}, g.Holds grown → d.nextId ≤ g.entry → g.Holds d' := by
      intro g holds low
      have clear : g.Clear finish := .inl (by omega)
      refine Holds.addChoices clear others (holds.link exit .normal (.inl clear)) ?_ addedRest
      rw [Draft.nextId_link]
      omega
    rw [Tree.optionGates, List.mem_append, List.mem_append] at member
    rcases member with own | inner | later
    · split at own
      · next isGuarded =>
        obtain rfl := List.mem_singleton.mp own
        refine goesOn ?_ (Nat.le_refl _)
        have limit : d.nextId + ((Tree.originsList following).length + 1) = grown.nextId := by omega
        obtain ⟨tokens, stated, guard⟩ := exists_choiceGuard id lineId spoken isGuarded
        rw [guard] at guarded
        exact withChoice_holds fits lowered guarded stated rfl rfl rfl limit
      · cases own
    · have bounds := (Tree.stands_of_mem_gatesList following inner).bounds
      rw [← headed] at inner
      exact goesOn (addItems_gates following listed fitsHeaded (by omega) addedBody g inner)
        (by omega)
    · have next : d.nextId + 1 + (Tree.originsList following).length =
          (grown.link exit finish .normal).nextId := by
        rw [Draft.nextId_link]
        omega
      have fitsGrown := Draft.Steps.fits lowered.steps fitsHeaded
      have fitsLinked : (grown.link exit finish .normal).Fits scene := by
        have start : Draft.Steps scene d.nextId exit 0 grown grown := .refl
        exact Draft.Steps.fits (Draft.Steps.link start .normal (.inl rfl)
          (Nat.zero_le _) (by omega))
          fitsGrown
      rw [next] at later
      refine addChoices_gates rest listedRest fitsLinked ?_ ?_ addedRest g later
      · rw [Draft.nextId_link]
        omega
      · rw [Draft.nextId_link]
        omega

end

end Scene

private theorem Entry.mem_successors {e : Entry} {p : Priority} {j : Nat}
    (h : .enter j ∈ e.hops p) :
    j ∈ e.successors := by
  obtain ⟨l, listed, leads⟩ := List.mem_map.mp h
  unfold Link.hop at leads
  split at leads
  · cases leads
  · next inner =>
    obtain rfl := Hop.enter.inj leads
    have kept := (List.mem_filter.mp listed).1
    exact List.mem_map.mpr ⟨l, List.mem_filter.mpr ⟨kept, by simpa using inner⟩, rfl⟩

private theorem Turn.mem_of_follow {isMenu : Bool} {normal lower : List Hop}
    {choices later : List Nat} {hop : Hop}
    (h : Turn.of isMenu normal lower choices = .follow hop later) : hop ∈ normal ++ lower := by
  unfold Turn.of at h
  split at h
  · split at h
    · cases h
    · split at h
      · next found =>
        cases h
        exact List.mem_append_left _ (List.mem_of_getElem? found)
      · cases h
  · split at h
    · next listed =>
      cases h
      rw [listed]
      exact List.mem_cons_self
    · cases h

namespace Conversation

variable {c : Conversation} {truth : Nat → Bool} {lo hi : Nat}

/-- A part of a conversation that is entered at its first entry, and not at all when the condition
of that entry is false. -/
structure Shuts (c : Conversation) (truth : Nat → Bool) (lo hi : Nat) : Prop where
  sealed : ∀ i e j, c.entryById? i = some e → j ∈ e.successors → lo < j → j < hi → lo ≤ i ∧ i < hi
  closed : ∀ e, c.entryById? lo = some e → e.isOpen (truth lo) = false
  stays : ∀ e, c.entryById? lo = some e → e.falseAction = .block ∨ hi = lo + 1

/-- From hops that do not lead past the first entry of such a part, no hop into it is found. -/
theorem Shuts.offers (shuts : c.Shuts truth lo hi) {hops found : List Hop}
    (h : c.Offers truth hops found) (outside : ∀ j, .enter j ∈ hops → ¬ (lo < j ∧ j < hi)) :
    ∀ j, .enter j ∈ found → ¬ (lo ≤ j ∧ j < hi) := by
  induction h with
  | nil => exact nofun
  | leave _ ih =>
    intro j member
    rcases List.mem_cons.mp member with equal | member
    · cases equal
    · exact ih (fun k listed => outside k (List.mem_cons_of_mem _ listed)) j member
  | @enter i e hops found known isOpen _ ih =>
    intro j member
    rcases List.mem_cons.mp member with equal | member
    · obtain rfl := Hop.enter.inj equal
      have apart : j ≠ lo := by
        rintro rfl
        rw [shuts.closed e known] at isOpen
        cases isOpen
      have := outside j List.mem_cons_self
      omega
    · exact ih (fun k listed => outside k (List.mem_cons_of_mem _ listed)) j member
  | block _ _ _ _ ih =>
    exact ih fun k listed => outside k (List.mem_cons_of_mem _ listed)
  | @skip i e hops normal lower found known _ passes _ _ _ ihNormal ihLower ih =>
    have beyond : ∀ p j, .enter j ∈ e.hops p → ¬ (lo < j ∧ j < hi) := by
      rintro p j listed ⟨low, high⟩
      have within := shuts.sealed i e j known (Entry.mem_successors listed) low high
      have here := outside i List.mem_cons_self
      obtain rfl : i = lo := by omega
      rcases shuts.stays e known with blocks | bare
      · rw [blocks] at passes
        cases passes
      · omega
    intro j member
    rw [List.mem_append, List.mem_append] at member
    rcases member with (member | member) | member
    · exact ihNormal (beyond .normal) j member
    · exact ihLower (beyond .belowNormal) j member
    · exact ih (fun k listed => outside k (List.mem_cons_of_mem _ listed)) j member

private theorem Shuts.turns (shuts : c.Shuts truth lo hi) {i j : Nat} {choices later : List Nat}
    (outside : ¬ (lo ≤ i ∧ i < hi)) (h : c.Turns truth i choices (.follow (.enter j) later)) :
    ¬ (lo ≤ j ∧ j < hi) := by
  obtain ⟨e, normal, lower, known, offersNormal, offersLower, turn⟩ := h
  have beyond : ∀ p j, .enter j ∈ e.hops p → ¬ (lo < j ∧ j < hi) := by
    rintro p j listed ⟨low, high⟩
    exact outside (shuts.sealed i e j known (Entry.mem_successors listed) low high)
  rcases List.mem_append.mp (Turn.mem_of_follow turn.symm) with member | member
  · exact shuts.offers offersNormal (beyond .normal) j member
  · exact shuts.offers offersLower (beyond .belowNormal) j member

/-- A run from elsewhere enters no part that is shut. -/
theorem Shuts.plays (shuts : c.Shuts truth lo hi) {stops : Bool} {i : Nat}
    {choices visited : List Nat} {ending : Ending}
    (h : c.Plays truth stops i choices visited ending) (outside : ¬ (lo ≤ i ∧ i < hi)) :
    ∀ j ∈ visited, ¬ (lo ≤ j ∧ j < hi) := by
  induction h with
  | enter turn _ _ ih =>
    have next := shuts.turns outside turn
    intro j member
    rcases List.mem_cons.mp member with rfl | member
    · exact next
    · exact ih next j member
  | halt turn =>
    intro j member
    obtain rfl := List.mem_singleton.mp member
    exact shuts.turns outside turn
  | leave | wait | finish => exact nofun

end Conversation

end Dialogue
