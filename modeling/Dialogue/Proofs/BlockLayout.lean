import Dialogue.Proofs.Census

/-!
Where the if blocks of a script have their entries. `Tree.chains` lists the if blocks with the
entries where they start; the entries of their clauses follow from the statements in them.
-/

set_option autoImplicit false
set_option relaxedAutoImplicit false

namespace Dialogue

open Script

namespace Script

/-- An if block and the entry where it starts. -/
structure Chain where
  block : Tree
  start : Nat

namespace Tree

/-- The entries of the clauses of an if block, the first of which starts at `base`. -/
def arms : Nat → List Tree → List Scene.Arm
  | _, [] => []
  | base, .node _ content body :: rest =>
    let next := base + 2 + (originsList body).length
    if content.hasConditions then ⟨base, base + 1, some next⟩ :: arms (next + 1) rest
    else ⟨base, base + 1, none⟩ :: arms next rest

mutual

/-- The if blocks of a statement whose entries start at `base`. -/
def chains (base : Nat) : Tree → List Chain
  | .node id content children =>
    match content.kind with
    | .block .ifBlock => ⟨.node id content children, base⟩ :: clauseChains (base + 2) children
    | .block .options => optionChains (base + 2) children
    | _ => []

def chainsList (base : Nat) : List Tree → List Chain
  | [] => []
  | t :: rest => chains base t ++ chainsList (base + t.origins.length) rest

def clauseChains (base : Nat) : List Tree → List Chain
  | [] => []
  | .node _ content body :: rest =>
    chainsList (base + 2) body ++
      clauseChains (base + 2 + (originsList body).length + if content.hasConditions then 1 else 0)
        rest

def optionChains (base : Nat) : List Tree → List Chain
  | [] => []
  | .node _ _ [] :: rest => optionChains base rest
  | .node _ _ (.node _ _ _ :: body) :: rest =>
    chainsList (base + 1) body ++ optionChains (base + 1 + (originsList body).length) rest

end

end Tree

def chains (s : Script) : List Chain :=
  Tree.chainsList 1 s.tree.children

namespace Chain

/-- The last entry of a block. -/
def finish (b : Chain) : Nat :=
  b.start + 1

def arms (b : Chain) : List Scene.Arm :=
  Tree.arms (b.start + 2) b.block.children

/-- The entries that choose between the clauses that are left: the start and the fallbacks. -/
def stations (b : Chain) : List Nat :=
  b.start :: b.arms.filterMap Scene.Arm.fallback

def guards (b : Chain) : Nat :=
  b.block.children.countP fun clause => clause.content.hasConditions

/-- The first entry after a block. -/
def limit (b : Chain) : Nat :=
  b.start + b.block.origins.length

/-- A block has its place among entries from `base` on, whose origins are given. -/
def Stands (b : Chain) (base : Nat) (origins : List (List Tree.Origin)) : Prop :=
  Tree.StandsAt b.block.origins b.start base origins

variable {b : Chain}

theorem Stands.bounds {base : Nat} {origins : List (List Tree.Origin)} (h : b.Stands base origins) :
    base ≤ b.start ∧ b.limit ≤ base + origins.length :=
  Tree.StandsAt.bounds h

theorem limit_eq (kind : b.block.kind = .block .ifBlock) :
    b.limit = b.start + 2 + (Tree.clauseOrigins b.block.children).length := by
  obtain ⟨⟨_, content, children⟩, start⟩ := b
  replace kind : content.kind = .block .ifBlock := kind
  simp only [limit, Tree.origins, kind, List.length_cons, Tree.children]
  omega

end Chain

namespace Tree

mutual

private theorem stands_of_mem_chains {b : Chain} : ∀ (t : Tree) {base : Nat}, b ∈ t.chains base →
    b.Stands base t.origins
  | .node id content children, base, member => by
    cases kind : content.kind with
    | basic => simp [chains, kind] at member
    | block sort =>
      cases sort with
      | ifBlock =>
        simp only [chains, kind] at member
        rcases List.mem_cons.mp member with rfl | member
        · exact ⟨[], [], by simp, rfl⟩
        · simp only [origins, kind]
          exact (stands_of_mem_clauseChains children member).append_left [[], []]
      | options =>
        simp only [chains, kind] at member
        simp only [origins, kind]
        exact (stands_of_mem_optionChains children member).append_left [[], []]
      | node | ifClause | option => simp [chains, kind] at member

theorem stands_of_mem_chainsList {b : Chain} : ∀ (ts : List Tree) {base : Nat},
    b ∈ chainsList base ts → b.Stands base (originsList ts)
  | [], _, member => by cases member
  | t :: rest, base, member => by
    rw [originsList]
    rcases List.mem_append.mp member with member | member
    · exact (stands_of_mem_chains t member).append_right _
    · exact (stands_of_mem_chainsList rest member).append_left _

theorem stands_of_mem_clauseChains {b : Chain} : ∀ (ts : List Tree) {base : Nat},
    b ∈ clauseChains base ts → b.Stands base (clauseOrigins ts)
  | [], _, member => by cases member
  | .node id content body :: rest, base, member => by
    rw [clauseChains, List.mem_append] at member
    rcases member with inner | later
    · exact (stands_of_mem_chainsList body inner).clause_body
    · exact (stands_of_mem_clauseChains rest later).clause_rest

theorem stands_of_mem_optionChains {b : Chain} : ∀ (ts : List Tree) {base : Nat},
    b ∈ optionChains base ts → b.Stands base (optionOrigins ts)
  | [], _, member => by cases member
  | .node _ _ [] :: rest, base, member => stands_of_mem_optionChains rest member
  | .node id option (.node lineId shown below :: body) :: rest, base, member => by
    rw [optionChains, List.mem_append] at member
    rcases member with inner | later
    · exact (stands_of_mem_chainsList body inner).option_body
    · exact (stands_of_mem_optionChains rest later).option_rest

end

mutual

/-- Every if block of an item is listed once, in the order of the statements. -/
theorem blocks_chains : ∀ (t : Tree) {i : Item} (base : Nat), t.item = .ok i →
    (t.chains base).map Chain.block = t.parts.filter isIfBlock
  | .node id content children, i, base, h => by
    rw [parts, List.filter_cons]
    cases stands_of_item h with
    | basic kind leaf =>
      subst leaf
      simp [chains, isIfBlock, Tree.kind, Tree.content, kind, partsList]
    | branch kind _ sound listed =>
      have inner := blocks_clauseChains children (base + 2) sound listed
      simp [chains, isIfBlock, Tree.kind, Tree.content, kind, inner]
    | menu kind options listed =>
      have inner := blocks_optionChains children (base + 2) options listed
      simp [chains, isIfBlock, Tree.kind, Tree.content, kind, inner]

theorem blocks_chainsList : ∀ (ts : List Tree) {items : List Item} (base : Nat),
    itemList ts = .ok items → (chainsList base ts).map Chain.block = (partsList ts).filter isIfBlock
  | [], _, _, _ => rfl
  | t :: rest, items, base, h => by
    obtain ⟨first, others, one, more, rfl⟩ := itemList_cons h
    rw [chainsList, partsList, List.map_append, List.filter_append, blocks_chains t base one,
      blocks_chainsList rest _ more]

private theorem blocks_clauseChains : ∀ (ts : List Tree) {isFirst : Bool} {clauses : List Clause}
    {otherwise : Option (List Item)} (base : Nat), clausesFlaw? isFirst ts = none →
    clauseList ts = .ok (clauses, otherwise) →
    (clauseChains base ts).map Chain.block = (partsList ts).filter isIfBlock
  | [], _, _, _, _, _, _ => rfl
  | .node id content body :: rest, isFirst, clauses, otherwise, base, sound, h => by
    obtain ⟨kind, isClause⟩ : ∃ kind, content.kind = .block (.ifClause kind) :=
      clause_of_sound sound
    have other : isIfBlock (.node id content body) = false := by
      simp [isIfBlock, Tree.kind, Tree.content, isClause]
    obtain ⟨items, listed, guarded | last⟩ := clauseList_cons sound h
    · obtain ⟨guard, others, -, soundRest, listedRest, rfl⟩ := guarded
      simp [clauseChains, partsList, parts, other, blocks_chainsList body _ listed,
        blocks_clauseChains rest _ soundRest listedRest]
    · obtain ⟨-, rfl, rfl, rfl⟩ := last
      simp [clauseChains, partsList, parts, other, blocks_chainsList body _ listed]

private theorem blocks_optionChains : ∀ (ts : List Tree) {choices : List Choice} (base : Nat),
    (∀ t ∈ ts, t.kind = .block .option) → choiceList ts = .ok choices →
    (optionChains base ts).map Chain.block = (partsList ts).filter isIfBlock
  | [], _, _, _, _ => rfl
  | .node _ _ [] :: rest, _, _, _, h => by cases h
  | .node id option (.node lineId shown below :: following) :: rest, choices, base, options, h => by
    obtain ⟨_, _, _, spoken, body, others, same, kind, listed, listedRest, rfl⟩ := choiceList_cons h
    cases same
    obtain ⟨isOption, options⟩ := List.forall_mem_cons.mp options
    replace isOption : option.kind = .block .option := isOption
    have inner := blocks_chainsList following (base + 1) listed
    have later :=
      blocks_optionChains rest (base + 1 + (originsList following).length) options listedRest
    simp [optionChains, partsList, parts, isIfBlock, Tree.kind, Tree.content, isOption, kind, inner,
      later]

end

end Tree

end Script

namespace Script.Tree

/-- The entries of the clauses of a block are those of the guarded clauses that it is read as, and
of the last clause. -/
theorem arms_eq : ∀ (ts : List Tree) {isFirst : Bool} {clauses : List Clause}
    {otherwise : Option (List Item)} (base : Nat), clausesFlaw? isFirst ts = none →
    clauseList ts = .ok (clauses, otherwise) →
    arms base ts =
      Scene.armsFrom base clauses ++ Scene.lastArm (base + clausesCount clauses) otherwise
  | [], _, clauses, otherwise, base, _, h => by
    cases h
    rfl
  | .node id content body :: rest, isFirst, clauses, otherwise, base, sound, h => by
    obtain ⟨items, listed, guarded | last⟩ := clauseList_cons sound h
    · obtain ⟨guard, others, known, soundRest, listedRest, rfl⟩ := guarded
      have conditions : content.hasConditions = true := by simp [Content.hasConditions, known]
      have next : base + 2 + bodyCount items + 1 = base + 3 + bodyCount items := by omega
      simp only [arms, conditions, if_true, length_originsList body listed, next,
        arms_eq rest _ soundRest listedRest, add_clausesCount_cons,
          Scene.armsFrom, List.cons_append]
    · obtain ⟨bare, rfl, rfl, rfl⟩ := last
      have conditions : content.hasConditions = false := by simp [Content.hasConditions, bare]
      simp only [arms, conditions]
      rfl

end Script.Tree

private theorem Scene.Arm.Within.mono {base limit base' limit' : Nat} {arm : Scene.Arm}
    (h : arm.Within base limit) (low : base' ≤ base) (high : limit ≤ limit') :
    arm.Within base' limit' where
  start := ⟨Nat.le_trans low h.start.1, Nat.lt_of_lt_of_le h.start.2 high⟩
  finish := ⟨Nat.le_trans low h.finish.1, Nat.lt_of_lt_of_le h.finish.2 high⟩
  fallback i found :=
    ⟨Nat.le_trans low (h.fallback i found).1, Nat.lt_of_lt_of_le (h.fallback i found).2 high⟩

theorem Script.Tree.arms_within_origins : ∀ (ts : List Tree) (base : Nat),
    ∀ arm ∈ arms base ts, arm.Within base (base + (clauseOrigins ts).length)
  | [], _, _, member => by cases member
  | .node id content body :: rest, base, arm, member => by
    have first : base < base + 2 + (originsList body).length := by omega
    have second : base + 1 < base + 2 + (originsList body).length := by omega
    cases conditions : content.hasConditions with
    | true =>
      simp only [arms, conditions, if_true, List.mem_cons] at member
      have total : base + (clauseOrigins (.node id content body :: rest)).length =
          base + 2 + (originsList body).length + 1 + (clauseOrigins rest).length := by
        simp only [clauseOrigins, conditions, if_true, List.length_cons, List.length_append,
          List.length_nil]
        omega
      rw [total]
      rcases member with rfl | member
      · refine ⟨⟨Nat.le_refl _, Nat.lt_of_lt_of_le first (by omega)⟩,
          ⟨Nat.le_succ _, Nat.lt_of_lt_of_le second (by omega)⟩, ?_⟩
        rintro i ⟨⟩
        exact ⟨by omega, by omega⟩
      · exact (arms_within_origins rest _ arm member).mono (by omega) (Nat.le_refl _)
    | false =>
      simp only [arms, conditions, Bool.false_eq_true, if_false, List.mem_cons] at member
      have total : base + (clauseOrigins (.node id content body :: rest)).length =
          base + 2 + (originsList body).length + (clauseOrigins rest).length := by
        simp only [clauseOrigins, conditions, Bool.false_eq_true, if_false, List.length_cons,
          List.length_append, List.length_nil]
        omega
      rw [total]
      rcases member with rfl | member
      · exact ⟨⟨Nat.le_refl _, Nat.lt_of_lt_of_le first (by omega)⟩,
          ⟨Nat.le_succ _, Nat.lt_of_lt_of_le second (by omega)⟩, by rintro _ ⟨⟩⟩
      · exact (arms_within_origins rest _ arm member).mono (by omega) (Nat.le_refl _)

/-- The entries that the end of a branch links are not among those of a block in one of its
clauses. -/
theorem Script.Tree.outside_of_mem_clauseChains {b : Chain} : ∀ (ts : List Tree) {base : Nat},
    b ∈ clauseChains base ts →
    ∀ arm ∈ arms base ts, arm.Ends fun i => i < b.start ∨ b.limit ≤ i
  | [], _, member => by cases member
  | .node id content body :: rest, base, member => by
    rw [clauseChains, List.mem_append] at member
    obtain ⟨next, place⟩ : ∃ next, next = base + 2 + (originsList body).length +
      if content.hasConditions then 1 else 0 := ⟨_, rfl⟩
    rw [← place] at member
    have bounds : base + 2 ≤ b.start ∧ b.limit ≤ base + 2 + (originsList body).length ∨
        b ∈ clauseChains next rest ∧ next ≤ b.start :=
      member.imp (fun inner => (stands_of_mem_chainsList body inner).bounds)
        fun later => ⟨later, (stands_of_mem_clauseChains rest later).bounds.1⟩
    have later : ∀ arm ∈ arms next rest, arm.Ends fun i => i < b.start ∨ b.limit ≤ i := by
      intro arm listed
      rcases bounds with inner | ⟨later, -⟩
      · refine (arms_within_origins rest next arm listed).ends.mono fun i low => .inr ?_
        omega
      · exact outside_of_mem_clauseChains rest later arm listed
    cases conditions : content.hasConditions with
    | true =>
      simp only [conditions, if_true] at place
      simp only [arms, conditions, if_true, ← place]
      refine List.forall_mem_cons.mpr ⟨⟨by simp only; omega, ?_⟩, later⟩
      rintro i ⟨⟩
      omega
    | false =>
      simp only [conditions, Bool.false_eq_true, if_false, Nat.add_zero] at place
      simp only [arms, conditions, Bool.false_eq_true, if_false, ← place]
      exact List.forall_mem_cons.mpr ⟨⟨by simp only; omega, nofun⟩, later⟩

namespace Script.Tree

/-- Only the last clause of a sound block is without a guard, and it is not the first one. -/
theorem last_of_unguarded {isFirst : Bool} {t : Tree} {rest : List Tree}
    (sound : clausesFlaw? isFirst (t :: rest) = none) (bare : t.content.hasConditions = false) :
    isFirst = false ∧ rest = [] ∧ t.kind = .block (.ifClause .else_) := by
  have here := (Option.or_eq_none_iff.mp sound).1
  unfold clauseFlaw? at here
  split at here
  · cases isFirst <;> simp [bare] at here
  · cases isFirst <;> simp [bare] at here
  next isElse => cases isFirst <;> cases rest <;> simp_all
  · cases here

/-- The guarded clauses of a sound block come first. -/
theorem guarded_iff_lt : ∀ (ts : List Tree) {isFirst : Bool}, clausesFlaw? isFirst ts = none →
    ∀ {k : Nat} {clause : Tree}, ts[k]? = some clause →
      (clause.content.hasConditions = true ↔ k < ts.countP fun t => t.content.hasConditions)
  | [], _, _, k, _, found => by simp at found
  | t :: rest, isFirst, sound, k, clause, found => by
    have soundRest : clausesFlaw? false rest = none := (Option.or_eq_none_iff.mp sound).2
    cases conditions : t.content.hasConditions with
    | true =>
      rw [List.countP_cons_of_pos (p := fun t : Tree => t.content.hasConditions) conditions]
      cases k with
      | zero =>
        cases found
        simp [conditions]
      | succ k =>
        rw [guarded_iff_lt rest soundRest found]
        exact Nat.succ_lt_succ_iff.symm
    | false =>
      obtain ⟨-, rfl, -⟩ := last_of_unguarded sound conditions
      cases k with
      | zero =>
        cases found
        simp [conditions]
      | succ k => simp at found

theorem else_of_unguarded : ∀ (ts : List Tree) {isFirst : Bool}, clausesFlaw? isFirst ts = none →
    ∀ clause ∈ ts, clause.content.hasConditions = false → clause.kind = .block (.ifClause .else_)
  | t :: rest, isFirst, sound, clause, member, bare => by
    rcases List.mem_cons.mp member with rfl | member
    · exact (last_of_unguarded sound bare).2.2
    · exact else_of_unguarded rest (Option.or_eq_none_iff.mp sound).2 clause member bare

/-- All clauses of a sound block are guarded, or all but the last. -/
theorem guards_of_sound : ∀ (ts : List Tree) {isFirst : Bool}, clausesFlaw? isFirst ts = none →
    let guards := ts.countP fun t => t.content.hasConditions
    guards = ts.length ∨ guards + 1 = ts.length
  | [], _, _ => .inl rfl
  | t :: rest, isFirst, sound => by
    have later := guards_of_sound rest (Option.or_eq_none_iff.mp sound).2
    cases conditions : t.content.hasConditions with
    | true =>
      rw [List.countP_cons_of_pos (p := fun t : Tree => t.content.hasConditions) conditions,
        List.length_cons]
      omega
    | false =>
      obtain ⟨-, rfl, -⟩ := last_of_unguarded sound conditions
      simp [conditions]

theorem guards_pos {ts : List Tree} (filled : ts ≠ []) (sound : clausesFlaw? true ts = none) :
    0 < ts.countP fun t => t.content.hasConditions := by
  cases ts with
  | nil => contradiction
  | cons t rest =>
    cases conditions : t.content.hasConditions with
    | true => simp [conditions]
    | false => cases (last_of_unguarded sound conditions).1

/-- There is a fallback for each guarded clause. -/
theorem length_fallbacks : ∀ (ts : List Tree) (base : Nat),
    ((arms base ts).filterMap Scene.Arm.fallback).length = ts.countP fun t =>
      t.content.hasConditions
  | [], _ => rfl
  | .node id content body :: rest, base => by
    cases conditions : content.hasConditions <;>
      simp [arms, conditions, Tree.content, length_fallbacks rest]

end Script.Tree

end Dialogue
