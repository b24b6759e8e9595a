import Dialogue.Proofs.Grammar
import Dialogue.Proofs.Integrity
import Dialogue.Proofs.Ways

/-!
How the entries of a lowered script are linked. For every item of a body, `Conversation.WiredItem`
says where its entries stand in the conversation and where their links lead, given the entry that
the item is lowered behind and the one that the next item is lowered behind. The lowering of an item
establishes it for every later state of the conversation in which the entries of the item are as
they were left.
-/

set_option autoImplicit false
set_option relaxedAutoImplicit false

namespace Dialogue

open Script

namespace Conversation

/-- How a basic statement is wired: not at all if it is a directive, else behind the entry before
it. A jump has a link out of the conversation, and the statements that follow are behind its
placeholder. -/
inductive WiredBasic (c : Conversation) (targets : Dict Nat) (base pred : Nat) (s : Content Basic) :
    Nat → Prop
  | directive : s.kind.entryCount = 0 → WiredBasic c targets base pred s pred
  | entry : s.kind.entryCount = 1 → c.waysAt? pred = some (.only base) →
      c.standAt? base = some ⟨.content (s.kind.title = "Stop"),
        s.guard?.map fun _ => .passthrough⟩ →
      WiredBasic c targets base pred s base
  | jump {name : String} {target : Nat} : s.kind = .jump (.node name) →
      targets.get? name = some target → c.waysAt? pred = some (.only base) →
      c.standAt? base = some ⟨.content false, s.guard?.map fun _ => .passthrough⟩ →
      c.waysAt? base = some ⟨false, [.leave target], [.enter (base + 1)]⟩ →
      c.standAt? (base + 1) = some ⟨.control, some .block⟩ →
      WiredBasic c targets base pred s (base + 1)

/-- How the clauses of a branch are linked: from the entry before, first to the clause and then to
its fallback, from where it goes on with the clauses that are left, and from each clause to the
end. -/
def ArmsLinked (ways : Nat → Option Ways) (finish : Nat) : Nat → List Scene.Arm → Prop
  | previous, [] => ways previous = some (.only finish)
  | previous, ⟨start, last, some fallback⟩ :: rest =>
    ways previous = some ⟨false, [.enter start], [.enter fallback]⟩ ∧
      ways last = some (.only finish) ∧ ArmsLinked ways finish fallback rest
  | previous, ⟨start, last, none⟩ :: _ =>
    ways previous = some (.only start) ∧ ways last = some (.only finish)

/-- The clauses of a branch that starts at an entry. -/
def arms (base : Nat) (clauses : List Clause) (otherwise : Option (List Item)) : List Scene.Arm :=
  Scene.armsFrom (base + 2) clauses ++ Scene.lastArm (base + 2 + clausesCount clauses) otherwise

/-- The first entries of choices that start at an entry. -/
def heads : Nat → List Choice → List Nat
  | _, [] => []
  | base, .mk _ _ body :: rest => base :: heads (base + 1 + bodyCount body) rest

mutual

/-- How an item is wired whose entries start at `base`, between the entry that it is lowered behind
and the one that the next item is lowered behind. -/
def WiredItem (c : Conversation) (targets : Dict Nat) (base pred exit : Nat) : Item → Prop
  | .basic s => c.WiredBasic targets base pred s exit
  | .branch clauses otherwise =>
    exit = base + 1 ∧ c.waysAt? pred = some (.only base) ∧
      c.standAt? base = some ⟨.control, none⟩ ∧ c.standAt? (base + 1) = some ⟨.control, none⟩ ∧
      WiredClauses c targets (base + 2) clauses ∧
      WiredLast c targets (base + 2 + clausesCount clauses) otherwise ∧
      (arms base clauses otherwise ≠ [] →
        ArmsLinked c.waysAt? (base + 1) base (arms base clauses otherwise))
  | .menu choices =>
    exit = base + 1 ∧ c.waysAt? pred = some (.only base) ∧
      c.standAt? base = some ⟨.menu, none⟩ ∧ c.standAt? (base + 1) = some ⟨.control, none⟩ ∧
      c.waysAt? base = some ⟨true, (heads (base + 2) choices).map .enter,
        if choices.all Scene.isGuarded then [.enter (base + 1)] else []⟩ ∧
      WiredChoices c targets (base + 1) (base + 2) choices

def WiredBody (c : Conversation) (targets : Dict Nat) (base pred exit : Nat) : List Item → Prop
  | [] => exit = pred
  | item :: rest => ∃ middle, WiredItem c targets base pred middle item ∧
      WiredBody c targets (base + item.entryCount) middle exit rest

/-- How guarded clauses are wired, apart from the links between them. -/
def WiredClauses (c : Conversation) (targets : Dict Nat) (base : Nat) : List Clause → Prop
  | [] => True
  | .mk _ _ body :: rest =>
    c.standAt? base = some ⟨.control, some .block⟩ ∧ c.standAt? (base + 1) = some ⟨.control, none⟩ ∧
      c.standAt? (base + 2 + bodyCount body) = some ⟨.control, none⟩ ∧
      (∃ last, WiredBody c targets (base + 2) base last body ∧
        c.waysAt? last = some (.only (base + 1))) ∧
      WiredClauses c targets (base + 3 + bodyCount body) rest

/-- How the last clause of a branch is wired, which has no guard. -/
def WiredLast (c : Conversation) (targets : Dict Nat) (base : Nat) : Option (List Item) → Prop
  | none => True
  | some body =>
    c.standAt? base = some ⟨.control, none⟩ ∧ c.standAt? (base + 1) = some ⟨.control, none⟩ ∧
      ∃ last, WiredBody c targets (base + 2) base last body ∧
        c.waysAt? last = some (.only (base + 1))

def WiredChoices (c : Conversation) (targets : Dict Nat) (finish base : Nat) : List Choice → Prop
  | [] => True
  | .mk option shown body :: rest =>
    c.standAt? base = some ⟨.content false,
        if Scene.isGuarded (.mk option shown body) then some .block else none⟩ ∧
      (∃ last, WiredBody c targets (base + 1) base last body ∧
        c.waysAt? last = some (.only finish)) ∧
      WiredChoices c targets finish (base + 1 + bodyCount body) rest

end

/-- A conversation keeps what a draft says about the entries from `base` on. At the last entry of a
body links may have come, and at the one that it is lowered behind all may have changed but the
links. -/
structure Settles (c : Conversation) (d : Draft) (base pred exit : Nat) : Prop where
  inner : ∀ i, base ≤ i → i < d.nextId → i ≠ exit → c.entryById? i = d.entryAt? i
  stand : base ≤ exit → c.standAt? exit = (d.view Entry.stand)[exit]?
  ways : pred ≠ exit → c.waysAt? pred = (d.view Entry.ways)[pred]?

end Conversation

namespace Scene

open Conversation

variable {scene : Scene}

private theorem Adds.wired {d d' : Draft} {pred exit : Nat} {s : Content Basic}
    (h : Adds scene d pred s d' exit) (loose : d.Loose pred) {c : Conversation}
    (settles : c.Settles d' d.nextId pred exit) :
    c.WiredBasic scene.context.conversations d.nextId pred s exit := by
  have before := loose.lt_nextId
  cases h with
  | directive count => exact .directive count
  | entry count guarded joins title bare =>
    refine .entry count ?_ ?_
    · rw [settles.ways (by omega), ways_withEntry_pred loose]
    · rw [settles.stand (Nat.le_refl _), view_withEntry_self, stand_guarded guarded _ bare,
        role_of_title _ title]
  | jump kind known guarded =>
    obtain ⟨atPred, atJump, _⟩ := withJump_ways loose _ _
    obtain ⟨standJump, standNext⟩ := withJump_stands guarded _
    have jump : c.entryById? d.nextId = (withJump d pred _ _).entryAt? d.nextId :=
      settles.inner _ (Nat.le_refl _) (by rw [nextId_withJump]; omega) (by omega)
    refine .jump kind known ?_ ?_ ?_ ?_
    · rw [settles.ways (by omega), atPred]
    · rw [standAt?, jump, ← standJump, Draft.getElem?_view]
    · rw [waysAt?, jump, ← atJump, Draft.getElem?_view]
    · rw [settles.stand (by omega), standNext]

/-- The links that the end of a branch adds are those of `ArmsLinked`, if the entries of the clauses
had none before. -/
theorem linkArms_linked {finish : Nat} (otherwise : Option (List Item)) :
    ∀ (clauses : List Clause) {base previous : Nat} {d : Draft} {all : List Arm},
      all = armsFrom base clauses ++ lastArm (base + clausesCount clauses) otherwise →
      previous < base →
      (d.view Entry.ways)[previous]? = some (.only ((all.head?.map Arm.start).getD finish)) →
      (∀ arm ∈ all, arm.Ends d.Loose) →
      ArmsLinked (((linkArms d previous finish all).view Entry.ways)[·]?) finish previous all
  | [], base, previous, d, all, list, before, first, loose => by
    cases otherwise with
    | none =>
      subst list
      exact first
    | some body =>
      replace list : all = [⟨base, base + 1, none⟩] := list
      subst list
      have last : d.Loose (base + 1) := (loose _ List.mem_cons_self).finish
      constructor
      · change ((d.link (base + 1) finish .normal).view Entry.ways)[previous]? = _
        rw [Draft.view_link_of_ne _ _ _ (by omega)]
        exact first
      · change ((d.link (base + 1) finish .normal).view Entry.ways)[base + 1]? = _
        rw [Draft.ways_link_self, last]
        rfl
  | .mk line guard body :: rest, base, previous, d, all, list, before, first, loose => by
    obtain ⟨fallback, found⟩ : ∃ fallback, fallback = base + 2 + bodyCount body := ⟨_, rfl⟩
    obtain ⟨others, later⟩ : ∃ others, others = armsFrom (fallback + 1) rest ++
        lastArm (fallback + 1 + clausesCount rest) otherwise := ⟨_, rfl⟩
    have split : all = ⟨base, base + 1, some fallback⟩ :: others := by
      have next : base + 3 + bodyCount body = fallback + 1 := by omega
      rw [list, later, add_clausesCount_cons, armsFrom, next, ← found, List.cons_append]
    subst split
    have within := arms_within (fallback + 1) rest otherwise
    rw [← later] at within
    have here := loose _ List.mem_cons_self
    have looseFallback : d.Loose fallback := here.fallback _ rfl
    have looseLast : d.Loose (base + 1) := here.finish
    let next := (others.head?.map Arm.start).getD finish
    let linked := linkArm d previous (base + 1) fallback next finish
    have frame : ∀ i, i < fallback →
        ((linkArms linked fallback finish others).view Entry.ways)[i]? =
          (linked.view Entry.ways)[i]? := by
      intro i low
      have apart : ∀ arm ∈ others, arm.Ends (· ≠ i) :=
        fun arm member => (within arm member).ends.mono (fun j bounds => by omega)
      exact Draft.view_congr (linkArms_entryAt?_eq finish others (by omega) apart)
    have looseOthers : ∀ arm ∈ others, arm.Ends linked.Loose := by
      intro arm member
      have bounds := (within arm member).ends
      have old := loose arm (List.mem_cons_of_mem _ member)
      have kept : ∀ i, fallback + 1 ≤ i → d.Loose i → linked.Loose i := by
        intro i high loose
        rw [Draft.Loose, ways_linkArm_of_lt _ _ (by omega) (by omega) (by omega), loose]
      exact ⟨kept _ bounds.finish.1 old.finish,
        fun i found => kept i (bounds.fallback i found).1 (old.fallback i found)⟩
    have atPrevious : (linked.view Entry.ways)[previous]? = some ⟨false, [.enter base],
        [.enter fallback]⟩ :=
      ways_linkArm_previous next finish first (by omega) (by omega)
    have atLast : (linked.view Entry.ways)[base + 1]? = some (.only finish) :=
      ways_linkArm_last next finish looseLast (by omega) (by omega)
    have atFallback : (linked.view Entry.ways)[fallback]? = some (.only next) :=
      ways_linkArm_fallback next finish looseFallback (by omega) (by omega)
    exact ⟨(frame previous (by omega)).trans atPrevious, (frame (base + 1) (by omega)).trans atLast,
      linkArms_linked otherwise rest later (Nat.lt_succ_self _) atFallback looseOthers⟩

/-- The stages of lowering a branch: its guarded clauses, then its last clause, then all links
between them. -/
structure Branched (scene : Scene) (d : Draft) (pred : Nat) (clauses : List Clause)
    (otherwise : Option (List Item)) (guarded complete d' : Draft) : Prop where
  added : scene.addClauses (openBranch d pred) .if_ clauses =
    .ok (guarded, armsFrom (d.nextId + 2) clauses)
  addedLast : scene.addOtherwise guarded otherwise =
    .ok (complete, lastArm (d.nextId + 2 + clausesCount clauses) otherwise)
  linked : d' = linkArms (enterArms complete d.nextId (arms d.nextId clauses otherwise)) d.nextId
    (d.nextId + 1) (arms d.nextId clauses otherwise)
  nextGuarded : guarded.nextId = d.nextId + 2 + clausesCount clauses
  nextComplete : complete.nextId = guarded.nextId + otherwiseCount otherwise

theorem exists_branched {d d' : Draft} {pred exit : Nat} {clauses : List Clause}
    {otherwise : Option (List Item)}
    (h : scene.addItem d pred (.branch clauses otherwise) = .ok (d', exit)) :
    exit = d.nextId + 1 ∧
      ∃ guarded complete, Branched scene d pred clauses otherwise guarded complete d' := by
  obtain ⟨guarded, arms, complete, last, added, addedLast, linked, found⟩ := addItem_branch_ok h
  obtain ⟨-, nextGuarded, rfl⟩ := addClauses_grown clauses added
  obtain ⟨-, nextComplete, rfl⟩ := addOtherwise_grown otherwise addedLast
  rw [nextId_openBranch] at added linked nextGuarded
  rw [nextGuarded] at addedLast linked
  exact ⟨found, guarded, complete, added, addedLast, linked, nextGuarded, nextComplete⟩

namespace Branched

variable {d guarded complete d' : Draft} {pred : Nat} {clauses : List Clause}
  {otherwise : Option (List Item)}

theorem within (d : Draft) (clauses : List Clause) (otherwise : Option (List Item)) :
    ∀ arm ∈ arms d.nextId clauses otherwise, arm.Ends fun i => d.nextId + 2 ≤ i ∧
      i < d.nextId + 2 + clausesCount clauses + otherwiseCount otherwise :=
  fun arm member => (arms_within (d.nextId + 2) clauses otherwise arm member).ends

theorem nextId (h : Branched scene d pred clauses otherwise guarded complete d') :
    d'.nextId = d.nextId + 2 + clausesCount clauses + otherwiseCount otherwise := by
  rw [h.linked, nextId_linkArms, nextId_enterArms, h.nextComplete, h.nextGuarded]

/-- The entries of the clauses are as the clauses left them, apart from those that get links. -/
theorem entryAt?_eq (h : Branched scene d pred clauses otherwise guarded complete d') {i : Nat}
    (apart : d.nextId ≠ i) (ends : ∀ arm ∈ arms d.nextId clauses otherwise, arm.Ends (· ≠ i)) :
    d'.entryAt? i = complete.entryAt? i := by
  rw [h.linked, linkArms_entryAt?_eq _ _ apart ends, enterArms_entryAt?_eq _ _ apart]

private theorem standAt?_eq (h : Branched scene d pred clauses otherwise guarded complete d')
    (i : Nat) :
    (d'.view Entry.stand)[i]? = (complete.view Entry.stand)[i]? := by
  rw [h.linked, view_linkArms, view_enterArms]

private theorem
    guarded_entryAt?_eq (h : Branched scene d pred clauses otherwise guarded complete d') {i : Nat}
    (lt : i < guarded.nextId) : complete.entryAt? i = guarded.entryAt? i :=
  Draft.Steps.entryAt?_eq (addOtherwise_grown otherwise h.addedLast).1 (Nat.le_refl _) lt
    (Nat.ne_of_lt lt)

theorem opened_entryAt?_eq (h : Branched scene d pred clauses otherwise guarded complete d')
    {i : Nat} (lt : i < d.nextId + 2) : complete.entryAt? i = (openBranch d pred).entryAt? i := by
  have total := h.nextGuarded
  have opened := nextId_openBranch d pred
  rw [h.guarded_entryAt?_eq (by omega)]
  exact Draft.Steps.entryAt?_eq (addClauses_grown clauses h.added).1 (Nat.le_refl _) (by omega)
    (by omega)

private theorem waysAt?_eq (h : Branched scene d pred clauses otherwise guarded complete d')
    {i : Nat} (lt : i < d.nextId + 2) (apart : d.nextId ≠ i) :
    (d'.view Entry.ways)[i]? = ((openBranch d pred).view Entry.ways)[i]? := by
  have ends : ∀ arm ∈ arms d.nextId clauses otherwise, arm.Ends (· ≠ i) :=
    fun arm member => (within d clauses otherwise arm member).mono fun j bounds => by omega
  exact Draft.view_congr ((h.entryAt?_eq apart ends).trans (h.opened_entryAt?_eq lt))

private theorem armsLinked (h : Branched scene d pred clauses otherwise guarded complete d')
    (loose : d.Loose pred) (filled : arms d.nextId clauses otherwise ≠ []) :
    ArmsLinked ((d'.view Entry.ways)[·]?)
      (d.nextId + 1) d.nextId (arms d.nextId clauses otherwise) := by
  have total := h.nextGuarded
  have start : complete.Loose d.nextId := by
    rw [Draft.Loose, Draft.view_congr (h.opened_entryAt?_eq (by omega))]
    exact (openBranch_ways loose).2.1
  have ends : ∀ arm ∈ arms d.nextId clauses otherwise, arm.Ends complete.Loose := by
    intro arm member
    rcases List.mem_append.mp member with member | member
    · refine (addClauses_loose clauses h.added arm member).mono fun i loose => ?_
      rw [Draft.Loose, Draft.view_congr (h.guarded_entryAt?_eq loose.lt_nextId)]
      exact loose
    · exact addOtherwise_loose otherwise h.addedLast arm member
  have kept : ∀ arm ∈ arms d.nextId clauses otherwise,
      arm.Ends (enterArms complete d.nextId (arms d.nextId clauses otherwise)).Loose := by
    intro arm member
    have bounds := within d clauses otherwise arm member
    have same : ∀ i, d.nextId + 2 ≤ i → complete.Loose i →
        (enterArms complete d.nextId (arms d.nextId clauses otherwise)).Loose i := by
      intro i high loose
      rw [Draft.Loose, Draft.view_congr (enterArms_entryAt?_eq complete _ (by omega))]
      exact loose
    exact ⟨same _ bounds.finish.1 (ends arm member).finish,
      fun i found => same i (bounds.fallback i found).1 ((ends arm member).fallback i found)⟩
  rw [h.linked]
  refine linkArms_linked otherwise clauses rfl (Nat.lt_add_of_pos_right (by decide)) ?_ kept
  generalize arms d.nextId clauses otherwise = all at filled
  cases all with
  | nil => exact absurd rfl filled
  | cons first rest =>
    change ((complete.link d.nextId first.start .normal).view Entry.ways)[d.nextId]? = _
    rw [Draft.ways_link_self, start]
    rfl

end Branched

/-- The choices of a menu put their first entries behind its start, in order. -/
theorem addChoices_ways {allGuarded : Bool} :
    ∀ (choices : List Choice) {d d' : Draft} {start finish : Nat},
    start < d.nextId → finish < d.nextId →
    scene.addChoices d start finish choices = .ok (d', allGuarded) →
    (d'.view Entry.ways)[start]? = ((d.view Entry.ways)[start]?).map fun w =>
      { w with normal := w.normal ++ (heads d.nextId choices).map .enter }
  | [], d, d', start, finish, _, _, h => by
    cases h
    simp [heads]
  | .mk option shown body :: rest, d, d', start, finish, lt, finish_lt, h => by
    obtain ⟨condition, fragments, grown, exit, _, _, -, added, h⟩ := addChoices_cons_ok h
    have headed : (scene.withChoice d start option shown condition fragments).nextId =
        d.nextId + 1 :=
      nextId_withEntry d start _ fragments
    have lowered := addItems_grown body (by omega) added
    have total := lowered.nextId
    have new := lowered.exit_new
    have first :
      ((scene.withChoice d start option shown condition fragments).view Entry.ways)[start]? =
        ((d.view Entry.ways)[start]?).map (·.add (.enter d.nextId) .normal) := by
      rw [withChoice, withEntry, Draft.ways_link_self, Draft.view_addFormatArguments,
        Draft.view_push_of_lt _ _ lt]
    rw [addChoices_ways rest (by rw [Draft.nextId_link]; omega)
      (by rw [Draft.nextId_link]; omega) h, Draft.view_link_of_ne _ _ _ (by omega),
      Draft.Steps.view_eq lowered.steps (Nat.le_refl _) (by omega) (by omega), first,
      Option.map_map, Draft.nextId_link, total, headed]
    simp [heads, Ways.add, Function.comp_def]

private theorem addItem_loose (item : Item) {d d' : Draft} {pred exit : Nat} (loose : d.Loose pred)
    (h : scene.addItem d pred item = .ok (d', exit)) : d'.Loose exit := by
  cases item with
  | basic s =>
    simp only [addItem] at h
    exact (addBasic_adds h).loose loose
  | branch clauses otherwise =>
    obtain ⟨rfl, guarded, complete, branched⟩ := exists_branched h
    rw [Draft.Loose, branched.waysAt?_eq (by omega) (by omega)]
    exact (openBranch_ways loose).2.2
  | menu choices =>
    obtain ⟨complete, _, added, rfl, rfl⟩ := addItem_menu_ok h
    have opened := nextId_openMenu d pred choices
    have steps := (addChoices_grown choices (Nat.le_refl d.nextId) (Nat.le_succ d.nextId)
      (by omega) (by omega) added).1
    have same : ((closeMenu complete d.nextId choices).view Entry.ways)[d.nextId + 1]? =
        (complete.view Entry.ways)[d.nextId + 1]? := by
      unfold closeMenu
      split
      · exact Draft.view_link_of_ne _ _ _ (by omega)
      · rfl
    rw [Draft.Loose, same, Draft.Steps.view_eq steps (Nat.le_refl _) (by omega) (by omega)]
    exact (openMenu_ways loose choices).2.2

private theorem addItems_loose : ∀ (items : List Item) {d d' : Draft} {pred exit : Nat},
    d.Loose pred →
    scene.addItems d pred items = .ok (d', exit) → d'.Loose exit
  | [], d, d', pred, exit, loose, h => by
    simp only [addItems, Except.ok.injEq, Prod.mk.injEq] at h
    obtain ⟨rfl, rfl⟩ := h
    exact loose
  | item :: rest, d, d', pred, exit, loose, h => by
    simp only [addItems, bind_eq_ok_iff] at h
    obtain ⟨⟨grown, middle⟩, first, h⟩ := h
    exact addItems_loose rest (addItem_loose item loose first) h

end Scene

namespace Conversation

variable {c : Conversation} {scene : Scene} {targets : Dict Nat}

private theorem waysAt?_of_eq {d : Draft} {i : Nat} (h : c.entryById? i = d.entryAt? i) :
    c.waysAt? i = (d.view Entry.ways)[i]? := by
  rw [waysAt?, h, Draft.getElem?_view]

private theorem standAt?_of_eq {d : Draft} {i : Nat} (h : c.entryById? i = d.entryAt? i) :
    c.standAt? i = (d.view Entry.stand)[i]? := by
  rw [standAt?, h, Draft.getElem?_view]

private theorem Settles.standAt?_eq {d : Draft} {base pred exit i : Nat}
    (h : c.Settles d base pred exit) (low : base ≤ i) (high : i < d.nextId) :
    c.standAt? i = (d.view Entry.stand)[i]? := by
  by_cases last : i = exit
  · subst last
    exact h.stand low
  · exact standAt?_of_eq (h.inner i low high last)

/-- What a conversation keeps of a body, it keeps of the first items of it. -/
theorem Settles.init {d d' : Draft} {base pred middle exit floor : Nat}
    (h : c.Settles d' base pred exit) (steps : Draft.Steps scene d.nextId middle floor d d')
    (lt : middle < d.nextId) (before : pred < base) (low : base ≤ d.nextId)
    (last : exit = middle ∨ d.nextId ≤ exit) :
    c.Settles d base pred middle where
  inner i hi hi' apart := by
    have more := Draft.Steps.nextId_le steps
    rw [h.inner i hi (by omega) (by omega)]
    exact Draft.Steps.entryAt?_eq steps (Nat.le_refl _) hi' apart
  stand hm := by
    rw [h.standAt?_eq hm (Nat.lt_of_lt_of_le lt (Draft.Steps.nextId_le steps))]
    exact Draft.Steps.stand_eq steps (Nat.le_refl _) lt
  ways apart := by
    rw [h.ways (by omega)]
    exact Draft.Steps.view_eq steps (Nat.le_refl _) (by omega) apart

private theorem Settles.tail {d d' : Draft} {base pred middle exit : Nat}
    (h : c.Settles d' base pred exit) (new : middle = pred ∨ base ≤ middle) (lt : middle < d.nextId)
    (low : base ≤ d.nextId)
    (more : d.nextId ≤ d'.nextId) : c.Settles d' d.nextId middle exit where
  inner i hi hi' apart := h.inner i (Nat.le_trans low hi) hi' apart
  stand hm := h.stand (Nat.le_trans low hm)
  ways apart := by
    rcases new with rfl | new
    · exact h.ways apart
    · exact waysAt?_of_eq (h.inner middle new (by omega) apart)

/-- The body of a clause or of a choice, wired from its first entry to the entry that it is linked
to. -/
theorem wired_of_linked {opened grown : Draft} {start finish exit count : Nat} {body : List Item}
    (lowered : Scene.Grown scene opened start count grown exit) (loose : grown.Loose exit)
    (before : start < opened.nextId)
    (wired : c.Settles grown opened.nextId start exit →
      c.WiredBody targets opened.nextId start exit body)
    (inner : ∀ i, opened.nextId ≤ i → i < grown.nextId →
      c.entryById? i = (grown.link exit finish .normal).entryAt? i)
    (ways : c.waysAt? start = ((grown.link exit finish .normal).view Entry.ways)[start]?) :
    ∃ last, c.WiredBody targets opened.nextId start last body ∧
      c.waysAt? last = some (.only finish) := by
  have linked : ((grown.link exit finish .normal).view Entry.ways)[exit]? =
      some (.only finish) := by
    rw [Draft.ways_link_self, loose]
    rfl
  refine ⟨exit, wired ⟨fun i low high apart => ?_, fun low => ?_, fun apart => ?_⟩, ?_⟩
  · rw [inner i low high]
    exact grown.entryAt?_modify_of_ne _ (Ne.symm apart)
  · rw [standAt?_of_eq (inner exit low lowered.exit_lt), Draft.view_link]
  · rw [ways, Draft.view_link_of_ne _ _ _ (Ne.symm apart)]
  · rw [← linked]
    rcases lowered.exit_new with rfl | new
    · exact ways
    · exact waysAt?_of_eq (inner exit new lowered.exit_lt)

private theorem ArmsLinked.congr {ways ways' : Nat → Option Ways} {finish : Nat} {P : Nat → Prop}
    (same : ∀ i, P i → ways i = ways' i) : ∀ {arms : List Scene.Arm} {previous : Nat},
    (∀ arm ∈ arms, arm.Ends P) → P previous → ArmsLinked ways finish previous arms →
    ArmsLinked ways' finish previous arms
  | [], _, _, hp, h => (same _ hp).symm.trans h
  | ⟨start, last, some fallback⟩ :: rest, _, ends, hp, ⟨first, second, others⟩ => by
    have here := ends _ List.mem_cons_self
    exact ⟨(same _ hp).symm.trans first, (same _ here.finish).symm.trans second,
      ArmsLinked.congr same (fun arm member => ends arm (List.mem_cons_of_mem _ member))
        (here.fallback _ rfl) others⟩
  | ⟨start, last, none⟩ :: rest, _, ends, hp, ⟨first, second⟩ =>
    ⟨(same _ hp).symm.trans first, (same _ (ends _ List.mem_cons_self).finish).symm.trans second⟩

private theorem wired_clauses {d guarded complete d' : Draft} {pred : Nat} {clauses : List Clause}
    {otherwise : Option (List Item)}
    (branched : Scene.Branched scene d pred clauses otherwise guarded complete d')
    (ih : (∀ i, (Scene.openBranch d pred).nextId ≤ i → i < guarded.nextId →
        (∀ arm ∈ Scene.armsFrom (d.nextId + 2) clauses, arm.Ends (· ≠ i)) →
        c.entryById? i = guarded.entryAt? i) →
      (∀ i, (Scene.openBranch d pred).nextId ≤ i → i < guarded.nextId →
        c.standAt? i = (guarded.view Entry.stand)[i]?) →
      c.WiredClauses targets (Scene.openBranch d pred).nextId clauses)
    (settles : c.Settles d' d.nextId pred (d.nextId + 1)) :
    c.WiredClauses targets (d.nextId + 2) clauses := by
  have opened := Scene.nextId_openBranch d pred
  have next := branched.nextGuarded
  have total := branched.nextId
  rw [← opened]
  refine ih (fun i low high ends => ?_) (fun i low high => ?_)
  · rw [settles.inner i (by omega) (by omega) (by omega),
      branched.entryAt?_eq (by omega) (fun arm member => ?_), branched.guarded_entryAt?_eq high]
    rcases List.mem_append.mp member with member | member
    · exact ends arm member
    · exact (Scene.lastArm_within otherwise (Nat.le_refl _) (Nat.le_refl _) arm member).ends.mono
        fun j bounds => by omega
  · rw [settles.standAt?_eq (by omega) (by omega), branched.standAt?_eq]
    exact Draft.view_congr (branched.guarded_entryAt?_eq high)

private theorem wired_last {d guarded complete d' : Draft} {pred : Nat} {clauses : List Clause}
    {body : List Item}
    (branched : Scene.Branched scene d pred clauses (some body) guarded complete d')
    (ih : ∀ {grown : Draft} {exit : Nat},
      scene.addItems (Scene.openArm guarded .else_) guarded.nextId body = .ok (grown, exit) →
      c.Settles grown (Scene.openArm guarded .else_).nextId guarded.nextId exit →
      c.WiredBody targets (Scene.openArm guarded .else_).nextId guarded.nextId exit body)
    (settles : c.Settles d' d.nextId pred (d.nextId + 1)) :
    c.WiredLast targets (d.nextId + 2 + clausesCount clauses) (some body) := by
  have next := branched.nextGuarded
  have total := branched.nextId
  have addedLast := branched.addedLast
  simp only [Scene.addOtherwise, bind_eq_ok_iff, pure_eq_ok_iff, Prod.mk.injEq] at addedLast
  obtain ⟨⟨grown, exit⟩, added, linked, -⟩ := addedLast
  have opened := Scene.nextId_openArm guarded .else_
  have lowered := Scene.addItems_grown body (by omega) added
  have loose := Scene.addItems_loose body (Scene.openArm_loose guarded .else_).1 added
  have count := lowered.nextId
  simp only [Scene.otherwiseCount] at total
  have kept : ∀ i, guarded.nextId ≤ i → i < d'.nextId → i ≠ guarded.nextId + 1 →
      c.entryById? i = complete.entryAt? i := by
    intro i low high apart
    rw [settles.inner i (by omega) high (by omega)]
    refine branched.entryAt?_eq (by omega) fun arm member => ?_
    rcases List.mem_append.mp member with member | member
    · exact (Scene.armsFrom_within clauses _ (Nat.le_refl _) (Nat.le_of_eq next.symm)
        arm member).ends.mono
        fun j bounds => by omega
    · obtain rfl := List.mem_singleton.mp member
      exact ⟨by simp only; omega, nofun⟩
  have stands : ∀ i, guarded.nextId ≤ i → i < guarded.nextId + 2 →
      c.standAt? i = ((Scene.openArm guarded .else_).view Entry.stand)[i]? := by
    intro i low high
    rw [settles.standAt?_eq (by omega) (by omega), branched.standAt?_eq, ← linked, Draft.view_link]
    exact Draft.Steps.stand_eq lowered.steps (Nat.le_refl _) (by omega)
  obtain ⟨first, second⟩ := Scene.openArm_stands guarded .else_
  rw [← next]
  refine ⟨?_, ?_, ?_⟩
  · rw [stands _ (Nat.le_refl _) (by omega), first]
  · rw [stands _ (by omega) (by omega), second]
  · rw [← opened]
    refine wired_of_linked lowered loose (by omega) (ih added) (fun i low high => ?_) ?_
    · rw [kept i (by omega) (by omega) (by omega), ← linked]
    · rw [waysAt?_of_eq (kept _ (Nat.le_refl _) (by omega) (by omega)), ← linked]

private theorem wired_branch {d guarded complete d' : Draft} {pred : Nat} {clauses : List Clause}
    {otherwise : Option (List Item)} (loose : d.Loose pred)
    (branched : Scene.Branched scene d pred clauses otherwise guarded complete d')
    (settles : c.Settles d' d.nextId pred (d.nextId + 1))
    (wiredClauses : c.WiredClauses targets (d.nextId + 2) clauses)
    (wiredLast : c.WiredLast targets (d.nextId + 2 + clausesCount clauses) otherwise) :
    c.WiredItem targets d.nextId pred (d.nextId + 1) (.branch clauses otherwise) := by
  have before := loose.lt_nextId
  have total := branched.nextId
  have stands : ∀ i, d.nextId ≤ i → i < d.nextId + 2 →
      c.standAt? i = ((Scene.openBranch d pred).view Entry.stand)[i]? := by
    intro i low high
    rw [settles.standAt?_eq low (by omega), branched.standAt?_eq]
    exact Draft.view_congr (branched.opened_entryAt?_eq high)
  obtain ⟨first, second⟩ := Scene.openBranch_stands d pred
  refine ⟨rfl, ?_, ?_, ?_, wiredClauses, wiredLast, fun filled => ?_⟩
  · rw [settles.ways (by omega), branched.waysAt?_eq (by omega) (by omega),
      (Scene.openBranch_ways loose).1]
  · rw [stands _ (Nat.le_refl _) (by omega), first]
  · rw [stands _ (by omega) (by omega), second]
  · have same : ∀ i, d.nextId ≤ i ∧ i < d'.nextId ∧ i ≠ d.nextId + 1 →
        (d'.view Entry.ways)[i]? = c.waysAt? i :=
      fun i bounds => (waysAt?_of_eq (settles.inner i bounds.1 bounds.2.1 bounds.2.2)).symm
    refine ArmsLinked.congr same (fun arm member => ?_) (by omega)
      (branched.armsLinked loose filled)
    exact (Scene.Branched.within d clauses otherwise arm member).mono fun i bounds => by omega

private theorem wired_menu {d complete : Draft} {pred : Nat}
    {choices : List Choice} {allGuarded : Bool} (loose : d.Loose pred)
    (added : scene.addChoices (Scene.openMenu d pred choices) d.nextId (d.nextId + 1) choices =
      .ok (complete, allGuarded))
    (ih : (∀ i, d.nextId + 2 ≤ i → i < complete.nextId → c.entryById? i = complete.entryAt? i) →
      c.WiredChoices targets (d.nextId + 1) (d.nextId + 2) choices)
    (settles : c.Settles (Scene.closeMenu complete d.nextId choices) d.nextId pred (d.nextId + 1)) :
    c.WiredItem targets d.nextId pred (d.nextId + 1) (.menu choices) := by
  have before := loose.lt_nextId
  have opened := Scene.nextId_openMenu d pred choices
  have closed := Scene.nextId_closeMenu complete d.nextId choices
  obtain ⟨steps, count⟩ := Scene.addChoices_grown choices (Nat.le_refl d.nextId)
    (Nat.le_succ d.nextId) (by omega) (by omega) added
  have kept : ∀ i, d.nextId ≠ i → (Scene.closeMenu complete d.nextId choices).entryAt? i =
      complete.entryAt? i := by
    intro i apart
    unfold Scene.closeMenu
    split
    · exact complete.entryAt?_modify_of_ne _ apart
    · rfl
  have stands : ∀ i, d.nextId ≤ i → i < d.nextId + 2 →
      c.standAt? i = ((Scene.openMenu d pred choices).view Entry.stand)[i]? := by
    intro i low high
    rw [settles.standAt?_eq low (by omega), Scene.view_closeMenu]
    exact Draft.Steps.stand_eq steps (Nat.le_refl _) (by omega)
  obtain ⟨atPred, atStart, _⟩ := Scene.openMenu_ways loose choices
  obtain ⟨first, second⟩ := Scene.openMenu_stands d pred choices
  have listed := Scene.addChoices_ways choices (by omega) (by omega) added
  rw [atStart, opened] at listed
  refine ⟨rfl, ?_, ?_, ?_, ?_, ih fun i low high => ?_⟩
  · rw [settles.ways (by omega), Draft.view_congr (kept _ (by omega)),
      Draft.Steps.view_eq steps (Nat.le_refl _) (by omega) (by omega), atPred]
  · rw [stands _ (Nat.le_refl _) (by omega), first]
  · rw [stands _ (by omega) (by omega), second]
  · rw [waysAt?_of_eq (settles.inner _ (Nat.le_refl _) (by omega) (by omega))]
    unfold Scene.closeMenu
    split
    · rw [Draft.ways_link_self, listed]
      rfl
    · exact listed
  · rw [settles.inner i (by omega) (by omega) (by omega), kept i (by omega)]

private theorem wired_clause {d grown d' : Draft} {kind : ClauseKind} {line exit : Nat}
    {guard : Expression} {body : List Item} {rest : List Clause} {condition : String}
    (lowered : Scene.Grown scene (Scene.openArm d kind) d.nextId (bodyCount body) grown exit)
    (loose : grown.Loose exit) (filled : condition ≠ "")
    (ih : c.Settles grown (Scene.openArm d kind).nextId d.nextId exit →
      c.WiredBody targets (Scene.openArm d kind).nextId d.nextId exit body)
    (steps : Draft.Steps scene (d.nextId + 3 + bodyCount body) (d.nextId + 3 + bodyCount body)
      (d.nextId + 3 + bodyCount body) (Scene.closeClause grown d.nextId exit kind condition) d')
    (same : ∀ i, d.nextId ≤ i → i < grown.nextId → i ≠ d.nextId + 1 →
      c.entryById? i = d'.entryAt? i)
    (stands : ∀ i, d.nextId ≤ i → i < d'.nextId → c.standAt? i = (d'.view Entry.stand)[i]?)
    (wired : c.WiredClauses targets (d.nextId + 3 + bodyCount body) rest) :
    c.WiredClauses targets d.nextId (.mk line guard body :: rest) := by
  obtain ⟨total, apart⟩ := lowered.start_lt
  have opened := Scene.nextId_openArm d kind
  have closed : (Scene.closeClause grown d.nextId exit kind condition).nextId =
      d.nextId + 3 + bodyCount body := by
    simp only [Scene.closeClause, Draft.nextId_control,
      Draft.nextId_setConditions, Draft.nextId_link]
    omega
  have more := Draft.Steps.nextId_le steps
  have stand : ∀ i, d.nextId ≤ i → i < d.nextId + 3 + bodyCount body →
      c.standAt? i =
        ((Scene.closeClause grown d.nextId exit kind condition).view Entry.stand)[i]? := by
    intro i low high
    rw [stands i low (by omega)]
    exact Draft.Steps.stand_eq steps (by omega) high
  have entry : ∀ i, d.nextId ≤ i → i < grown.nextId → i ≠ d.nextId + 1 →
      c.entryById? i = (Scene.closeClause grown d.nextId exit kind condition).entryAt? i := by
    intro i low high apart
    rw [same i low high apart]
    exact Draft.Steps.entryAt?_eq steps (by omega) (by omega) (by omega)
  obtain ⟨first, second, third⟩ := Scene.closeClause_stands lowered filled
  refine ⟨?_, ?_, ?_, ?_, wired⟩
  · rw [stand _ (Nat.le_refl _) (by omega), first]
  · rw [stand _ (by omega) (by omega), second]
  · rw [total, stand _ (by omega) (by omega), third]
  · rw [← opened]
    refine wired_of_linked lowered loose (by omega) ih (fun i low high => ?_) ?_
    · rw [entry i (by omega) high (by omega)]
      exact Scene.closeClause_entryAt?_eq kind condition (by omega) high
    · rw [waysAt?_of_eq (entry _ (Nat.le_refl _) (by omega) (by omega))]
      exact Scene.ways_closeClause kind condition (by omega)

private theorem wired_choice {d grown d' : Draft} {start finish exit : Nat} {option : Content Unit}
    {shown : Content Spoken} {body : List Item} {rest : List Choice} {condition : Option String}
    {fragments : List String}
    (guarded : scene.condition (Scene.lineGuard shown (some option)).1
      (Scene.lineGuard shown (some option)).2 = .ok condition)
    (lowered : Scene.Grown scene (scene.withChoice d start option shown condition fragments)
      d.nextId (bodyCount body) grown exit)
    (loose : grown.Loose exit)
    (ih : c.Settles grown (scene.withChoice d start option shown condition fragments).nextId
        d.nextId exit →
      c.WiredBody targets (scene.withChoice d start option shown condition fragments).nextId
        d.nextId exit body)
    (before : start < d.nextId)
    (steps : Draft.Steps scene (grown.link exit finish .normal).nextId start 0
      (grown.link exit finish .normal) d')
    (same : ∀ i, d.nextId ≤ i → i < d'.nextId → c.entryById? i = d'.entryAt? i)
    (wired : c.WiredChoices targets finish (d.nextId + 1 + bodyCount body) rest) :
    c.WiredChoices targets finish d.nextId (.mk option shown body :: rest) := by
  have headed : (scene.withChoice d start option shown condition fragments).nextId = d.nextId + 1 :=
    Scene.nextId_withEntry d start _ fragments
  have count := lowered.nextId
  have more := Draft.Steps.nextId_le steps
  rw [Draft.nextId_link] at steps more
  have entry : ∀ i, d.nextId ≤ i → i < grown.nextId →
      c.entryById? i = (grown.link exit finish .normal).entryAt? i := by
    intro i low high
    rw [same i low (by omega)]
    exact Draft.Steps.entryAt?_eq steps (by simp) high (by omega)
  refine ⟨?_, ?_, wired⟩
  · rw [standAt?_of_eq (entry _ (Nat.le_refl _) (by omega)), Draft.view_link,
      Draft.Steps.stand_eq lowered.steps (Nat.le_refl _) (by omega), Scene.withChoice,
      Scene.view_withEntry_self,
      Scene.stand_guarded guarded .block (Scene.lineEntry_conditions scene d shown (some option))]
    have role : (scene.lineEntry d shown (some option)).role = .content false := by
      simp [Entry.role, Entry.isMenu, Entry.isContent, Entry.isStop, Scene.lineEntry_title]
    rw [role]
    cases shownGuard : shown.guard? <;> cases optionGuard : option.guard? <;>
      simp [Scene.lineGuard, Scene.isGuarded, Content.hasConditions, shownGuard, optionGuard]
  · rw [← headed]
    refine wired_of_linked lowered loose (by omega) ih
      (fun i low high => entry i (by omega) high) ?_
    exact waysAt?_of_eq (entry _ (Nat.le_refl _) (by omega))

mutual

private theorem addItem_wired : ∀ (item : Item) {d d' : Draft} {pred exit : Nat}, d.Loose pred →
    scene.addItem d pred item = .ok (d', exit) → c.Settles d' d.nextId pred exit →
    c.WiredItem scene.context.conversations d.nextId pred exit item
  | .basic s, d, d', pred, exit, loose, h, settles => by
    simp only [Scene.addItem] at h
    exact (Scene.addBasic_adds h).wired loose settles
  | .branch clauses none, d, d', pred, exit, loose, h, settles => by
    obtain ⟨rfl, guarded, complete, branched⟩ := Scene.exists_branched h
    have wired := wired_clauses branched (addClauses_wired clauses branched.added) settles
    exact wired_branch loose branched settles wired trivial
  | .branch clauses (some body), d, d', pred, exit, loose, h, settles => by
    obtain ⟨rfl, guarded, complete, branched⟩ := Scene.exists_branched h
    have wired := wired_clauses branched (addClauses_wired clauses branched.added) settles
    refine wired_branch loose branched settles wired ?_
    exact wired_last branched (addItems_wired body (Scene.openArm_loose guarded .else_).1) settles
  | .menu choices, d, d', pred, exit, loose, h, settles => by
    obtain ⟨complete, _, added, rfl, rfl⟩ := Scene.addItem_menu_ok h
    have opened := Scene.nextId_openMenu d pred choices
    refine wired_menu loose added (fun same => ?_) settles
    have wired := addChoices_wired choices (by omega) (by omega) added
    rw [opened] at wired
    exact wired same

private theorem addItems_wired : ∀ (items : List Item) {d d' : Draft} {pred exit : Nat},
    d.Loose pred →
    scene.addItems d pred items = .ok (d', exit) → c.Settles d' d.nextId pred exit →
    c.WiredBody scene.context.conversations d.nextId pred exit items
  | [], d, d', pred, exit, loose, h, settles => by
    simp only [Scene.addItems, Except.ok.injEq, Prod.mk.injEq] at h
    exact h.2.symm
  | item :: rest, d, d', pred, exit, loose, h, settles => by
    simp only [Scene.addItems, bind_eq_ok_iff] at h
    obtain ⟨⟨grown, middle⟩, first, h⟩ := h
    have one := Scene.addItem_grown item loose.lt_nextId first
    have others := Scene.addItems_grown rest one.exit_lt h
    have count := one.nextId
    have looseMiddle := Scene.addItem_loose item loose first
    have init := settles.init others.steps one.exit_lt loose.lt_nextId (by omega) others.exit_new
    have tail :=
      settles.tail one.exit_new one.exit_lt (by omega) (Draft.Steps.nextId_le others.steps)
    have wired := addItems_wired rest looseMiddle h tail
    rw [count] at wired
    exact ⟨middle, addItem_wired item loose first init, wired⟩

private theorem addClauses_wired : ∀ (clauses : List Clause) {d d' : Draft} {kind : ClauseKind}
    {arms : List Scene.Arm}, scene.addClauses d kind clauses = .ok (d', arms) →
    (∀ i, d.nextId ≤ i → i < d'.nextId → (∀ arm ∈ arms, arm.Ends (· ≠ i)) →
      c.entryById? i = d'.entryAt? i) →
    (∀ i, d.nextId ≤ i → i < d'.nextId → c.standAt? i = (d'.view Entry.stand)[i]?) →
    c.WiredClauses scene.context.conversations d.nextId clauses
  | [], _, _, _, _, _, _, _ => trivial
  | .mk line guard body :: rest, d, d', kind, arms, h, same, stands => by
    obtain ⟨grown, exit, condition, others, added, written, addedRest, rfl⟩ :=
      Scene.addClauses_cons_ok h
    have loose := (Scene.openArm_loose d kind).1
    have lowered := Scene.addItems_grown body loose.lt_nextId added
    obtain ⟨total, -⟩ := lowered.start_lt
    have closed : (Scene.closeClause grown d.nextId exit kind condition).nextId =
        d.nextId + 3 + bodyCount body := by
      simp only [Scene.closeClause, Draft.nextId_control, Draft.nextId_setConditions,
        Draft.nextId_link]
      omega
    obtain ⟨steps, countRest, rfl⟩ := Scene.addClauses_grown rest addedRest
    have wired := addClauses_wired rest addedRest
    rw [closed] at steps countRest wired same
    have later := Scene.armsFrom_within rest (d.nextId + 3 + bodyCount body) (Nat.le_refl _)
      (Nat.le_refl _)
    refine wired_clause lowered (Scene.addItems_loose body loose added)
      (Scene.located_fragment_ne_empty written) (addItems_wired body loose added) steps
      (fun i low high apart => ?_) stands (wired (fun i low high ends => ?_) (fun i low high => ?_))
    · refine same i low (by omega) fun arm member => ?_
      rcases List.mem_cons.mp member with rfl | member
      · refine ⟨by simp only; omega, ?_⟩
        rintro fallback ⟨⟩
        omega
      · exact (later arm member).ends.mono fun j bounds => by omega
    · refine same i (by omega) high fun arm member => ?_
      rcases List.mem_cons.mp member with rfl | member
      · refine ⟨by simp only; omega, ?_⟩
        rintro fallback ⟨⟩
        omega
      · exact ends arm member
    · exact stands i (by omega) high

private theorem addChoices_wired {allGuarded : Bool} :
    ∀ (choices : List Choice) {d d' : Draft} {start finish : Nat},
    start < d.nextId → finish < d.nextId →
    scene.addChoices d start finish choices = .ok (d', allGuarded) →
    (∀ i, d.nextId ≤ i → i < d'.nextId → c.entryById? i = d'.entryAt? i) →
    c.WiredChoices scene.context.conversations finish d.nextId choices
  | [], _, _, _, _, _, _, _, _ => trivial
  | .mk option shown body :: rest, d, d', start, finish, lt, finish_lt, h, same => by
    obtain ⟨condition, fragments, grown, exit, _, guarded, -, added, h⟩ :=
      Scene.addChoices_cons_ok h
    have headed : (scene.withChoice d start option shown condition fragments).nextId =
        d.nextId + 1 :=
      Scene.nextId_withEntry d start _ fragments
    have lowered := Scene.addItems_grown body (by omega) added
    have count := lowered.nextId
    have loose : (scene.withChoice d start option shown condition fragments).Loose d.nextId := by
      rw [Draft.Loose, Scene.withChoice, Scene.ways_withEntry_self lt, Scene.ways_guarded,
        Scene.ways_of_joins (Scene.lineEntry_joins scene d shown (some option))]
      simp [Entry.isMenu, Scene.lineEntry_title]
    have linked : (grown.link exit finish .normal).nextId = d.nextId + 1 + bodyCount body := by
      rw [Draft.nextId_link, count, headed]
    obtain ⟨steps, -⟩ := Scene.addChoices_grown rest (Nat.zero_le start) (Nat.zero_le finish)
      (by omega) (by omega) h
    have more := Draft.Steps.nextId_le steps
    have wired := addChoices_wired rest (by omega) (by omega) h
    rw [linked] at wired
    exact wired_choice guarded lowered (Scene.addItems_loose body loose added)
      (addItems_wired body loose added) lt steps same
      (wired fun i low high => same i (by omega) high)

end

end Conversation

theorem Scene.opening_entryById? {scene : Scene} {id exit : Nat}
    {items : List Item} {complete : Draft}
    (added : scene.addItems (scene.opening id) Conversation.startId items = .ok (complete, exit))
    (i : Nat) : complete.conversation.entryById? i = complete.entryAt? i := by
  have lowered := Scene.addItems_grown items Nat.zero_lt_one added
  have fits := Draft.Steps.fits lowered.steps (scene.opening_fits id)
  exact Conversation.entryById?_eq (fun j e found => (fits.entry j e found).id) i

/-- What the lowering of a body from the start of a conversation leads to is wired as the items of
the body, and nothing follows the last of them. -/
theorem Scene.opening_wired {scene : Scene} {id exit : Nat} {items : List Item} {complete : Draft}
    (added : scene.addItems (scene.opening id) Conversation.startId items = .ok (complete, exit)) :
    complete.conversation.WiredBody scene.context.conversations 1 Conversation.startId exit items ∧
      complete.conversation.waysAt? exit = some .loose := by
  have loose : (scene.opening id).Loose Conversation.startId := rfl
  have same := Scene.opening_entryById? added
  have settles : complete.conversation.Settles complete (scene.opening id).nextId
    Conversation.startId
      exit :=
    ⟨fun i _ _ _ => same i, fun _ => Conversation.standAt?_of_eq (same exit),
      fun _ => Conversation.waysAt?_of_eq (same Conversation.startId)⟩
  constructor
  · exact Conversation.addItems_wired items loose added settles
  · rw [Conversation.waysAt?_of_eq (same exit)]
    exact Scene.addItems_loose items loose added

/-- The conversation of a script is wired as the items that it stands for, from its start on, and
nothing follows the last of them. -/
theorem Script.lower_wired {s : Script} {ctx : Context} {id : Nat} {c : Conversation}
    (h : s.lower ctx id = .ok c) : ∃ items exit, Tree.itemList s.tree.children = .ok items ∧
      c.WiredBody ctx.conversations 1 Conversation.startId exit items ∧
      c.waysAt? exit = some .loose := by
  obtain ⟨node, complete, exit, checked, added, rfl⟩ := lower_ok h
  exact ⟨node.body, exit, (Tree.check_ok checked).2, Scene.opening_wired added⟩

end Dialogue
