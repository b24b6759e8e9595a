import Dialogue.Proofs.ControlFlow

/-!
Where the statements of a script are in its conversation, and what that means for jumps with a
guard. The entry of such a jump is skipped when the guard is false, and then its links are tried in
its place. The link out of the conversation is the first of them, so the jump is taken all the same.
-/

set_option autoImplicit false
set_option relaxedAutoImplicit false

namespace Dialogue

open Script

namespace Conversation

variable {c : Conversation} {targets : Dict Nat} {leaf : Tree.Origin} {b : Basic}

/-- A basic statement is wired at its place among the entries from `base` on, whose origins are
given. -/
def WiresAt (c : Conversation) (targets : Dict Nat) (base : Nat) (origins : List (List Tree.Origin))
    (leaf : Tree.Origin) (b : Basic) : Prop :=
  ∃ before after pred exit, origins = before ++ (Tree.basicOrigins leaf b ++ after) ∧
    c.WiredBasic targets (base + before.length) pred (leaf.2.withKind b) exit

private theorem WiresAt.append_right {base : Nat} {origins : List (List Tree.Origin)}
    (h : c.WiresAt targets base origins leaf b) (more : List (List Tree.Origin)) :
    c.WiresAt targets base (origins ++ more) leaf b := by
  obtain ⟨before, after, pred, exit, rfl, wired⟩ := h
  exact ⟨before, after ++ more, pred, exit, by simp only [List.append_assoc], wired⟩

private theorem WiresAt.append_left {base : Nat} (first : List (List Tree.Origin))
    {origins : List (List Tree.Origin)}
    (h : c.WiresAt targets (base + first.length) origins leaf b) :
    c.WiresAt targets base (first ++ origins) leaf b := by
  obtain ⟨before, after, pred, exit, rfl, wired⟩ := h
  refine ⟨first ++ before, after, pred, exit, by simp only [List.append_assoc], ?_⟩
  rwa [List.length_append, ← Nat.add_assoc]

private theorem WiresAt.cons {base : Nat} (first : List Tree.Origin)
    {origins : List (List Tree.Origin)}
    (h : c.WiresAt targets (base + 1) origins leaf b) :
    c.WiresAt targets base (first :: origins) leaf b :=
  WiresAt.append_left [first] h

mutual

/-- Every basic statement is wired at its place, apart from lines, which a menu may show. -/
theorem wiresAt_of_tree (kind : leaf.2.kind = .basic b) (silent : ∀ spoken, b ≠ .line spoken) :
    ∀ (t : Tree) {i : Item} {base pred exit : Nat}, t.item = .ok i →
    c.WiredItem targets base pred exit i → leaf ∈ t.leaves → c.WiresAt targets base t.origins leaf b
  | .node id content children, i, base, pred, exit, h, wired, member => by
    cases Tree.stands_of_item h with
    | @basic b' kind' empty =>
      simp only [Tree.leaves, kind', List.mem_singleton] at member
      subst member
      obtain rfl : b' = b := by simpa [kind'] using kind
      simp only [Tree.origins, kind']
      exact ⟨[], [], pred, exit, by simp, wired⟩
    | branch kind' filled sound listed =>
      obtain ⟨-, -, -, -, wiredClauses, wiredLast, -⟩ := wired
      simp only [Tree.leaves, kind'] at member
      simp only [Tree.origins, kind']
      exact (wiresAt_of_clauses kind silent children sound listed wiredClauses
        wiredLast member).cons _
        |>.cons _
    | menu kind' options listed =>
      obtain ⟨-, -, -, -, -, wiredChoices⟩ := wired
      simp only [Tree.leaves, kind'] at member
      simp only [Tree.origins, kind']
      exact (wiresAt_of_choices kind silent children options listed wiredChoices member).cons _
        |>.cons _

private theorem wiresAt_of_list (kind : leaf.2.kind = .basic b)
    (silent : ∀ spoken, b ≠ .line spoken) :
    ∀ (ts : List Tree) {items : List Item} {base pred exit : Nat}, Tree.itemList ts = .ok items →
    c.WiredBody targets base pred exit items → leaf ∈ Tree.leavesList ts →
    c.WiresAt targets base (Tree.originsList ts) leaf b
  | [], _, _, _, _, _, _, member => by cases member
  | t :: rest, items, base, pred, exit, h, wired, member => by
    obtain ⟨first, others, one, more, rfl⟩ := Tree.itemList_cons h
    obtain ⟨middle, wiredFirst, wiredRest⟩ := wired
    rw [Tree.originsList]
    rcases List.mem_append.mp member with member | member
    · exact (wiresAt_of_tree kind silent t one wiredFirst member).append_right _
    · refine WiresAt.append_left _ ?_
      rw [Tree.length_origins t one]
      exact wiresAt_of_list kind silent rest more wiredRest member

private theorem wiresAt_of_clauses (kind : leaf.2.kind = .basic b)
    (silent : ∀ spoken, b ≠ .line spoken) :
    ∀ (ts : List Tree) {isFirst : Bool} {clauses : List Clause} {otherwise : Option (List Item)}
    {base : Nat}, clausesFlaw? isFirst ts = none → Tree.clauseList ts = .ok (clauses, otherwise) →
    c.WiredClauses targets base clauses →
    c.WiredLast targets (base + clausesCount clauses) otherwise → leaf ∈ Tree.leavesList ts →
    c.WiresAt targets base (Tree.clauseOrigins ts) leaf b
  | [], _, _, _, _, _, _, _, _, member => by cases member
  | .node id content children :: rest, isFirst, clauses, otherwise, base, sound, h, wired,
      wiredLast, member => by
    obtain ⟨clause, block⟩ := Tree.clause_of_sound sound
    replace block : content.kind = .block (.ifClause clause) := block
    simp only [Tree.leavesList, Tree.leaves, block] at member
    rw [Tree.clauseOrigins]
    refine WiresAt.cons _ (WiresAt.cons _ ?_)
    obtain ⟨body, listed, guarded | last⟩ := Tree.clauseList_cons sound h
    · obtain ⟨guard, others, known, soundRest, listedRest, rfl⟩ := guarded
      obtain ⟨-, -, -, ⟨exit, wiredBody, -⟩, wiredRest⟩ := wired
      rcases List.mem_append.mp member with member | member
      · exact (wiresAt_of_list kind silent children listed wiredBody member).append_right _
      · have conditions : content.hasConditions = true := by simp [Content.hasConditions, known]
        refine WiresAt.append_left _ ?_
        rw [if_pos conditions, Tree.length_originsList children listed]
        refine WiresAt.cons _ ?_
        have next : base + 1 + 1 + bodyCount body + 1 = base + 3 + bodyCount body := by omega
        rw [next]
        rw [add_clausesCount_cons] at wiredLast
        exact wiresAt_of_clauses kind silent rest soundRest listedRest wiredRest wiredLast member
    · obtain ⟨bare, rfl, rfl, rfl⟩ := last
      obtain ⟨-, -, exit, wiredBody, -⟩ := wiredLast
      rcases List.mem_append.mp member with member | member
      · exact (wiresAt_of_list kind silent children listed wiredBody member).append_right _
      · cases member

private theorem wiresAt_of_choices (kind : leaf.2.kind = .basic b)
    (silent : ∀ spoken, b ≠ .line spoken) :
    ∀ (ts : List Tree) {choices : List Choice} {base finish : Nat},
    (∀ t ∈ ts, t.kind = .block .option) → Tree.choiceList ts = .ok choices →
    c.WiredChoices targets finish base choices → leaf ∈ Tree.leavesList ts →
    c.WiresAt targets base (Tree.optionOrigins ts) leaf b
  | [], _, _, _, _, _, _, member => by cases member
  | .node id option [] :: rest, _, _, _, _, h, _, _ => by cases h
  | .node id option (.node lineId shown below :: following) :: rest, choices, base, finish, options,
      h, wired, member => by
    obtain ⟨_, _, _, spoken, body, others, same, line, listed, listedRest, rfl⟩ :=
      Tree.choiceList_cons h
    cases same
    obtain ⟨-, ⟨exit, wiredBody, -⟩, wiredRest⟩ := wired
    have block : option.kind = .block .option := options _ List.mem_cons_self
    simp only [Tree.leavesList, Tree.leaves, block, line, List.mem_append, List.mem_singleton]
      at member
    rw [Tree.optionOrigins]
    refine WiresAt.cons _ ?_
    rcases member with (shownLine | member) | member
    · subst shownLine
      rw [line] at kind
      exact absurd (Kind.basic.inj kind).symm (silent spoken)
    · exact (wiresAt_of_list kind silent following listed wiredBody member).append_right _
    · refine WiresAt.append_left _ ?_
      rw [Tree.length_originsList following listed]
      exact wiresAt_of_choices kind silent rest
        (fun t member => options t (List.mem_cons_of_mem _ member)) listedRest wiredRest member

end

/-- However it is guarded, a jump whose entry comes next is taken: from the entry if it is entered,
and in place of the entry if it is skipped. -/
theorem plays_of_jump {j target : Nat} {guard : Option FalseAction}
    (stand : c.standAt? j = some ⟨.content false, guard⟩)
    (passes : guard = none ∨ guard = some .passthrough)
    (ways : c.waysAt? j = some ⟨false, [.leave target], [.enter (j + 1)]⟩)
    (placeholder : c.standAt? (j + 1) = some ⟨.control, some .block⟩) {i : Nat}
    (next : c.waysAt? i = some (.only j)) (truth : Nat → Bool) (stops : Bool) (choices : List Nat) :
    c.Plays truth stops i choices (if guard = none ∨ truth j then [j] else []) (.left target) := by
  -- The connector comes first, so it does not matter whether the placeholder is blocked.
  have turns : c.Turns truth j choices (.follow (.leave target) choices) := by
    obtain ⟨lower, offers⟩ : ∃ lower, c.Offers truth [.enter (j + 1)] lower := by
      cases isOpen : truth (j + 1) with
      | false => exact ⟨_, offers_blocked placeholder isOpen .nil⟩
      | true => exact ⟨_, offers_open placeholder (.inr isOpen) .nil⟩
    exact turns_of_ways ways (.leave .nil) offers choices
  by_cases isOpen : guard = none ∨ truth j = true
  · rw [if_pos isOpen]
    have halts : c.haltsAt stops j = false := by simp [haltsAt_of_stand stops stand]
    exact .enter (turns_open next stand isOpen choices) halts (.leave turns)
  · rw [if_neg isOpen]
    obtain ⟨guarded, isClosed⟩ := not_or.mp isOpen
    obtain rfl := passes.resolve_left guarded
    exact .leave (turns_skipped next stand (Bool.eq_false_iff.mpr isClosed) turns)

end Conversation

/-- A jump with a guard is taken whether the guard holds or not: every run that comes to its entry
leaves for the node that it names. The guard only says if the entry is entered on the way. -/
theorem Script.guarded_jump_leaves {s : Script} {ctx : Context} {id : Nat} {c : Conversation}
    (lowered : s.lower ctx id = .ok c) {leaf : Tree.Origin} (member : leaf ∈ s.tree.leaves)
    {goal : Target} (jump : leaf.2.kind = .basic (.jump goal))
    (guarded : leaf.2.hasConditions = true) :
    ∃ name target j, goal = .node name ∧ ctx.conversations.get? name = some target ∧
      s.origins[j]? = some [leaf] ∧ c.standAt? j = some ⟨.content false, some .passthrough⟩ ∧
      (∃ pred, c.waysAt? pred = some (.only j)) ∧
      ∀ i, c.waysAt? i = some (.only j) → ∀ truth stops choices visited ending,
        c.Plays truth stops i choices visited ending ↔
          visited = (if truth j then [j] else []) ∧ ending = .left target := by
  obtain ⟨items, exit, listed, wired, -⟩ := lower_wired lowered
  obtain ⟨node, _, _, checked, _⟩ := lower_ok lowered
  rw [Tree.leaves_of_check checked] at member
  obtain ⟨before, after, pred, exit, origins, wired⟩ :=
    Conversation.wiresAt_of_list jump (fun _ => nofun) s.tree.children listed wired member
  cases wired with
  | directive none => cases none
  | entry one => cases one
  | @jump name target kind known next stand ways placeholder =>
    obtain ⟨guard, isGuard⟩ := Option.isSome_iff_exists.mp guarded
    have stand : c.standAt? (1 + before.length) = some ⟨.content false, some .passthrough⟩ := by
      simpa [isGuard] using stand
    have place : s.origins[1 + before.length]? = some [leaf] := by
      simp [Script.origins, origins, Tree.basicOrigins, Nat.add_comm 1]
    refine ⟨name, target, 1 + before.length, Basic.jump.inj kind, known, place,
      stand, ⟨pred, next⟩, ?_⟩
    intro i next truth stops choices visited ending
    have plays :=
      Conversation.plays_of_jump stand (.inr rfl) ways placeholder next truth stops choices
    simp only [reduceCtorEq, false_or] at plays
    constructor
    · intro other
      exact other.unique plays
    · rintro ⟨rfl, rfl⟩
      exact plays

namespace Sample

def jump : Tree.Origin :=
  (1, ⟨.basic (.jump (.node "Other")), 2, guard, none⟩)

/-- A node whose line is behind a guarded jump. -/
def jumpingScript : Script where
  statements :=
    [⟨⟨.block (.node "Start" .empty), 1, none, none⟩, none, [1, 2]⟩,
      ⟨jump.2, some 0, []⟩,
      ⟨⟨.basic (.line {}), 3, none, none⟩, some 0, []⟩]
  root := 0
  root_lt := by decide

end Sample

open Sample in
/-- The line is not reached, though no guard holds. -/
theorem Script.guarded_jump_leaves_sample : ∃ c, jumpingScript.lower context 1 = .ok c ∧
    jump ∈ jumpingScript.tree.leaves ∧ jump.2.kind = .basic (.jump (.node "Other")) ∧
    jump.2.hasConditions = true ∧ ∀ visited ending,
      c.Plays (fun _ => false) true Conversation.startId [] visited ending ↔
        visited = [] ∧ ending = .left 2 := by
  have start : ((jumpingScript.lower context 1).toOption.bind fun c =>
      c.waysAt? Conversation.startId) = some (.only 1) := by decide +kernel
  have member : jump ∈ jumpingScript.tree.leaves := by decide +kernel
  have single : ∀ j, jumpingScript.origins[j]? = some [jump] → j = 1 := by
    have length : jumpingScript.origins.length = 4 := by decide +kernel
    have within : ∀ j < 4, jumpingScript.origins[j]? = some [jump] → j = 1 := by decide +kernel
    intro j found
    exact within j (length ▸ (List.getElem?_eq_some_iff.mp found).1) found
  cases lowered : jumpingScript.lower context 1 with
  | error e =>
    rw [lowered] at start
    cases start
  | ok c =>
    rw [lowered] at start
    obtain ⟨name, target, j, same, known, place, -, -, plays⟩ :=
      Script.guarded_jump_leaves lowered member rfl rfl
    obtain rfl := single j place
    obtain rfl := Target.node.inj same
    obtain rfl : 2 = target := by
      have other : context.conversations.get? "Other" = some 2 := by decide +kernel
      exact Option.some.inj (other.symm.trans known)
    exact ⟨c, rfl, member, rfl, rfl, fun visited ending =>
      plays Conversation.startId start (fun _ => false) true [] visited ending⟩

end Dialogue
