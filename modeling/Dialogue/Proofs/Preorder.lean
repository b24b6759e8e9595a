import Mathlib.Data.List.Basic
import Mathlib.Data.Nat.Basic
import Mathlib.Tactic.ByContra

/-!
Numbers in preorder. Statements are numbered as they come, and the parent of a new statement is the
last statement or a block around it. `Links.Preordered` says this of all statements at once.

It makes the numbers those of a walk in preorder. When the walk comes to the statement `k`, what it
still has to visit are the children from `k` on of the statement `k - 1` and of the blocks around
it.
-/

set_option autoImplicit false
set_option relaxedAutoImplicit false

namespace Dialogue.Script

/-- A statement and the blocks around it, from the inside out. -/
def lineage (parent : Nat → Option Nat) (id : Nat) : List Nat :=
  id :: match parent id with
    | some p => if p < id then lineage parent p else []
    | none => []
termination_by id

section Lineage

variable {parent : Nat → Option Nat}

private theorem lineage_of_parent {id p : Nat} (h : parent id = some p) (lt : p < id) :
    lineage parent id = id :: lineage parent p := by
  rw [lineage, h]
  simp [lt]

theorem lineage_of_root {id : Nat} (h : parent id = none) : lineage parent id = [id] := by
  rw [lineage, h]

theorem mem_lineage_self (parent : Nat → Option Nat) (id : Nat) : id ∈ lineage parent id := by
  rw [lineage]
  exact List.mem_cons_self

/-- A lineage is the statement alone, or goes on with the lineage of a parent. -/
theorem lineage_cases (parent : Nat → Option Nat) (id : Nat) : lineage parent id = [id] ∨
    ∃ p, p < id ∧ parent id = some p ∧ lineage parent id = id :: lineage parent p := by
  cases h : parent id with
  | none => exact .inl (lineage_of_root h)
  | some p =>
    by_cases lt : p < id
    · exact .inr ⟨p, lt, rfl, lineage_of_parent h lt⟩
    · left
      rw [lineage, h]
      simp [lt]

theorem le_of_mem_lineage {id a : Nat} (member : a ∈ lineage parent id) : a ≤ id := by
  induction id using Nat.strong_induction_on with
  | _ id ih =>
    rcases lineage_cases parent id with alone | ⟨p, lt, -, longer⟩
    · rw [alone, List.mem_singleton] at member
      omega
    · rw [longer, List.mem_cons] at member
      rcases member with rfl | member
      · exact Nat.le_refl _
      · have := ih p lt member
        omega

private theorem lineage_decreasing (parent : Nat → Option Nat) (id : Nat) :
    (lineage parent id).Pairwise (· > ·) := by
  induction id using Nat.strong_induction_on with
  | _ id ih =>
    rcases lineage_cases parent id with alone | ⟨p, lt, -, longer⟩
    · rw [alone]
      exact List.pairwise_singleton _ _
    · rw [longer, List.pairwise_cons]
      refine ⟨fun a member => ?_, ih p lt⟩
      have := le_of_mem_lineage member
      omega

/-- The lineage of a block around a statement is the end of the lineage of the statement. -/
theorem exists_lineage_eq {id a : Nat} (member : a ∈ lineage parent id) :
    ∃ inner, lineage parent id = inner ++ lineage parent a := by
  induction id using Nat.strong_induction_on with
  | _ id ih =>
    rcases lineage_cases parent id with alone | ⟨p, lt, -, longer⟩
    · rw [alone, List.mem_singleton] at member
      exact ⟨[], by rw [member]; rfl⟩
    · rw [longer, List.mem_cons] at member
      rcases member with rfl | member
      · exact ⟨[], rfl⟩
      · obtain ⟨inner, same⟩ := ih p lt member
        exact ⟨id :: inner, by rw [longer, same]; rfl⟩

theorem mem_lineage_trans {id a b : Nat} (first : a ∈ lineage parent b)
    (second : b ∈ lineage parent id) :
    a ∈ lineage parent id := by
  obtain ⟨inner, same⟩ := exists_lineage_eq second
  rw [same]
  exact List.mem_append_right _ first

/-- A lineage climbs from child to parent. -/
theorem lineage_chain (parent : Nat → Option Nat) (id : Nat) :
    (lineage parent id).IsChain fun c p => parent c = some p := by
  induction id using Nat.strong_induction_on with
  | _ id ih =>
    rcases lineage_cases parent id with alone | ⟨p, lt, above, longer⟩
    · rw [alone]
      exact .singleton id
    · have rest := ih p lt
      rw [longer]
      rw [lineage] at rest ⊢
      exact .cons_cons above rest

private theorem lineage_congr {parent' : Nat → Option Nat} {id : Nat}
    (same : ∀ j, j ≤ id → parent' j = parent j) : lineage parent' id = lineage parent id := by
  induction id using Nat.strong_induction_on with
  | _ id ih =>
    have here := same id (Nat.le_refl _)
    rw [lineage, lineage, here]
    cases parent id with
    | none => rfl
    | some p =>
      by_cases lt : p < id
      · simp only [lt, if_true]
        rw [ih p lt fun j le => same j (by omega)]
      · simp only [lt, if_false]

end Lineage

/-- The links between numbered statements. -/
@[ext]
structure Links where
  count : Nat
  parent : Nat → Option Nat
  children : Nat → List Nat
  isBlock : Nat → Bool

namespace Links

/-- A new statement, under a parent or without one. -/
def extend (l : Links) (parent : Option Nat) (isBlock : Bool) : Links where
  count := l.count + 1
  parent id := if id = l.count then parent else l.parent id
  children id := l.children id ++ if some id = parent then [l.count] else []
  isBlock id := if id = l.count then isBlock else l.isBlock id

/-- Every statement but the first stands under the one before it or under a block around that one,
and parents and children name each other. -/
structure Preordered (l : Links) : Prop where
  first : l.parent 0 = none
  later : ∀ id, 0 < id → id < l.count → ∃ p ∈ lineage l.parent (id - 1), l.parent id = some p
  outside : ∀ id, l.count ≤ id → l.parent id = none
  listed : ∀ p c, c ∈ l.children p ↔ l.parent c = some p
  increasing : ∀ p, (l.children p).Pairwise (· < ·)
  block : ∀ p c, l.parent c = some p → l.isBlock p = true

variable {l : Links}

namespace Preordered

theorem lt_count (h : l.Preordered) {c p : Nat} (child : l.parent c = some p) : c < l.count := by
  by_contra outside
  rw [h.outside c (by omega)] at child
  cases child

private theorem mem_lineage (h : l.Preordered) {c p : Nat} (child : l.parent c = some p) :
    0 < c ∧ p ∈ lineage l.parent (c - 1) := by
  have pos : 0 < c := by
    rcases Nat.eq_zero_or_pos c with rfl | pos
    · rw [h.first] at child
      cases child
    · exact pos
  obtain ⟨q, around, same⟩ := h.later c pos (h.lt_count child)
  rw [child] at same
  cases same
  exact ⟨pos, around⟩

theorem parent_lt (h : l.Preordered) {c p : Nat} (child : l.parent c = some p) : p < c := by
  obtain ⟨pos, around⟩ := h.mem_lineage child
  have := le_of_mem_lineage around
  omega

theorem lineage_eq (h : l.Preordered) {c p : Nat} (child : l.parent c = some p) :
    lineage l.parent c = c :: lineage l.parent p :=
  lineage_of_parent child (h.parent_lt child)

/-- Every lineage ends with the first statement. -/
theorem lineage_last (h : l.Preordered) {id : Nat} (lt : id < l.count) :
    (lineage l.parent id).getLast? = some 0 := by
  induction id using Nat.strong_induction_on with
  | _ id ih =>
    rcases Nat.eq_zero_or_pos id with rfl | pos
    · rw [lineage_of_root h.first]
      rfl
    · obtain ⟨p, -, parent⟩ := h.later id pos lt
      have below := h.parent_lt parent
      have last := ih p below (by omega)
      rw [h.lineage_eq parent, List.getLast?_cons, last]
      rfl

theorem lineage_extend {id : Nat} (lt : id < l.count) (parent : Option Nat) (isBlock : Bool) :
    lineage (l.extend parent isBlock).parent id = lineage l.parent id := by
  apply lineage_congr
  intro j le
  simp only [extend]
  rw [if_neg (by omega)]

theorem empty : Preordered ⟨0, fun _ => none, fun _ => [], fun _ => false⟩ where
  first := rfl
  later := by
    intro id _ lt
    exact absurd lt (Nat.not_lt_zero _)
  outside _ _ := rfl
  listed p c := by simp
  increasing _ := List.Pairwise.nil
  block p c child := by cases child

/-- The first statement. -/
theorem extend_root (h : l.Preordered) (empty : l.count = 0) (isBlock : Bool) :
    (l.extend none isBlock).Preordered := by
  have orphans : ∀ id, (l.extend none isBlock).parent id = none := by
    intro id
    simp only [extend]
    split
    · rfl
    · exact h.outside id (by omega)
  have childless : ∀ id, (l.extend none isBlock).children id = l.children id := by
    intro id
    simp [extend]
  refine ⟨orphans 0, ?_, fun id _ => orphans id, ?_, ?_, ?_⟩
  · intro id pos lt
    simp only [extend] at lt
    omega
  · intro p c
    rw [childless, h.listed, orphans, h.outside c (by omega)]
  · intro p
    rw [childless]
    exact h.increasing p
  · intro p c child
    rw [orphans] at child
    cases child

/-- A new statement under the last one or under a block around it. -/
theorem extend_child (h : l.Preordered) {p : Nat} (pos : 0 < l.count)
    (around : p ∈ lineage l.parent (l.count - 1)) (block : l.isBlock p = true) (isBlock : Bool) :
    (l.extend (some p) isBlock).Preordered := by
  have below : p < l.count := by
    have := le_of_mem_lineage around
    omega
  have old : ∀ id, id ≠ l.count → (l.extend (some p) isBlock).parent id = l.parent id := by
    intro id other
    simp only [extend]
    rw [if_neg other]
  have new : (l.extend (some p) isBlock).parent l.count = some p := by
    simp only [extend]
    rw [if_pos trivial]
  refine ⟨?_, ?_, ?_, ?_, ?_, ?_⟩
  · rw [old 0 (by omega)]
    exact h.first
  · intro id idPos lt
    simp only [extend] at lt
    rw [lineage_extend (by omega)]
    by_cases last : id = l.count
    · subst last
      exact ⟨p, around, new⟩
    · rw [old id last]
      exact h.later id idPos (by omega)
  · intro id le
    simp only [extend] at le
    rw [old id (by omega)]
    exact h.outside id (by omega)
  · intro q c
    have listed : c ∈ (l.extend (some p) isBlock).children q ↔
        l.parent c = some q ∨ (q = p ∧ c = l.count) := by
      simp only [extend, List.mem_append, h.listed]
      by_cases here : q = p <;> simp [here]
    rw [listed]
    by_cases last : c = l.count
    · subst last
      rw [new, h.outside l.count (Nat.le_refl _)]
      simp [eq_comm]
    · rw [old c last]
      simp [last]
  · intro q
    simp only [extend]
    rw [List.pairwise_append]
    refine ⟨h.increasing q, by split <;> simp, ?_⟩
    intro c child c' isNew
    have lt := h.lt_count ((h.listed q c).mp child)
    split at isNew
    · rw [List.mem_singleton.mp isNew]
      exact lt
    · cases isNew
  · intro q c child
    have lt : q < l.count ∧ l.isBlock q = true := by
      by_cases last : c = l.count
      · rw [last, new] at child
        cases child
        exact ⟨below, block⟩
      · rw [old c last] at child
        have := h.parent_lt child
        have := h.lt_count child
        exact ⟨by omega, h.block q c child⟩
    simp only [extend]
    rw [if_neg (by omega)]
    exact lt.2

/-- A block that the statement `k` does not stand in has no children from `k` on. -/
theorem lt_of_closed (h : l.Preordered) {k a c : Nat} (around : a ∈ lineage l.parent (k - 1))
    (pos : 0 < k) (closed : a ∉ lineage l.parent k) (child : l.parent c = some a) : c < k := by
  by_contra late
  have never : ∀ j, k ≤ j → j < l.count → a ∉ lineage l.parent j := by
    intro j le
    induction j, le using Nat.le_induction with
    | base => exact fun _ => closed
    | succ j le ih =>
      intro lt member
      obtain ⟨p, near, same⟩ := h.later (j + 1) (by omega) lt
      rw [h.lineage_eq same, List.mem_cons] at member
      rcases member with here | member
      · have := le_of_mem_lineage around
        omega
      · exact ih (by omega) (mem_lineage_trans member near)
  have lt := h.lt_count child
  rcases Nat.eq_or_lt_of_le (Nat.le_of_not_lt late) with rfl | after
  · apply closed
    rw [h.lineage_eq child]
    exact List.mem_cons_of_mem _ (mem_lineage_self _ _)
  · exact never (c - 1) (by omega) (by omega) (h.mem_lineage child).2

end Preordered

/-- A walk with a stack: the statement on top is met, and its children take its place. -/
inductive Walks (children : Nat → List Nat) : List Nat → List Nat → Prop
  | done : Walks children [] []
  | visit {id : Nat} {pending order : List Nat} : Walks children (children id ++ pending) order →
      Walks children (id :: pending) (id :: order)

/-- What is left to visit once the statements before `k` are met. -/
def waiting (l : Links) (k : Nat) : List Nat :=
  (lineage l.parent (k - 1)).flatMap fun a => (l.children a).filter (k ≤ ·)

namespace Preordered

private theorem le_of_mem_children (h : l.Preordered) {p c : Nat} (child : c ∈ l.children p) :
    p < c :=
  h.parent_lt ((h.listed p c).mp child)

private theorem filter_children_of_lt (h : l.Preordered) {p k : Nat} (le : k ≤ p + 1) :
    (l.children p).filter (k ≤ ·) = l.children p := by
  apply List.filter_eq_self.mpr
  intro c child
  have := h.le_of_mem_children child
  simp only [decide_eq_true_eq]
  omega

private theorem waiting_one (h : l.Preordered) : l.waiting 1 = l.children 0 := by
  rw [waiting, lineage_of_root h.first, List.flatMap_singleton]
  exact h.filter_children_of_lt (Nat.le_refl _)

private theorem waiting_count (h : l.Preordered) : l.waiting l.count = [] := by
  rw [waiting, List.flatMap_eq_nil_iff]
  intro a _
  apply List.filter_eq_nil_iff.mpr
  intro c child
  have := h.lt_count ((h.listed a c).mp child)
  simp only [decide_eq_true_eq]
  omega

/-- Of the children from `k` on, the statement `k` comes first among those of its parent. -/
theorem filter_children_parent (h : l.Preordered) {k p : Nat} (child : l.parent k = some p) :
    (l.children p).filter (k ≤ ·) = k :: (l.children p).filter (k + 1 ≤ ·) := by
  obtain ⟨before, after, split⟩ := List.append_of_mem ((h.listed p k).mpr child)
  have increasing := h.increasing p
  rw [split, List.pairwise_append, List.pairwise_cons] at increasing
  obtain ⟨-, ⟨above, -⟩, below⟩ := increasing
  have first : ∀ c ∈ before, c < k := fun c member => below c member k List.mem_cons_self
  have none : ∀ j, k ≤ j → before.filter (j ≤ ·) = [] := by
    intro j le
    apply List.filter_eq_nil_iff.mpr
    intro c member
    have := first c member
    simp only [decide_eq_true_eq]
    omega
  have all : ∀ j, j ≤ k + 1 → after.filter (j ≤ ·) = after := by
    intro j le
    apply List.filter_eq_self.mpr
    intro c member
    have := above c member
    simp only [decide_eq_true_eq]
    omega
  have itself : (k :: after).filter (k ≤ ·) = k :: after.filter (k ≤ ·) :=
    List.filter_cons_of_pos (decide_eq_true (Nat.le_refl k))
  have past : (k :: after).filter (k + 1 ≤ ·) = after.filter (k + 1 ≤ ·) := by
    apply List.filter_cons_of_neg
    simp only [decide_eq_true_eq]
    omega
  rw [split, List.filter_append, List.filter_append, none k (Nat.le_refl _),
    none (k + 1) (by omega), itself, past, all k (by omega), all (k + 1) (Nat.le_refl _)]
  rfl

/-- The blocks inside the parent of `k` that end before `k` have no children left. -/
theorem flatMap_closed (h : l.Preordered) {k p : Nat} (child : l.parent k = some p) (pos : 0 < k)
    {inner : List Nat} (split : lineage l.parent (k - 1) = inner ++ lineage l.parent p) :
    inner.flatMap (fun a => (l.children a).filter (k ≤ ·)) = [] := by
  rw [List.flatMap_eq_nil_iff]
  intro a member
  have onLine : a ∈ lineage l.parent (k - 1) := by
    rw [split]
    exact List.mem_append_left _ member
  have closed : a ∉ lineage l.parent k := by
    have order := lineage_decreasing l.parent (k - 1)
    rw [split, List.pairwise_append] at order
    have above := order.2.2 a member p (mem_lineage_self _ _)
    rw [h.lineage_eq child, List.mem_cons]
    rintro (here | inside)
    · have := le_of_mem_lineage onLine
      omega
    · have := le_of_mem_lineage inside
      omega
  apply List.filter_eq_nil_iff.mpr
  intro c member
  have := h.lt_of_closed onLine pos closed ((h.listed a c).mp member)
  simp only [decide_eq_true_eq]
  omega

/-- The blocks around the parent of `k` do not list `k`. -/
theorem filter_children_around (h : l.Preordered) {k p a : Nat} (child : l.parent k = some p)
    (member : a ∈ (lineage l.parent p).tail) :
    (l.children a).filter (k ≤ ·) = (l.children a).filter (k + 1 ≤ ·) := by
  apply List.filter_congr
  intro c listed
  have other : c ≠ k := by
    rintro rfl
    rw [h.listed, child] at listed
    cases listed
    rcases lineage_cases l.parent p with alone | ⟨q, below, -, longer⟩
    · rw [alone] at member
      cases member
    · rw [longer] at member
      have := le_of_mem_lineage member
      omega
  simp only [decide_eq_decide]
  omega

/-- The statement `k` is next, and its children take its place. -/
theorem waiting_step (h : l.Preordered) {k : Nat} (pos : 0 < k) (lt : k < l.count) :
    ∃ rest, l.waiting k = k :: rest ∧ l.waiting (k + 1) = l.children k ++ rest := by
  obtain ⟨p, around, child⟩ := h.later k pos lt
  obtain ⟨inner, split⟩ := exists_lineage_eq around
  have head : lineage l.parent p = p :: (lineage l.parent p).tail := by
    rw [lineage]
    rfl
  refine ⟨(l.children p).filter (k + 1 ≤ ·) ++
    (lineage l.parent p).tail.flatMap fun a => (l.children a).filter (k + 1 ≤ ·), ?_, ?_⟩
  · rw [waiting, split, List.flatMap_append, h.flatMap_closed child pos split,
      List.nil_append, head, List.flatMap_cons, h.filter_children_parent child,
      List.flatMap_congr fun a member => h.filter_children_around child member]
    rfl
  · rw [waiting, Nat.add_sub_cancel, h.lineage_eq child, List.flatMap_cons, head, List.flatMap_cons,
      h.filter_children_of_lt (Nat.le_refl _)]
    rfl

private theorem walks_waiting (h : l.Preordered) (left : Nat) : ∀ k, 0 < k → k + left = l.count →
    Walks l.children (l.waiting k) (List.range' k left) := by
  induction left with
  | zero =>
    intro k _ here
    rw [show k = l.count by omega, h.waiting_count]
    exact .done
  | succ left ih =>
    intro k pos here
    obtain ⟨rest, now, next⟩ := h.waiting_step pos (by omega)
    rw [now, List.range'_succ]
    apply Walks.visit
    rw [← next]
    exact ih (k + 1) (by omega) (by omega)

/-- A walk from the first statement meets the statements in the order of their numbers. -/
theorem walks_root (h : l.Preordered) (pos : 0 < l.count) :
    Walks l.children [0] (List.range l.count) := by
  obtain ⟨left, same⟩ : ∃ left, l.count = left + 1 := ⟨l.count - 1, by omega⟩
  rw [List.range_eq_range', same, List.range'_succ]
  apply Walks.visit
  rw [List.append_nil, ← h.waiting_one]
  exact h.walks_waiting left 1 (by omega) (by omega)

end Preordered

end Links

end Dialogue.Script
