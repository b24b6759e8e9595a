import Dialogue.Proofs.Lua.ReadBack

/-!
What a fragment is read as, whether or not its parentheses respect the priorities. The lexemes of
the expression that a tree stands for are always those of an expression, which may group them in
another way (`Expr.exists_parse`). It groups them as the tree does just if the tree nests
(`Expr.nests_iff`).
-/

set_option autoImplicit false
set_option relaxedAutoImplicit false

namespace Dialogue

namespace Lua

/-- The frames that are left when all operators in front have their operands. -/
def barriers (frames : List Frame) : List Frame :=
  frames.dropWhile fun frame => frame.strength?.isSome

private theorem barriers_settle (priority : Nat) (tree : Tree) (frames : List Frame) :
    barriers (settle priority tree frames).2 = barriers frames := by
  induction frames generalizing tree with
  | nil => rfl
  | cons frame frames ih =>
    cases frame with
    | unary op =>
      unfold settle
      split
      · exact ih _
      · rfl
    | binary op left =>
      unfold settle
      split
      · exact ih _
      · rfl
    | group | index | call => rfl

private theorem settle_zero (tree : Tree) (frames : List Frame) :
    ∃ inner, settle 0 tree frames = (inner, barriers frames) := by
  induction frames generalizing tree with
  | nil => exact ⟨tree, rfl⟩
  | cons frame frames ih =>
    cases frame with
    | unary op =>
      obtain ⟨inner, settled⟩ := ih (.unary op tree)
      exact ⟨inner, (if_pos (Nat.zero_le _)).trans settled⟩
    | binary op left =>
      obtain ⟨inner, settled⟩ := ih (.binary op left tree)
      exact ⟨inner, (if_pos (Nat.zero_le _)).trans settled⟩
    | group | index | call => exact ⟨tree, rfl⟩

/-- The lexemes of an expression are read as an operand, in front of whatever frames. Only operators
can be left in front of those frames. -/
def Tree.IsRead (t : Tree) : Prop :=
  ∀ frames, ∃ tree outer, t.lexemes.foldlM step (.operand frames) = some (.operator tree outer) ∧
    barriers outer = barriers frames

namespace Tree

private theorem IsRead.unary {t : Tree} (h : t.IsRead) (op : Unary) : (Tree.unary op t).IsRead := by
  intro frames
  obtain ⟨tree, outer, run, same⟩ := h (.unary op :: frames)
  refine ⟨tree, outer, ?_, same⟩
  cases op <;> exact (foldlM_cons rfl _).trans run

private theorem IsRead.binary {l r : Tree} (hl : l.IsRead) (hr : r.IsRead) (op : Binary) :
    (Tree.binary op l r).IsRead := by
  intro frames
  obtain ⟨left, between, runLeft, sameLeft⟩ := hl frames
  obtain ⟨tree, outer, run, same⟩ := hr
    (.binary op (settle op.left left between).1 :: (settle op.left left between).2)
  refine ⟨tree, outer, ?_, same.trans ((barriers_settle op.left left between).trans sameLeft)⟩
  rw [lexemes, foldlM_append runLeft, foldlM_cons rfl]
  exact run

private theorem IsRead.group {t : Tree} (h : t.IsRead) : (Tree.group t).IsRead := by
  intro frames
  obtain ⟨tree, outer, run, same⟩ := h (.group :: frames)
  obtain ⟨inner, settled⟩ := settle_zero tree outer
  have closes : step (.operator tree outer) .closeParen =
      some (.operator (.group inner) frames) := by
    rw [same] at settled
    simp only [step, settled]
    rfl
  refine ⟨.group inner, frames, ?_, rfl⟩
  rw [lexemes, foldlM_cons rfl, foldlM_append run, foldlM_cons closes]
  rfl

/-- The arguments of a call are read one after another, up to the parenthesis that closes it. -/
theorem exists_foldlM_arguments (function : Tree) (frames : List Frame) :
    ∀ (arguments before : List Tree), arguments ≠ [] → (∀ t ∈ arguments, t.IsRead) →
      ∃ read, (argumentLexemes arguments ++ [Lexeme.closeParen]).foldlM step
        (.operand (.call function before :: frames)) =
          some (.operator (.call function read) frames)
  | [], _, filled, _ => absurd rfl filled
  | [last], before, _, isRead => by
    obtain ⟨tree, outer, run, same⟩ :=
      isRead last List.mem_cons_self (.call function before :: frames)
    obtain ⟨inner, settled⟩ := settle_zero tree outer
    refine ⟨before ++ [inner], ?_⟩
    have closes : step (.operator tree outer) .closeParen =
        some (.operator (.call function (before ++ [inner])) frames) := by
      rw [same] at settled
      simp only [step, settled]
      rfl
    rw [argumentLexemes, foldlM_append run, foldlM_cons closes]
    rfl
  | argument :: next :: rest, before, _, isRead => by
    obtain ⟨tree, outer, run, same⟩ :=
      isRead argument List.mem_cons_self (.call function before :: frames)
    obtain ⟨inner, settled⟩ := settle_zero tree outer
    have goesOn : step (.operator tree outer) .comma =
        some (.operand (.call function (before ++ [inner]) :: frames)) := by
      rw [same] at settled
      simp only [step, settled]
      rfl
    obtain ⟨read, runRest⟩ := exists_foldlM_arguments function frames (next :: rest)
      (before ++ [inner]) (List.cons_ne_nil _ _) fun t member =>
        isRead t (List.mem_cons_of_mem _ member)
    refine ⟨read, ?_⟩
    rw [argumentLexemes, List.append_assoc, foldlM_append run, List.cons_append, foldlM_cons goesOn]
    exact runRest

private theorem isRead_call {name : String} {arguments : List Tree}
    (isRead : ∀ t ∈ arguments, t.IsRead) :
    (Tree.call (.name name) arguments).IsRead := by
  intro frames
  cases arguments with
  | nil => exact ⟨.call (.name name) [], frames, rfl, rfl⟩
  | cons first rest =>
    obtain ⟨read, run⟩ := exists_foldlM_arguments (.name name) frames (first :: rest) []
      (List.cons_ne_nil _ _) isRead
    refine ⟨.call (.name name) read, frames, ?_, rfl⟩
    rw [lexemes, lexemes, List.cons_append, List.nil_append, foldlM_cons rfl, foldlM_cons rfl]
    exact run

private theorem IsRead.exists_parse {t : Tree} (h : t.IsRead) :
    ∃ t', parse? t.lexemes = some t' := by
  obtain ⟨tree, outer, run, same⟩ := h []
  obtain ⟨inner, settled⟩ := settle_zero tree outer
  rw [same] at settled
  refine ⟨inner, ?_⟩
  rw [parse?, run]
  simp only [Option.bind_eq_bind, Option.bind_some, State.result?, settled]
  rfl

end Tree

private theorem IsNumber.isRead {x : Float} {t : Tree} (h : IsNumber x t) : t.IsRead := by
  have signed {t : Tree} (h : t.IsRead) : (signed x t).IsRead := by
    unfold Lua.signed
    split
    · exact h.unary .negate
    · exact h
  have zero : (Tree.numeral 0 0).IsRead := fun frames => ⟨_, frames, rfl, rfl⟩
  cases h with
  | finite => exact signed fun frames => ⟨_, frames, rfl, rfl⟩
  | infinite => exact signed fun frames => ⟨_, frames, rfl, rfl⟩
  | undefined => exact (zero.binary zero .divide).group

end Lua

namespace Expr

open Lua (unaryPriority topPriority)

mutual

private theorem isRead_of_readsAs : ∀ (e : Expr) {t : Lua.Tree}, e.ReadsAs t → t.IsRead
  | .literal value, _, reads => by
    cases reads with
    | number number => exact number.isRead
    | bool | null | text => exact fun frames => ⟨_, frames, rfl, rfl⟩
  | .variable name, _, reads => by
    cases reads
    exact fun frames => ⟨_, frames, rfl, rfl⟩
  | .group inner, _, reads => by
    cases reads with
    | group reads => exact (isRead_of_readsAs inner reads).group
  | .unary op operand, _, reads => by
    cases reads with
    | unary symbol reads => exact (isRead_of_readsAs operand reads).unary _
  | .binary op left right, _, reads => by
    cases reads with
    | binary symbol readsL readsR =>
      exact (isRead_of_readsAs left readsL).binary (isRead_of_readsAs right readsR) _
  | .call name arguments, _, reads => by
    cases reads with
    | builtin known reads => exact Lua.Tree.isRead_call (isRead_of_readsAsAll arguments reads)
    | custom unknown reads =>
      refine Lua.Tree.isRead_call (List.forall_mem_cons.mpr ⟨?_, ?_⟩)
      · exact fun frames => ⟨_, frames, rfl, rfl⟩
      · exact isRead_of_readsAsAll arguments reads

private theorem isRead_of_readsAsAll : ∀ (es : List Expr) {ts : List Lua.Tree},
    List.Forall₂ ReadsAs es ts → ∀ t ∈ ts, t.IsRead
  | [], _, reads => by
    cases reads
    exact List.forall_mem_nil _
  | e :: rest, _, reads => by
    cases reads with
    | cons first others =>
      exact List.forall_mem_cons.mpr
        ⟨isRead_of_readsAs e first, isRead_of_readsAsAll rest others⟩

end

/-- The lexemes of the expression that a tree stands for are read as some expression. -/
theorem exists_parse {e : Expr} {t : Lua.Tree} (reads : e.ReadsAs t) :
    ∃ t', Lua.parse? t.lexemes = some t' :=
  (isRead_of_readsAs e reads).exists_parse

private theorem unaryPriority_le_level {e : Expr} (h : ∀ op left right, e ≠ .binary op left right) :
    unaryPriority ≤ e.level := by
  have top : unaryPriority ≤ topPriority := by decide
  cases e with
  | literal value =>
    cases value with
    | number x =>
      unfold level
      dsimp only
      split
      · exact Nat.le_refl _
      · exact top
    | bool | null | text => exact top
  | unary => exact Nat.le_refl _
  | «variable» | group | call => exact top
  | binary op left right => exact absurd rfl (h op left right)

/-- An operator binds no more tightly than its expression does at either end. Only the priorities
below those of operators before their operand matter. -/
private theorem min_le_level {e : Expr} {t : Lua.Tree} (reads : e.ReadsAs t) :
    min unaryPriority t.grip ≤ e.level ∧ min unaryPriority t.hold ≤ e.level := by
  have tight (h : ∀ op left right, e ≠ .binary op left right) (n : Nat) :
      min unaryPriority n ≤ e.level :=
    Nat.le_trans (Nat.min_le_left _ _) (unaryPriority_le_level h)
  cases reads with
  | @binary op b left right l r symbol readsL readsR =>
    obtain ⟨even, -⟩ := Lua.priority_of_luaBinary? symbol
    rw [level_binary symbol]
    constructor
    · exact Nat.le_trans (Nat.min_le_right _ _) (even ▸ Nat.min_le_left _ _)
    · exact Nat.le_trans (Nat.min_le_right _ _) (Nat.min_le_left _ _)
  | _ => exact ⟨tight (by rintro _ _ _ ⟨⟩) _, tight (by rintro _ _ _ ⟨⟩) _⟩

mutual

private theorem nests_of_readsAs : ∀ (e : Expr) {t : Lua.Tree}, e.ReadsAs t → t.Nests → e.Nests
  | .literal _, _, _, _ => trivial
  | .variable _, _, _, _ => trivial
  | .group inner, _, reads, nests => by
    cases reads with
    | group reads => exact nests_of_readsAs inner reads nests
  | .unary op operand, _, reads, nests => by
    cases reads with
    | unary symbol reads =>
      refine ⟨?_, nests_of_readsAs operand reads nests.2⟩
      have low := (min_le_level reads).2
      rwa [Nat.min_eq_left (Nat.le_of_lt nests.1)] at low
  | .binary op left right, _, reads, nests => by
    cases reads with
    | binary symbol readsL readsR =>
      obtain ⟨grips, holds, nestL, nestR⟩ := nests
      obtain ⟨even, loose⟩ := Lua.priority_of_luaBinary? symbol
      rw [even] at holds
      refine ⟨?_, ?_, nests_of_readsAs left readsL nestL, nests_of_readsAs right readsR nestR⟩
      · rw [level_binary symbol]
        exact Nat.le_trans (Nat.le_min.2 ⟨Nat.le_of_lt loose, grips⟩) (min_le_level readsL).1
      · rw [level_binary symbol]
        exact Nat.lt_of_lt_of_le (Nat.lt_min.2 ⟨loose, holds⟩) (min_le_level readsR).2
  | .call name arguments, _, reads, nests => by
    cases reads with
    | builtin known reads => exact nestsAll_of_readsAsAll arguments reads nests.2.2
    | custom unknown reads => exact nestsAll_of_readsAsAll arguments reads nests.2.2.2

private theorem nestsAll_of_readsAsAll : ∀ (es : List Expr) {ts : List Lua.Tree},
    List.Forall₂ ReadsAs es ts → Lua.Tree.NestsAll ts → NestsAll es
  | [], _, _, _ => trivial
  | e :: rest, _, reads, nests => by
    cases reads with
    | cons first others =>
      exact ⟨nests_of_readsAs e first nests.1, nestsAll_of_readsAsAll rest others nests.2⟩

end

theorem nests_iff {e : Expr} {t : Lua.Tree} (reads : e.ReadsAs t) : t.Nests ↔ e.Nests :=
  ⟨nests_of_readsAs e reads, fun nests => (nestsAt_of_readsAs e reads nests).nests⟩

end Expr

end Dialogue
