import Dialogue.Proofs.Lua.Lexeme

/-!
Lua's expressions, without functions, tables, method calls and calls that have no parentheses.
`Lua.Tree` has their trees, `Binary.left` and `Binary.right` the priorities of their operators, and
`Lua.parse?` reads a tree off its lexemes. The reader keeps the operators, calls and brackets that
wait for an operand on a stack. An operator that comes after an operand first closes all those that
bind the operand more tightly than it does.

A tree nests if the priorities leave every operand with its operator. `parse?_eq_some_iff` says that
the reader finds those trees and no others: each list of lexemes has at most one, and that is what
is read.
-/

set_option autoImplicit false
set_option relaxedAutoImplicit false

namespace Dialogue.Lua

inductive Unary
  | not
  | length
  | negate
deriving DecidableEq

inductive Tree
  | nil
  | bool (b : Bool)
  | numeral (coefficient places : Nat)
  | text (s : String)
  | name (s : String)
  | index (table key : Tree)
  | field (table : Tree) (key : String)
  | call (function : Tree) (arguments : List Tree)
  | group (inner : Tree)
  | unary (op : Unary) (operand : Tree)
  | binary (op : Binary) (left right : Tree)

/-- How tightly an operator binds the operand before it. -/
def Binary.left : Binary → Nat
  | .or => 1
  | .and => 2
  | .less | .greater | .lessEqual | .greaterEqual | .unequal | .equal => 3
  | .concat => 5
  | .add | .subtract => 6
  | .multiply | .divide | .modulo => 7
  | .power => 10

/-- How tightly an operator binds the operand after it. -/
def Binary.right : Binary → Nat
  | .concat => 4
  | .power => 9
  | op => op.left

/-- How tightly an operator before its operand binds it. -/
def unaryPriority : Nat := 8

def topPriority : Nat := 11

/-- Whether an expression may be called or looked into as it stands. -/
def Tree.takesSuffix : Tree → Bool
  | .name _ | .index .. | .field .. | .call .. | .group _ => true
  | _ => false

inductive Frame
  | unary (op : Unary)
  | binary (op : Binary) (left : Tree)
  | group
  | index (table : Tree)
  /-- A call with the arguments before the one that is to come. -/
  | call (function : Tree) (arguments : List Tree)

/-- How tightly an operator that waits binds its operand. -/
def Frame.strength? : Frame → Option Nat
  | .unary _ => some unaryPriority
  | .binary op _ => some op.right
  | .group | .index _ | .call .. => none

inductive State
  /-- An operand is to come. -/
  | operand (frames : List Frame)
  /-- An operand has been read. -/
  | operator (tree : Tree) (frames : List Frame)
  /-- The name of a field is to come. -/
  | field (table : Tree) (frames : List Frame)

/-- Give an operand to those operators that wait for it and bind it at least so tightly. -/
def settle (priority : Nat) (tree : Tree) : List Frame → Tree × List Frame
  | .unary op :: frames =>
    if priority ≤ unaryPriority then settle priority (.unary op tree) frames
    else (tree, .unary op :: frames)
  | .binary op left :: frames =>
    if priority ≤ op.right then settle priority (.binary op left tree) frames
    else (tree, .binary op left :: frames)
  | frames => (tree, frames)

def step : State → Lexeme → Option State
  | .operand frames, .nil => some (.operator .nil frames)
  | .operand frames, .bool b => some (.operator (.bool b) frames)
  | .operand frames, .numeral coefficient places =>
    some (.operator (.numeral coefficient places) frames)
  | .operand frames, .text s => some (.operator (.text s) frames)
  | .operand frames, .name s => some (.operator (.name s) frames)
  | .operand frames, .not => some (.operand (.unary .not :: frames))
  | .operand frames, .length => some (.operand (.unary .length :: frames))
  | .operand frames, .operator .subtract => some (.operand (.unary .negate :: frames))
  | .operand frames, .openParen => some (.operand (.group :: frames))
  | .operand (.call function [] :: frames), .closeParen =>
    some (.operator (.call function []) frames)
  | .operator tree frames, .operator op =>
    let (left, outer) := settle op.left tree frames
    some (.operand (.binary op left :: outer))
  | .operator tree frames, .openParen =>
    if tree.takesSuffix then some (.operand (.call tree [] :: frames)) else none
  | .operator tree frames, .openBracket =>
    if tree.takesSuffix then some (.operand (.index tree :: frames)) else none
  | .operator tree frames, .dot => if tree.takesSuffix then some (.field tree frames) else none
  | .field table frames, .name s => some (.operator (.field table s) frames)
  | .operator tree frames, .closeParen =>
    match settle 0 tree frames with
    | (inner, .group :: outer) => some (.operator (.group inner) outer)
    | (last, .call function arguments :: outer) =>
      some (.operator (.call function (arguments ++ [last])) outer)
    | _ => none
  | .operator tree frames, .closeBracket =>
    match settle 0 tree frames with
    | (key, .index table :: outer) => some (.operator (.index table key) outer)
    | _ => none
  | .operator tree frames, .comma =>
    match settle 0 tree frames with
    | (argument, .call function arguments :: outer) =>
      some (.operand (.call function (arguments ++ [argument]) :: outer))
    | _ => none
  | _, _ => none

/-- The tree that a run ends with, if nothing waits any more. -/
def State.result? : State → Option Tree
  | .operator tree frames =>
    match settle 0 tree frames with
    | (result, []) => some result
    | _ => none
  | _ => none

def parse? (ls : List Lexeme) : Option Tree := do
  (← ls.foldlM step (.operand [])).result?

def read? (cs : List Char) : Option Tree := do
  parse? (← lexemes? cs)

namespace Tree

mutual

def lexemes : Tree → List Lexeme
  | .nil => [.nil]
  | .bool b => [.bool b]
  | .numeral coefficient places => [.numeral coefficient places]
  | .text s => [.text s]
  | .name s => [.name s]
  | .index table key => table.lexemes ++ .openBracket :: (key.lexemes ++ [.closeBracket])
  | .field table key => table.lexemes ++ [.dot, .name key]
  | .call function arguments =>
    function.lexemes ++ .openParen :: (argumentLexemes arguments ++ [.closeParen])
  | .group inner => .openParen :: (inner.lexemes ++ [.closeParen])
  | .unary .not operand => .not :: operand.lexemes
  | .unary .length operand => .length :: operand.lexemes
  | .unary .negate operand => .operator .subtract :: operand.lexemes
  | .binary op left right => left.lexemes ++ .operator op :: right.lexemes

def argumentLexemes : List Tree → List Lexeme
  | [] => []
  | [last] => last.lexemes
  | argument :: next :: rest => argument.lexemes ++ .comma :: argumentLexemes (next :: rest)

end

/-- The loosest hold that an operator has on the end of a tree. -/
def grip : Tree → Nat
  | .unary _ operand => min unaryPriority operand.grip
  | .binary op _ right => min op.right right.grip
  | _ => topPriority

/-- The loosest hold that an operator has on the start of a tree. -/
def hold : Tree → Nat
  | .binary op left _ => min op.left left.hold
  | _ => topPriority

mutual

/-- Every operand stays with its operator. -/
def Nests : Tree → Prop
  | .index table key => table.takesSuffix ∧ table.Nests ∧ key.Nests
  | .field table _ => table.takesSuffix ∧ table.Nests
  | .call function arguments => function.takesSuffix ∧ function.Nests ∧ NestsAll arguments
  | .group inner => inner.Nests
  | .unary _ operand => unaryPriority < operand.hold ∧ operand.Nests
  | .binary op left right => op.left ≤ left.grip ∧ op.right < right.hold ∧ left.Nests ∧ right.Nests
  | _ => True

def NestsAll : List Tree → Prop
  | [] => True
  | t :: rest => t.Nests ∧ NestsAll rest

end

end Tree

/-- No operator that waits on top binds an operand so tightly. -/
def Rests (frames : List Frame) (priority : Nat) : Prop :=
  ∀ frame ∈ frames.head?, ∀ strength ∈ frame.strength?, strength < priority

private theorem Frame.strength_lt_topPriority {frame : Frame} {strength : Nat}
    (h : strength ∈ frame.strength?) : strength < topPriority := by
  cases frame with
  | unary op =>
    cases h
    decide
  | binary op left =>
    cases h
    cases op <;> decide
  | group | index | call => cases h

private theorem rests_topPriority (frames : List Frame) : Rests frames topPriority :=
  fun _ _ _ waits => Frame.strength_lt_topPriority waits

private theorem Rests.mono {frames : List Frame} {p q : Nat} (h : Rests frames p) (le : p ≤ q) :
    Rests frames q :=
  fun frame top strength waits => Nat.lt_of_lt_of_le (h frame top strength waits) le

private theorem rests_cons_of_none {frame : Frame} {frames : List Frame} {priority : Nat}
    (h : frame.strength? = none) : Rests (frame :: frames) priority := by
  intro top isTop strength waits
  cases isTop
  rw [h] at waits
  cases waits

private theorem rests_cons_of_lt {frame : Frame} {frames : List Frame} {strength priority : Nat}
    (h : frame.strength? = some strength) (lt : strength < priority) :
    Rests (frame :: frames) priority := by
  intro top isTop strength waits
  cases isTop
  rw [h] at waits
  cases waits
  exact lt

private theorem settle_of_rests {frames : List Frame} {priority : Nat}
    (h : Rests frames priority) (t : Tree) :
    settle priority t frames = (t, frames) := by
  cases frames with
  | nil => rfl
  | cons frame frames =>
    cases frame with
    | unary op => exact if_neg (Nat.not_le_of_lt (h _ rfl _ rfl))
    | binary op left => exact if_neg (Nat.not_le_of_lt (h _ rfl _ rfl))
    | group | index | call => rfl

theorem foldlM_cons {s t : State} {l : Lexeme} (h : step s l = some t) (ls : List Lexeme) :
    (l :: ls).foldlM step s = ls.foldlM step t := by
  rw [List.foldlM_cons, h]
  rfl

theorem foldlM_append {s t : State} {ls : List Lexeme} (h : ls.foldlM step s = some t)
    (ms : List Lexeme) : (ls ++ ms).foldlM step s = ms.foldlM step t := by
  rw [List.foldlM_append, h]
  rfl

/-- A tree has been read in front of some frames: what is left to close leads to it, and an
expression that takes a suffix is there as it stands. -/
structure Reads (t : Tree) (frames : List Frame) (tree : Tree) (outer : List Frame) : Prop where
  settles : ∀ priority ≤ t.grip, settle priority tree outer = settle priority t frames
  bare : t.takesSuffix = true → tree = t ∧ outer = frames

private theorem Reads.refl (t : Tree) (frames : List Frame) : Reads t frames t frames :=
  ⟨fun _ _ => rfl, fun _ => ⟨rfl, rfl⟩⟩

private theorem Reads.close {t tree : Tree} {frames outer : List Frame}
    (h : Reads t frames tree outer) (rests : Rests frames 0) :
    settle 0 tree outer = (t, frames) := by
  rw [h.settles 0 (Nat.zero_le _), settle_of_rests rests]

private theorem Reads.unary {op : Unary} {t tree : Tree} {frames outer : List Frame}
    (h : Reads t (.unary op :: frames) tree outer) : Reads (.unary op t) frames tree outer where
  settles priority le := by
    have le : priority ≤ unaryPriority ∧ priority ≤ t.grip := Nat.le_min.1 le
    rw [h.settles priority le.2]
    exact if_pos le.1
  bare := nofun

private theorem Reads.binary {op : Binary} {left t tree : Tree} {frames outer : List Frame}
    (h : Reads t (.binary op left :: frames) tree outer) :
    Reads (.binary op left t) frames tree outer where
  settles priority le := by
    have le : priority ≤ op.right ∧ priority ≤ t.grip := Nat.le_min.1 le
    rw [h.settles priority le.2]
    exact if_pos le.1
  bare := nofun

/-- Reading the lexemes of a tree in front of some frames. -/
def Tree.ReadBefore (t : Tree) (frames : List Frame) : Prop :=
  ∃ tree outer, t.lexemes.foldlM step (.operand frames) = some (.operator tree outer) ∧
    Reads t frames tree outer

private theorem Tree.ReadBefore.bare {t : Tree} {frames : List Frame} (h : t.ReadBefore frames)
    (suffix : t.takesSuffix = true) :
    t.lexemes.foldlM step (.operand frames) = some (.operator t frames) := by
  obtain ⟨tree, outer, run, reads⟩ := h
  obtain ⟨rfl, rfl⟩ := reads.bare suffix
  exact run

private theorem Tree.hold_of_takesSuffix {t : Tree} (h : t.takesSuffix = true) :
    t.hold = topPriority := by
  cases t <;> first | rfl | cases h

private theorem Tree.readBefore_of_bare {t : Tree} {frames : List Frame}
    (h : t.lexemes.foldlM step (.operand frames) = some (.operator t frames)) :
    t.ReadBefore frames :=
  ⟨t, frames, h, Reads.refl t frames⟩

mutual

private theorem Tree.readBefore_of_nests (t : Tree) (frames : List Frame) (nests : t.Nests)
    (rests : Rests frames t.hold) : t.ReadBefore frames := by
  match t with
  | .nil | .bool _ | .numeral .. | .text _ | .name _ => exact readBefore_of_bare rfl
  | .index table key =>
    obtain ⟨suffix, tableNests, keyNests⟩ := nests
    have suffixHold := hold_of_takesSuffix suffix
    have first := (readBefore_of_nests table frames tableNests (suffixHold ▸ rests)).bare suffix
    obtain ⟨tree, outer, run, reads⟩ :=
      readBefore_of_nests key (.index table :: frames) keyNests (rests_cons_of_none rfl)
    have closes := reads.close (rests_cons_of_none rfl)
    apply readBefore_of_bare
    rw [lexemes, foldlM_append first,
      foldlM_cons (t := .operand (.index table :: frames)) (by simp [step, suffix]),
        foldlM_append run]
    simp [step, closes]
  | .field table key =>
    obtain ⟨suffix, tableNests⟩ := nests
    have first := (readBefore_of_nests table frames tableNests
      (hold_of_takesSuffix suffix ▸ rests)).bare suffix
    apply readBefore_of_bare
    rw [lexemes, foldlM_append first]
    simp [step, suffix]
  | .call function arguments =>
    obtain ⟨suffix, functionNests, argumentsNest⟩ := nests
    have first := (readBefore_of_nests function frames functionNests
      (hold_of_takesSuffix suffix ▸ rests)).bare suffix
    apply readBefore_of_bare
    rw [lexemes, foldlM_append first,
      foldlM_cons (t := .operand (.call function [] :: frames)) (by simp [step, suffix])]
    by_cases none : arguments = []
    · subst none
      rfl
    · exact foldlM_arguments arguments function [] frames none argumentsNest
  | .group inner =>
    obtain ⟨tree, outer, run, reads⟩ :=
      readBefore_of_nests inner (.group :: frames) nests (rests_cons_of_none rfl)
    have closes := reads.close (rests_cons_of_none rfl)
    apply readBefore_of_bare
    rw [lexemes, foldlM_cons (t := .operand (.group :: frames)) rfl, foldlM_append run]
    simp [step, closes]
  | .unary op operand =>
    obtain ⟨binds, operandNests⟩ := nests
    obtain ⟨tree, outer, run, reads⟩ :=
      readBefore_of_nests operand (.unary op :: frames) operandNests
        (rests_cons_of_lt rfl binds)
    refine ⟨tree, outer, ?_, reads.unary⟩
    cases op <;> exact (foldlM_cons rfl _).trans run
  | .binary op left right =>
    obtain ⟨grips, binds, leftNests, rightNests⟩ := nests
    have rests : Rests frames op.left ∧ Rests frames left.hold :=
      ⟨rests.mono (Nat.min_le_left ..), rests.mono (Nat.min_le_right ..)⟩
    obtain ⟨tree, outer, run, reads⟩ := readBefore_of_nests left frames leftNests rests.2
    -- The operator closes what is open in its left operand, and nothing that waits for the whole.
    have closes : settle op.left tree outer = (left, frames) := by
      rw [reads.settles op.left grips, settle_of_rests rests.1]
    obtain ⟨tree', outer', run', reads'⟩ :=
      readBefore_of_nests right (.binary op left :: frames) rightNests
        (rests_cons_of_lt rfl binds)
    refine ⟨tree', outer', ?_, reads'.binary⟩
    rw [lexemes, foldlM_append run,
      foldlM_cons (t := .operand (.binary op left :: frames)) (by simp [step, closes])]
    exact run'

private theorem Tree.foldlM_arguments (arguments : List Tree) (function : Tree) (before : List Tree)
    (frames : List Frame) (some : arguments ≠ []) (nest : NestsAll arguments) :
    (argumentLexemes arguments ++ [Lexeme.closeParen]).foldlM step
        (.operand (.call function before :: frames)) =
      .some (.operator (.call function (before ++ arguments)) frames) := by
  match arguments with
  | [] => exact (some rfl).elim
  | [last] =>
    obtain ⟨tree, outer, run, reads⟩ :=
      readBefore_of_nests last (.call function before :: frames) nest.1 (rests_cons_of_none rfl)
    have closes := reads.close (rests_cons_of_none rfl)
    rw [argumentLexemes, foldlM_append run]
    simp [step, closes]
  | argument :: next :: later =>
    obtain ⟨tree, outer, run, reads⟩ :=
      readBefore_of_nests argument (.call function before :: frames) nest.1
        (rests_cons_of_none rfl)
    have closes := reads.close (rests_cons_of_none rfl)
    have run' :=
      foldlM_arguments (next :: later) function (before ++ [argument]) frames nofun nest.2
    rw [argumentLexemes, List.append_assoc, foldlM_append run, List.cons_append,
      foldlM_cons (t := .operand (.call function (before ++ [argument]) :: frames))
        (by simp [step, closes]), run', List.append_assoc]
    rfl

end

private theorem parse?_lexemes {t : Tree} (nests : t.Nests) : parse? t.lexemes = some t := by
  obtain ⟨tree, outer, run, reads⟩ := t.readBefore_of_nests [] nests nofun
  have closes := reads.close nofun
  simp [parse?, run, State.result?, closes]

def Frame.lexemes : Frame → List Lexeme
  | .unary .not => [.not]
  | .unary .length => [.length]
  | .unary .negate => [.operator .subtract]
  | .binary op left => left.lexemes ++ [.operator op]
  | .group => [.openParen]
  | .index table => table.lexemes ++ [.openBracket]
  | .call function arguments =>
    function.lexemes ++ .openParen :: arguments.flatMap (·.lexemes ++ [.comma])

/-- The lexemes that frames stand for, the outermost first. -/
def written : List Frame → List Lexeme
  | [] => []
  | frame :: outer => written outer ++ frame.lexemes

def State.lexemes : State → List Lexeme
  | .operand frames => written frames
  | .operator tree frames => written frames ++ tree.lexemes
  | .field table frames => written frames ++ (table.lexemes ++ [.dot])

/-- The hold at the start of the tree that a frame becomes. -/
def Frame.hold : Frame → Nat
  | .binary op left => min op.left left.hold
  | _ => topPriority

def Frame.Nests : Frame → Prop
  | .binary op left => op.left ≤ left.grip ∧ left.Nests
  | .index table => table.takesSuffix ∧ table.Nests
  | .call function arguments => function.takesSuffix ∧ function.Nests ∧ Tree.NestsAll arguments
  | .unary _ | .group => True

/-- Every frame nests and is left alone by the one around it. -/
def FramesNest : List Frame → Prop
  | [] => True
  | frame :: outer => frame.Nests ∧ Rests outer frame.hold ∧ FramesNest outer

/-- An operand nests in the frames that wait for it. -/
structure Fits (t : Tree) (frames : List Frame) : Prop where
  nests : t.Nests
  rests : Rests frames t.hold
  outer : FramesNest frames

private theorem Fits.settle {priority : Nat} {t tree : Tree}
    {frames outer : List Frame} (h : Fits t frames) (grips : priority ≤ t.grip)
    (eq : settle priority t frames = (tree, outer)) :
    Fits tree outer ∧ priority ≤ tree.grip ∧ Rests outer priority ∧
      written outer ++ tree.lexemes = written frames ++ t.lexemes := by
  fun_induction Lua.settle priority t frames with
  | case1 t op frames le ih =>
    obtain ⟨nests, rests, -, outerRests, outerNest⟩ := h
    have binds : unaryPriority < t.hold := rests _ rfl _ rfl
    obtain ⟨fits, grip, rest, same⟩ :=
      ih ⟨⟨binds, nests⟩, outerRests, outerNest⟩ (Nat.le_min.2 ⟨le, grips⟩) eq
    refine ⟨fits, grip, rest, same.trans ?_⟩
    cases op <;> simp [written, Frame.lexemes, Tree.lexemes]
  | case3 t op left frames le ih =>
    obtain ⟨nests, rests, ⟨leftGrips, leftNests⟩, outerRests, outerNest⟩ := h
    have binds : op.right < t.hold := rests _ rfl _ rfl
    obtain ⟨fits, grip, rest, same⟩ :=
      ih ⟨⟨leftGrips, binds, leftNests, nests⟩, outerRests, outerNest⟩ (Nat.le_min.2 ⟨le, grips⟩) eq
    refine ⟨fits, grip, rest, same.trans ?_⟩
    simp [written, Frame.lexemes, Tree.lexemes]
  | case2 t op frames gt =>
    cases eq
    exact ⟨h, grips, rests_cons_of_lt rfl (Nat.lt_of_not_le gt), rfl⟩
  | case4 t op left frames gt =>
    cases eq
    exact ⟨h, grips, rests_cons_of_lt rfl (Nat.lt_of_not_le gt), rfl⟩
  | case5 t frames notUnary notBinary =>
    cases eq
    refine ⟨h, grips, ?_, rfl⟩
    cases outer with
    | nil => nofun
    | cons frame outer =>
      cases frame with
      | unary op => exact (notUnary _ _ rfl).elim
      | binary op left => exact (notBinary _ _ _ rfl).elim
      | group | index | call => exact rests_cons_of_none rfl

/-- What has been read nests so far. An operand that has just been read is closed at both ends. -/
def State.Nests : State → Prop
  | .operand frames => FramesNest frames
  | .operator tree frames =>
    tree.Nests ∧ tree.grip = topPriority ∧ tree.hold = topPriority ∧ FramesNest frames
  | .field table frames => table.takesSuffix ∧ table.Nests ∧ FramesNest frames

private theorem State.Nests.settle {tree tree' : Tree} {frames outer : List Frame} {priority : Nat}
    (h : (State.operator tree frames).Nests) (le : priority ≤ topPriority)
    (eq : Lua.settle priority tree frames = (tree', outer)) :
    Fits tree' outer ∧ priority ≤ tree'.grip ∧ Rests outer priority ∧
      written outer ++ tree'.lexemes = written frames ++ tree.lexemes := by
  obtain ⟨nests, grip, hold, framesNest⟩ := h
  have fits : Fits tree frames := ⟨nests, hold ▸ rests_topPriority frames, framesNest⟩
  exact fits.settle (grip ▸ le) eq

private theorem Binary.left_le_topPriority (op : Binary) : op.left ≤ topPriority := by
  cases op <;> decide

private theorem Tree.argumentLexemes_append (before : List Tree) (last : Tree) :
    argumentLexemes (before ++ [last]) =
      before.flatMap (·.lexemes ++ [.comma]) ++ last.lexemes := by
  induction before with
  | nil => simp [argumentLexemes]
  | cons argument before ih =>
    cases before with
    | nil => simp [argumentLexemes]
    | cons next later =>
      rw [List.cons_append] at ih
      simp [argumentLexemes, ih]

private theorem Tree.nestsAll_append {before : List Tree} {last : Tree} (h : NestsAll before)
    (lastNests : last.Nests) : NestsAll (before ++ [last]) := by
  induction before with
  | nil => exact ⟨lastNests, trivial⟩
  | cons argument before ih => exact ⟨h.1, ih h.2⟩

private theorem step_nests {s s' : State} {l : Lexeme} (nests : s.Nests) (h : step s l = some s') :
    s'.Nests ∧ s'.lexemes = s.lexemes ++ [l] := by
  revert h
  fun_cases step s l
  case case13 | case15 | case17 | case21 | case23 | case25 | case26 => nofun
  all_goals
    intro h
    cases h
  case case1 | case2 | case3 | case4 | case5 => exact ⟨⟨trivial, rfl, rfl, nests⟩, rfl⟩
  case case6 frames | case7 frames | case8 frames | case9 frames =>
    exact ⟨⟨trivial, rests_topPriority frames, nests⟩, rfl⟩
  case case10 function frames =>
    obtain ⟨⟨suffix, functionNests, -⟩, -, outerNest⟩ := nests
    refine ⟨⟨⟨suffix, functionNests, trivial⟩, rfl, rfl, outerNest⟩, ?_⟩
    simp [State.lexemes, written, Frame.lexemes, Tree.lexemes, Tree.argumentLexemes]
  case case11 tree frames op left outer settles =>
    obtain ⟨fits, grips, rests, same⟩ := nests.settle op.left_le_topPriority settles
    have bound : Rests outer (min op.left left.hold) := by
      cases Nat.le_total op.left left.hold with
      | inl le => rwa [Nat.min_eq_left le]
      | inr le => rw [Nat.min_eq_right le]; exact fits.rests
    refine ⟨⟨⟨grips, fits.nests⟩, bound, fits.outer⟩, ?_⟩
    simp only [State.lexemes, written, Frame.lexemes, ← List.append_assoc, same]
  case case12 tree frames suffix =>
    obtain ⟨treeNests, -, -, outerNest⟩ := nests
    refine ⟨⟨⟨suffix, treeNests, trivial⟩, rests_topPriority frames, outerNest⟩, ?_⟩
    simp [State.lexemes, written, Frame.lexemes]
  case case14 tree frames suffix =>
    obtain ⟨treeNests, -, -, outerNest⟩ := nests
    refine ⟨⟨⟨suffix, treeNests⟩, rests_topPriority frames, outerNest⟩, ?_⟩
    simp [State.lexemes, written, Frame.lexemes]
  case case16 tree frames suffix =>
    obtain ⟨treeNests, -, -, outerNest⟩ := nests
    exact ⟨⟨suffix, treeNests, outerNest⟩, (List.append_assoc ..).symm⟩
  case case18 table frames key =>
    obtain ⟨suffix, tableNests, outerNest⟩ := nests
    refine ⟨⟨⟨suffix, tableNests⟩, rfl, rfl, outerNest⟩, ?_⟩
    simp [State.lexemes, Tree.lexemes]
  case case19 tree frames inner outer settles =>
    obtain ⟨⟨innerNests, -, -, -, outerNest⟩, -, -, same⟩ := nests.settle (Nat.zero_le _) settles
    refine ⟨⟨innerNests, rfl, rfl, outerNest⟩, ?_⟩
    simp only [State.lexemes, ← same, written, Frame.lexemes, Tree.lexemes]
    simp
  case case20 tree frames last function arguments outer settles =>
    obtain ⟨⟨lastNests, -, ⟨suffix, functionNests, argumentsNest⟩, -, outerNest⟩, -, -, same⟩ :=
      nests.settle (Nat.zero_le _) settles
    refine ⟨⟨⟨suffix, functionNests, Tree.nestsAll_append argumentsNest lastNests⟩, rfl, rfl,
      outerNest⟩, ?_⟩
    simp only [State.lexemes, ← same, written, Frame.lexemes, Tree.lexemes,
      Tree.argumentLexemes_append]
    simp
  case case22 tree frames key table outer settles =>
    obtain ⟨⟨keyNests, -, ⟨suffix, tableNests⟩, -, outerNest⟩, -, -, same⟩ :=
      nests.settle (Nat.zero_le _) settles
    refine ⟨⟨⟨suffix, tableNests, keyNests⟩, rfl, rfl, outerNest⟩, ?_⟩
    simp only [State.lexemes, ← same, written, Frame.lexemes, Tree.lexemes]
    simp
  case case24 tree frames argument function arguments outer settles =>
    obtain ⟨⟨argumentNests, -, ⟨suffix, functionNests, argumentsNest⟩, rests, outerNest⟩, -, -,
      same⟩ := nests.settle (Nat.zero_le _) settles
    refine ⟨⟨⟨suffix, functionNests, Tree.nestsAll_append argumentsNest argumentNests⟩, rests,
      outerNest⟩, ?_⟩
    simp only [State.lexemes, ← same, written, Frame.lexemes]
    simp

private theorem foldlM_nests {s s' : State} {ls : List Lexeme} (nests : s.Nests)
    (h : ls.foldlM step s = some s') : s'.Nests ∧ s'.lexemes = s.lexemes ++ ls := by
  induction ls generalizing s with
  | nil =>
    cases h
    exact ⟨nests, (List.append_nil _).symm⟩
  | cons l ls ih =>
    obtain ⟨next, eq, rest⟩ := Option.bind_eq_some_iff.1 h
    obtain ⟨nextNests, nextLexemes⟩ := step_nests nests eq
    obtain ⟨lastNests, lastLexemes⟩ := ih nextNests rest
    refine ⟨lastNests, ?_⟩
    rw [lastLexemes, nextLexemes, List.append_assoc]
    rfl

private theorem nests_of_parse? {ls : List Lexeme} {t : Tree} (h : parse? ls = some t) :
    t.Nests ∧ t.lexemes = ls := by
  obtain ⟨s, run, result⟩ := Option.bind_eq_some_iff.1 h
  obtain ⟨nests, same⟩ := foldlM_nests (s := .operand []) trivial run
  cases s with
  | operand frames => cases result
  | field table frames => cases result
  | operator tree frames =>
    cases settles : settle 0 tree frames with
    | mk last outer =>
      rw [State.result?, settles] at result
      cases outer with
      | cons frame outer => cases result
      | nil =>
        cases result
        obtain ⟨fits, -, -, eq⟩ := nests.settle (Nat.zero_le _) settles
        exact ⟨fits.nests, eq.trans same⟩

/-- The reader finds exactly the trees in which every operand stays with its operator. -/
theorem parse?_eq_some_iff {ls : List Lexeme} {t : Tree} :
    parse? ls = some t ↔ t.Nests ∧ t.lexemes = ls :=
  ⟨nests_of_parse?, fun ⟨nests, eq⟩ => eq ▸ parse?_lexemes nests⟩

end Dialogue.Lua
