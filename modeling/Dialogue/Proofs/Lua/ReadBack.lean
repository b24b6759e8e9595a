import Dialogue.Proofs.Decimal.Spelling
import Dialogue.Proofs.Fragment
import Dialogue.Proofs.Lua.Syntax

/-!
The Lua fragment of a tree is read back as the tree. `Expr.ReadsAs` says which Lua expression a tree
stands for, and `Expr.Nests` that the parentheses in it leave every operand with its operator. Each
part of a fragment spells the lexemes of its expression; the fragment is then read by the grammar of
expressions.
-/

set_option autoImplicit false
set_option relaxedAutoImplicit false

namespace Dialogue

/-- The Lua operator of an operator between two operands. Unequal truth values are what `xor` asks
for. -/
def Operator.luaBinary? : Operator → Option Lua.Binary
  | .equalTo => some .equal
  | .greaterThan => some .greater
  | .greaterThanOrEqualTo => some .greaterEqual
  | .lessThan => some .less
  | .lessThanOrEqualTo => some .lessEqual
  | .notEqualTo | .xor => some .unequal
  | .or => some .or
  | .and => some .and
  | .add => some .add
  | .minus => some .subtract
  | .multiply => some .multiply
  | .divide => some .divide
  | .modulo => some .modulo
  | _ => none

def Operator.luaUnary? : Operator → Option Lua.Unary
  | .not => some .not
  | .unaryMinus => some .negate
  | _ => none

namespace Lua

def IsWord (s : String) (l : Lexeme) : Prop :=
  s.toList.head?.any isNameStart = true ∧ s.toList.all isNamePart = true ∧ word? s.toList = some l

instance (s : String) (l : Lexeme) : Decidable (IsWord s l) :=
  inferInstanceAs (Decidable (_ ∧ _ ∧ _))

private theorem IsWord.lexemes? {s : String} {l : Lexeme} (h : IsWord s l) {rest : List Char}
    (stops : rest.head?.any isNamePart = false) :
    lexemes? (s.toList ++ rest) = (Lua.lexemes? rest).map (l :: ·) := by
  obtain ⟨start, parts, found⟩ := h
  cases chars : s.toList with
  | nil =>
    rw [chars] at start
    cases start
  | cons c cs =>
    rw [chars] at start parts found
    rw [List.all_cons, Bool.and_eq_true, List.all_eq_true] at parts
    exact lexemes?_word start parts.2 stops found

private theorem IsWord.spells {s : String} {l : Lexeme} (h : IsWord s l) : Spells s.toList [l] :=
  fun _ ends => h.lexemes? (ends.head?_any (by decide))

private theorem lexemes?_openParen (rest : List Char) :
    lexemes? ('(' :: rest) = (lexemes? rest).map (.openParen :: ·) :=
  lexemes?_symbol (by decide) rfl

private theorem lexemes?_closeParen (rest : List Char) :
    lexemes? (')' :: rest) = (lexemes? rest).map (.closeParen :: ·) :=
  lexemes?_symbol (by decide) rfl

private theorem lexemes?_closeBracket (rest : List Char) :
    lexemes? (']' :: rest) = (lexemes? rest).map (.closeBracket :: ·) :=
  lexemes?_symbol (by decide) rfl

private theorem lexemes?_comma (rest : List Char) :
    lexemes? (',' :: rest) = (lexemes? rest).map (.comma :: ·) :=
  lexemes?_symbol (by decide) rfl

private theorem lexemes?_minus {rest : List Char} (h : rest.head? ≠ some '-') :
    lexemes? ('-' :: rest) = (lexemes? rest).map (.operator .subtract :: ·) :=
  lexemes?_symbol (by decide) (if_neg h)

private theorem spells_text (s : String) : Spells (text s).toList [.text s] :=
  fun rest _ => lexemes?_text s rest

private theorem Spells.parenthesized {cs : List Char} {ls : List Lexeme} (h : Spells cs ls) :
    Spells ('(' :: (cs ++ [')'])) (.openParen :: (ls ++ [.closeParen])) :=
  Spells.cons (fun _ _ => lexemes?_openParen _) (h.close (.inr (.inl rfl)) lexemes?_closeParen)

private theorem spells_lookup (name : String) :
    Spells (lookup name).toList (Tree.index (.name variableTable) (.text name)).lexemes := by
  intro rest _
  have chars : (lookup name).toList ++ rest =
      variableTable.toList ++ '[' :: ((text name).toList ++ ']' :: rest) := by
    simp [lookup]
  have isWord : IsWord variableTable (.name variableTable) := by decide +kernel
  have bracket : lexemes? ('[' :: ((text name).toList ++ ']' :: rest)) =
      (lexemes? ((text name).toList ++ ']' :: rest)).map (.openBracket :: ·) := by
    refine lexemes?_symbol (by decide) ?_
    simp [symbol?, text]
  rw [chars, isWord.lexemes? rfl, bracket, lexemes?_text, lexemes?_closeBracket]
  simp [Tree.lexemes, Function.comp_def]

/-- A number with a sign is read as a negation. -/
def signed (x : Float) (t : Tree) : Tree :=
  if Decimal.isNegative x then .unary .negate t else t

/-- The expression of a number. A numeral is rounded to the absolute value of the number; the
numbers that have no numeral are read as a name and as a quotient. -/
inductive IsNumber : Float → Tree → Prop
  | finite {x : Float} {coefficient places : Nat} (finite : x.isFinite = true)
      (rounds : Decimal.RoundsTo (coefficient * 10 ^ (-(places : Int))) x) :
      IsNumber x (signed x (.numeral coefficient places))
  | infinite {x : Float} (infinite : x.isInf = true) :
      IsNumber x (signed x (.field (.name "math") "huge"))
  | undefined {x : Float} (undefined : x.isNaN = true) :
      IsNumber x (.group (.binary .divide (.numeral 0 0) (.numeral 0 0)))

private theorem spells_signed {x : Float} {cs : List Char} {t : Tree} (h : Spells cs t.lexemes)
    (head : cs.head?.any (· ≠ '-') = true) :
    Spells (if Decimal.isNegative x then '-' :: cs else cs) (signed x t).lexemes := by
  unfold signed
  cases Decimal.isNegative x with
  | false => exact h
  | true =>
    refine Spells.cons (fun rest _ => lexemes?_minus ?_) h
    cases cs with
    | nil => cases head
    | cons c cs =>
      intro eq
      cases eq
      cases head

private theorem spells_numeral (n : Decimal.Numeral) :
    Spells n.chars (Tree.numeral n.coefficient n.fraction.length).lexemes := by
  intro rest ends
  apply lexemes?_numeral n.whole_ne_nil ?_ ends
  intro d mem
  rcases List.mem_append.1 mem with mem | mem
  · exact n.whole_isDigit d mem
  · exact n.fraction_isDigit d mem

private theorem head?_numeral (n : Decimal.Numeral) : n.chars.head?.any (· ≠ '-') = true := by
  unfold Decimal.Numeral.chars
  cases whole : n.whole with
  | nil => exact (n.whole_ne_nil whole).elim
  | cons c cs =>
    have digit := n.whole_isDigit c (whole ▸ List.mem_cons_self)
    rw [List.cons_append, List.head?_cons, Option.any_some, decide_eq_true_eq]
    rintro rfl
    cases digit

private theorem spells_huge :
    Spells "math.huge".toList (Tree.field (.name "math") "huge").lexemes := by
  intro rest ends
  have math : IsWord "math" (.name "math") := by decide +kernel
  have huge : IsWord "huge" (.name "huge") := by decide +kernel
  have chars : "math.huge".toList ++ rest = "math".toList ++ '.' :: ("huge".toList ++ rest) := rfl
  have dot : lexemes? ('.' :: ("huge".toList ++ rest)) =
      (lexemes? ("huge".toList ++ rest)).map (.dot :: ·) :=
    lexemes?_symbol (by decide) rfl
  rw [chars, math.lexemes? rfl, dot, huge.spells rest ends]
  simp [Tree.lexemes, Function.comp_def]

private theorem spells_undefined : Spells "(0/0)".toList
    (Tree.group (.binary .divide (.numeral 0 0) (.numeral 0 0))).lexemes := by
  intro rest _
  have chars : "(0/0)".toList ++ rest = '(' :: '0' :: '/' :: '0' :: ')' :: rest := rfl
  have first : lexemes? ('0' :: '/' :: '0' :: ')' :: rest) =
      (lexemes? ('/' :: '0' :: ')' :: rest)).map (.numeral 0 0 :: ·) :=
    lexemes?_of_lexeme? (by decide) rfl
  have divide : lexemes? ('/' :: '0' :: ')' :: rest) =
      (lexemes? ('0' :: ')' :: rest)).map (.operator .divide :: ·) :=
    lexemes?_symbol (by decide) rfl
  have second : lexemes? ('0' :: ')' :: rest) =
      (lexemes? (')' :: rest)).map (.numeral 0 0 :: ·) :=
    lexemes?_of_lexeme? (by decide) rfl
  rw [chars, lexemes?_openParen, first, divide, second, lexemes?_closeParen]
  simp [Tree.lexemes, Function.comp_def]

/-- A finite number is written as a numeral, after a minus sign if it has one. -/
theorem exists_numeral_text {x : Float} (undefined : x.isNaN = false) (infinite : x.isInf = false) :
    ∃ n : Decimal.Numeral, Decimal.RoundsTo n.value x ∧
      (Decimal.text x).toList = if Decimal.isNegative x then '-' :: n.chars else n.chars := by
  obtain ⟨n, chars, rounds⟩ := Decimal.exists_numeral (Decimal.isFinite_of_not undefined infinite)
  refine ⟨n, rounds, ?_⟩
  rw [Decimal.text, String.toList_ofList, Decimal.Layout.write, undefined, infinite, chars]
  rfl

theorem spells_number (x : Float) : ∃ t, IsNumber x t ∧ Spells (number x).toList t.lexemes := by
  unfold number
  by_cases undefined : x.isNaN = true
  · rw [if_pos undefined]
    exact ⟨_, .undefined undefined, spells_undefined⟩
  rw [if_neg undefined]
  by_cases infinite : x.isInf = true
  · refine ⟨_, .infinite infinite, ?_⟩
    have spelled := spells_signed (x := x) spells_huge rfl
    rw [if_pos infinite]
    cases negative : Decimal.isNegative x with
    | false =>
      rw [negative] at spelled
      rw [if_pos ((Decimal.pos_iff_of_isInf infinite).2 negative)]
      exact spelled
    | true =>
      rw [negative] at spelled
      rw [if_neg (fun pos => by
        rw [(Decimal.pos_iff_of_isInf infinite).1 pos] at negative
        cases negative)]
      exact spelled
  · rw [if_neg infinite]
    have undefined := Bool.eq_false_of_not_eq_true undefined
    have infinite := Bool.eq_false_of_not_eq_true infinite
    obtain ⟨n, rounds, written⟩ := exists_numeral_text undefined infinite
    refine ⟨_, .finite (Decimal.isFinite_of_not undefined infinite) rounds, ?_⟩
    rw [written]
    exact spells_signed (spells_numeral n) (head?_numeral n)

/-- The operators of the script bind both operands equally, and less tightly than those before an
operand. -/
theorem priority_of_luaBinary? {op : Operator} {b : Binary} (h : op.luaBinary? = some b) :
    b.right = b.left ∧ b.left < unaryPriority := by
  cases op <;> cases h <;> decide

private theorem spells_single (c : Char) {l : Lexeme}
    (plain : (isSpace c || isNameStart c || c.isDigit || c = '\'' || c = '"') = false)
    (found : ∀ rest, Ends rest → symbol? c rest = some (l, rest)) : Spells [c] [l] :=
  fun rest ends => lexemes?_symbol plain (found rest ends)

private theorem spells_pair (c d : Char) {l : Lexeme}
    (plain : (isSpace c || isNameStart c || c.isDigit || c = '\'' || c = '"') = false)
    (found : ∀ rest, symbol? c (d :: rest) = some (l, rest)) : Spells [c, d] [l] :=
  fun rest _ => lexemes?_symbol plain (found rest)

private theorem binaryOperator_eq_ok {op : Operator} {s : String} (h : binaryOperator op = .ok s) :
    ∃ b, op.luaBinary? = some b ∧ Spells s.toList [.operator b] := by
  cases op <;> cases h
  case or | and =>
    refine ⟨_, rfl, IsWord.spells ?_⟩
    decide +kernel
  case equalTo => exact ⟨_, rfl, spells_pair '=' '=' (by decide) fun _ => rfl⟩
  case notEqualTo | xor => exact ⟨_, rfl, spells_pair '~' '=' (by decide) fun _ => rfl⟩
  case lessThanOrEqualTo => exact ⟨_, rfl, spells_pair '<' '=' (by decide) fun _ => rfl⟩
  case greaterThanOrEqualTo => exact ⟨_, rfl, spells_pair '>' '=' (by decide) fun _ => rfl⟩
  case add => exact ⟨_, rfl, spells_single '+' (by decide) fun _ _ => rfl⟩
  case multiply => exact ⟨_, rfl, spells_single '*' (by decide) fun _ _ => rfl⟩
  case modulo => exact ⟨_, rfl, spells_single '%' (by decide) fun _ _ => rfl⟩
  case minus =>
    exact ⟨_, rfl, spells_single '-' (by decide) fun _ ends => if_neg (ends.head?_ne (by decide))⟩
  case divide =>
    exact ⟨_, rfl, spells_single '/' (by decide) fun _ ends => if_neg (ends.head?_ne (by decide))⟩
  case lessThan =>
    exact ⟨_, rfl, spells_single '<' (by decide) fun _ ends =>
      (if_neg (ends.head?_ne (by decide))).trans (if_neg (ends.head?_ne (by decide)))⟩
  case greaterThan =>
    exact ⟨_, rfl, spells_single '>' (by decide) fun _ ends =>
      (if_neg (ends.head?_ne (by decide))).trans (if_neg (ends.head?_ne (by decide)))⟩

private theorem unaryFragment_eq_ok {op : Operator} {operand s : String} {t : Tree}
    (h : unaryFragment op operand = .ok s) (spelled : Spells operand.toList t.lexemes) :
    ∃ u, op.luaUnary? = some u ∧ Spells s.toList (Tree.unary u t).lexemes := by
  cases op <;> cases h
  case not =>
    have word : IsWord "not" .not := by decide +kernel
    have chars : ("not " ++ operand).toList = "not".toList ++ ' ' :: operand.toList := by simp
    exact ⟨_, rfl, chars ▸ word.spells.space spelled⟩
  case unaryMinus =>
    refine ⟨_, rfl, ?_⟩
    by_cases sign : operand.toList.head? = some '-'
    · have chars : ("- " ++ operand).toList = '-' :: ' ' :: operand.toList := by simp
      rw [if_pos sign, chars]
      intro rest ends
      rw [List.cons_append, lexemes?_minus (by simp), List.cons_append, lexemes?_space,
        spelled rest ends, Option.map_map]
      rfl
    · have chars : ("-" ++ operand).toList = '-' :: operand.toList := by simp
      rw [if_neg sign, chars]
      refine Spells.cons (fun rest ends => lexemes?_minus ?_) spelled
      cases first : operand.toList with
      | nil => exact ends.head?_ne (by decide)
      | cons c cs =>
        rw [first] at sign
        exact sign

private theorem Spells.comma {cs ds : List Char} {ls ms : List Lexeme} (first : Spells cs ls)
    (second : Spells ds ms) : Spells (cs ++ ',' :: ' ' :: ds) (ls ++ .comma :: ms) := by
  intro rest ends
  rw [List.append_assoc, List.cons_append, first _ (ends_cons (.inr (.inr rfl)) _), lexemes?_comma,
    List.cons_append, lexemes?_space, second rest ends, Option.map_map, Option.map_map]
  congr 1
  funext more
  simp

/-- Texts and expressions correspond, each text being read as its expression. -/
abbrev SpellsAll (texts : List String) (trees : List Tree) : Prop :=
  List.Forall₂ (fun s t => Spells s.toList (Tree.lexemes t)) texts trees

private theorem spells_arguments {texts : List String} {trees : List Tree}
    (h : SpellsAll texts trees) :
    Spells ((String.intercalate ", " texts).toList ++ [')'])
      (Tree.argumentLexemes trees ++ [.closeParen]) := by
  induction h with
  | nil => exact fun rest _ => lexemes?_closeParen rest
  | cons first others ih =>
    cases others with
    | nil =>
      rw [String.intercalate_singleton]
      exact first.close (.inr (.inl rfl)) lexemes?_closeParen
    | cons second later =>
      rw [String.intercalate_cons_cons, Tree.argumentLexemes, List.append_assoc]
      have chars := first.comma ih
      simpa using chars

private theorem spells_apply {name : String} (isName : IsWord name (.name name))
    {texts : List String} {trees : List Tree} (h : SpellsAll texts trees) :
    Spells (name ++ "(" ++ String.intercalate ", " texts ++ ")").toList
      (Tree.call (.name name) trees).lexemes := by
  intro rest ends
  have chars : (name ++ "(" ++ String.intercalate ", " texts ++ ")").toList ++ rest =
      name.toList ++ '(' :: ((String.intercalate ", " texts).toList ++ [')'] ++ rest) := by
    simp
  rw [chars, isName.lexemes? rfl, lexemes?_openParen, spells_arguments h rest ends]
  simp [Tree.lexemes, Function.comp_def]

theorem Builtin.scriptName_of_ofScriptName? {name : String} {b : Builtin}
    (h : ofScriptName? name = some b) : b.scriptName = name := by
  have found := List.find?_some h
  simpa using found

private theorem Builtin.isWord_luaName (b : Builtin) : IsWord b.luaName (.name b.luaName) := by
  cases b <;> decide +kernel

end Lua

namespace Expr

open Lua (Tree unaryPriority topPriority)

/-- The Lua expression that a tree stands for. -/
inductive ReadsAs : Expr → Tree → Prop
  | bool (b : Bool) : ReadsAs (.literal (.bool b)) (.bool b)
  | null : ReadsAs (.literal .null) .nil
  | text (s : String) : ReadsAs (.literal (.text s)) (.text s)
  | number {x : Float} {t : Tree} : Lua.IsNumber x t → ReadsAs (.literal (.number x)) t
  | lookup (name : String) : ReadsAs (.variable name) (.index (.name "Variable") (.text name))
  | group {e : Expr} {t : Tree} : ReadsAs e t → ReadsAs (.group e) (.group t)
  | unary {op : Operator} {u : Lua.Unary} {e : Expr} {t : Tree} :
      op.luaUnary? = some u → ReadsAs e t → ReadsAs (.unary op e) (.unary u t)
  | binary {op : Operator} {b : Lua.Binary} {left right : Expr} {l r : Tree} :
      op.luaBinary? = some b → ReadsAs left l → ReadsAs right r →
      ReadsAs (.binary op left right) (.binary b l r)
  | builtin {name : String} {es : List Expr} {ts : List Tree} :
      (Lua.Builtin.ofScriptName? name).isSome = true → List.Forall₂ ReadsAs es ts →
      ReadsAs (.call name es) (.call (.name ("ds_" ++ name)) ts)
  | custom {name : String} {es : List Expr} {ts : List Tree} :
      Lua.Builtin.ofScriptName? name = none → List.Forall₂ ReadsAs es ts →
      ReadsAs (.call name es) (.call (.name "ds_call") (.text name :: ts))

/-- How tightly the operator at the root of a tree binds. The sign of a number is an operator. -/
def level : Expr → Nat
  | .literal (.number x) => if Decimal.isNegative x then unaryPriority else topPriority
  | .unary _ _ => unaryPriority
  | .binary op _ _ => (op.luaBinary?.map Lua.Binary.left).getD 0
  | _ => topPriority

mutual

/-- Wherever an operator binds less tightly than the one around it, there are parentheses. Of two
operators that bind equally, the left one comes first. -/
def Nests : Expr → Prop
  | .literal _ | .variable _ => True
  | .group inner => inner.Nests
  | .unary op operand => (Expr.unary op operand).level ≤ operand.level ∧ operand.Nests
  | .binary op left right =>
    (Expr.binary op left right).level ≤ left.level ∧
      (Expr.binary op left right).level < right.level ∧
      left.Nests ∧ right.Nests
  | .call _ arguments => NestsAll arguments

def NestsAll : List Expr → Prop
  | [] => True
  | e :: rest => e.Nests ∧ NestsAll rest

end

mutual

def decideNests : (e : Expr) → Decidable e.Nests
  | .literal _ | .variable _ => .isTrue trivial
  | .group inner => inner.decideNests
  | .unary _ operand => @instDecidableAnd _ _ _ operand.decideNests
  | .binary _ left right =>
    @instDecidableAnd _ _ _
      (@instDecidableAnd _ _ _ (@instDecidableAnd _ _ left.decideNests right.decideNests))
  | .call _ arguments => decideNestsAll arguments

def decideNestsAll : (es : List Expr) → Decidable (NestsAll es)
  | [] => .isTrue trivial
  | e :: rest => @instDecidableAnd _ _ e.decideNests (decideNestsAll rest)

end

instance (e : Expr) : Decidable e.Nests :=
  e.decideNests

end Expr

/-- A Lua expression nests, and both its ends are bound at least so tightly. -/
structure Lua.Tree.NestsAt (t : Lua.Tree) (level : Nat) : Prop where
  nests : t.Nests
  grip : level ≤ t.grip
  hold : level ≤ t.hold
  closed : Lua.unaryPriority ≤ level → t.hold = Lua.topPriority

namespace Lua

private theorem Tree.nestsAt_top {t : Tree} (nests : t.Nests) (grip : t.grip = topPriority)
    (hold : t.hold = topPriority) : t.NestsAt topPriority :=
  ⟨nests, grip.ge, hold.ge, fun _ => hold⟩

private theorem Tree.NestsAt.unary {u : Unary} {t : Tree} {level : Nat} (h : t.NestsAt level)
    (binds : unaryPriority ≤ level) : (Tree.unary u t).NestsAt unaryPriority where
  nests := ⟨h.closed binds ▸ by decide, h.nests⟩
  grip := Nat.le_min.2 ⟨Nat.le_refl _, Nat.le_trans binds h.grip⟩
  hold := by
    change unaryPriority ≤ topPriority
    decide
  closed := fun _ => rfl

private theorem Tree.NestsAt.binary {b : Binary} {l r : Tree} {i j : Nat} (even : b.right = b.left)
    (loose : b.left < unaryPriority) (hl : l.NestsAt i) (hr : r.NestsAt j) (left : b.left ≤ i)
    (right : b.left < j) : (Tree.binary b l r).NestsAt b.left where
  nests := ⟨Nat.le_trans left hl.grip, even ▸ Nat.lt_of_lt_of_le right hr.hold, hl.nests, hr.nests⟩
  grip := Nat.le_min.2 ⟨even.ge, Nat.le_trans (Nat.le_of_lt right) hr.grip⟩
  hold := Nat.le_min.2 ⟨Nat.le_refl _, Nat.le_trans left hl.hold⟩
  closed := fun le => (Nat.not_lt_of_le le loose).elim

private theorem Tree.NestsAt.mono {t : Tree} {i j : Nat} (h : t.NestsAt j) (le : i ≤ j) :
    t.NestsAt i :=
  ⟨h.nests, Nat.le_trans le h.grip, Nat.le_trans le h.hold,
    fun tight => h.closed (Nat.le_trans tight le)⟩

private theorem Tree.NestsAt.signed {t : Tree} (h : t.NestsAt topPriority) (x : Float) :
    (signed x t).NestsAt (if Decimal.isNegative x then unaryPriority else topPriority) := by
  unfold Lua.signed
  cases Decimal.isNegative x with
  | false => exact h
  | true => exact h.unary (by decide)

theorem IsNumber.nestsAt {x : Float} {t : Tree} (h : IsNumber x t) :
    t.NestsAt (Expr.literal (.number x)).level := by
  cases h with
  | finite =>
    refine Tree.NestsAt.signed ?_ x
    exact Tree.nestsAt_top trivial rfl rfl
  | infinite =>
    refine Tree.NestsAt.signed ?_ x
    exact Tree.nestsAt_top ⟨rfl, trivial⟩ rfl rfl
  | undefined =>
    have nests : (Tree.binary .divide (.numeral 0 0) (.numeral 0 0)).Nests :=
      ⟨by decide, by decide, trivial, trivial⟩
    have level : (Expr.literal (.number x)).level ≤ topPriority := by
      unfold Expr.level
      dsimp only
      split <;> decide
    exact Tree.NestsAt.mono (Tree.nestsAt_top (t := .group (.binary ..)) nests rfl rfl) level

end Lua

namespace Expr

mutual

theorem lua_spells (e : Expr) {s : String} (h : e.lua = .ok s) :
    ∃ t, e.ReadsAs t ∧ Lua.Spells s.toList t.lexemes := by
  match e with
  | .literal value =>
    simp only [lua, Except.ok.injEq] at h
    subst h
    match value with
    | .bool true =>
      have word : Lua.IsWord "true" (.bool true) := by decide +kernel
      exact ⟨_, .bool true, word.spells⟩
    | .bool false =>
      have word : Lua.IsWord "false" (.bool false) := by decide +kernel
      exact ⟨_, .bool false, word.spells⟩
    | .number x =>
      obtain ⟨t, number, spelled⟩ := Lua.spells_number x
      exact ⟨t, .number number, spelled⟩
    | .null =>
      have word : Lua.IsWord "nil" .nil := by decide +kernel
      exact ⟨_, .null, word.spells⟩
    | .text s => exact ⟨_, .text s, Lua.spells_text s⟩
  | .variable name =>
    simp only [lua, Except.ok.injEq] at h
    subst h
    exact ⟨_, .lookup name, Lua.spells_lookup name⟩
  | .group inner =>
    simp only [lua, bind_eq_ok_iff, pure_eq_ok_iff] at h
    obtain ⟨s, written, rfl⟩ := h
    obtain ⟨t, reads, spelled⟩ := lua_spells inner written
    have chars : ("(" ++ s ++ ")").toList = '(' :: (s.toList ++ [')']) := by simp
    exact ⟨_, .group reads, chars ▸ spelled.parenthesized⟩
  | .unary op operand =>
    simp only [lua, bind_eq_ok_iff] at h
    obtain ⟨s, written, h⟩ := h
    obtain ⟨t, reads, spelled⟩ := lua_spells operand written
    obtain ⟨u, symbol, spelled⟩ := Lua.unaryFragment_eq_ok h spelled
    exact ⟨_, .unary symbol reads, spelled⟩
  | .binary op left right =>
    simp only [lua, bind_eq_ok_iff, pure_eq_ok_iff] at h
    obtain ⟨symbol, isSymbol, l, writtenL, r, writtenR, rfl⟩ := h
    obtain ⟨b, isBinary, spelled⟩ := Lua.binaryOperator_eq_ok isSymbol
    obtain ⟨tl, readsL, spelledL⟩ := lua_spells left writtenL
    obtain ⟨tr, readsR, spelledR⟩ := lua_spells right writtenR
    have chars : (l ++ " " ++ symbol ++ " " ++ r).toList =
        l.toList ++ ' ' :: (symbol.toList ++ ' ' :: r.toList) := by
      simp
    exact ⟨_, .binary isBinary readsL readsR, chars ▸ spelledL.space (spelled.space spelledR)⟩
  | .call name arguments =>
    simp only [lua, bind_eq_ok_iff, pure_eq_ok_iff] at h
    obtain ⟨texts, written, rfl⟩ := h
    obtain ⟨ts, reads, spelled⟩ := luaList_spells arguments written
    unfold Lua.call
    cases builtin : Lua.Builtin.ofScriptName? name with
    | some b =>
      have luaName : b.luaName = "ds_" ++ name :=
        congrArg ("ds_" ++ ·) (Lua.Builtin.scriptName_of_ofScriptName? builtin)
      have reads := ReadsAs.builtin (by rw [builtin]; rfl) reads
      have isWord := b.isWord_luaName
      rw [luaName] at isWord
      dsimp only
      rw [luaName]
      exact ⟨_, reads, Lua.spells_apply isWord spelled⟩
    | none =>
      have isWord : Lua.IsWord "ds_call" (.name "ds_call") := by decide +kernel
      have spelled : Lua.SpellsAll (Lua.text name :: texts) (.text name :: ts) :=
        .cons (Lua.spells_text name) spelled
      exact ⟨_, .custom builtin reads, Lua.spells_apply isWord spelled⟩

private theorem luaList_spells (es : List Expr) {texts : List String} (h : luaList es = .ok texts) :
    ∃ ts, List.Forall₂ ReadsAs es ts ∧ Lua.SpellsAll texts ts := by
  match es with
  | [] =>
    simp only [luaList, Except.ok.injEq] at h
    subst h
    exact ⟨[], .nil, .nil⟩
  | e :: rest =>
    simp only [luaList, bind_eq_ok_iff, pure_eq_ok_iff] at h
    obtain ⟨s, written, others, writtenRest, rfl⟩ := h
    obtain ⟨t, reads, spelled⟩ := lua_spells e written
    obtain ⟨ts, readsRest, spelledRest⟩ := luaList_spells rest writtenRest
    exact ⟨t :: ts, .cons reads readsRest, .cons spelled spelledRest⟩

end

theorem level_binary {op : Operator} {b : Lua.Binary} (symbol : op.luaBinary? = some b)
    (left right : Expr) : (Expr.binary op left right).level = b.left := by
  simp [level, symbol]

mutual

/-- The parentheses of a tree that respect the priorities do so in its expression. -/
theorem nestsAt_of_readsAs : ∀ (e : Expr) {t : Lua.Tree}, e.ReadsAs t → e.Nests → t.NestsAt e.level
  | .literal value, _, reads, _ => by
    cases reads with
    | number number => exact number.nestsAt
    | bool | null | text => exact Lua.Tree.nestsAt_top trivial rfl rfl
  | .variable name, _, reads, _ => by
    cases reads
    exact Lua.Tree.nestsAt_top ⟨rfl, trivial, trivial⟩ rfl rfl
  | .group inner, _, reads, nests => by
    cases reads with
    | group reads =>
      exact Lua.Tree.nestsAt_top (nestsAt_of_readsAs inner reads nests).nests rfl rfl
  | .unary op operand, _, reads, nests => by
    cases reads with
    | unary symbol reads => exact (nestsAt_of_readsAs operand reads nests.2).unary nests.1
  | .binary op left right, _, reads, nests => by
    obtain ⟨bindsL, bindsR, nestL, nestR⟩ := nests
    cases reads with
    | binary symbol readsL readsR =>
      obtain ⟨even, loose⟩ := Lua.priority_of_luaBinary? symbol
      rw [level_binary symbol] at bindsL bindsR ⊢
      exact .binary even loose (nestsAt_of_readsAs left readsL nestL)
        (nestsAt_of_readsAs right readsR nestR) bindsL bindsR
  | .call name arguments, _, reads, nests => by
    cases reads with
    | builtin known reads =>
      exact Lua.Tree.nestsAt_top ⟨rfl, trivial, nestsAll_of_readsAs arguments reads nests⟩ rfl rfl
    | custom unknown reads =>
      exact Lua.Tree.nestsAt_top ⟨rfl, trivial, trivial,
        nestsAll_of_readsAs arguments reads nests⟩ rfl rfl

private theorem nestsAll_of_readsAs : ∀ (es : List Expr) {ts : List Lua.Tree},
    List.Forall₂ ReadsAs es ts →
    NestsAll es → Lua.Tree.NestsAll ts
  | [], _, reads, _ => by
    cases reads
    trivial
  | e :: rest, _, reads, nests => by
    cases reads with
    | cons first others =>
      exact ⟨(nestsAt_of_readsAs e first nests.1).nests, nestsAll_of_readsAs rest others nests.2⟩

end

/-- The fragment of a tree whose parentheses respect the priorities is read, to its end, as the
tree. -/
theorem lua_reads_back {e : Expr} {s : String} (written : e.lua = .ok s) (nests : e.Nests) :
    ∃ t, Lua.read? s.toList = some t ∧ e.ReadsAs t := by
  obtain ⟨t, reads, spelled⟩ := lua_spells e written
  refine ⟨t, ?_, reads⟩
  have lexemes := spelled.read
  have parsed := Lua.parse?_eq_some_iff.2 ⟨(nestsAt_of_readsAs e reads nests).nests, rfl⟩
  rw [Lua.read?, lexemes]
  exact parsed

namespace Sample

/-- A tree with all that a fragment can hold. -/
def expression : Expr :=
  .binary .or
    (.binary .lessThan
      (.binary .minus (.binary .minus (.variable "it's") (.literal (.number (-2.5))))
        (.literal (.number 1)))
      (.unary .unaryMinus (.unary .unaryMinus
        (.call "dice" [.literal (.number 6), .literal (.bool true)]))))
    (.unary .not (.group (.binary .xor (.call "my function" []) (.literal .null))))

def fragment : String :=
  "Variable['it\\'s'] - -2.5 - 1 < - -ds_dice(6, true) or not (ds_call('my function') ~= nil)"

end Sample

theorem lua_reads_back_sample :
    Sample.expression.lua = .ok Sample.fragment ∧ Sample.expression.Nests ∧
      ∃ t, Lua.read? Sample.fragment.toList = some t ∧ Sample.expression.ReadsAs t := by
  have written : Sample.expression.lua = .ok Sample.fragment := by decide +kernel
  have nests : Sample.expression.Nests := by decide +kernel
  exact ⟨written, nests, lua_reads_back written nests⟩

end Expr

end Dialogue
