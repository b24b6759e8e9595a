import Dialogue.Proofs.Lua.ReadBack

/-!
What a script puts into a Lua fragment stays where it is put. Whatever the texts, variable names and
function names of a tree are made of, and however its operators are nested, its fragment is cut into
lexemes to the end. So no comment and no unfinished string is met, and the strings are those of the
tree, character by character. The brackets around them are balanced, and the fragment stays on its
line.
-/

set_option autoImplicit false
set_option relaxedAutoImplicit false

namespace Dialogue

namespace Lua

/-- Whether a lexeme opens or closes a parenthesis or a square bracket. -/
def Lexeme.isBracket : Lexeme → Bool
  | .openParen | .closeParen | .openBracket | .closeBracket => true
  | _ => false

/-- Every parenthesis and every square bracket is closed, the last one that was opened first. -/
inductive Balanced : List Lexeme → Prop
  | nil : Balanced []
  | cons {l : Lexeme} {ls : List Lexeme} : l.isBracket = false → Balanced ls → Balanced (l :: ls)
  | parens {ls ms : List Lexeme} : Balanced ls → Balanced ms →
      Balanced (.openParen :: (ls ++ .closeParen :: ms))
  | brackets {ls ms : List Lexeme} : Balanced ls → Balanced ms →
      Balanced (.openBracket :: (ls ++ .closeBracket :: ms))

namespace Balanced

private theorem single {l : Lexeme} (plain : l.isBracket = false) : Balanced [l] :=
  .cons plain .nil

private theorem append {ls ms : List Lexeme} (first : Balanced ls) (second : Balanced ms) :
    Balanced (ls ++ ms) := by
  induction first with
  | nil => exact second
  | cons plain _ ih => exact .cons plain ih
  | parens inner _ _ ih =>
    rw [List.cons_append, List.append_assoc, List.cons_append]
    exact .parens inner ih
  | brackets inner _ _ ih =>
    rw [List.cons_append, List.append_assoc, List.cons_append]
    exact .brackets inner ih

/-- Two pieces with a lexeme between them that is no bracket. -/
theorem between {l : Lexeme} {ls ms : List Lexeme} (first : Balanced ls)
    (plain : l.isBracket = false) (second : Balanced ms) : Balanced (ls ++ l :: ms) :=
  first.append (.cons plain second)

end Balanced

mutual

/-- The lexemes of an expression are balanced. -/
theorem Tree.lexemes_balanced : ∀ t : Tree, Balanced t.lexemes
  | .nil => .single rfl
  | .bool _ => .single rfl
  | .numeral _ _ => .single rfl
  | .text _ => .single rfl
  | .name _ => .single rfl
  | .index table key => table.lexemes_balanced.append (.brackets key.lexemes_balanced .nil)
  | .field table _ => table.lexemes_balanced.between rfl (.single rfl)
  | .call function arguments =>
    function.lexemes_balanced.append (.parens (argumentLexemes_balanced arguments) .nil)
  | .group inner => .parens inner.lexemes_balanced .nil
  | .unary .not operand => .cons rfl operand.lexemes_balanced
  | .unary .length operand => .cons rfl operand.lexemes_balanced
  | .unary .negate operand => .cons rfl operand.lexemes_balanced
  | .binary _ left right => left.lexemes_balanced.between rfl right.lexemes_balanced

private theorem Tree.argumentLexemes_balanced : ∀ ts : List Tree, Balanced (argumentLexemes ts)
  | [] => .nil
  | [last] => last.lexemes_balanced
  | argument :: next :: rest =>
    argument.lexemes_balanced.between rfl (argumentLexemes_balanced (next :: rest))

end

def Lexeme.text? : Lexeme → Option String
  | .text s => some s
  | _ => none

def strings (ls : List Lexeme) : List String :=
  ls.filterMap Lexeme.text?

private theorem strings_append (ls ms : List Lexeme) :
    strings (ls ++ ms) = strings ls ++ strings ms :=
  List.filterMap_append

private theorem strings_cons_of_none {l : Lexeme} (none : l.text? = none) (ls : List Lexeme) :
    strings (l :: ls) = strings ls :=
  List.filterMap_cons_none none

/-- A lexeme at the end that is no string. -/
theorem strings_concat_of_none (ls : List Lexeme) {l : Lexeme} (none : l.text? = none) :
    strings (ls ++ [l]) = strings ls := by
  rw [strings_append, strings_cons_of_none none]
  exact List.append_nil _

private theorem strings_arguments (argument : Tree) (rest : List Tree) :
    strings (Tree.argumentLexemes (argument :: rest)) =
      strings argument.lexemes ++ strings (Tree.argumentLexemes rest) := by
  cases rest with
  | nil => exact (List.append_nil _).symm
  | cons next rest => rw [Tree.argumentLexemes, strings_append, strings_cons_of_none rfl]

private theorem strings_call (name : String) (arguments : List Tree) :
    strings (Tree.call (.name name) arguments).lexemes =
      strings (Tree.argumentLexemes arguments) := by
  rw [Tree.lexemes, Tree.lexemes, List.singleton_append, strings_cons_of_none rfl,
    strings_cons_of_none rfl, strings_concat_of_none _ rfl]

def Unbroken (s : String) : Prop :=
  ∀ c ∈ s.toList, c ≠ '\n' ∧ c ≠ '\r'

instance (s : String) : Decidable (Unbroken s) :=
  List.decidableBAll _ s.toList

namespace Unbroken

private theorem append {s t : String} (first : Unbroken s) (second : Unbroken t) :
    Unbroken (s ++ t) := by
  unfold Unbroken
  rw [String.toList_append, List.forall_mem_append]
  exact ⟨first, second⟩

private theorem intercalate {separator : String} (between : Unbroken separator)
    {texts : List String} (all : ∀ s ∈ texts, Unbroken s) :
    Unbroken (separator.intercalate texts) := by
  induction texts with
  | nil =>
    rw [String.intercalate_nil]
    decide
  | cons s rest ih =>
    obtain ⟨first, others⟩ := List.forall_mem_cons.mp all
    cases rest with
    | nil => rwa [String.intercalate_singleton]
    | cons next rest =>
      rw [String.intercalate_cons_cons]
      exact (first.append between).append (ih others)

end Unbroken

/-- Line breaks inside a string are written as escapes. -/
theorem escape_unbroken (c : Char) : ∀ d ∈ escape c, d ≠ '\n' ∧ d ≠ '\r' := by
  unfold escape
  split
  case h_6 newline carriage _ =>
    rw [List.forall_mem_singleton]
    exact ⟨newline, carriage⟩
  all_goals simp

private theorem text_unbroken (s : String) : Unbroken (text s) := by
  intro c member
  rw [text, String.toList_ofList, List.mem_cons, List.mem_append,
    List.mem_singleton, List.mem_flatMap]
    at member
  rcases member with rfl | ⟨d, -, inside⟩ | rfl
  · decide
  · exact escape_unbroken d c inside
  · decide

private theorem numeral_unbroken (n : Decimal.Numeral) : ∀ c ∈ n.chars, c ≠ '\n' ∧ c ≠ '\r' := by
  have digit : ∀ c : Char, c.isDigit = true → c ≠ '\n' ∧ c ≠ '\r' := by
    intro c isDigit
    constructor <;> rintro rfl <;> cases isDigit
  intro c member
  rcases List.mem_append.mp member with whole | fraction
  · exact digit c (n.whole_isDigit c whole)
  · split at fraction
    · cases fraction
    · rcases List.mem_cons.mp fraction with rfl | fraction
      · decide
      · exact digit c (n.fraction_isDigit c fraction)

private theorem number_unbroken (x : Float) : Unbroken (number x) := by
  unfold number
  split
  · decide
  · next undefined =>
    split
    · split <;> decide
    · next infinite =>
      obtain ⟨n, -, written⟩ := exists_numeral_text (Bool.eq_false_of_not_eq_true undefined)
        (Bool.eq_false_of_not_eq_true infinite)
      unfold Unbroken
      rw [written]
      split
      · exact List.forall_mem_cons.mpr ⟨by decide, numeral_unbroken n⟩
      · exact numeral_unbroken n

private theorem literal_unbroken (value : Literal) : Unbroken (literal value) := by
  cases value with
  | bool b => cases b <;> decide
  | number x => exact number_unbroken x
  | null => decide
  | text s => exact text_unbroken s

private theorem lookup_unbroken (name : String) : Unbroken (lookup name) :=
  ((show Unbroken (variableTable ++ "[") by decide).append (text_unbroken name)).append (by decide)

private theorem binaryOperator_unbroken {op : Operator} {symbol : String}
    (h : binaryOperator op = .ok symbol) :
    Unbroken symbol := by
  cases op <;> cases h <;> decide

private theorem unaryFragment_unbroken {op : Operator} {operand s : String}
    (inside : Unbroken operand) (h : unaryFragment op operand = .ok s) : Unbroken s := by
  unfold unaryFragment at h
  split at h
  · cases h
    exact .append (by decide) inside
  · cases h
    split <;> exact .append (by decide) inside
  · cases h

private theorem call_unbroken (name : String) {arguments : List String}
    (inside : ∀ s ∈ arguments, Unbroken s) :
    Unbroken (call name arguments) := by
  have comma : Unbroken ", " := by decide
  have close : Unbroken ")" := by decide
  unfold call
  split
  · next builtin _ =>
    have called : Unbroken (builtin.luaName ++ "(") := by cases builtin <;> decide
    exact (called.append (comma.intercalate inside)).append close
  · have called : Unbroken (customCall ++ "(") := by decide
    have all := List.forall_mem_cons.mpr ⟨text_unbroken name, inside⟩
    exact (called.append (comma.intercalate all)).append close

end Lua

namespace Expr

mutual

/-- The fragment of a tree stands on one line. -/
theorem lua_unbroken : ∀ (e : Expr) {s : String}, e.lua = .ok s → Lua.Unbroken s
  | .literal value, _, written => by
    cases written
    exact Lua.literal_unbroken value
  | .variable name, _, written => by
    cases written
    exact Lua.lookup_unbroken name
  | .group inner, _, written => by
    simp only [lua, bind_eq_ok_iff, pure_eq_ok_iff] at written
    obtain ⟨s, inside, rfl⟩ := written
    exact (Lua.Unbroken.append (by decide) (lua_unbroken inner inside)).append (by decide)
  | .unary op operand, _, written => by
    simp only [lua, bind_eq_ok_iff] at written
    obtain ⟨s, inside, written⟩ := written
    exact Lua.unaryFragment_unbroken (lua_unbroken operand inside) written
  | .binary op left right, _, written => by
    simp only [lua, bind_eq_ok_iff, pure_eq_ok_iff] at written
    obtain ⟨symbol, isSymbol, l, writtenLeft, r, writtenRight, rfl⟩ := written
    have blank : Lua.Unbroken " " := by decide
    have operator := (blank.append (Lua.binaryOperator_unbroken isSymbol)).append blank
    have all :=
      (lua_unbroken left writtenLeft).append (operator.append (lua_unbroken right writtenRight))
    simpa only [String.append_assoc] using all
  | .call name arguments, _, written => by
    simp only [lua, bind_eq_ok_iff, pure_eq_ok_iff] at written
    obtain ⟨texts, inside, rfl⟩ := written
    exact Lua.call_unbroken name (luaList_unbroken arguments inside)

private theorem luaList_unbroken : ∀ (es : List Expr) {texts : List String},
    luaList es = .ok texts →
    ∀ s ∈ texts, Lua.Unbroken s
  | [], _, written => by
    cases written
    nofun
  | e :: rest, _, written => by
    simp only [luaList, bind_eq_ok_iff, pure_eq_ok_iff] at written
    obtain ⟨s, first, others, writtenRest, rfl⟩ := written
    exact List.forall_mem_cons.mpr ⟨lua_unbroken e first, luaList_unbroken rest writtenRest⟩

end

mutual

/-- The texts that a tree puts into its fragment, from left to right: its text literals, the names
of its variables, and the names of its functions that are not built in. -/
def texts : Expr → List String
  | .literal (.text s) => [s]
  | .literal _ => []
  | .variable name => [name]
  | .group inner => inner.texts
  | .unary _ operand => operand.texts
  | .binary _ left right => left.texts ++ right.texts
  | .call name arguments =>
    (if (Lua.Builtin.ofScriptName? name).isSome then [] else [name]) ++ textsList arguments

def textsList : List Expr → List String
  | [] => []
  | e :: rest => e.texts ++ textsList rest

end

/-- A number is written without a string. -/
theorem strings_number {x : Float} {t : Lua.Tree} (number : Lua.IsNumber x t) :
    Lua.strings t.lexemes = [] := by
  cases number with
  | finite =>
    unfold Lua.signed
    split <;> rfl
  | infinite =>
    unfold Lua.signed
    split <;> rfl
  | undefined => rfl

mutual

/-- The strings of the Lua expression of a tree are its texts. -/
theorem strings_of_readsAs : ∀ (e : Expr) {t : Lua.Tree}, e.ReadsAs t →
    Lua.strings t.lexemes = e.texts
  | .literal _, _, reads => by
    cases reads with
    | bool | null | text => rfl
    | number number => exact strings_number number
  | .variable _, _, reads => by
    cases reads
    rfl
  | .group inner, _, reads => by
    cases reads with
    | group reads =>
      rw [Lua.Tree.lexemes, Lua.strings_cons_of_none rfl, Lua.strings_concat_of_none _ rfl,
        strings_of_readsAs inner reads, texts]
  | .unary op operand, _, reads => by
    cases reads with
    | @unary _ u _ _ _ reads =>
      rw [texts, ← strings_of_readsAs operand reads]
      cases u <;> rfl
  | .binary op left right, _, reads => by
    cases reads with
    | binary _ readsLeft readsRight =>
      rw [Lua.Tree.lexemes, Lua.strings_append, Lua.strings_cons_of_none rfl,
        strings_of_readsAs left readsLeft, strings_of_readsAs right readsRight, texts]
  | .call name arguments, _, reads => by
    cases reads with
    | builtin builtin reads =>
      rw [Lua.strings_call, strings_of_forall₂ arguments reads, texts,
        if_pos builtin, List.nil_append]
    | custom custom reads =>
      have given : ¬ (Lua.Builtin.ofScriptName? name).isSome = true := by simp [custom]
      rw [Lua.strings_call, Lua.strings_arguments, strings_of_forall₂ arguments reads,
        texts, if_neg given]
      rfl

private theorem strings_of_forall₂ : ∀ (es : List Expr) {ts : List Lua.Tree},
    List.Forall₂ ReadsAs es ts →
    Lua.strings (Lua.Tree.argumentLexemes ts) = textsList es
  | [], _, reads => by
    cases reads
    rfl
  | e :: rest, _, reads => by
    cases reads with
    | cons first others =>
      rw [Lua.strings_arguments, strings_of_readsAs e first,
        strings_of_forall₂ rest others, textsList]

end

/-- Nothing that a tree holds breaks out of its fragment. The fragment is cut into lexemes to its
end, with balanced brackets, and its strings are the texts of the tree; it has no line break. A
string literal before any text is one lexeme with its content, and leaves the text. -/
theorem lua_contains {e : Expr} {s : String} (written : e.lua = .ok s) :
    (∃ ls, Lua.lexemes? s.toList = some ls ∧ Lua.Balanced ls ∧ Lua.strings ls = e.texts) ∧
      (∀ c ∈ s.toList, c ≠ '\n' ∧ c ≠ '\r') ∧
      ∀ (v : String) (rest : List Char), ∃ more, (Lua.text v).toList ++ rest = '\'' :: more ∧
        Lua.lexeme? '\'' more = some (.text v, rest) := by
  obtain ⟨t, reads, spelled⟩ := lua_spells e written
  refine ⟨⟨t.lexemes, spelled.read, t.lexemes_balanced, ?_⟩,
    lua_unbroken e written, Lua.lexeme?_text⟩
  exact strings_of_readsAs e reads

namespace Sample

/-- Signs in a row, and texts that end strings, start comments and break lines. -/
def hostile : Expr :=
  .unary .unaryMinus (.binary .minus (.literal (.number (-2.5)))
    (.unary .unaryMinus (.unary .unaryMinus
      (.call "f') --[[" [.variable "\\'] --", .literal (.text "]]\r\n'\\"), .call "dice" []]))))

def hostileFragment : String :=
  "- -2.5 - - -ds_call('f\\') --[[', Variable['\\\\\\'] --'], ']]\\r\\n\\'\\\\', ds_dice())"

end Sample

theorem lua_contains_sample : Sample.hostile.lua = .ok Sample.hostileFragment ∧
    ∃ ls, Lua.lexemes? Sample.hostileFragment.toList = some ls ∧ Lua.Balanced ls ∧
      Lua.strings ls = ["f') --[[", "\\'] --", "]]\r\n'\\"] := by
  have written : Sample.hostile.lua = .ok Sample.hostileFragment := by decide +kernel
  exact ⟨written, (lua_contains written).1⟩

end Expr

end Dialogue
