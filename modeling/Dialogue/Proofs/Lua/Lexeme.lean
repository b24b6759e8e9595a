import Dialogue.Decimal.Reader
import Dialogue.Lua.Fragment

/-!
The lexemes of Lua's expressions. `Lua.lexemes?` cuts a text into lexemes, each as long as it can
be. It refuses what the language has beyond names, decimal numerals, quoted strings and the symbols
of expressions: comments, strings in long brackets, other numerals and numbered escapes.

`Lua.Spells` says of a piece of text that it is read as certain lexemes wherever it stands before
the end, a blank, a closing parenthesis or a comma. Pieces are put together by its rules.
-/

set_option autoImplicit false
set_option relaxedAutoImplicit false

namespace Dialogue.Lua

/-- An operator between two operands. -/
inductive Binary
  | or
  | and
  | less
  | greater
  | lessEqual
  | greaterEqual
  | unequal
  | equal
  | concat
  | add
  | subtract
  | multiply
  | divide
  | modulo
  | power
deriving DecidableEq

inductive Lexeme
  | nil
  | bool (b : Bool)
  /-- The number `coefficient / 10 ^ places`. -/
  | numeral (coefficient places : Nat)
  | text (s : String)
  | name (s : String)
  /-- Subtraction is also negation. -/
  | operator (op : Binary)
  | not
  | length
  | openParen
  | closeParen
  | openBracket
  | closeBracket
  | comma
  | dot
deriving DecidableEq

def isNameStart (c : Char) : Bool :=
  c.isAlpha || c = '_'

def isNamePart (c : Char) : Bool :=
  c.isAlphanum || c = '_'

def isSpace (c : Char) : Bool :=
  c = ' ' || c = '\t' || c = '\n' || c = '\r' || c = '\x0b' || c = '\x0c'

/-- The words that are neither names nor part of an expression. -/
def reserved : List String :=
  ["break", "do", "else", "elseif", "end", "for", "function", "goto", "if", "in", "local", "repeat",
    "return", "then", "until", "while"]

def word? (cs : List Char) : Option Lexeme :=
  match String.ofList cs with
  | "nil" => some .nil
  | "true" => some (.bool true)
  | "false" => some (.bool false)
  | "and" => some (.operator .and)
  | "or" => some (.operator .or)
  | "not" => some .not
  | s => if s ∈ reserved then none else some (.name s)

/-- The digits after a point, and what is left. -/
def fraction (cs : List Char) : List Char × List Char :=
  match cs with
  | '.' :: rest => (rest.takeWhile Char.isDigit, rest.dropWhile Char.isDigit)
  | rest => ([], rest)

/-- The numeral at the start of a text. No letter, digit or point may follow it. -/
def numeral? (cs : List Char) : Option (Lexeme × List Char) :=
  let whole := cs.takeWhile Char.isDigit
  let (digits, rest) := fraction (cs.dropWhile Char.isDigit)
  if rest.head?.any fun c => isNamePart c || c = '.' then none
  else some (.numeral (Decimal.natOfDigits (whole ++ digits)) digits.length, rest)

/-- The character that an escape stands for. -/
def escaped? : Char → Option Char
  | 'a' => some '\x07'
  | 'b' => some '\x08'
  | 'f' => some '\x0c'
  | 'n' => some '\n'
  | 'r' => some '\r'
  | 't' => some '\t'
  | 'v' => some '\x0b'
  | '\\' => some '\\'
  | '"' => some '"'
  | '\'' => some '\''
  | _ => none

/-- The content of a string up to its closing quote, and what is left. -/
def quoted? (quote : Char) : List Char → Option (List Char × List Char)
  | [] => none
  | c :: rest =>
    if c = quote then some ([], rest)
    else if c = '\n' || c = '\r' then none
    else if c = '\\' then
      match rest with
      | [] => none
      | e :: rest => do
        let first ← escaped? e
        let (others, after) ← quoted? quote rest
        return (first :: others, after)
    else do
      let (others, after) ← quoted? quote rest
      return (c :: others, after)

/-- The symbol that starts with a character, and what is left. -/
def symbol? (c : Char) (rest : List Char) : Option (Lexeme × List Char) :=
  match c with
  | '+' => some (.operator .add, rest)
  | '-' => if rest.head? = some '-' then none else some (.operator .subtract, rest)
  | '*' => some (.operator .multiply, rest)
  | '/' => if rest.head? = some '/' then none else some (.operator .divide, rest)
  | '%' => some (.operator .modulo, rest)
  | '^' => some (.operator .power, rest)
  | '#' => some (.length, rest)
  | '(' => some (.openParen, rest)
  | ')' => some (.closeParen, rest)
  | '[' => if rest.head? = some '[' || rest.head? = some '=' then none
      else some (.openBracket, rest)
  | ']' => some (.closeBracket, rest)
  | ',' => some (.comma, rest)
  | '=' => if rest.head? = some '=' then some (.operator .equal, rest.tail) else none
  | '~' => if rest.head? = some '=' then some (.operator .unequal, rest.tail) else none
  | '<' =>
    if rest.head? = some '=' then some (.operator .lessEqual, rest.tail)
    else if rest.head? = some '<' then none
    else some (.operator .less, rest)
  | '>' =>
    if rest.head? = some '=' then some (.operator .greaterEqual, rest.tail)
    else if rest.head? = some '>' then none
    else some (.operator .greater, rest)
  | '.' =>
    if rest.head? = some '.' then
      if rest.tail.head? = some '.' then none else some (.operator .concat, rest.tail)
    else if rest.head?.any Char.isDigit then none
    else some (.dot, rest)
  | _ => none

/-- The lexeme that starts with a character, and what is left. -/
def lexeme? (c : Char) (rest : List Char) : Option (Lexeme × List Char) :=
  if isNameStart c then
    (word? (c :: rest.takeWhile isNamePart)).map fun word => (word, rest.dropWhile isNamePart)
  else if c.isDigit then numeral? (c :: rest)
  else if c = '\'' || c = '"' then
    (quoted? c rest).map fun (content, after) => (.text (String.ofList content), after)
  else symbol? c rest

private theorem length_of_quoted? {quote : Char} : ∀ {cs content after : List Char},
    quoted? quote cs = some (content, after) → after.length < cs.length
  | [], _, _, h => by
    unfold quoted? at h
    cases h
  | [c], _, _, h => by
    simp only [quoted?] at h
    split at h
    · cases h
      exact Nat.zero_lt_one
    · split at h
      · cases h
      · split at h <;> cases h
  | c :: e :: rest, _, _, h => by
    unfold quoted? at h
    simp only [Option.bind_eq_bind, Option.pure_def] at h
    split at h
    · cases h
      exact Nat.lt_succ_self _
    · split at h
      · cases h
      · split at h
        · obtain ⟨first, -, h⟩ := Option.bind_eq_some_iff.mp h
          obtain ⟨⟨others, after⟩, found, h⟩ := Option.bind_eq_some_iff.mp h
          cases h
          have shorter := length_of_quoted? found
          simp only [List.length_cons]
          omega
        · obtain ⟨⟨others, after⟩, found, h⟩ := Option.bind_eq_some_iff.mp h
          cases h
          exact Nat.lt_succ_of_lt (length_of_quoted? found)

private theorem length_fraction_le (cs : List Char) : (fraction cs).2.length ≤ cs.length := by
  unfold fraction
  split
  · next rest =>
    have shorter := (List.dropWhile_sublist (l := rest) Char.isDigit).length_le
    simp only [List.length_cons]
    omega
  · exact Nat.le_refl _

private theorem length_of_symbol? {c : Char} {rest after : List Char} {l : Lexeme}
    (h : symbol? c rest = some (l, after)) : after.length ≤ rest.length := by
  have shorter : rest.tail.length ≤ rest.length := by
    rw [List.length_tail]
    exact Nat.sub_le _ _
  unfold symbol? at h
  grind

private theorem length_of_lexeme? {c : Char} {rest after : List Char} {l : Lexeme}
    (h : lexeme? c rest = some (l, after)) : after.length ≤ rest.length := by
  unfold lexeme? at h
  split at h
  · obtain ⟨word, -, h⟩ := Option.map_eq_some_iff.mp h
    cases h
    exact (List.dropWhile_sublist _).length_le
  · split at h
    · next digit =>
      simp only [numeral?, List.dropWhile_cons, digit, if_true] at h
      split at h
      · cases h
      · cases h
        exact Nat.le_trans (length_fraction_le _) (List.dropWhile_sublist _).length_le
    · split at h
      · obtain ⟨⟨content, after⟩, found, h⟩ := Option.map_eq_some_iff.mp h
        cases h
        exact Nat.le_of_lt (length_of_quoted? found)
      · exact length_of_symbol? h

def lexemes? : List Char → Option (List Lexeme)
  | [] => some []
  | c :: rest =>
    if isSpace c then lexemes? rest
    else
      match _found : lexeme? c rest with
      | none => none
      | some (l, after) => (lexemes? after).map (l :: ·)
termination_by cs => cs.length
decreasing_by
  · simp
  · have := length_of_lexeme? _found
    simp only [List.length_cons]
    omega

theorem lexemes?_space (rest : List Char) : lexemes? (' ' :: rest) = lexemes? rest := by
  rw [lexemes?, if_pos (by decide)]

theorem lexemes?_of_lexeme? {c : Char} {rest after : List Char} {l : Lexeme}
    (solid : isSpace c = false) (found : lexeme? c rest = some (l, after)) :
    lexemes? (c :: rest) = (lexemes? after).map (l :: ·) := by
  rw [lexemes?, if_neg (by simp [solid])]
  split
  · next none =>
    rw [found] at none
    cases none
  · next some =>
    rw [found] at some
    cases some
    rfl

/-- A text that starts with a symbol. -/
theorem lexemes?_symbol {c : Char} {rest after : List Char} {l : Lexeme}
    (plain : (isSpace c || isNameStart c || c.isDigit || c = '\'' || c = '"') = false)
    (found : symbol? c rest = some (l, after)) :
    lexemes? (c :: rest) = (lexemes? after).map (l :: ·) := by
  simp only [Bool.or_eq_false_iff] at plain
  obtain ⟨⟨⟨⟨solid, start⟩, digit⟩, single⟩, double⟩ := plain
  refine lexemes?_of_lexeme? solid ?_
  simp only [lexeme?, start, digit, single, double, Bool.or_false, if_false, Bool.false_eq_true]
  exact found

/-- What may follow a piece of text: the end, a blank, a closing parenthesis or a comma. -/
def Ends (rest : List Char) : Prop :=
  ∀ c ∈ rest.head?, c = ' ' ∨ c = ')' ∨ c = ','

private theorem ends_nil : Ends [] := nofun

theorem ends_cons {c : Char} (h : c = ' ' ∨ c = ')' ∨ c = ',') (rest : List Char) :
    Ends (c :: rest) := by
  intro d member
  cases member
  exact h

theorem Ends.head?_ne {rest : List Char} (h : Ends rest) {c : Char}
    (other : c ≠ ' ' ∧ c ≠ ')' ∧ c ≠ ',') : rest.head? ≠ some c := by
  intro head
  rcases h c head with rfl | rfl | rfl
  · exact other.1 rfl
  · exact other.2.1 rfl
  · exact other.2.2 rfl

theorem Ends.head?_any {rest : List Char} (h : Ends rest) {p : Char → Bool}
    (none : p ' ' = false ∧ p ')' = false ∧ p ',' = false) : rest.head?.any p = false := by
  cases head : rest.head? with
  | none => rfl
  | some c =>
    rcases h c head with rfl | rfl | rfl
    · exact none.1
    · exact none.2.1
    · exact none.2.2

/-- A piece of text is read as certain lexemes. -/
def Spells (cs : List Char) (ls : List Lexeme) : Prop :=
  ∀ rest, Ends rest → lexemes? (cs ++ rest) = (lexemes? rest).map (ls ++ ·)

theorem Spells.read {cs : List Char} {ls : List Lexeme} (h : Spells cs ls) :
    lexemes? cs = some ls := by
  have read := h [] ends_nil
  rw [List.append_nil, lexemes?] at read
  rw [read, Option.map_some, List.append_nil]

/-- Two pieces with a blank between them. -/
theorem Spells.space {cs ds : List Char} {ls ms : List Lexeme} (first : Spells cs ls)
    (second : Spells ds ms) : Spells (cs ++ ' ' :: ds) (ls ++ ms) := by
  intro rest ends
  rw [List.append_assoc, List.cons_append, first _ (ends_cons (.inl rfl) _), lexemes?_space,
    second rest ends, Option.map_map]
  congr 1
  funext more
  exact (List.append_assoc _ _ _).symm

/-- A piece between lexemes of one character. -/
theorem Spells.cons {c : Char} {l : Lexeme} {cs : List Char} {ls : List Lexeme}
    (first : ∀ rest, Ends rest → lexemes? (c :: (cs ++ rest)) =
      (lexemes? (cs ++ rest)).map (l :: ·))
    (others : Spells cs ls) : Spells (c :: cs) (l :: ls) := by
  intro rest ends
  rw [List.cons_append, first rest ends, others rest ends, Option.map_map]
  rfl

theorem Spells.close {c : Char} {l : Lexeme} {cs : List Char} {ls : List Lexeme}
    (may : c = ' ' ∨ c = ')' ∨ c = ',')
    (last : ∀ rest, lexemes? (c :: rest) = (lexemes? rest).map (l :: ·)) (h : Spells cs ls) :
    Spells (cs ++ [c]) (ls ++ [l]) := by
  intro rest _
  rw [List.append_assoc, List.singleton_append, h _ (ends_cons may _), last, Option.map_map]
  congr 1
  funext more
  rw [List.append_assoc]
  rfl

private theorem takeWhile_append {p : Char → Bool} :
    ∀ {cs rest : List Char}, (∀ c ∈ cs, p c = true) →
    rest.head?.any p = false → (cs ++ rest).takeWhile p = cs ∧ (cs ++ rest).dropWhile p = rest
  | [], [], _, _ => ⟨rfl, rfl⟩
  | [], c :: rest, _, stops => by
    have stops : p c = false := stops
    simp [stops]
  | c :: cs, rest, all, stops => by
    have first := all c List.mem_cons_self
    obtain ⟨taken, dropped⟩ :=
      takeWhile_append (fun d member => all d (List.mem_cons_of_mem _ member)) stops
    simp [first, taken, dropped]

/-- A character of a class that no blank belongs to is no blank. -/
theorem isSpace_eq_false {p : Char → Bool}
    (apart : [' ', '\t', '\n', '\r', '\x0b', '\x0c'].any p = false) {c : Char} (h : p c = true) :
    isSpace c = false := by
  rw [Bool.eq_false_iff]
  intro space
  have member : c ∈ [' ', '\t', '\n', '\r', '\x0b', '\x0c'] := by simpa [isSpace, or_assoc]
    using space
  exact List.any_eq_false.1 apart c member h

private theorem isNameStart_of_isDigit {c : Char} (h : c.isDigit = true) :
    isNameStart c = false := by
  have apart : c ≠ '_' := by
    rintro rfl
    revert h
    decide
  simp only [Char.isDigit, Bool.and_eq_true, decide_eq_true_eq, ge_iff_le, UInt32.le_iff_toNat_le]
    at h
  have zero : '0'.val.toNat = 48 := rfl
  have nine : '9'.val.toNat = 57 := rfl
  have upper : 'A'.val.toNat = 65 := rfl
  have lower : 'a'.val.toNat = 97 := rfl
  have letter : c.isAlpha = (decide (c.val ≥ 'A'.val ∧ c.val ≤ 'Z'.val) ||
      (decide (c.val ≥ 'a'.val) && decide (c.val ≤ 'z'.val))) := rfl
  simp only [isNameStart, letter, apart, Bool.or_eq_false_iff,
    Bool.and_eq_false_iff, decide_eq_false_iff_not, ge_iff_le,
      UInt32.le_iff_toNat_le, not_false_eq_true,
    and_true]
  omega

/-- A word before anything that cannot be part of it. -/
theorem lexemes?_word {c : Char} {cs rest : List Char} {l : Lexeme} (start : isNameStart c = true)
    (all : ∀ d ∈ cs, isNamePart d = true) (stops : rest.head?.any isNamePart = false)
    (found : word? (c :: cs) = some l) :
    lexemes? (c :: (cs ++ rest)) = (lexemes? rest).map (l :: ·) := by
  have solid := isSpace_eq_false (p := isNameStart) (by decide) start
  obtain ⟨taken, dropped⟩ := takeWhile_append all stops
  refine lexemes?_of_lexeme? solid ?_
  simp only [lexeme?, start, if_true, taken, dropped, found, Option.map_some]

/-- A numeral before anything that cannot be part of it. -/
theorem lexemes?_numeral {whole digits rest : List Char} (filled : whole ≠ [])
    (all : ∀ d ∈ whole ++ digits, d.isDigit = true) (ends : Ends rest) :
    lexemes? (whole ++ (if digits = [] then [] else '.' :: digits) ++ rest) =
      (lexemes? rest).map (.numeral (Decimal.natOfDigits (whole ++ digits)) digits.length ::
        ·) := by
  have stops : rest.head?.any (fun c => isNamePart c || c = '.') = false :=
    ends.head?_any (by decide)
  have noDigit : rest.head?.any Char.isDigit = false := ends.head?_any (by decide)
  have fractional : fraction ((if digits = [] then [] else '.' :: digits) ++ rest) =
      (digits, rest) := by
    by_cases none : digits = []
    · subst none
      have noPoint := ends.head?_ne (c := '.') (by decide)
      unfold fraction
      split
      · next same =>
        rw [if_pos rfl, List.nil_append] at same
        rw [same] at noPoint
        exact absurd rfl noPoint
      · simp
    · rw [if_neg none, List.cons_append, fraction]
      obtain ⟨taken, dropped⟩ :=
        takeWhile_append (fun d member => all d (List.mem_append_right _ member)) noDigit
      rw [taken, dropped]
  have afterWhole : ((if digits = [] then [] else '.' :: digits) ++ rest).head?.any Char.isDigit =
      false := by
    by_cases none : digits = []
    · rw [if_pos none, List.nil_append]
      exact noDigit
    · rw [if_neg none]
      rfl
  obtain ⟨taken, dropped⟩ :=
    takeWhile_append (fun d member => all d (List.mem_append_left _ member)) afterWhole
  obtain ⟨c, others, rfl⟩ := List.exists_cons_of_ne_nil filled
  have digit : c.isDigit = true := all c List.mem_cons_self
  have solid := isSpace_eq_false (p := Char.isDigit) (by decide) digit
  have noName := isNameStart_of_isDigit digit
  rw [List.append_assoc, List.cons_append]
  refine lexemes?_of_lexeme? solid ?_
  rw [List.cons_append] at taken dropped
  simp only [lexeme?, noName, digit, if_true, Bool.false_eq_true, if_false,
    numeral?, taken, dropped, fractional, stops]

private theorem quoted?_cons (quote c : Char) (rest : List Char) : quoted? quote (c :: rest) =
    if c = quote then some ([], rest)
    else if c = '\n' || c = '\r' then none
    else if c = '\\' then
      match rest with
      | [] => none
      | e :: rest => do
        let first ← escaped? e
        let (others, after) ← quoted? quote rest
        return (first :: others, after)
    else do
      let (others, after) ← quoted? quote rest
      return (c :: others, after) := by
  rw [quoted?.eq_def]

private theorem quoted?_escape (c : Char) (cs : List Char) :
    quoted? '\'' (escape c ++ cs) = (quoted? '\'' cs).map fun p => (c :: p.1, p.2) := by
  unfold escape
  split
  case h_6 backslash quote newline carriage _ =>
    have unbroken : ¬ (decide (c = '\n') || decide (c = '\r')) = true := by
      rw [Bool.or_eq_true, decide_eq_true_eq, decide_eq_true_eq]
      exact fun breaks => breaks.elim newline carriage
    rw [List.singleton_append, quoted?_cons, if_neg quote, if_neg unbroken, if_neg backslash]
    cases quoted? '\'' cs <;> rfl
  all_goals
    rw [List.cons_append, List.singleton_append, quoted?_cons, if_neg (by decide),
      if_neg (by decide), if_pos rfl]
    dsimp only
    cases quoted? '\'' cs <;> rfl

private theorem quoted?_flatMap_escape (content rest : List Char) :
    quoted? '\'' (content.flatMap escape ++ '\'' :: rest) = some (content, rest) := by
  induction content with
  | nil => rw [List.flatMap_nil, List.nil_append, quoted?_cons, if_pos rfl]
  | cons c content ih =>
    rw [List.flatMap_cons, List.append_assoc, quoted?_escape, ih, Option.map_some]

/-- The first lexeme of a string literal before anything. -/
theorem lexeme?_text (s : String) (rest : List Char) :
    ∃ more, (text s).toList ++ rest = '\'' :: more ∧ lexeme? '\'' more = some (.text s, rest) := by
  have start : isNameStart '\'' = false := by decide
  have digit : '\''.isDigit = false := by decide
  refine ⟨s.toList.flatMap escape ++ '\'' :: rest, by simp [text], ?_⟩
  simp [lexeme?, start, digit, quoted?_flatMap_escape]

/-- A string literal before anything. -/
theorem lexemes?_text (s : String) (rest : List Char) :
    lexemes? ((text s).toList ++ rest) = (lexemes? rest).map (.text s :: ·) := by
  obtain ⟨more, written, found⟩ := lexeme?_text s rest
  rw [written]
  exact lexemes?_of_lexeme? (by decide) found

end Dialogue.Lua
