import Dialogue.Command.Words

/-!
Words are written as they stand or between quotes, with blanks around them. `words_undo_quoting`
says that splitting a command text finds the words again, however they were written, and that the
last closing quote may be left out. In a text without quotes the words are the pieces between
blanks.
-/

set_option autoImplicit false
set_option relaxedAutoImplicit false

namespace Dialogue.Command

/-- How a character is written between quotes. -/
def quotedChar (c : Char) : List Char :=
  if c = '\\' ∨ c = '"' then ['\\', c] else [c]

inductive WrittenWord
  /-- A word as it stands. -/
  | bare (word : String) (filled : word ≠ "")
      (plain : ∀ c ∈ word.toList, Text.isBlank c = false ∧ c ≠ '"')
  /-- A word between quotes. -/
  | quoted (word : String)

namespace WrittenWord

def word : WrittenWord → String
  | .bare word _ _ => word
  | .quoted word => word

def chars : WrittenWord → List Char
  | .bare word _ _ => word.toList
  | .quoted word => '"' :: (word.toList.flatMap quotedChar ++ ['"'])

end WrittenWord

/-- Written words, each with the blanks after it. Only the last may have none. -/
structure WrittenLine where
  lead : List Char
  parts : List (WrittenWord × List Char)
  blank_lead : ∀ c ∈ lead, Text.isBlank c = true
  blank_gap : ∀ part ∈ parts, ∀ c ∈ part.2, Text.isBlank c = true
  parted : ∀ part ∈ parts.dropLast, part.2 ≠ []

namespace WrittenLine

def words (line : WrittenLine) : List String :=
  line.parts.map fun part => part.1.word

def chars (line : WrittenLine) : List Char :=
  line.lead ++ line.parts.flatMap fun part => part.1.chars ++ part.2

end WrittenLine

private theorem wordsFrom_nil : wordsFrom [] [] = [] := by
  rw [wordsFrom, List.isEmpty_nil, if_pos rfl]

private theorem wordsFrom_blank {c : Char} (blank : Text.isBlank c = true) (rest : List Char) :
    wordsFrom [] (c :: rest) = wordsFrom [] rest := by
  rw [wordsFrom, if_pos blank, List.isEmpty_nil, if_pos rfl]

private theorem wordsFrom_blanks {gap : List Char} (blank : ∀ c ∈ gap, Text.isBlank c = true)
    (rest : List Char) :
    wordsFrom [] (gap ++ rest) = wordsFrom [] rest := by
  induction gap with
  | nil => rfl
  | cons c gap ih =>
    obtain ⟨first, others⟩ := List.forall_mem_cons.mp blank
    rw [List.cons_append, wordsFrom_blank first, ih others]

/-- Characters that are neither blank nor a quote go to the word that is begun. -/
theorem wordsFrom_plain {cs : List Char} (plain : ∀ c ∈ cs, Text.isBlank c = false ∧ c ≠ '"')
    (begun rest : List Char) : wordsFrom begun (cs ++ rest) =
      wordsFrom (cs.reverse ++ begun) rest := by
  induction cs generalizing begun with
  | nil => rfl
  | cons c cs ih =>
    obtain ⟨⟨solid, unquoted⟩, others⟩ := List.forall_mem_cons.mp plain
    rw [List.cons_append, wordsFrom, if_neg (by simp [solid]), if_neg unquoted, ih others,
      List.reverse_cons, List.append_assoc, List.singleton_append]

/-- The text ends here, or a blank comes next. -/
def Stops (rest : List Char) : Prop :=
  ∀ c ∈ rest.head?, Text.isBlank c = true

private theorem wordsFrom_stops {begun rest : List Char} (filled : begun ≠ [])
    (stops : Stops rest) :
    wordsFrom begun rest = begun.reverse :: wordsFrom [] rest := by
  have isFilled : ¬ begun.isEmpty = true := by simpa using filled
  cases rest with
  | nil => rw [wordsFrom, if_neg isFilled, wordsFrom_nil]
  | cons c rest =>
    have blank := stops c rfl
    rw [wordsFrom, if_pos blank, if_neg isFilled, wordsFrom_blank blank]

/-- A backslash never stands alone in what is written between quotes, so that each character is read
on its own whatever comes after it. -/
theorem quotedFrom_quotedChar (c : Char) (begun rest : List Char) :
    quotedFrom begun (quotedChar c ++ rest) = quotedFrom (c :: begun) rest := by
  by_cases backslash : c = '\\'
  · subst backslash
    simp [quotedChar, quotedFrom]
  by_cases quote : c = '"'
  · subst quote
    simp [quotedChar, quotedFrom]
  · simp [quotedChar, backslash, quote, quotedFrom]

private theorem quotedFrom_quoted (cs begun rest : List Char) :
    quotedFrom begun (cs.flatMap quotedChar ++ rest) = quotedFrom (cs.reverse ++ begun) rest := by
  induction cs generalizing begun with
  | nil => rfl
  | cons c cs ih =>
    rw [List.flatMap_cons, List.append_assoc, quotedFrom_quotedChar, ih, List.reverse_cons,
      List.append_assoc, List.singleton_append]

private theorem wordsFrom_quote (rest : List Char) :
    wordsFrom [] ('"' :: rest) = quotedFrom [] rest := by
  rw [wordsFrom, if_neg (by decide), if_pos rfl]

/-- A written word is found before the text's end or a blank. -/
theorem wordsFrom_written (w : WrittenWord) {rest : List Char} (stops : Stops rest) :
    wordsFrom [] (w.chars ++ rest) = w.word.toList :: wordsFrom [] rest := by
  cases w with
  | bare word filled plain =>
    have begun : word.toList.reverse ≠ [] := by simpa using filled
    rw [WrittenWord.chars, wordsFrom_plain plain, List.append_nil, wordsFrom_stops begun stops,
      List.reverse_reverse]
    rfl
  | quoted word =>
    rw [WrittenWord.chars, List.cons_append, wordsFrom_quote, List.append_assoc, quotedFrom_quoted,
      List.append_nil, List.singleton_append, quotedFrom, List.reverse_reverse]
    rfl

/-- The end of the text closes an open quote. -/
theorem wordsFrom_unclosed (word : String) :
    wordsFrom [] ('"' :: word.toList.flatMap quotedChar) = [word.toList] := by
  have read := quotedFrom_quoted word.toList [] []
  rw [List.append_nil, List.append_nil] at read
  rw [wordsFrom_quote, read, quotedFrom, List.reverse_reverse]

private theorem stops_blanks {gap : List Char}
    (blank : ∀ c ∈ gap, Text.isBlank c = true) (filled : gap ≠ []) (rest : List Char) :
    Stops (gap ++ rest) := by
  cases gap with
  | nil => exact absurd rfl filled
  | cons c gap =>
    intro first here
    cases here
    exact blank c List.mem_cons_self

/-- Words with blanks after them are found one by one, whatever comes after the last blanks. -/
theorem wordsFrom_parts {parts : List (WrittenWord × List Char)}
    (blank : ∀ part ∈ parts, ∀ c ∈ part.2, Text.isBlank c = true)
    (parted : ∀ part ∈ parts, part.2 ≠ []) (rest : List Char) :
    wordsFrom [] ((parts.flatMap fun part => part.1.chars ++ part.2) ++ rest) =
      parts.map (fun part => part.1.word.toList) ++ wordsFrom [] rest := by
  induction parts with
  | nil => rfl
  | cons part parts ih =>
    obtain ⟨firstBlank, blanks⟩ := List.forall_mem_cons.mp blank
    obtain ⟨firstParted, others⟩ := List.forall_mem_cons.mp parted
    rw [List.flatMap_cons, List.append_assoc, List.append_assoc,
      wordsFrom_written part.1 (stops_blanks firstBlank firstParted _), wordsFrom_blanks firstBlank,
      ih blanks others, List.map_cons, List.cons_append]

namespace WrittenLine

/-- All parts but the last are read by their gaps; the last one may be read up to the end of the
text. -/
theorem wordsFrom_chars (line : WrittenLine) {parts : List (WrittenWord × List Char)}
    {last : WrittenWord × List Char} (ends : line.parts = parts ++ [last]) (rest : List Char) :
    wordsFrom [] (line.lead ++ ((parts.flatMap fun part => part.1.chars ++ part.2) ++ rest)) =
      parts.map (fun part => part.1.word.toList) ++ wordsFrom [] rest := by
  have blank : ∀ part ∈ parts, ∀ c ∈ part.2, Text.isBlank c = true := fun part member =>
    line.blank_gap part (ends ▸ List.mem_append_left _ member)
  have parted : ∀ part ∈ parts, part.2 ≠ [] := by
    have all := line.parted
    rwa [ends, List.dropLast_concat] at all
  rw [wordsFrom_blanks line.blank_lead, wordsFrom_parts blank parted]

private theorem wordsFrom_line (line : WrittenLine) :
    wordsFrom [] line.chars = line.parts.map fun part => part.1.word.toList := by
  rcases List.eq_nil_or_concat line.parts with none | ⟨parts, last, ends⟩
  · have found := wordsFrom_blanks line.blank_lead []
    rw [chars, none, List.flatMap_nil, found, wordsFrom_nil, List.map_nil]
  · rw [List.concat_eq_append] at ends
    have blank : ∀ c ∈ last.2, Text.isBlank c = true :=
      line.blank_gap last (ends ▸ List.mem_append_right _ (List.mem_singleton_self last))
    have stops : Stops last.2 := fun c first => blank c (List.mem_of_mem_head? first)
    have trailing := wordsFrom_blanks blank []
    rw [List.append_nil] at trailing
    rw [chars, ends, List.flatMap_append, List.flatMap_singleton, line.wordsFrom_chars ends,
      wordsFrom_written last.1 stops, trailing, wordsFrom_nil, List.map_append, List.map_singleton]

private theorem wordsFrom_unclosed (line : WrittenLine)
    {parts : List (WrittenWord × List Char)} {word : String}
    (ends : line.parts = parts ++ [(.quoted word, [])]) :
    wordsFrom [] line.chars.dropLast = line.parts.map fun part => part.1.word.toList := by
  have opened : line.chars.dropLast = line.lead ++
    ((parts.flatMap fun part => part.1.chars ++ part.2) ++
      ('"' :: word.toList.flatMap quotedChar)) := by
    rw [chars, ends, List.flatMap_append, List.flatMap_singleton,
      WrittenWord.chars, List.append_nil, ← List.cons_append, ← List.append_assoc,
      ← List.append_assoc, List.dropLast_concat, List.append_assoc]
  rw [opened, line.wordsFrom_chars ends, Command.wordsFrom_unclosed, ends, List.map_append,
    List.map_singleton]
  rfl

end WrittenLine

/-- Without quotes the splitter only collects what stands between blanks. -/
theorem wordsFrom_unquoted {cs : List Char} (unquoted : '"' ∉ cs) (begun : List Char) :
    wordsFrom begun cs = (List.splitOnPPrepend Text.isBlank cs begun).filter
      fun w => !w.isEmpty := by
  induction cs generalizing begun with
  | nil => cases begun <;> simp [wordsFrom]
  | cons c cs ih =>
    obtain ⟨other, others⟩ := not_or.mp (mt List.mem_cons.mpr unquoted)
    rw [wordsFrom, List.splitOnPPrepend_cons_eq_if]
    by_cases blank : Text.isBlank c = true
    · rw [if_pos blank, if_pos blank, ih others, List.splitOnP_eq_splitOnPPrepend, List.filter_cons]
      cases begun <;> simp
    · rw [if_neg blank, if_neg blank, if_neg (Ne.symm other), ih others]

/-- The words of a written line are found again, also if the quote that closes the last one is
missing. The words of a text without quotes are the pieces between its blanks. -/
theorem words_undo_quoting :
    (∀ line : WrittenLine, words (String.ofList line.chars) = line.words) ∧
    (∀ text : String, '"' ∉ text.toList → words text =
      ((text.toList.splitOnP Text.isBlank).filter fun piece => !piece.isEmpty).map String.ofList) ∧
    (∀ (line : WrittenLine) (parts : List (WrittenWord × List Char)) (word : String),
      line.parts = parts ++ [(.quoted word, [])] →
      words (String.ofList line.chars.dropLast) = line.words) := by
  have reads (line : WrittenLine) {cs : List Char}
      (found : wordsFrom [] cs = line.parts.map fun part => part.1.word.toList) :
      words (String.ofList cs) = line.words := by
    rw [words, String.toList_ofList, found, List.map_map, WrittenLine.words]
    exact List.map_congr_left fun part _ => String.ofList_toList
  refine ⟨fun line => reads line line.wordsFrom_line, fun text unquoted => ?_, ?_⟩
  · rw [words, wordsFrom_unquoted unquoted, List.splitOnP_eq_splitOnPPrepend]
  · exact fun line parts word ends => reads line (line.wordsFrom_unclosed ends)

namespace Sample

private theorem say_ne_empty : "say\\" ≠ "" := by
  decide

private theorem say_plain : ∀ c ∈ "say\\".toList, Text.isBlank c = false ∧ c ≠ '"' := by
  simp [Text.isBlank]

/-- A word that ends in a backslash, one with blanks, a backslash and quotes, and an empty one. -/
def parts : List (WrittenWord × List Char) :=
  [(.bare "say\\" say_ne_empty say_plain, [' ']),
    (.quoted "a \\ \"b\"", ['\t', ' ']), (.quoted "", [])]

private theorem parts_blank_gap : ∀ part ∈ parts, ∀ c ∈ part.2, Text.isBlank c = true := by
  simp [parts, Text.isBlank]

private theorem parts_parted : ∀ part ∈ parts.dropLast, part.2 ≠ [] := by
  simp [parts]

private theorem blank_lead : ∀ c ∈ [' '], Text.isBlank c = true := by
  simp [Text.isBlank]

def line : WrittenLine :=
  ⟨[' '], parts, blank_lead, parts_blank_gap, parts_parted⟩

end Sample

theorem words_undo_quoting_sample :
    words " say\\ \"a \\\\ \\\"b\\\"\"\t \"\"" = ["say\\", "a \\ \"b\"", ""] ∧
    words " say\\ \"a \\\\ \\\"b\\\"\"\t \"" = ["say\\", "a \\ \"b\"", ""] ∧
    words " say\\ a  b" = ["say\\", "a", "b"] := by
  have closed : String.ofList Sample.line.chars =
      " say\\ \"a \\\\ \\\"b\\\"\"\t \"\"" := by decide +kernel
  have opened : String.ofList Sample.line.chars.dropLast = " say\\ \"a \\\\ \\\"b\\\"\"\t \"" := by
    decide +kernel
  refine ⟨?_, ?_, ?_⟩
  · rw [← closed]
    exact words_undo_quoting.1 Sample.line
  · rw [← opened]
    exact words_undo_quoting.2.2 Sample.line Sample.line.parts.dropLast "" rfl
  · rw [words_undo_quoting.2.1 _ (by decide +kernel)]
    decide +kernel

end Dialogue.Command
