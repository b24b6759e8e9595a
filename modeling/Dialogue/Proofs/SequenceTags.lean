import Dialogue.Line.SequenceTag
import Dialogue.Proofs.Trimming

/-!
Sequence tags at the ends of lines. The tag that a line is read by begins at the last opening of a
tag in it and goes on to the last closing, with blanks allowed before and behind the closing.
`sequenceTag_reads_last_opening` says this for every text, and on which texts this is the tag that
closes the line: on those where, among the tags that a text may be read to end with, the ones closed
by their first closing are the ones without a further opening. Elsewhere a value may run through its
closing into another tag.
-/

set_option autoImplicit false
set_option relaxedAutoImplicit false

namespace Dialogue

section Infix

variable {α : Type} {c : α} {pattern front back : List α}

/-- A pattern does not begin in a text without its first character. -/
theorem infix_of_not_mem_front (absent : c ∉ front) (found : c :: pattern <:+: front ++ back) :
    c :: pattern <:+: back := by
  obtain ⟨before, after, whole⟩ := found
  rw [List.append_assoc, List.append_eq_append_iff] at whole
  rcases whole with ⟨more, rfl, same⟩ | ⟨more, rfl, rfl⟩
  · cases more with
    | nil => exact ⟨[], after, same⟩
    | cons first more =>
      obtain ⟨rfl, -⟩ := List.cons.inj same
      simp at absent
  · exact ⟨more, after, List.append_assoc _ _ _⟩

/-- A pattern does not end in a text without its last character. -/
theorem infix_of_not_mem_back (absent : c ∉ back) (found : pattern ++ [c] <:+: front ++ back) :
    pattern ++ [c] <:+: front := by
  rw [← List.reverse_infix] at found ⊢
  rw [List.reverse_append, List.reverse_append] at found
  rw [List.reverse_append]
  exact infix_of_not_mem_front (mt List.mem_reverse.mp absent) found

end Infix

namespace Line

/-- A tag with its value, the blanks before its closing, and whether the value stands between
quotes. A value without quotes has no blanks and does not start with a quote. -/
structure WrittenTag where
  value : List Char
  gap : List Char
  isQuoted : Bool
  filled : value ≠ []
  blank_gap : Text.Blank gap
  plain : isQuoted = false → (∀ c ∈ value, Text.isBlank c = false) ∧ value.head? ≠ some '"'

namespace WrittenTag

def quotes (t : WrittenTag) : List Char :=
  if t.isQuoted then ['"'] else []

def inner (t : WrittenTag) : List Char :=
  t.quotes ++ t.value ++ t.quotes

def chars (t : WrittenTag) : List Char :=
  "[seq=".toList ++ t.inner ++ t.gap ++ "/]".toList

/-- A tag stands at the end of a text, before blanks, and no backslash stands before it. -/
def Ends (t : WrittenTag) (text : List Char) : Prop :=
  ∃ before trail, text = before ++ t.chars ++ trail ∧ Text.Blank trail ∧ before.getLast? ≠ some '\\'

def ClosesFirst (t : WrittenTag) : Prop :=
  ∀ gap, Text.Blank gap → ¬ t.quotes ++ gap ++ "/]".toList <:+: t.value

private theorem inner_eq (t : WrittenTag) :
    t.isQuoted = true ∧ t.inner = '"' :: (t.value ++ ['"']) ∨ t.isQuoted = false ∧
    t.inner = t.value := by
  cases quoted : t.isQuoted <;> simp [inner, quotes, quoted]

private theorem isQuoted_iff (t : WrittenTag) : t.isQuoted = true ↔ t.inner.head? = some '"' := by
  rcases t.inner_eq with ⟨quoted, same⟩ | ⟨bare, same⟩
  · simp [quoted, same]
  · simp [bare, same, (t.plain bare).2]

private theorem quotes_eq_of_inner_eq {t u : WrittenTag} (same : t.inner = u.inner) :
    t.quotes = u.quotes := by
  have quoted : t.isQuoted = u.isQuoted := by rw [Bool.eq_iff_iff, isQuoted_iff, isQuoted_iff, same]
  rw [quotes, quotes, quoted]

private theorem length_inner (t : WrittenTag) :
    t.value.length ≤ t.inner.length ∧ t.inner.length ≤ t.value.length + 2 := by
  rcases t.inner_eq with ⟨-, same⟩ | ⟨-, same⟩
  · rw [same, List.length_cons, List.length_append, List.length_singleton]
    omega
  · rw [same]
    omega

private theorem tagValue?_inner (t : WrittenTag) : tagValue? t.inner = some t.value := by
  rcases t.inner_eq with ⟨-, same⟩ | ⟨bare, same⟩
  · rw [same, tagValue?, Text.dropSuffix?_eq_some_iff]
  · obtain ⟨solid, unquoted⟩ := t.plain bare
    rw [same]
    unfold tagValue?
    split
    · next rest starts =>
      rw [starts] at unquoted
      exact absurd rfl unquoted
    · rw [if_neg]
      simpa using solid

private theorem endsSolid_inner (t : WrittenTag) : Text.EndsSolid t.inner := by
  rcases t.inner_eq with ⟨-, same⟩ | ⟨bare, same⟩
  · rw [same, ← List.cons_append, Text.endsSolid_append (List.cons_ne_nil _ _)]
    rintro c ⟨⟩
    decide
  · intro c last
    rw [same] at last
    exact (t.plain bare).1 c (List.mem_of_mem_getLast? last)

end WrittenTag

private theorem exists_writtenTag {after value gap : List Char}
    (read : tagValue? after = some value) (filled : value ≠ []) (blank : Text.Blank gap) :
    ∃ t : WrittenTag, t.inner = after ∧ t.gap = gap ∧ t.value = value := by
  unfold tagValue? at read
  split at read
  · next quoted =>
    rw [Text.dropSuffix?_eq_some_iff] at read
    exact ⟨⟨value, gap, true, filled, blank, nofun⟩, by
      simp [WrittenTag.inner, WrittenTag.quotes, read], rfl, rfl⟩
  · next unquoted =>
    rw [Option.ite_none_left_eq_some] at read
    obtain ⟨solid, same⟩ := read
    cases same
    refine ⟨⟨after, gap, false, filled, blank, fun _ => ⟨by simpa using solid, fun first => ?_⟩⟩,
      ?_, rfl, rfl⟩
    · obtain ⟨rest, shape⟩ := List.head?_eq_some_iff.mp first
      exact unquoted rest shape
    · simp [WrittenTag.inner, WrittenTag.quotes]

private theorem opening_infix_of_append {cs behind : List Char} (absent : '=' ∉ behind)
    (found : tagOpening <:+: cs ++ behind) : tagOpening <:+: cs := by
  have shape : tagOpening = "[seq".toList ++ ['='] := by decide
  rw [shape] at found ⊢
  exact infix_of_not_mem_back absent found

private theorem tagOpening_ne_nil : tagOpening ≠ [] := by
  decide

private theorem lastOpening?_eq_none_iff {cs : List Char} :
    lastOpening? cs = none ↔ ¬ tagOpening <:+: cs := by
  induction cs with
  | nil => simp [lastOpening?, tagOpening_ne_nil]
  | cons c rest ih =>
    have begins : tagOpening.isPrefixOf? (c :: rest) = none ↔ ¬ tagOpening <+: c :: rest := by
      simp only [Option.eq_none_iff_forall_ne_some, ne_eq,
        List.isPrefixOf?_eq_some_iff_append_eq, List.IsPrefix, not_exists]
    rw [List.infix_cons_iff, not_or, ← ih, lastOpening?]
    cases lastOpening? rest <;> simp [begins]

/-- The first character of an opening is not repeated in it, so that no other one begins inside. -/
theorem lastOpening?_opening {after : List Char} (last : ¬ tagOpening <:+: after) :
    lastOpening? (tagOpening ++ after) = some ([], after) := by
  have inside : lastOpening? ("seq=".toList ++ after) = none :=
    lastOpening?_eq_none_iff.mpr fun found => last (infix_of_not_mem_front (by decide) found)
  have here : tagOpening.isPrefixOf? (tagOpening ++ after) = some after :=
    List.isPrefixOf?_eq_some_iff_append_eq.mpr rfl
  change lastOpening? ('[' :: ("seq=".toList ++ after)) = _
  rw [lastOpening?, inside]
  exact congrArg (Option.map fun after => ([], after)) here

private theorem lastOpening?_eq_some_iff {cs before after : List Char} :
    lastOpening? cs = some (before, after) ↔
    cs = before ++ (tagOpening ++ after) ∧ ¬ tagOpening <:+: after := by
  constructor
  · intro found
    induction cs generalizing before with
    | nil => cases found
    | cons c rest ih =>
      rw [lastOpening?] at found
      cases later : lastOpening? rest with
      | some cut =>
        rw [later] at found
        cases found
        obtain ⟨rfl, last⟩ := ih later
        exact ⟨rfl, last⟩
      | none =>
        rw [later] at found
        obtain ⟨_, begins, same⟩ := Option.map_eq_some_iff.mp found
        cases same
        rw [List.isPrefixOf?_eq_some_iff_append_eq] at begins
        refine ⟨begins.symm, fun again => lastOpening?_eq_none_iff.mp later ?_⟩
        exact again.trans ⟨"seq=".toList,
          [], by rw [List.append_nil]; exact (List.cons.inj begins).2⟩
  · rintro ⟨rfl, last⟩
    induction before with
    | nil => exact lastOpening?_opening last
    | cons c before ih => rw [List.cons_append, lastOpening?, ih]

/-- A text cut behind its last opening and at a closing, with blanks before and behind the
closing. -/
structure TagCut (text before after gap trail : List Char) : Prop where
  whole : text = before ++ (tagOpening ++ after) ++ gap ++ tagClosing ++ trail
  blank_gap : Text.Blank gap
  blank_trail : Text.Blank trail
  solid : Text.EndsSolid (tagOpening ++ after)
  last : ¬ tagOpening <:+: after

private theorem TagCut.opened_eq {text before after gap trail : List Char}
    (cut : TagCut text before after gap trail) :
    ((Text.dropSuffix? tagClosing (Text.trimEnd text)).bind fun body =>
      lastOpening? (Text.trimEnd body)) =
      some (before, after) := by
  have trimmed : Text.trimEnd text = before ++ (tagOpening ++ after) ++ gap ++ tagClosing := by
    refine Text.trimEnd_eq_iff.mpr ⟨trail, cut.whole, cut.blank_trail, ?_⟩
    rw [Text.endsSolid_append (by decide)]
    rintro c ⟨⟩
    decide
  have body : Text.trimEnd (before ++ (tagOpening ++ after) ++ gap) = before ++
      (tagOpening ++ after) := by
    refine Text.trimEnd_eq_iff.mpr ⟨gap, rfl, cut.blank_gap, ?_⟩
    rw [Text.endsSolid_append (by simp [tagOpening_ne_nil])]
    exact cut.solid
  rw [trimmed, Text.dropSuffix?_eq_some_iff.mpr rfl, Option.bind_some, body]
  exact lastOpening?_eq_some_iff.mpr ⟨rfl, cut.last⟩

private theorem
    TagCut.after_unique {text before before' after after' gap gap' trail trail' : List Char}
    (cut : TagCut text before after gap trail) (cut' : TagCut text before' after' gap' trail') :
    after = after' := by
  have same := cut.opened_eq.symm.trans cut'.opened_eq
  exact (Prod.mk.inj (Option.some.inj same)).2

private theorem TagCut.sequenceTag?_eq {text : String} {before after gap trail : List Char}
    (cut : TagCut text.toList before after gap trail) : sequenceTag? text =
      if before.getLast? = some '\\' then none
      else (tagValue? after).bind fun value => if value.isEmpty then none
        else some (String.ofList value) := by
  have shape : sequenceTag? text =
      ((Text.dropSuffix? tagClosing (Text.trimEnd text.toList)).bind fun body =>
        lastOpening? (Text.trimEnd body)).bind fun cut =>
          if cut.1.getLast? = some '\\' then none
          else (tagValue? cut.2).bind fun value =>
            if value.isEmpty then none else some (String.ofList value) := by
    rw [Option.bind_assoc]
    rfl
  rw [shape, cut.opened_eq, Option.bind_some]

private theorem exists_tagCut {text v : String} (h : sequenceTag? text = some v) :
    ∃ before after gap trail, TagCut text.toList before after gap trail := by
  unfold sequenceTag? at h
  obtain ⟨body, ended, h⟩ := Option.bind_eq_some_iff.mp h
  obtain ⟨⟨before, after⟩, opened, -⟩ := Option.bind_eq_some_iff.mp h
  rw [Text.dropSuffix?_eq_some_iff] at ended
  obtain ⟨trail, whole, blank_trail, -⟩ := Text.trimEnd_eq_iff.mp ended
  obtain ⟨trimmed, last⟩ := lastOpening?_eq_some_iff.mp opened
  obtain ⟨gap, rfl, blank_gap, solid⟩ := Text.trimEnd_eq_iff.mp trimmed
  rw [Text.endsSolid_append (by simp [tagOpening_ne_nil])] at solid
  exact ⟨before, after, gap, trail, whole, blank_gap, blank_trail, solid, last⟩

namespace WrittenTag

private theorem chars_append (t : WrittenTag) (before trail : List Char) :
    before ++ t.chars ++ trail =
    before ++ (tagOpening ++ (t.inner ++ (t.gap ++ tagClosing ++ trail))) := by
  have written : t.chars = tagOpening ++ t.inner ++ t.gap ++ tagClosing := rfl
  simp [written]

private theorem tagCut (t : WrittenTag) (last : ¬ tagOpening <:+: t.inner)
    {text before trail : List Char} (whole : text = before ++ t.chars ++ trail)
    (blank : Text.Blank trail) :
    TagCut text before t.inner t.gap trail where
  whole := by rw [whole, t.chars_append]; simp
  blank_gap := t.blank_gap
  blank_trail := blank
  solid := by
    rw [Text.endsSolid_append]
    · exact t.endsSolid_inner
    · simp [inner, t.filled]
  last := last

end WrittenTag

private theorem sequenceTag?_eq_some_iff {text v : String} : sequenceTag? text = some v ↔
    ∃ t : WrittenTag, t.Ends text.toList ∧ ¬ tagOpening <:+: t.inner ∧
    String.ofList t.value = v := by
  constructor
  · intro h
    obtain ⟨before, after, gap, trail, cut⟩ := exists_tagCut h
    rw [cut.sequenceTag?_eq, Option.ite_none_left_eq_some] at h
    obtain ⟨unescaped, h⟩ := h
    obtain ⟨value, read, h⟩ := Option.bind_eq_some_iff.mp h
    obtain ⟨filled, ⟨⟩⟩ := Option.ite_none_left_eq_some.mp h
    obtain ⟨t, rfl, rfl, rfl⟩ := exists_writtenTag read (by simpa using filled) cut.blank_gap
    refine ⟨t, ⟨before, trail, ?_, cut.blank_trail, unescaped⟩, cut.last, rfl⟩
    rw [cut.whole, t.chars_append]
    simp
  · rintro ⟨t, ⟨before, trail, whole, blank, unescaped⟩, last, rfl⟩
    rw [(t.tagCut last whole blank).sequenceTag?_eq, if_neg unescaped,
      t.tagValue?_inner, Option.bind_some, if_neg (by simpa using t.filled)]

namespace WrittenTag

variable {t u : WrittenTag} {text : List Char}

private theorem Ends.inner_eq (ends : t.Ends text) (last : ¬ tagOpening <:+: t.inner)
    (ends' : u.Ends text) (last' : ¬ tagOpening <:+: u.inner) : t.inner = u.inner := by
  obtain ⟨_, _, whole, blank, -⟩ := ends
  obtain ⟨_, _, whole', blank', -⟩ := ends'
  exact (t.tagCut last whole blank).after_unique (u.tagCut last' whole' blank')

/-- Of two tags that a text ends with, the one with a further opening has the longer value: the
other begins at the last opening in it. -/
theorem Ends.length_lt (ends : t.Ends text) (last : ¬ tagOpening <:+: t.inner) (ends' : u.Ends text)
    (further : tagOpening <:+: u.inner) : t.value.length < u.value.length := by
  obtain ⟨_, _, whole, blank, -⟩ := ends
  obtain ⟨before, trail, whole', blank', -⟩ := ends'
  have found : lastOpening? u.inner ≠ none := fun none => lastOpening?_eq_none_iff.mp none further
  obtain ⟨⟨front, after⟩, opened⟩ := Option.ne_none_iff_exists'.mp found
  obtain ⟨shape, last'⟩ := lastOpening?_eq_some_iff.mp opened
  have solid : Text.EndsSolid (tagOpening ++ after) := by
    have whole := u.endsSolid_inner
    rw [shape, Text.endsSolid_append (by simp [tagOpening_ne_nil])] at whole
    exact whole
  have cut : TagCut text (before ++ tagOpening ++ front) after u.gap trail :=
    ⟨by rw [whole', u.chars_append, shape]; simp, u.blank_gap, blank', solid, last'⟩
  have same := (t.tagCut last whole blank).after_unique cut
  have longer : u.inner.length = front.length + (5 + after.length) := by
    rw [shape, List.length_append, List.length_append]
    rfl
  have short := t.length_inner
  have long := u.length_inner
  rw [same] at short
  omega

end WrittenTag

/-- On these texts, and on no others, the tag that is read is the one that closes the line. -/
theorem reads_closing_tag_iff (text : String) :
    (∀ v, sequenceTag? text = some v ↔
      ∃ t : WrittenTag, t.Ends text.toList ∧ t.ClosesFirst ∧ String.ofList t.value = v) ↔
    ∀ t : WrittenTag, t.Ends text.toList → (t.ClosesFirst ↔ ¬ tagOpening <:+: t.inner) := by
  constructor
  · intro reads t ends
    constructor
    · intro closes
      obtain ⟨u, ends', last, same⟩ :=
        sequenceTag?_eq_some_iff.mp ((reads _).mpr ⟨t, ends, closes, rfl⟩)
      have shorter := fun further => WrittenTag.Ends.length_lt ends' last ends further
      rw [String.ofList_injective same] at shorter
      exact fun further => Nat.lt_irrefl _ (shorter further)
    · intro last
      obtain ⟨u, ends', closes, same⟩ :=
        (reads _).mp (sequenceTag?_eq_some_iff.mpr ⟨t, ends, last, rfl⟩)
      have values := String.ofList_injective same
      have last' : ¬ tagOpening <:+: u.inner := by
        intro further
        have shorter := WrittenTag.Ends.length_lt ends last ends' further
        rw [values] at shorter
        exact Nat.lt_irrefl _ shorter
      have quotes :=
        WrittenTag.quotes_eq_of_inner_eq (WrittenTag.Ends.inner_eq ends last ends' last')
      unfold WrittenTag.ClosesFirst
      rw [quotes, ← values]
      exact closes
  · intro agree v
    rw [sequenceTag?_eq_some_iff]
    refine exists_congr fun t => and_congr_right fun ends => ?_
    rw [agree t ends]

/-- In a text with no brackets but those of one tag, that tag closes the line. -/
theorem closesFirst_iff_of_count {text : List Char} (opens : text.count '[' ≤ 1)
    (closes : text.count ']' ≤ 1) (t : WrittenTag) (ends : t.Ends text) :
    t.ClosesFirst ↔ ¬ tagOpening <:+: t.inner := by
  obtain ⟨before, trail, whole, -⟩ := ends
  have count (c : Char) : text.count c = before.count c + (tagOpening.count c + (t.inner.count c +
      (t.gap.count c + tagClosing.count c + trail.count c))) := by
    rw [whole, t.chars_append]
    simp only [List.count_append]
  have single : tagOpening.count '[' = 1 ∧ tagClosing.count ']' = 1 := by decide
  have noOpening : '[' ∉ t.inner := List.count_eq_zero.mp (by have := count '['; omega)
  have noClosing : ']' ∉ t.inner := List.count_eq_zero.mp (by have := count ']'; omega)
  refine iff_of_true (fun gap _ found => noClosing ?_) fun found =>
    noOpening (found.subset (by decide))
  exact List.mem_append_left _ (List.mem_append_right _ (found.subset (by simp)))

section TwoTags

/-! A tag and, behind its closing, another one that closes the line. -/

variable {v q w : List Char}

/-- All that stands between the opening of the first tag and the closing of the second. -/
def overrun (v q w : List Char) : List Char :=
  v ++ tagClosing ++ q ++ '[' :: w

private theorem endsSolid_overrun (word : ∀ c ∈ w, c ≠ '=' ∧ Text.isBlank c = false) :
    Text.EndsSolid (tagOpening ++ overrun v q w) := by
  rw [overrun, ← List.append_assoc, Text.endsSolid_append (List.cons_ne_nil _ _)]
  intro c member
  rcases List.mem_cons.mp (List.mem_of_mem_getLast? member) with rfl | member
  · decide
  · exact (word c member).2

private theorem not_infix_overrun (plain : ∀ c ∈ v, c ∉ ['[', ']', '"'])
    (last : ¬ tagOpening <:+: q) (word : ∀ c ∈ w, c ≠ '=' ∧ Text.isBlank c = false) :
    ¬ tagOpening <:+: overrun v q w := by
  have behind : '=' ∉ '[' :: w := by
    intro member
    rcases List.mem_cons.mp member with same | member
    · cases same
    · exact (word '=' member).1 rfl
  have before : '[' ∉ v ++ tagClosing := by
    intro member
    rcases List.mem_append.mp member with member | member
    · exact plain '[' member List.mem_cons_self
    · revert member
      decide
  exact fun found => last (infix_of_not_mem_front before (opening_infix_of_append behind found))

private theorem tagValue?_overrun (plain : ∀ c ∈ v, c ∉ ['[', ']', '"'])
    (word : ∀ c ∈ w, c ≠ '=' ∧ Text.isBlank c = false) :
    tagValue? (overrun v q w) = if (v ++ q).any Text.isBlank then none
      else some (overrun v q w) := by
  have unquoted : ∀ rest, overrun v q w ≠ '"' :: rest := by
    intro rest same
    cases v with
    | nil => cases same
    | cons c v =>
      obtain ⟨rfl, -⟩ := List.cons.inj same
      exact plain '"' List.mem_cons_self (by decide)
  have blanks : (overrun v q w).any Text.isBlank = (v ++ q).any Text.isBlank := by
    have solid : w.any Text.isBlank = false :=
      List.any_eq_false.mpr fun c member => by simp [(word c member).2]
    have closing : tagClosing.any Text.isBlank = false := by decide
    have bracket : Text.isBlank '[' = false := by decide
    simp [overrun, solid, closing, bracket, -List.any_eq_true, -List.any_eq_false]
  unfold tagValue?
  split
  · next rest starts => exact absurd starts (unquoted rest)
  · rw [blanks]

/-- The first tag is read through its closing, unless a blank comes before the second. -/
theorem sequenceTag?_overrun {text : String} {p : List Char}
    (whole : text.toList = p ++ tagOpening ++ overrun v q w ++ tagClosing)
    (plain : ∀ c ∈ v, c ∉ ['[', ']', '"']) (last : ¬ tagOpening <:+: q)
    (word : ∀ c ∈ w, c ≠ '=' ∧ Text.isBlank c = false) : sequenceTag? text =
      if p.getLast? = some '\\' ∨ (v ++ q).any Text.isBlank then none
      else some (String.ofList (overrun v q w)) := by
  have cut : TagCut text.toList p (overrun v q w) [] [] :=
    ⟨by rw [whole]; simp, nofun, nofun, endsSolid_overrun word, not_infix_overrun plain last word⟩
  have filled : (overrun v q w).isEmpty = false := by simp [overrun]
  rw [cut.sequenceTag?_eq, tagValue?_overrun plain word, ite_or]
  congr 1
  split
  · rfl
  · rw [Option.bind_some, filled, if_neg Bool.false_ne_true]

end TwoTags

/-- A text is read by the tag that begins at its last opening and ends with its last closing. This
is the tag that closes the line just if closings and openings agree in every tag that the text may
end with. They do not if another tag closes the line: then a tag without quotes goes on to the
closing of that one, if no blank keeps them apart. -/
theorem sequenceTag_reads_last_opening (text : String) :
    (∀ v, sequenceTag? text = some v ↔ ∃ t : WrittenTag, t.Ends text.toList ∧
      ¬ "[seq=".toList <:+: t.inner ∧ String.ofList t.value = v) ∧
    ((∀ v, sequenceTag? text = some v ↔
        ∃ t : WrittenTag, t.Ends text.toList ∧ t.ClosesFirst ∧ String.ofList t.value = v) ↔
      ∀ t : WrittenTag, t.Ends text.toList → (t.ClosesFirst ↔ ¬ "[seq=".toList <:+: t.inner)) ∧
    ∀ p v q w : List Char,
      text.toList = p ++ "[seq=".toList ++ (v ++ "/]".toList ++ q ++ '[' :: w) ++ "/]".toList →
      (∀ c ∈ v, c ∉ ['[', ']', '"']) → ¬ "[seq=".toList <:+: q →
      (∀ c ∈ w, c ≠ '=' ∧ Text.isBlank c = false) →
      sequenceTag? text =
        if p.getLast? = some '\\' ∨ (v ++ q).any Text.isBlank then none
        else some (String.ofList (v ++ "/]".toList ++ q ++ '[' :: w)) :=
  ⟨fun _ => sequenceTag?_eq_some_iff, reads_closing_tag_iff text,
    fun _ _ _ _ => sequenceTag?_overrun⟩

namespace Sample

private theorem fade_ne_nil : "Fade (in)".toList ≠ [] := by
  decide

private theorem blank_space : Text.Blank [' '] := by
  simp [Text.Blank, Text.isBlank]

def quotedTag : WrittenTag :=
  ⟨"Fade (in)".toList, [' '], true, fade_ne_nil, blank_space, Bool.noConfusion⟩

private theorem quotedTag_ends : quotedTag.Ends "Run! [seq=\"Fade (in)\" /]\t".toList :=
  ⟨"Run! ".toList, ['\t'], by decide +kernel, by simp [Text.Blank, Text.isBlank], by decide⟩

end Sample

/-- The first text holds one tag, which closes it. In the second text another tag follows, and the
sequence is read through its own closing. -/
theorem sequenceTag_reads_last_opening_sample :
    sequenceTag? "Run! [seq=\"Fade (in)\" /]\t" = some "Fade (in)" ∧
    (∃ t : WrittenTag, t.Ends "Run! [seq=\"Fade (in)\" /]\t".toList ∧ t.ClosesFirst ∧
      String.ofList t.value = "Fade (in)") ∧
    sequenceTag? "Run! [seq=Fade(in)/][wave/]" = some "Fade(in)/][wave" := by
  obtain ⟨reads, agrees, -⟩ := sequenceTag_reads_last_opening "Run! [seq=\"Fade (in)\" /]\t"
  have read : sequenceTag? "Run! [seq=\"Fade (in)\" /]\t" = some "Fade (in)" :=
    (reads _).mpr ⟨Sample.quotedTag, Sample.quotedTag_ends, by decide +kernel, by decide +kernel⟩
  have closing := agrees.mpr (closesFirst_iff_of_count (by decide +kernel) (by decide +kernel))
  have overrun := (sequenceTag_reads_last_opening "Run! [seq=Fade(in)/][wave/]").2.2 "Run! ".toList
    "Fade(in)".toList [] "wave".toList (by decide +kernel) (by simp) (by decide)
      (by simp [Text.isBlank])
  rw [if_neg (by decide +kernel)] at overrun
  have value : String.ofList ("Fade(in)".toList ++ "/]".toList ++ [] ++ '[' :: "wave".toList) =
      "Fade(in)/][wave" := by decide +kernel
  rw [value] at overrun
  exact ⟨read, (closing _).mp read, overrun⟩

end Line

end Dialogue
