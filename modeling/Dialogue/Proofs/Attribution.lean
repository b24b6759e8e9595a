import Dialogue.Line.Speaker
import Dialogue.Proofs.Trimming

/-!
Lines that name their speaker. Such a line is an `Attribution`: a name between blanks, a colon, at
least one blank, and what is said. `speakerAndRest_cuts` says that the speaker and the rest of a
text are those of its attribution, that it has at most one, and that a text without one is left as
it is.
-/

set_option autoImplicit false
set_option relaxedAutoImplicit false

namespace Dialogue.Line

/-- A text that names its speaker, in its parts. -/
@[ext]
structure Attribution where
  lead : List Char
  name : List Char
  gap : List Char
  pause : List Char
  speech : List Char
  blank_lead : Text.Blank lead
  blank_gap : Text.Blank gap
  blank_pause : Text.Blank pause
  paused : pause ≠ []
  named : name ≠ []
  trimmed : Text.StartsSolid name ∧ Text.EndsSolid name
  plain : ∀ c ∈ name, c ∉ [':', '[', ']', '{', '}', '<', '>', '"']
  begun : Text.StartsSolid speech

private theorem ne_colon_of_isBlank {c : Char} (blank : Text.isBlank c = true) : c ≠ ':' := by
  rintro rfl
  revert blank
  decide

/-- The characters that no name holds are the colon and those of markup. -/
theorem plain_iff {c : Char} :
    c ∉ [':', '[', ']', '{', '}', '<', '>', '"'] ↔ c ≠ ':' ∧ isMarkup c = false := by
  simp [isMarkup, and_assoc]

namespace Attribution

def text (a : Attribution) : String :=
  String.ofList (a.lead ++ a.name ++ a.gap ++ [':'] ++ a.pause ++ a.speech)

/-- The name with the blanks around it. -/
def front (a : Attribution) : List Char :=
  a.lead ++ (a.name ++ a.gap)

private theorem toList_text (a : Attribution) :
    a.text.toList = a.front ++ ':' :: (a.pause ++ a.speech) := by
  simp [text, front]

private theorem ne_colon_of_mem_front (a : Attribution) {c : Char} (member : c ∈ a.front) :
    c ≠ ':' := by
  rw [front, List.mem_append, List.mem_append] at member
  rcases member with member | member | member
  · exact ne_colon_of_isBlank (a.blank_lead c member)
  · exact (plain_iff.mp (a.plain c member)).1
  · exact ne_colon_of_isBlank (a.blank_gap c member)

/-- The first colon of the text is the one behind the name. -/
theorem span_text (a : Attribution) : a.text.toList.takeWhile (· ≠ ':') = a.front ∧
    a.text.toList.dropWhile (· ≠ ':') = ':' :: (a.pause ++ a.speech) := by
  have before : ∀ c ∈ a.front, decide (c ≠ ':') = true := fun c member =>
    decide_eq_true (a.ne_colon_of_mem_front member)
  rw [a.toList_text, List.takeWhile_append_of_pos before, List.dropWhile_append_of_pos before]
  simp

private theorem trim_front (a : Attribution) : Text.trim a.front = a.name :=
  (Text.trim_eq_iff a.named).mpr ⟨_, _, rfl, a.blank_lead, a.blank_gap, a.trimmed.1, a.trimmed.2⟩

private theorem unmarked (a : Attribution) : a.name.any isMarkup = false := by
  refine List.any_eq_false.mpr fun c member => ?_
  simp [(plain_iff.mp (a.plain c member)).2]

private theorem speaker?_text (a : Attribution) :
    speaker? a.text.toList = some (a.name, a.speech) := by
  obtain ⟨front, back⟩ := a.span_text
  have spoken : Text.trimStart (a.pause ++ a.speech) = a.speech :=
    Text.trimStart_eq_iff.mpr ⟨_, rfl, a.blank_pause, a.begun⟩
  cases pause : a.pause with
  | nil => exact absurd pause a.paused
  | cons c rest =>
    have blank : Text.isBlank c = true := a.blank_pause c (pause ▸ List.mem_cons_self)
    rw [pause, List.cons_append] at back spoken
    rw [speaker?, front, back, a.trim_front]
    simp [blank, a.unmarked, a.named, spoken]

/-- The name and its blanks end at the first colon, and both sides of it are cut in one way only. -/
theorem eq_of_text_eq {a b : Attribution} (same : a.text = b.text) : a = b := by
  obtain ⟨front, back⟩ := a.span_text
  rw [same, b.span_text.1] at front
  rw [same, b.span_text.2, List.cons_inj_right] at back
  have starts (a : Attribution) : Text.StartsSolid (a.name ++ a.gap) :=
    (Text.startsSolid_append a.named _).mpr a.trimmed.1
  obtain ⟨lead, middle⟩ :=
    Text.lead_unique a.blank_lead (starts a) b.blank_lead (starts b) front.symm
  obtain ⟨name, gap⟩ := Text.trail_unique a.blank_gap a.trimmed.2 b.blank_gap b.trimmed.2 middle
  obtain ⟨pause, speech⟩ := Text.lead_unique a.blank_pause a.begun b.blank_pause b.begun back.symm
  exact Attribution.ext lead name gap pause speech

end Attribution

private theorem exists_attribution {text : String} {name speech : List Char}
    (h : speaker? text.toList = some (name, speech)) :
    ∃ a : Attribution, a.text = text ∧ a.name = name ∧ a.speech = speech := by
  unfold speaker? at h
  dsimp only at h
  split at h
  · next colon c rest dropped =>
    obtain ⟨sound, h⟩ := Option.ite_none_right_eq_some.mp h
    obtain ⟨trimmed, started⟩ := Prod.mk.inj (Option.some.inj h)
    rw [trimmed] at sound
    simp only [Bool.and_eq_true, Bool.not_eq_true', List.isEmpty_eq_false_iff, List.any_eq_false]
      at sound
    obtain ⟨⟨blank, named⟩, unmarked⟩ := sound
    obtain ⟨lead, gap, front, blank_lead, blank_gap, solid⟩ := (Text.trim_eq_iff named).mp trimmed
    obtain ⟨pause, back, blank_pause, begun⟩ := Text.trimStart_eq_iff.mp started
    have before : ∀ c ∈ text.toList.takeWhile (· ≠ ':'), c ≠ ':' := fun c member =>
      of_decide_eq_true (List.all_eq_true.mp List.all_takeWhile c member)
    obtain rfl : colon = ':' := by
      obtain ⟨-, -, -, stops⟩ := Text.dropWhile_eq_iff.mp dropped
      simpa using stops colon rfl
    have paused : pause ≠ [] := by
      rintro rfl
      rw [begun c (by rw [← List.nil_append speech, ← back]; rfl)] at blank
      exact Bool.false_ne_true blank
    have plain : ∀ c ∈ name, c ∉ [':', '[', ']', '{', '}', '<', '>', '"'] := by
      intro c member
      have other := before c (by rw [front]; simp [member])
      exact plain_iff.mpr ⟨other, by simpa using unmarked c member⟩
    refine ⟨⟨lead, name, gap, pause, speech, blank_lead, blank_gap, blank_pause, paused,
      named, solid, plain, begun⟩, ?_, rfl, rfl⟩
    rw [← String.toList_inj, Attribution.toList_text, Attribution.front, ← front, ← back, ← dropped,
      List.takeWhile_append_dropWhile]
  · cases h

/-- The speaker and the rest of a text are those of its attribution. There is at most one, and if
there is none, no speaker is found and the text stays as it is. -/
theorem speakerAndRest_cuts (text : String) :
    (∀ name rest, speakerAndRest text = (some name, rest) ↔ ∃ a : Attribution,
      a.text = text ∧ String.ofList a.name = name ∧ String.ofList a.speech = rest) ∧
    (∀ a b : Attribution, a.text = text → b.text = text → a = b) ∧
    ((¬ ∃ a : Attribution, a.text = text) → speakerAndRest text = (none, text)) := by
  have found (a : Attribution) (same : a.text = text) :
      speakerAndRest text = (some (String.ofList a.name), String.ofList a.speech) := by
    rw [speakerAndRest, ← same, a.speaker?_text]
  refine ⟨fun name rest => ⟨fun h => ?_, ?_⟩,
    fun a b one two => Attribution.eq_of_text_eq (one.trans two.symm), fun none => ?_⟩
  · unfold speakerAndRest at h
    split at h
    · next known =>
      obtain ⟨a, same, rfl, rfl⟩ := exists_attribution known
      obtain ⟨name, rest⟩ := Prod.mk.inj h
      exact ⟨a, same, Option.some.inj name, rest⟩
    · cases h
  · rintro ⟨a, same, rfl, rfl⟩
    exact found a same
  · unfold speakerAndRest
    split
    · next known =>
      obtain ⟨a, same, -⟩ := exists_attribution known
      exact absurd ⟨a, same⟩ none
    · rfl

namespace Sample

/-- Blanks on all sides of the name and the colon, and another colon in what is said. -/
def attribution : Attribution where
  lead := [' ']
  name := ['O', 'l', 'd', ' ', 'T', 'o', 'm']
  gap := ['\t']
  pause := [' ', ' ']
  speech := ['A', 't', ' ', '9', ':', ' ', '3']
  blank_lead := by simp [Text.Blank, Text.isBlank]
  blank_gap := by simp [Text.Blank, Text.isBlank]
  blank_pause := by simp [Text.Blank, Text.isBlank]
  paused := by simp
  named := by simp
  trimmed := by simp [Text.StartsSolid, Text.EndsSolid, Text.isBlank]
  plain := by simp
  begun := by simp [Text.StartsSolid, Text.isBlank]

end Sample

theorem speakerAndRest_cuts_sample :
    speakerAndRest " Old Tom\t:  At 9: 3" = (some "Old Tom", "At 9: 3") ∧
    (∀ a : Attribution, a.text = " Old Tom\t:  At 9: 3" → a = Sample.attribution) ∧
    (¬ ∃ a : Attribution, a.text = "At 9:30") ∧ speakerAndRest "At 9:30" = (none, "At 9:30") := by
  have written : Sample.attribution.text = " Old Tom\t:  At 9: 3" := by decide +kernel
  have none : ¬ ∃ a : Attribution, a.text = "At 9:30" := by
    rintro ⟨a, same⟩
    have silent : speaker? "At 9:30".toList = none := by decide +kernel
    have found := a.speaker?_text
    rw [same, silent] at found
    cases found
  obtain ⟨finds, unique, -⟩ := speakerAndRest_cuts " Old Tom\t:  At 9: 3"
  exact ⟨(finds _ _).mpr ⟨Sample.attribution, written, rfl, rfl⟩,
    fun a same => unique a _ same written, none, (speakerAndRest_cuts "At 9:30").2.2 none⟩

end Dialogue.Line
