import Dialogue.Text.Blank
import Mathlib.Data.List.DropRight

/-!
Texts trimmed at their ends. What a text is without the characters of one sort at its start or end
is said by a cut of the text in two, and this cut is the only one of its kind. From it follow
`trimStart_eq_iff`, `trimEnd_eq_iff` and `trim_eq_iff`; `dropSuffix?_eq_some_iff` is the same for a
fixed ending.
-/

set_option autoImplicit false
set_option relaxedAutoImplicit false

namespace Dialogue.Text

section Cuts

variable {p : Char → Bool} {cs kept : List Char}

theorem dropWhile_eq_iff : cs.dropWhile p = kept ↔ ∃ lead, cs = lead ++ kept ∧
    (∀ c ∈ lead, p c = true) ∧
    ∀ c ∈ kept.head?, p c = false := by
  constructor
  · rintro rfl
    refine ⟨cs.takeWhile p, List.takeWhile_append_dropWhile.symm,
      List.all_eq_true.mp List.all_takeWhile, fun c first => ?_⟩
    have stops := List.head?_dropWhile_not p cs
    rw [Option.mem_def.mp first] at stops
    exact stops
  · rintro ⟨lead, rfl, dropped, stops⟩
    rw [List.dropWhile_append_of_pos dropped]
    cases kept with
    | nil => rfl
    | cons c kept =>
      exact List.dropWhile_cons_of_neg (by rw [stops c rfl]; exact Bool.false_ne_true)

theorem rdropWhile_eq_iff : cs.rdropWhile p = kept ↔ ∃ trail, cs = kept ++ trail ∧
    (∀ c ∈ trail, p c = true) ∧ ∀ c ∈ kept.getLast?, p c = false := by
  rw [List.rdropWhile, List.reverse_eq_iff, dropWhile_eq_iff]
  constructor
  · rintro ⟨lead, whole, dropped, stops⟩
    refine ⟨lead.reverse, ?_, fun c member => dropped c (List.mem_reverse.mp member), ?_⟩
    · rw [List.reverse_eq_iff.mp whole, List.reverse_append, List.reverse_reverse]
    · rwa [List.head?_reverse] at stops
  · rintro ⟨trail, rfl, dropped, stops⟩
    refine ⟨trail.reverse, List.reverse_append,
      fun c member => dropped c (List.mem_reverse.mp member), ?_⟩
    rwa [List.head?_reverse]

/-- Characters of one sort are cut off a start in one way only. -/
theorem lead_unique {lead lead' kept' : List Char} (dropped : ∀ c ∈ lead, p c = true)
    (stops : ∀ c ∈ kept.head?, p c = false) (dropped' : ∀ c ∈ lead', p c = true)
    (stops' : ∀ c ∈ kept'.head?, p c = false) (same : lead ++ kept = lead' ++ kept') :
    lead = lead' ∧ kept = kept' := by
  have first : (lead ++ kept).dropWhile p = kept := dropWhile_eq_iff.mpr ⟨lead, rfl, dropped, stops⟩
  have second : (lead ++ kept).dropWhile p = kept' :=
    dropWhile_eq_iff.mpr ⟨lead', same, dropped', stops'⟩
  obtain rfl : kept = kept' := first.symm.trans second
  exact ⟨List.append_cancel_right same, rfl⟩

theorem trail_unique {trail trail' kept' : List Char} (dropped : ∀ c ∈ trail, p c = true)
    (stops : ∀ c ∈ kept.getLast?, p c = false) (dropped' : ∀ c ∈ trail', p c = true)
    (stops' : ∀ c ∈ kept'.getLast?, p c = false) (same : kept ++ trail = kept' ++ trail') :
    kept = kept' ∧ trail = trail' := by
  have first : (kept ++ trail).rdropWhile p = kept :=
    rdropWhile_eq_iff.mpr ⟨trail, rfl, dropped, stops⟩
  have second : (kept ++ trail).rdropWhile p = kept' :=
    rdropWhile_eq_iff.mpr ⟨trail', same, dropped', stops'⟩
  obtain rfl : kept = kept' := first.symm.trans second
  exact ⟨rfl, List.append_cancel_left same⟩

end Cuts

def Blank (cs : List Char) : Prop :=
  ∀ c ∈ cs, isBlank c = true

/-- A text that does not start with a blank. -/
def StartsSolid (cs : List Char) : Prop :=
  ∀ c ∈ cs.head?, isBlank c = false

/-- A text that does not end with a blank. -/
def EndsSolid (cs : List Char) : Prop :=
  ∀ c ∈ cs.getLast?, isBlank c = false

variable {cs kept : List Char}

theorem trimStart_eq_iff :
    trimStart cs = kept ↔ ∃ lead, cs = lead ++ kept ∧ Blank lead ∧ StartsSolid kept :=
  dropWhile_eq_iff

theorem trimEnd_eq_iff : trimEnd cs = kept ↔ ∃ trail, cs = kept ++ trail ∧
    Blank trail ∧ EndsSolid kept :=
  rdropWhile_eq_iff

theorem startsSolid_append (filled : kept ≠ []) (cs : List Char) :
    StartsSolid (kept ++ cs) ↔ StartsSolid kept := by
  rw [StartsSolid, List.head?_append_of_ne_nil _ filled, StartsSolid]

theorem endsSolid_append (filled : kept ≠ []) (cs : List Char) :
    EndsSolid (cs ++ kept) ↔ EndsSolid kept := by
  rw [EndsSolid, List.getLast?_append_of_ne_nil _ filled, EndsSolid]

/-- What is left of a text between its blanks, if anything is. -/
theorem trim_eq_iff (filled : kept ≠ []) :
    trim cs = kept ↔ ∃ lead trail, cs = lead ++ (kept ++ trail) ∧
    Blank lead ∧ Blank trail ∧ StartsSolid kept ∧ EndsSolid kept := by
  rw [trim, trimEnd_eq_iff]
  constructor
  · rintro ⟨trail, started, blankTrail, ends⟩
    obtain ⟨lead, whole, blankLead, starts⟩ := trimStart_eq_iff.mp started
    exact ⟨lead, trail, whole, blankLead, blankTrail,
      (startsSolid_append filled trail).mp starts, ends⟩
  · rintro ⟨lead, trail, whole, blankLead, blankTrail, starts, ends⟩
    refine ⟨trail, trimStart_eq_iff.mpr ⟨lead, whole, blankLead, ?_⟩, blankTrail, ends⟩
    exact (startsSolid_append filled trail).mpr starts

theorem dropSuffix?_eq_some_iff {ending rest : List Char} :
    dropSuffix? ending cs = some rest ↔ cs = rest ++ ending := by
  rw [dropSuffix?, Option.ite_none_right_eq_some, List.isSuffixOf_iff_suffix, Option.some_inj]
  constructor
  · rintro ⟨⟨front, rfl⟩, rfl⟩
    rw [List.length_append, Nat.add_sub_cancel, List.take_left]
  · rintro rfl
    exact ⟨List.suffix_append rest ending, by rw [List.length_append,
      Nat.add_sub_cancel, List.take_left]⟩

end Dialogue.Text
