import Dialogue.Compile
import Mathlib.Data.List.Induction
import Mathlib.Data.List.Nodup

/-!
The ids of nodes. A `Compile.Site` is a node with the nodes of the project that come before it. It
is a first one if none of these has its name, and its id is one more than the number of first ones
among them. The numbering of files gives every first node this id, reports the others, and remembers
the names.
-/

set_option autoImplicit false
set_option relaxedAutoImplicit false

namespace Dialogue

namespace Dict

variable {α : Type}

private theorem lookup_cons (key other : String) (value : α) (rest : List (String × α)) :
    ((key, value) :: rest).lookup other = if other = key then some value
      else rest.lookup other := by
  by_cases same : other = key
  · simp [same]
  · simp [List.lookup_cons, same, beq_eq_false_iff_ne.mpr same]

private theorem lookup_place (key other : String) (value : α) : ∀ (entries : List (String × α)),
    (place key value entries).lookup other = if other = key then some value
      else entries.lookup other
  | [] => lookup_cons key other value []
  | (k, v) :: rest => by
    unfold place
    split
    · exact lookup_cons key other value _
    · split
      · next same =>
        subst same
        rw [lookup_cons, lookup_cons]
        split <;> rfl
      · next different =>
        rw [lookup_cons, lookup_cons, lookup_place key other value rest]
        by_cases here : other = k
        · subst here
          rw [if_pos rfl, if_neg (Ne.symm different), if_pos rfl]
        · rw [if_neg here, if_neg here]

private theorem get?_insert (d : Dict α) (key other : String) (value : α) :
    (d.insert key value).get? other = if other = key then some value else d.get? other :=
  lookup_place key other value d.entries

private theorem contains_insert (d : Dict α) (key other : String) (value : α) :
    (d.insert key value).contains other = (decide (other = key) || d.contains other) := by
  rw [contains, get?_insert]
  by_cases here : other = key <;> simp [here, contains]

end Dict

namespace Compile

/-- A node with the nodes of the project before it. -/
@[ext]
structure Site where
  earlier : List Script
  script : Script

/-- Whether no node before has the same name. -/
def Site.isFirst (site : Site) : Bool :=
  site.earlier.all fun s => s.name ≠ site.script.name

/-- Nodes with those before them, given the nodes before all of them. -/
def sites (earlier : List Script) : List Script → List Site
  | [] => []
  | s :: rest => ⟨earlier, s⟩ :: sites (earlier ++ [s]) rest

/-- The nodes of a list that are the first of their names. -/
def firsts (scripts : List Script) : List Site :=
  (sites [] scripts).filter Site.isFirst

/-- The id of a node: one more than the number of first nodes before it. -/
def Site.id (site : Site) : Nat :=
  1 + (firsts site.earlier).length

/-- A node with its id if it is the first of its name. -/
def Site.numbered (site : Site) : Script × Option Nat :=
  (site.script, if site.isFirst then some site.id else none)

private theorem sites_append (earlier first : List Script) (second : List Script) :
    sites earlier (first ++ second) = sites earlier first ++ sites (earlier ++ first) second := by
  induction first generalizing earlier with
  | nil => simp [sites]
  | cons s rest ih => simp [sites, ih]

private theorem firsts_append_singleton (scripts : List Script) (s : Script) :
    firsts (scripts ++ [s]) =
      firsts scripts ++ if Site.isFirst ⟨scripts, s⟩ then [⟨scripts, s⟩] else [] := by
  rw [firsts, firsts, sites_append, List.filter_append]
  congr 1
  exact List.filter_cons

theorem script_mem_of_mem_sites {earlier scripts : List Script} {site : Site}
    (member : site ∈ sites earlier scripts) : site.script ∈ scripts := by
  induction scripts generalizing earlier with
  | nil => cases member
  | cons s rest ih =>
    rcases List.mem_cons.mp member with rfl | member
    · exact List.mem_cons_self
    · exact List.mem_cons_of_mem _ (ih member)

/-- The ids of the first nodes count up from one. -/
theorem ids_firsts (scripts : List Script) :
    (firsts scripts).map Site.id = List.range' 1 (firsts scripts).length := by
  induction scripts using List.reverseRecOn with
  | nil => rfl
  | append_singleton scripts s ih =>
    rw [firsts_append_singleton]
    split
    · rw [List.map_append, ih, List.length_append, List.range'_append_1.symm]
      rfl
    · rw [List.append_nil, ih]

/-- No two first nodes have the same name. -/
theorem nodup_names_firsts (scripts : List Script) :
    ((firsts scripts).map fun site => site.script.name).Nodup := by
  induction scripts using List.reverseRecOn with
  | nil => exact .nil
  | append_singleton scripts s ih =>
    rw [firsts_append_singleton]
    split
    · next isFirst =>
      rw [List.map_append, List.nodup_append]
      refine ⟨ih, by simp, ?_⟩
      intro name old name' new
      obtain ⟨site, member, rfl⟩ := List.mem_map.mp old
      obtain rfl := List.mem_singleton.mp new
      have before := script_mem_of_mem_sites (List.mem_filter.mp member).1
      simpa using List.all_eq_true.mp isFirst site.script before
    · rwa [List.append_nil]

private theorem firsts_mono {first second : List Script} (h : first <+: second) :
    firsts first <+: firsts second := by
  obtain ⟨rest, rfl⟩ := h
  rw [firsts, firsts, sites_append, List.filter_append]
  exact List.prefix_append _ _

theorem prefix_of_mem_sites {earlier scripts : List Script} {site : Site}
    (member : site ∈ sites earlier scripts) :
    site.earlier ++ [site.script] <+: earlier ++ scripts := by
  induction scripts generalizing earlier with
  | nil => cases member
  | cons s rest ih =>
    rcases List.mem_cons.mp member with rfl | member
    · exact ⟨rest, by simp⟩
    · simpa using ih member

theorem nodup_sites (earlier scripts : List Script) : (sites earlier scripts).Nodup := by
  have places : (sites earlier scripts).map (fun site => site.earlier.length) =
      List.range' earlier.length scripts.length := by
    induction scripts generalizing earlier with
    | nil => rfl
    | cons s rest ih => simp [sites, ih, List.range'_succ]
  refine List.Nodup.of_map (fun site => site.earlier.length) ?_
  rw [places]
  exact List.nodup_range'

/-- The name and the id of a first node are those of no other node. -/
theorem eq_of_isFirst {scripts : List Script} {site other : Site} (member : site ∈ sites [] scripts)
    (member' : other ∈ sites [] scripts) (isFirst : other.isFirst = true)
    (name : other.script.name = site.script.name) (id : other.id = site.id) : other = site := by
  have here := prefix_of_mem_sites member
  have there := prefix_of_mem_sites member'
  -- The node either stands before the first one, which then is not the first, or after it, and then
  -- has a higher id.
  rcases Nat.lt_trichotomy site.earlier.length other.earlier.length with lt | same | gt
  · have before : site.earlier ++ [site.script] <+: other.earlier :=
      List.prefix_of_prefix_length_le here ((List.prefix_append _ _).trans there) (by simp; omega)
    have known : site.script ∈ other.earlier := before.subset (by simp)
    have different := List.all_eq_true.mp isFirst site.script known
    simp [name] at different
  · have equal := List.prefix_of_prefix_length_le there here (by simp [same])
    obtain ⟨earlier, script⟩ := List.append_inj (equal.eq_of_length (by simp [same])) same.symm
    exact Site.ext earlier (List.singleton_inj.mp script)
  · have before : other.earlier ++ [other.script] <+: site.earlier :=
      List.prefix_of_prefix_length_le there ((List.prefix_append _ _).trans here) (by simp; omega)
    have more := (firsts_mono before).length_le
    rw [firsts_append_singleton,
      show Site.isFirst ⟨other.earlier, other.script⟩ = true from isFirst]
      at more
    simp only [Site.id] at id
    simp only [if_true, List.length_append, List.length_singleton] at more
    omega

/-- A file with its nodes where they stand in the project. -/
structure SitedFile where
  file : ScriptFile
  sites : List Site

/-- Files with their nodes, given the nodes of the files before. -/
def sitedFiles (earlier : List Script) : List ScriptFile → List SitedFile
  | [] => []
  | file :: rest => ⟨file, sites earlier file.scripts⟩ :: sitedFiles (earlier ++ file.scripts) rest

/-- The reports of the nodes of a file whose names are taken. -/
def SitedFile.duplicates (f : SitedFile) : List Diagnostic :=
  (f.sites.filter fun site => !site.isFirst).map fun site => duplicate f.file.file site.script

theorem sites_sitedFiles (earlier : List Script) (files : List ScriptFile) :
    (sitedFiles earlier files).flatMap SitedFile.sites =
      sites earlier (files.flatMap ScriptFile.scripts) := by
  induction files generalizing earlier with
  | nil => rfl
  | cons file rest ih => simp [sitedFiles, sites_append, ih]

/-- What a numbering knows once it has met some nodes. -/
structure Numbering.Covers (n : Numbering) (met : List Script) : Prop where
  next : n.next = 1 + (firsts met).length
  known : ∀ name, n.ids.contains name = met.any fun s => s.name = name
  found : ∀ name id, n.ids.get? name = some id ↔ ∃ site ∈ firsts met,
    site.script.name = name ∧ site.id = id

theorem covers_empty : Numbering.Covers {} [] where
  next := rfl
  known _ := rfl
  found _ _ := ⟨nofun, nofun⟩

private theorem Numbering.Covers.contains_eq {n : Numbering} {met : List Script}
    (covers : n.Covers met) (s : Script) : n.ids.contains s.name = !Site.isFirst ⟨met, s⟩ := by
  rw [covers.known, Site.isFirst, List.not_all_eq_any_not]
  simp

private theorem Numbering.Covers.duplicate {n : Numbering} {met : List Script}
    (covers : n.Covers met) {s : Script} (taken : Site.isFirst ⟨met, s⟩ = false)
    (reports : List Diagnostic) :
    Numbering.Covers { n with reports := reports } (met ++ [s]) where
  next := by
    rw [firsts_append_singleton, taken]
    simpa using covers.next
  known name := by
    have here := covers.contains_eq s
    rw [taken, covers.known] at here
    rw [covers.known, List.any_append]
    by_cases same : s.name = name
    · subst same
      simp [here]
    · simp [same]
  found name id := by
    rw [firsts_append_singleton, taken]
    simpa using covers.found name id

private theorem Numbering.Covers.first {n : Numbering} {met : List Script} (covers : n.Covers met)
    {s : Script} (isFirst : Site.isFirst ⟨met, s⟩ = true) :
    Numbering.Covers { n with ids := n.ids.insert s.name n.next, next := n.next + 1 }
      (met ++ [s]) where
  next := by
    rw [firsts_append_singleton, isFirst]
    simp [covers.next]
    omega
  known name := by
    rw [Dict.contains_insert, covers.known, List.any_append, Bool.or_comm]
    simp [eq_comm]
  found name id := by
    have earlier : ∀ site ∈ firsts met, site.script.name ≠ s.name := by
      intro site member
      have listed := script_mem_of_mem_sites (List.mem_filter.mp member).1
      simpa using List.all_eq_true.mp isFirst site.script listed
    rw [firsts_append_singleton, isFirst, if_pos rfl, Dict.get?_insert]
    by_cases same : name = s.name
    · rw [if_pos same]
      constructor
      · intro here
        refine ⟨⟨met, s⟩, List.mem_append_right _ List.mem_cons_self, same.symm, ?_⟩
        rw [Site.id, ← covers.next]
        exact Option.some.inj here
      · rintro ⟨site, member, named, rfl⟩
        rcases List.mem_append.mp member with member | member
        · exact absurd (named.trans same) (earlier site member)
        · rw [List.mem_singleton.mp member, Site.id, ← covers.next]
    · rw [if_neg same, covers.found]
      constructor
      · rintro ⟨site, member, rest⟩
        exact ⟨site, List.mem_append_left _ member, rest⟩
      · rintro ⟨site, member, named, rest⟩
        rcases List.mem_append.mp member with member | member
        · exact ⟨site, member, named, rest⟩
        · rw [List.mem_singleton.mp member] at named
          exact absurd named.symm same

/-- The nodes of a file get their ids, and those whose names are taken are reported. -/
theorem number_eq (file : String) : ∀ (scripts : List Script) {n : Numbering} {met : List Script},
    n.Covers met →
    (number file n scripts).2 = (sites met scripts).map Site.numbered ∧
      (number file n scripts).1.Covers (met ++ scripts) ∧
      (number file n scripts).1.reports = n.reports ++
        ((sites met scripts).filter fun site => !site.isFirst).map fun site =>
          duplicate file site.script
  | [], n, met, covers => by simpa [number, sites] using covers
  | s :: rest, n, met, covers => by
    rw [number, sites]
    cases isFirst : Site.isFirst ⟨met, s⟩ with
    | false =>
      have taken : n.ids.contains s.name = true := by simp [covers.contains_eq, isFirst]
      obtain ⟨numbered, later, reports⟩ := number_eq file rest
        (covers.duplicate isFirst (n.reports ++ [duplicate file s]))
      rw [if_pos taken]
      refine ⟨?_, ?_, ?_⟩
      · simp [numbered, Site.numbered, isFirst]
      · simpa using later
      · simp [reports, isFirst]
    | true =>
      have free : n.ids.contains s.name = false := by simp [covers.contains_eq, isFirst]
      obtain ⟨numbered, later, reports⟩ := number_eq file rest (covers.first isFirst)
      rw [if_neg (by simp [free])]
      refine ⟨?_, ?_, ?_⟩
      · simp [numbered, Site.numbered, isFirst, Site.id, ← covers.next]
      · simpa using later
      · simp [reports, isFirst]

/-- The nodes of all files get their ids, and those whose names are taken are reported. -/
theorem numberFiles_eq : ∀ (files : List ScriptFile) {n : Numbering} {met : List Script},
    n.Covers met →
    (numberFiles n files).2 =
        (sitedFiles met files).map (fun f => (f.file, f.sites.map Site.numbered)) ∧
      (numberFiles n files).1.reports = n.reports ++
        (sitedFiles met files).flatMap SitedFile.duplicates
  | [], n, met, _ => by simp [numberFiles, sitedFiles]
  | file :: rest, n, met, covers => by
    obtain ⟨numbered, later, reports⟩ := number_eq file.file file.scripts covers
    obtain ⟨others, more⟩ := numberFiles_eq rest later
    rw [numberFiles, sitedFiles]
    refine ⟨?_, ?_⟩
    · simp [numbered, others]
    · simp [more, reports, SitedFile.duplicates]

/-- The numbering of all files covers their nodes. -/
theorem numberFiles_covers : ∀ (files : List ScriptFile) {n : Numbering} {met : List Script},
    n.Covers met →
    (numberFiles n files).1.Covers (met ++ files.flatMap ScriptFile.scripts)
  | [], n, met, covers => by simpa [numberFiles] using covers
  | file :: rest, n, met, covers => by
    obtain ⟨-, later, -⟩ := number_eq file.file file.scripts covers
    rw [List.flatMap_cons, ← List.append_assoc]
    exact numberFiles_covers rest later

end Compile

end Dialogue
