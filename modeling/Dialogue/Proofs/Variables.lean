import Dialogue.Proofs.Registration
import Mathlib.Data.List.Forall2

/-!
The variables after registration. They are those that were there, then one for each new name that is
declared, then one for each further name that is set, both in name order. Of several declarations of
a name the first in the source counts, because sorting by name keeps the order of sites with one
name; each declaration of another type than the stored one is reported.
-/

set_option autoImplicit false
set_option relaxedAutoImplicit false

namespace Dialogue

open Script

/-- The value that a variable starts with is of its type. -/
def Variable.IsTyped (v : Variable) : Prop :=
  match v.kind with
  | .boolean => ∃ b, v.initialValue = .bool b
  | .number => ∃ n, v.initialValue = .num n
  | .text => ∃ s, v.initialValue = .str s

private theorem Variable.numberValue_num (x : Float) : ∃ n, numberValue x = .num n := by
  unfold numberValue
  cases whole? x with
  | some n => exact ⟨_, rfl⟩
  | none =>
    simp only
    split <;> exact ⟨_, rfl⟩

private theorem Variable.isTyped_infer (name : String) (payload : Option Expression) :
    IsTyped ⟨name, (infer payload).1, (infer payload).2⟩ := by
  unfold infer
  split
  · exact ⟨_, rfl⟩
  · exact ⟨_, rfl⟩
  · exact numberValue_num _
  · exact ⟨_, rfl⟩
  · exact ⟨_, rfl⟩
  · exact ⟨_, rfl⟩

namespace Database

/-- Variables in name order, one for each name of a set, and each as a rule says. -/
structure Lists (named : String → Prop) (rule : Variable → Prop) (vs : List Variable) : Prop where
  increasing : vs.Pairwise fun v w => v.name < w.name
  mem_names : ∀ name, name ∈ vs.map Variable.name ↔ named name
  each : ∀ v ∈ vs, rule v

private theorem findVariable?_isSome_iff {db : Database} {name : String} :
    (db.findVariable? name).isSome = true ↔ name ∈ db.declarations.map Variable.name := by
  simp [findVariable?]

private theorem declarations_define (db : Database) (v : Variable) : (db.define v).declarations =
    if v.name ∈ db.declarations.map Variable.name then db.declarations
    else db.declarations ++ [v] := by
  by_cases taken : v.name ∈ db.declarations.map Variable.name
  · rw [if_pos taken, define, containsVariable, if_pos (findVariable?_isSome_iff.mpr taken)]
  · rw [if_neg taken, define, containsVariable, if_neg (mt findVariable?_isSome_iff.mp taken)]

/-- After a definition its name has a variable: the one that was there, or else the new one. -/
theorem findVariable?_define (db : Database) (v : Variable) :
    (db.define v).findVariable? v.name = some ((db.findVariable? v.name).getD v) := by
  unfold define containsVariable
  cases found : db.findVariable? v.name with
  | some stored => simp [found]
  | none =>
    simp only [Option.isSome_none, Bool.false_eq_true, if_false, Option.getD_none]
    rw [findVariable?] at found ⊢
    rw [List.find?_append, found]
    simp

/-- A variable that is found once is found from then on. -/
theorem Extends.findVariable?_eq {db db' : Database} (h : db.Extends db') {name : String}
    (known : name ∈ db.declarations.map Variable.name) :
    db'.findVariable? name = db.findVariable? name := by
  obtain ⟨more, same⟩ := h.declarations
  have found := findVariable?_isSome_iff.mpr known
  unfold findVariable? at found ⊢
  rw [← same, List.find?_append, Option.or_of_isSome found]

/-- Of the variables that are to be defined, the first of each new name is. -/
theorem exists_foldl_define (vs : List Variable) (db : Database) : ∃ new : List Variable,
    (vs.foldl define db).declarations = db.declarations ++ new ∧ new.Sublist vs ∧
      (new.map Variable.name).Nodup ∧
      (∀ name, name ∈ new.map Variable.name ↔
        name ∈ vs.map Variable.name ∧ name ∉ db.declarations.map Variable.name) ∧
      ∀ v ∈ new, vs.find? (·.name = v.name) = some v := by
  induction vs generalizing db with
  | nil => exact ⟨[], by simp, .slnil, .nil, by simp, nofun⟩
  | cons v rest ih =>
    obtain ⟨new, same, sublist, distinct, names, first⟩ := ih (db.define v)
    rw [List.foldl_cons, same, declarations_define]
    rw [declarations_define] at names
    by_cases taken : v.name ∈ db.declarations.map Variable.name
    · rw [if_pos taken] at names ⊢
      refine ⟨new, rfl, sublist.cons v, distinct, ?_, ?_⟩
      · intro name
        rw [names, List.map_cons, List.mem_cons]
        constructor
        · rintro ⟨later, fresh⟩
          exact ⟨.inr later, fresh⟩
        · rintro ⟨rfl | later, fresh⟩
          · exact absurd taken fresh
          · exact ⟨later, fresh⟩
      · intro w member
        have fresh := ((names w.name).mp (List.mem_map_of_mem member)).2
        have other : v.name ≠ w.name := fun equal => fresh (equal ▸ taken)
        rw [List.find?_cons_of_neg (by simpa using other)]
        exact first w member
    · rw [if_neg taken] at names ⊢
      have others : ∀ w ∈ new, v.name ≠ w.name := by
        intro w member equal
        have fresh := ((names w.name).mp (List.mem_map_of_mem member)).2
        rw [List.map_append, List.mem_append, not_or] at fresh
        exact fresh.2 (by simp [equal])
      refine ⟨v :: new, by simp, sublist.cons_cons v, ?_, ?_, ?_⟩
      · rw [List.map_cons, List.nodup_cons]
        refine ⟨fun member => ?_, distinct⟩
        obtain ⟨w, member, equal⟩ := List.mem_map.mp member
        exact others w member equal.symm
      · intro name
        rw [List.map_cons, List.mem_cons, names, List.map_cons, List.mem_cons, List.map_append,
          List.mem_append, not_or]
        constructor
        · rintro (rfl | ⟨later, fresh, -⟩)
          · exact ⟨.inl rfl, taken⟩
          · exact ⟨.inr later, fresh⟩
        · rintro ⟨here | later, fresh⟩
          · exact .inl here
          · by_cases here : name = v.name
            · exact .inl here
            · exact .inr ⟨later, fresh, by simpa using here⟩
      · intro w member
        rcases List.mem_cons.mp member with rfl | member
        · simp
        · rw [List.find?_cons_of_neg (by simpa using others w member)]
          exact first w member

/-- If the variables that are to be defined are in name order, then so are those that are. -/
theorem exists_lists_foldl_define {vs : List Variable} (db : Database)
    (sorted : vs.Pairwise fun v w => v.name ≤ w.name) : ∃ new : List Variable,
    (vs.foldl define db).declarations = db.declarations ++ new ∧
      Lists (fun name => name ∈ vs.map Variable.name ∧ name ∉ db.declarations.map Variable.name)
        (fun v => vs.find? (·.name = v.name) = some v) new := by
  obtain ⟨new, same, sublist, distinct, names, first⟩ := exists_foldl_define vs db
  refine ⟨new, same, ?_, names, first⟩
  have apart : new.Pairwise fun v w => v.name ≠ w.name := List.pairwise_map.mp distinct
  refine List.Pairwise.imp₂ ?_ (sorted.sublist sublist) apart
  intro v w le ne
  exact String.not_le.mp fun ge => ne (String.le_antisymm le ge)

end Database

namespace Registration

/-- The declaration at a basic statement of a script. -/
def declaration? (file : ScriptFile) (s : Script) (leaf : Nat × Content Kind) :
    Option VariableUse :=
  match leaf.2.kind with
  | .basic (.declare name) =>
    some ⟨name, file.file, s.name, leaf.2.line, Variable.infer leaf.2.payload?⟩
  | _ => none

/-- The assignment at a basic statement of a script. -/
def assignment? (file : ScriptFile) (s : Script) (leaf : Nat × Content Kind) : Option VariableUse :=
  match leaf.2.kind with
  | .basic (.set name _) => some ⟨name, file.file, s.name, leaf.2.line, (.text, .str "")⟩
  | _ => none

/-- The uses of variables in script files, in the order of files, scripts and statements. -/
def sites (use? : ScriptFile → Script → Nat × Content Kind → Option VariableUse)
    (files : List ScriptFile) : List VariableUse :=
  files.flatMap fun file => file.scripts.flatMap fun s => s.tree.leaves.filterMap (use? file s)

section Mentions

variable {source : Source} {choose : Mention → Option VariableUse}
  {use? : Nat × Content Kind → Option VariableUse}

mutual

private theorem filterMap_mentions (here : ∀ isChoice id content b, content.kind = .basic b →
      (source.mentioned isChoice content b).filterMap choose = (use? (id, content)).toList) :
    ∀ (t : Tree) (isChoice : Bool),
      (mentions source isChoice t).filterMap choose = t.leaves.filterMap use?
  | .node id content children, isChoice => by
    unfold mentions Tree.leaves
    cases kind : content.kind with
    | basic b =>
      simp only
      rw [here isChoice id content b kind]
      cases found : use? (id, content) <;> simp [found]
    | block b =>
      have below := filterMap_mentionsList here children
      cases b <;> exact below _

private theorem filterMap_mentionsList (here : ∀ isChoice id content b, content.kind = .basic b →
      (source.mentioned isChoice content b).filterMap choose = (use? (id, content)).toList) :
    ∀ (ts : List Tree) (isChoice : Bool),
      (mentionsList source isChoice ts).filterMap choose = (Tree.leavesList ts).filterMap use?
  | [], _ => rfl
  | t :: rest, isChoice => by
    rw [mentionsList, Tree.leavesList, List.filterMap_append, List.filterMap_append,
      filterMap_mentions here t isChoice, filterMap_mentionsList here rest false]

end

end Mentions

private theorem filterMap_headerActors (s : Script) {choose : Mention → Option VariableUse}
    (none : ∀ name isPlayer, choose (.actor name isPlayer) = none) :
    (headerActors s).filterMap choose = [] := by
  apply List.filterMap_eq_nil_iff.mpr
  intro mention member
  unfold headerActors at member
  split at member
  · rcases List.mem_append.mp member with member | member <;>
    · obtain ⟨name, -, rfl⟩ := Option.map_eq_some_iff.mp (Option.mem_toList.mp member)
      exact none _ _
  · cases member

/-- What is mentioned of one sort is what the statements of that sort say, one after the other. -/
theorem filterMap_ofFiles (files : List ScriptFile) (defaultLocale : String)
    {choose : Mention → Option VariableUse}
    {use? : ScriptFile → Script → Nat × Content Kind → Option VariableUse}
    (none : ∀ name isPlayer, choose (.actor name isPlayer) = none)
    (here : ∀ file s isChoice id content b, content.kind = .basic b →
      (Source.mentioned ⟨file.file, file.lines, defaultLocale, s.name⟩ isChoice content b).filterMap
        choose = (use? file s (id, content)).toList) :
    (ofFiles files defaultLocale).filterMap choose = sites use? files := by
  simp only [ofFiles, ofScript, sites, List.filterMap_flatMap, List.filterMap_append,
    filterMap_headerActors _ none, List.nil_append, filterMap_mentions (here _ _)]

private theorem declared_ofFiles (files : List ScriptFile) (defaultLocale : String) :
    (ofFiles files defaultLocale).filterMap Mention.declared? = sites declaration? files := by
  apply filterMap_ofFiles
  · intro name isPlayer
    rfl
  · intro file s isChoice id content b kind
    cases b with
    | line spoken =>
      cases isChoice with
      | true => simp [Source.mentioned, declaration?, kind]
      | false =>
        cases found : Source.speaker? ⟨file.file, file.lines, defaultLocale, s.name⟩ spoken.lineId
          content.line <;> simp [Source.mentioned, declaration?, kind, found, Mention.declared?]
    | command | call | jump | set | declare =>
      simp [Source.mentioned, declaration?, kind, Mention.declared?]

private theorem assigned_ofFiles (files : List ScriptFile) (defaultLocale : String) :
    (ofFiles files defaultLocale).filterMap Mention.assigned? = sites assignment? files := by
  apply filterMap_ofFiles
  · intro name isPlayer
    rfl
  · intro file s isChoice id content b kind
    cases b with
    | line spoken =>
      cases isChoice with
      | true => simp [Source.mentioned, assignment?, kind]
      | false =>
        cases found : Source.speaker? ⟨file.file, file.lines, defaultLocale, s.name⟩ spoken.lineId
          content.line <;> simp [Source.mentioned, assignment?, kind, found, Mention.assigned?]
    | command | call | jump | set | declare =>
      simp [Source.mentioned, assignment?, kind, Mention.assigned?]

private theorem isTyped_of_declaration {files : List ScriptFile} {usage : VariableUse}
    (member : usage ∈ sites declaration? files) :
    Variable.IsTyped ⟨usage.name, usage.inferred.1, usage.inferred.2⟩ := by
  simp only [sites, List.mem_flatMap, List.mem_filterMap] at member
  obtain ⟨file, -, s, -, leaf, -, found⟩ := member
  unfold declaration? at found
  split at found
  · cases found
    exact Variable.isTyped_infer _ _
  · cases found

section ByName

variable (usages : List VariableUse)

private theorem mem_byName {usage : VariableUse} : usage ∈ byName usages ↔ usage ∈ usages :=
  List.mem_mergeSort

private theorem pairwise_byName : (byName usages).Pairwise fun a b => a.name ≤ b.name := by
  have sorted : (byName usages).Pairwise fun a b => decide (a.name ≤ b.name) = true := by
    apply List.pairwise_mergeSort
    · intro a b c first second
      simpa using String.le_trans (of_decide_eq_true first) (of_decide_eq_true second)
    · intro a b
      simpa using String.le_total a.name b.name
  exact sorted.imp of_decide_eq_true

/-- Sites of one name keep their order. -/
theorem filter_byName (name : String) (p : VariableUse → Bool) :
    (byName usages).filter (fun usage => usage.name = name && p usage) =
      usages.filter fun usage => usage.name = name && p usage := by
  generalize test : (fun usage : VariableUse => (usage.name = name && p usage : Bool)) = q
  have same : ∀ usage ∈ usages.filter q, usage.name = name := by
    intro usage member
    have holds := (List.mem_filter.mp member).2
    rw [← test] at holds
    simp only [Bool.and_eq_true, decide_eq_true_eq] at holds
    exact holds.1
  have sorted : (usages.filter q).Pairwise fun a b => decide (a.name ≤ b.name) = true := by
    apply List.pairwise_of_forall_mem_list
    intro a here b there
    rw [same a here, same b there]
    exact decide_eq_true (String.le_refl _)
  have kept : (usages.filter q).Sublist (byName usages) :=
    List.sublist_mergeSort
      (fun a b c first second => by
        simpa using String.le_trans (of_decide_eq_true first) (of_decide_eq_true second))
      (fun a b => by simpa using String.le_total a.name b.name) sorted List.filter_sublist
  have inside : (usages.filter q).Sublist ((byName usages).filter q) := by
    have filtered := kept.filter q
    rwa [List.filter_filter, List.filter_congr fun _ _ => Bool.and_self _] at filtered
  have count : ((byName usages).filter q).length = (usages.filter q).length :=
    ((List.mergeSort_perm usages _).filter q).length_eq
  exact (inside.eq_of_length count.symm).symm

/-- The first site of a name stays the first. -/
theorem find?_byName (name : String) :
    (byName usages).find? (·.name = name) = usages.find? (·.name = name) := by
  have same := filter_byName usages name fun _ => true
  simp only [Bool.and_true] at same
  rw [← List.head?_filter, ← List.head?_filter, same]

end ByName

/-- The variable that a declaration asks for. -/
def VariableUse.variable (usage : VariableUse) : Variable :=
  ⟨usage.name, usage.inferred.1, usage.inferred.2⟩

/-- Whether a variable is stored with another type than a site gives it. -/
def isOverruled (db : Database) (usage : VariableUse) : Bool :=
  (db.findVariable? usage.name).any fun stored => stored.kind ≠ usage.inferred.1

/-- What there is to report about a declaration, given the variables that are stored in the end. -/
def overruling? (db : Database) (usage : VariableUse) : Option Diagnostic :=
  if isOverruled db usage then (db.findVariable? usage.name).map fun v =>
    conflict usage v.kind else none

/-- One declaration defines its variable unless the name is taken, and is then reported if the
stored variable is of another type. -/
theorem declare_eq (db : Database) (reports : List Diagnostic) (usage : VariableUse) :
    declare (db, reports) usage = (db.define usage.variable,
      reports ++ (overruling? (db.define usage.variable) usage).toList) := by
  have stored := db.findVariable?_define usage.variable
  change (db.define usage.variable).findVariable? usage.name = _ at stored
  unfold overruling? isOverruled declare
  rw [stored]
  cases found : db.findVariable? usage.variable.name with
  | some existing =>
    have kept : db.define usage.variable = db := by simp [Database.define,
      Database.containsVariable, found]
    replace found : db.findVariable? usage.name = some existing := found
    by_cases same : existing.kind = usage.inferred.1
    · simp [kept, found, same]
    · simp [kept, found, same]
  | none =>
    replace found : db.findVariable? usage.name = none := found
    simp [found, VariableUse.variable]

private theorem mem_names_define (db : Database) (v : Variable) :
    v.name ∈ (db.define v).declarations.map Variable.name := by
  rw [Database.declarations_define]
  split
  · assumption
  · simp

/-- What is reported depends on the stored variable alone, which does not change any more. -/
theorem overruling?_eq {db db' : Database} (h : db.Extends db') {usage : VariableUse}
    (known : usage.name ∈ db.declarations.map Variable.name) :
    overruling? db' usage = overruling? db usage := by
  unfold overruling? isOverruled
  rw [h.findVariable?_eq known]

private theorem foldl_declare (usages : List VariableUse) (db : Database)
    (reports : List Diagnostic) :
    usages.foldl declare (db, reports) =
      ((usages.map VariableUse.variable).foldl Database.define db,
        reports ++ usages.filterMap
          (overruling? ((usages.map VariableUse.variable).foldl Database.define db))) := by
  induction usages generalizing db reports with
  | nil => simp
  | cons usage rest ih =>
    have later := Database.foldl_extends Database.define_extends (rest.map VariableUse.variable)
      (db.define usage.variable)
    rw [List.foldl_cons, declare_eq, ih, List.map_cons, List.foldl_cons, List.append_assoc]
    have same := overruling?_eq later (mem_names_define db usage.variable)
    rw [← same, List.filterMap_cons]
    cases overruling? _ usage <;> rfl

private theorem declarations_foldl_addActor (actors : List (String × Bool)) (db : Database) :
    (actors.foldl (fun db a => db.addActor a.1 a.2) db).declarations = db.declarations := by
  induction actors generalizing db with
  | nil => rfl
  | cons actor rest ih =>
    rw [List.foldl_cons, ih, Database.addActor]
    split <;> rfl

/-- A report that a declaration is overruled by a stored variable. -/
structure Reports (stored : Variable) (usage : VariableUse) (report : Diagnostic) : Prop where
  severity : report.severity = .warning
  place : report.place = some ⟨usage.file, usage.line⟩
  conversation : report.conversation = some usage.conversation
  message : report.message = "'" ++ usage.name ++ "' is already declared as " ++ stored.kind.name ++
    "; this declaration as " ++ usage.inferred.1.name ++ " is ignored"

private theorem forall₂_overruled (db : Database) (usages : List VariableUse) :
    List.Forall₂ (fun usage report => ∃ stored, db.findVariable? usage.name = some stored ∧
      Reports stored usage report) (usages.filter (isOverruled db))
      (usages.filterMap (overruling? db)) := by
  induction usages with
  | nil => exact .nil
  | cons usage rest ih =>
    cases overruled : isOverruled db usage with
    | false =>
      have silent : overruling? db usage = none := by simp [overruling?, overruled]
      rw [List.filter_cons_of_neg (by simp [overruled]), List.filterMap_cons_none silent]
      exact ih
    | true =>
      obtain ⟨stored, found⟩ : ∃ stored, db.findVariable? usage.name = some stored := by
        cases found : db.findVariable? usage.name with
        | none => simp [isOverruled, found] at overruled
        | some stored => exact ⟨stored, rfl⟩
      have told : overruling? db usage = some (conflict usage stored.kind) := by
        simp [overruling?, overruled, found]
      rw [List.filter_cons_of_pos overruled, List.filterMap_cons_some told]
      exact .cons ⟨stored, found, rfl, rfl, rfl, rfl⟩ ih

private theorem find?_map_variable (usages : List VariableUse) (name : String) :
    (usages.map VariableUse.variable).find? (·.name = name) =
      (usages.find? (·.name = name)).map VariableUse.variable := by
  rw [List.find?_map]
  rfl

/-- Registration defines the variables of the sorted declarations, then those of the sorted
assignments, and reports by what is stored in the end. -/
theorem register_eq (files : List ScriptFile) (db : Database) (defaultLocale : String) :
    ∃ cast declared : Database, cast.declarations = db.declarations ∧
      declared = ((byName (sites declaration? files)).map VariableUse.variable).foldl
        Database.define cast ∧
      (register files db defaultLocale).1 = ((byName (sites assignment? files)).map
        fun usage => .emptyText usage.name).foldl Database.define declared ∧
      (register files db defaultLocale).2 = (byName (sites declaration? files)).filterMap
        (overruling? (register files db defaultLocale).1) := by
  let cast := ((ofFiles files defaultLocale).filterMap Mention.actor?).foldl
    (fun db a => db.addActor a.1 a.2) db
  let declared := ((byName (sites declaration? files)).map VariableUse.variable).foldl
    Database.define cast
  have both : register files db defaultLocale = (((byName (sites assignment? files)).map
      fun usage => .emptyText usage.name).foldl Database.define declared,
      (byName (sites declaration? files)).filterMap (overruling? declared)) := by
    rw [List.foldl_map]
    unfold register
    simp only [declared_ofFiles, assigned_ofFiles, foldl_declare, List.nil_append]
    rfl
  refine ⟨cast, declared, declarations_foldl_addActor _ db, rfl, congrArg Prod.fst both, ?_⟩
  rw [both]
  apply List.filterMap_congr
  intro usage member
  have later : declared.Extends (((byName (sites assignment? files)).map
      fun usage => .emptyText usage.name).foldl Database.define declared) :=
    Database.foldl_extends Database.define_extends _ _
  refine (overruling?_eq later ?_).symm
  obtain ⟨new, same, -, -, names, -⟩ := Database.exists_foldl_define
    ((byName (sites declaration? files)).map VariableUse.variable) cast
  rw [same, List.map_append, List.mem_append, names]
  by_cases old : usage.name ∈ cast.declarations.map Variable.name
  · exact .inl old
  · exact .inr ⟨List.mem_map.mpr ⟨_, List.mem_map_of_mem member, rfl⟩, old⟩

/-- Registration keeps the variables that are there. Behind them it puts a variable for each new
name that is declared, as its first declaration says, and then an empty text for each name that is
only set. It reports the declarations that disagree with what is stored in the end, in name order
and those of one name in source order, and nothing else. -/
theorem register_determines (files : List ScriptFile) (db : Database) (defaultLocale : String) :
    ∃ (declared assigned : List Variable) (overruled : List VariableUse),
      (register files db defaultLocale).1.declarations = db.declarations ++ declared ++ assigned ∧
      Database.Lists
        (fun name => name ∈ (sites declaration? files).map VariableUse.name ∧
          name ∉ db.declarations.map Variable.name)
        (fun v => ∃ usage, (sites declaration? files).find? (·.name = v.name) = some usage ∧
          (v.kind, v.initialValue) = usage.inferred) declared ∧
      Database.Lists
        (fun name => name ∈ (sites assignment? files).map VariableUse.name ∧
          name ∉ db.declarations.map Variable.name ∧
          name ∉ (sites declaration? files).map VariableUse.name)
        (fun v => v = .emptyText v.name) assigned ∧
      (∀ v ∈ declared ++ assigned, v.IsTyped) ∧
      overruled.Pairwise (fun a b => a.name ≤ b.name) ∧
      (∀ name, overruled.filter (·.name = name) = (sites declaration? files).filter fun usage =>
        usage.name = name && isOverruled (register files db defaultLocale).1 usage) ∧
      List.Forall₂ (fun usage report => ∃ stored,
        (register files db defaultLocale).1.findVariable? usage.name = some stored ∧
          Reports stored usage report) overruled (register files db defaultLocale).2 := by
  obtain ⟨cast, stored, kept, declaredEq, final, reports⟩ := register_eq files db defaultLocale
  have sortedDeclared : ((byName (sites declaration? files)).map VariableUse.variable).Pairwise
      fun v w => v.name ≤ w.name :=
    List.pairwise_map.mpr (pairwise_byName (sites declaration? files))
  have sortedAssigned : ((byName (sites assignment? files)).map
      fun usage => Variable.emptyText usage.name).Pairwise fun v w => v.name ≤ w.name :=
    List.pairwise_map.mpr (pairwise_byName (sites assignment? files))
  obtain ⟨declared, first, declaredLists⟩ := Database.exists_lists_foldl_define cast sortedDeclared
  obtain ⟨assigned, second, assignedLists⟩ :=
    Database.exists_lists_foldl_define stored sortedAssigned
  rw [← declaredEq] at first
  have declaredNames : ∀ name, name ∈ declared.map Variable.name ↔
      name ∈ (sites declaration? files).map VariableUse.name ∧
        name ∉ db.declarations.map Variable.name := by
    intro name
    rw [declaredLists.mem_names, kept]
    simp [mem_byName, VariableUse.variable]
  have declaredFirst : ∀ v ∈ declared, ∃ usage,
      (sites declaration? files).find? (·.name = v.name) = some usage ∧ usage.variable = v := by
    intro v member
    have found := declaredLists.each v member
    rw [find?_map_variable, find?_byName] at found
    exact Option.map_eq_some_iff.mp found
  have assignedEmpty : ∀ v ∈ assigned, v = .emptyText v.name := by
    intro v member
    have found := List.mem_of_find?_eq_some (assignedLists.each v member)
    obtain ⟨usage, -, rfl⟩ := List.mem_map.mp found
    rfl
  refine ⟨declared, assigned, (byName (sites declaration? files)).filter
    (isOverruled (register files db defaultLocale).1), ?_,
      ⟨declaredLists.increasing, declaredNames, ?_⟩,
    ⟨assignedLists.increasing, ?_, assignedEmpty⟩, ?_, ?_, ?_, ?_⟩
  · rw [final, second, first, kept]
  · intro v member
    obtain ⟨usage, found, rfl⟩ := declaredFirst v member
    exact ⟨usage, found, rfl⟩
  · intro name
    have sameName : name ∈ ((byName (sites assignment? files)).map
        fun usage => Variable.emptyText usage.name).map Variable.name ↔
        name ∈ (sites assignment? files).map VariableUse.name := by
      simp [mem_byName, Variable.emptyText]
    rw [assignedLists.mem_names, sameName, first, List.map_append, List.mem_append,
      declaredNames, kept, not_or, not_and_not_right]
    constructor
    · rintro ⟨here, fresh, undeclared⟩
      exact ⟨here, fresh, fun member => fresh (undeclared member)⟩
    · rintro ⟨here, fresh, undeclared⟩
      exact ⟨here, fresh, fun member => absurd member undeclared⟩
  · intro v member
    rcases List.mem_append.mp member with member | member
    · obtain ⟨usage, found, rfl⟩ := declaredFirst v member
      exact isTyped_of_declaration (List.mem_of_find?_eq_some found)
    · rw [assignedEmpty v member]
      exact ⟨"", rfl⟩
  · exact (pairwise_byName _).sublist List.filter_sublist
  · intro name
    rw [List.filter_filter]
    exact filter_byName _ name _
  · rw [reports]
    exact forall₂_overruled _ _

end Registration

end Dialogue
