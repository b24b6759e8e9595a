import Dialogue.Proofs.Integrity
import Dialogue.Proofs.Numbering
import Dialogue.Proofs.Registration
import Mathlib.Data.List.Pairwise

/-!
What becomes of the nodes of a project. A node has a conversation if it is the first of its name, if
it is lowered without an error, and if no error condemns its file; every other node is answered for
by an error that is reported. So there are no errors exactly if every node has its conversation.
-/

set_option autoImplicit false
set_option relaxedAutoImplicit false

namespace Dialogue

namespace Compile

namespace Site

variable (ctx : Context) (site : Site)

/-- The conversation of a node, if it is lowered without an error. -/
def conversation? : Option Conversation :=
  (site.script.lower ctx site.id).toOption

/-- The error of a node that is not lowered. -/
def error? : Option CompileError :=
  match site.script.lower ctx site.id with
  | .ok _ => none
  | .error e => some e

variable {ctx site} in
theorem lower_of_conversation? {c : Conversation} (h : site.conversation? ctx = some c) :
    site.script.lower ctx site.id = .ok c := by
  unfold conversation? at h
  cases lowered : site.script.lower ctx site.id with
  | error e =>
    rw [lowered] at h
    cases h
  | ok found =>
    rw [lowered] at h
    cases h
    rfl

variable {ctx site} in
/-- The conversation of a node has its name and its id. -/
theorem conversation?_head {c : Conversation} (h : site.conversation? ctx = some c) :
    c.title = site.script.name ∧ c.id = site.id := by
  obtain ⟨node, complete, name, rfl, -⟩ := Script.lower_fits (lower_of_conversation? h)
  exact ⟨name.symm, rfl⟩

private theorem isNone_error? : (site.error? ctx).isNone = (site.conversation? ctx).isSome := by
  unfold error? conversation?
  cases site.script.lower ctx site.id <;> rfl

end Site

/-- Errors up to the first that condemns its file. -/
def upToFatal : List CompileError → List CompileError
  | [] => []
  | e :: rest => if e.isFatal then [e] else e :: upToFatal rest

private theorem upToFatal_eq_nil_iff {errors : List CompileError} :
    upToFatal errors = [] ↔ errors = [] := by
  cases errors with
  | nil => simp [upToFatal]
  | cons e rest =>
    unfold upToFatal
    split <;> simp

/-- The errors of the first nodes of a list that has nodes of one file. -/
def errors (ctx : Context) (sites : List Site) : List CompileError :=
  (sites.filter Site.isFirst).filterMap (Site.error? ctx)

/-- Lowering gives the conversations of the first nodes, unless one of them condemns the file. -/
theorem lowerScripts_eq (ctx : Context) (file : String) (sites : List Site) :
    lowerScripts ctx file (sites.map Site.numbered) =
      (if (errors ctx sites).any CompileError.isFatal then none
        else some ((sites.filter Site.isFirst).filterMap (Site.conversation? ctx)),
      (upToFatal (errors ctx sites)).map fun e => e.diagnostic file) := by
  induction sites with
  | nil => rfl
  | cons site rest ih =>
    rw [List.map_cons, Site.numbered]
    cases isFirst : site.isFirst with
    | false =>
      have same : (site :: rest).filter Site.isFirst = rest.filter Site.isFirst := by simp [isFirst]
      simpa [lowerScripts, errors, same] using ih
    | true =>
      have here : (site :: rest).filter Site.isFirst = site :: rest.filter Site.isFirst := by
        simp [isFirst]
      simp only [if_true, lowerScripts, ih, here]
      cases lowered : site.script.lower ctx site.id with
      | ok c =>
        have found : site.conversation? ctx = some c := congrArg Except.toOption lowered
        have same : errors ctx (site :: rest) = errors ctx rest := by
          simp [errors, here, Site.error?, lowered]
        rw [same, List.filterMap_cons_some found]
        by_cases fatal : (errors ctx rest).any CompileError.isFatal = true
        · simp only [if_pos fatal, Option.map_none]
        · simp only [if_neg fatal, Option.map_some]
      | error e =>
        have none : site.conversation? ctx = none := congrArg Except.toOption lowered
        have next : errors ctx (site :: rest) = e :: errors ctx rest := by
          simp [errors, here, Site.error?, lowered]
        rw [next, List.filterMap_cons_none none, List.any_cons, upToFatal]
        cases fatal : e.isFatal <;> simp [fatal]

namespace SitedFile

variable (f : SitedFile) (ctx : Context)

/-- Whether an error of a node condemns the whole file. -/
def isCondemned : Bool :=
  (errors ctx f.sites).any CompileError.isFatal

/-- Whether a node of the file has a conversation. -/
def compiles (site : Site) : Bool :=
  site.isFirst && !f.isCondemned ctx && (site.conversation? ctx).isSome

/-- The nodes of the file that have conversations. -/
def compiled : List Site :=
  f.sites.filter (f.compiles ctx)

def conversations : List Conversation :=
  (f.compiled ctx).filterMap (Site.conversation? ctx)

/-- The reports of the errors of the file: those of first nodes, up to one that condemns it. -/
def reports : List Diagnostic :=
  (upToFatal (errors ctx f.sites)).map fun e => e.diagnostic f.file.file

theorem conversations_eq : f.conversations ctx =
    if f.isCondemned ctx then []
    else (f.sites.filter Site.isFirst).filterMap (Site.conversation? ctx) := by
  unfold conversations compiled compiles
  cases condemned : f.isCondemned ctx with
  | true => simp
  | false =>
    simp only [List.filterMap_filter, Bool.not_false, Bool.and_true, Bool.false_eq_true, if_false]
    congr 1
    funext site
    cases isFirst : site.isFirst with
    | false => simp
    | true => cases site.conversation? ctx <;> simp

/-- The conversations of a file have the names and the ids of its nodes. -/
theorem map_conversations : (f.conversations ctx).map (fun c => (c.title, c.id)) =
    (f.compiled ctx).map fun site => (site.script.name, site.id) := by
  rw [conversations, List.map_filterMap]
  refine List.filterMap_eq_map_iff_forall_eq_some.mpr fun site member => ?_
  have compiles := (List.mem_filter.mp member).2
  obtain ⟨c, found⟩ : ∃ c, site.conversation? ctx = some c := by
    simp only [SitedFile.compiles, Bool.and_eq_true] at compiles
    exact Option.isSome_iff_exists.mp compiles.2
  simp [found, site.conversation?_head found]

private theorem lowerFile_eq (db : Database) (ids : Dict Nat) (defaultLocale : String) :
    lowerFile db ids defaultLocale (f.file, f.sites.map Site.numbered) =
      (f.conversations ⟨db, ids, f.file.lines, defaultLocale⟩,
        f.reports ⟨db, ids, f.file.lines, defaultLocale⟩) := by
  rw [lowerFile, lowerScripts_eq, conversations_eq, isCondemned, reports]
  simp only
  split <;> rfl

end SitedFile

/-- The database that nodes are lowered with, and the reports of the registration. -/
def registered (files : List ScriptFile) (options : Options) : Database × List Diagnostic :=
  Registration.register files
    { Database.new options.defaultLocale options.locales options.playerName
        options.defaultActorName with sourceFiles := files.map ScriptFile.file }
    options.defaultLocale

/-- What the nodes of a file are lowered with. -/
def contextOf (files : List ScriptFile) (options : Options) (file : ScriptFile) : Context :=
  ⟨(registered files options).1, (numberFiles {} files).1.ids, file.lines, options.defaultLocale⟩

/-- The conversations of a project as they are lowered. -/
def conversations (files : List ScriptFile) (options : Options) : List Conversation :=
  (sitedFiles [] files).flatMap fun f => f.conversations (contextOf files options f.file)

end Compile

open Compile

/-- A compilation in terms of the nodes of the project. -/
theorem compile_eq (files : List ScriptFile) (options : Options) :
    compile files options =
      { database :=
          { (registered files options).1 with
            conversations := (conversations files options).map
              (withoutDangling ((conversations files options).map Conversation.id)) }
        diagnostics := (registered files options).2 ++
          (sitedFiles [] files).flatMap SitedFile.duplicates ++
          (sitedFiles [] files).flatMap (fun f => f.reports (contextOf files options f.file)) ++
          (conversations files options).flatMap (danglingReports
            ((conversations files options).map Conversation.id)
              (numberFiles {} files).1.ids) } := by
  obtain ⟨numbered, reports⟩ := numberFiles_eq files covers_empty
  have lowered : (numberFiles {} files).2.map
      (lowerFile (registered files options).1 (numberFiles {} files).1.ids options.defaultLocale) =
      (sitedFiles [] files).map fun f =>
        (f.conversations (contextOf files options f.file),
          f.reports (contextOf files options f.file)) := by
    rw [numbered, List.map_map]
    exact List.map_congr_left fun f _ => f.lowerFile_eq _ _ _
  have found : ((numberFiles {} files).2.map (lowerFile (registered files options).1
      (numberFiles {} files).1.ids options.defaultLocale)).flatMap Prod.fst =
      conversations files options := by
    rw [lowered, List.flatMap_map]
    rfl
  have told : ((numberFiles {} files).2.map (lowerFile (registered files options).1
      (numberFiles {} files).1.ids options.defaultLocale)).flatMap Prod.snd =
      (sitedFiles [] files).flatMap fun f => f.reports (contextOf files options f.file) := by
    rw [lowered, List.flatMap_map]
  rw [← found, ← told]
  rw [List.nil_append] at reports
  rw [← reports]
  rfl

namespace Compile

variable (files : List ScriptFile) (options : Options)

theorem map_conversations : (conversations files options).map (fun c => (c.title, c.id)) =
    ((sitedFiles [] files).flatMap fun f => f.compiled (contextOf files options f.file)).map
      fun site => (site.script.name, site.id) := by
  simp only [conversations, List.map_flatMap, SitedFile.map_conversations]

private theorem isError_danglingReports {present : List Nat} {ids : Dict Nat}
    {c : Conversation} {d : Diagnostic} (member : d ∈ danglingReports present ids c) :
    d.isError = false := by
  obtain ⟨link, -, rfl⟩ := List.mem_map.mp member
  rfl

/-- The errors of a compilation: those of repeated names, then those of lowering. -/
theorem errors_compile : (compile files options).diagnostics.filter Diagnostic.isError =
    (sitedFiles [] files).flatMap SitedFile.duplicates ++
      (sitedFiles [] files).flatMap fun f => f.reports (contextOf files options f.file) := by
  have taken : ((sitedFiles [] files).flatMap SitedFile.duplicates).filter Diagnostic.isError =
      (sitedFiles [] files).flatMap SitedFile.duplicates := by
    apply List.filter_eq_self.mpr
    intro d member
    obtain ⟨f, -, member⟩ := List.mem_flatMap.mp member
    obtain ⟨site, -, rfl⟩ := List.mem_map.mp member
    rfl
  have failed : ((sitedFiles [] files).flatMap fun f =>
      f.reports (contextOf files options f.file)).filter Diagnostic.isError =
      (sitedFiles [] files).flatMap fun f => f.reports (contextOf files options f.file) := by
    apply List.filter_eq_self.mpr
    intro d member
    obtain ⟨f, -, member⟩ := List.mem_flatMap.mp member
    obtain ⟨e, -, rfl⟩ := List.mem_map.mp member
    rfl
  have registration : (registered files options).2.filter Diagnostic.isError = [] := by
    apply List.filter_eq_nil_iff.mpr
    intro d member
    rw [Registration.register_reports _ _ _ d member]
    exact Bool.false_ne_true
  have dangling : ((conversations files options).flatMap (danglingReports
      ((conversations files options).map Conversation.id) (numberFiles {} files).1.ids)).filter
      Diagnostic.isError = [] := by
    apply List.filter_eq_nil_iff.mpr
    intro d member
    obtain ⟨c, -, member⟩ := List.mem_flatMap.mp member
    rw [isError_danglingReports member]
    exact Bool.false_ne_true
  rw [compile_eq]
  simp only [List.filter_append, taken, failed, registration, dangling, List.nil_append,
    List.append_nil]

/-- A file has no errors exactly if every node of it has a conversation. -/
theorem SitedFile.no_reports_iff (f : SitedFile) (ctx : Context) :
    f.duplicates = [] ∧ f.reports ctx = [] ↔ ∀ site ∈ f.sites, f.compiles ctx site = true := by
  have quiet : f.reports ctx = [] ↔ errors ctx f.sites = [] := by
    rw [reports, List.map_eq_nil_iff, upToFatal_eq_nil_iff]
  have single : f.duplicates = [] ↔ ∀ site ∈ f.sites, site.isFirst = true := by
    simp [duplicates, List.filter_eq_nil_iff]
  have lowered : errors ctx f.sites = [] ↔
      ∀ site ∈ f.sites, site.isFirst = true → (site.conversation? ctx).isSome = true := by
    simp only [errors, List.filterMap_eq_nil_iff, List.mem_filter, and_imp, ← Site.isNone_error?]
    simp [Option.isNone_iff_eq_none]
  rw [quiet, single]
  constructor
  · rintro ⟨first, none⟩ site member
    have condemned : f.isCondemned ctx = false := by simp [isCondemned, none]
    have found := lowered.mp none site member (first site member)
    simp [compiles, first site member, condemned, found]
  · intro all
    have parts : ∀ site ∈ f.sites, site.isFirst = true ∧
        (site.conversation? ctx).isSome = true := by
      intro site member
      have compiles := all site member
      simp only [SitedFile.compiles, Bool.and_eq_true] at compiles
      exact ⟨compiles.1.1, compiles.2⟩
    exact ⟨fun site member => (parts site member).1,
      lowered.mpr fun site member _ => (parts site member).2⟩

variable {files options}

theorem mem_sites_of_file {f : SitedFile} (known : f ∈ sitedFiles [] files) {site : Site}
    (member : site ∈ f.sites) : site ∈ sites [] (files.flatMap ScriptFile.scripts) := by
  rw [← sites_sitedFiles]
  exact List.mem_flatMap.mpr ⟨f, known, member⟩

/-- No node stands in two files. -/
theorem file_eq_of_mem {f f' : SitedFile} (known : f ∈ sitedFiles [] files)
    (known' : f' ∈ sitedFiles [] files) {site : Site} (member : site ∈ f.sites)
    (member' : site ∈ f'.sites) : f = f' := by
  have distinct := nodup_sites [] (files.flatMap ScriptFile.scripts)
  rw [← sites_sitedFiles, List.nodup_flatMap] at distinct
  have symmetric : Std.Symm (Function.onFun List.Disjoint SitedFile.sites) :=
    ⟨fun _ _ apart _ here there => apart there here⟩
  by_contra different
  exact distinct.2.forall known known' different member member'

theorem map_compile (files : List ScriptFile) (options : Options) :
    (compile files options).database.conversations.map (fun c => (c.title, c.id)) =
      ((sitedFiles [] files).flatMap fun f => f.compiled (contextOf files options f.file)).map
        fun site => (site.script.name, site.id) := by
  rw [compile_eq, ← map_conversations, List.map_map]
  rfl

private theorem compiles_iff {f : SitedFile} (known : f ∈ sitedFiles [] files) {site : Site}
    (member : site ∈ f.sites) : f.compiles (contextOf files options f.file) site = true ↔
      ∃ c ∈ (compile files options).database.conversations,
        c.title = site.script.name ∧ c.id = site.id := by
  have heads := map_compile files options
  constructor
  · intro compiles
    have listed : (site.script.name, site.id) ∈
        (compile files options).database.conversations.map fun c => (c.title, c.id) := by
      rw [heads]
      refine List.mem_map.mpr ⟨site, List.mem_flatMap.mpr ⟨f, known, ?_⟩, rfl⟩
      exact List.mem_filter.mpr ⟨member, compiles⟩
    obtain ⟨c, found, same⟩ := List.mem_map.mp listed
    exact ⟨c, found, Prod.mk.inj same⟩
  · rintro ⟨c, found, title, id⟩
    have listed : (c.title, c.id) ∈ ((sitedFiles [] files).flatMap fun f =>
        f.compiled (contextOf files options f.file)).map fun site =>
          (site.script.name, site.id) := by
      rw [← heads]
      exact List.mem_map.mpr ⟨c, found, rfl⟩
    obtain ⟨other, inside, same⟩ := List.mem_map.mp listed
    obtain ⟨f', known', inside⟩ := List.mem_flatMap.mp inside
    obtain ⟨member', compiles⟩ := List.mem_filter.mp inside
    obtain ⟨name', id'⟩ := Prod.mk.inj same
    have isFirst : other.isFirst = true := by
      simp only [SitedFile.compiles, Bool.and_eq_true] at compiles
      exact compiles.1.1
    -- A later node of the same name has a higher id, so the conversation is that of this node.
    obtain rfl := eq_of_isFirst (mem_sites_of_file known member) (mem_sites_of_file known' member')
      isFirst (name'.trans title) (id'.trans id)
    obtain rfl := file_eq_of_mem known known' member member'
    exact compiles

end Compile

/-- The conversations of a compilation are those of the nodes that compile, in order, each with the
name and the id of its node. Its errors are those of the nodes with names that are taken, then those
of the nodes that are not lowered, file by file. So there is no error exactly if every node has its
conversation. -/
theorem compile_accounts (files : List ScriptFile) (options : Options) :
    ((compile files options).database.conversations =
        ((sitedFiles [] files).flatMap fun f =>
          f.conversations (contextOf files options f.file)).map
          (withoutDangling ((compile files options).database.conversations.map Conversation.id)) ∧
      (compile files options).database.conversations.map (fun c => (c.title, c.id)) =
        ((sitedFiles [] files).flatMap fun f => f.compiled (contextOf files options f.file)).map
          fun site => (site.script.name, site.id)) ∧
    (compile files options).diagnostics.filter Diagnostic.isError =
      (sitedFiles [] files).flatMap SitedFile.duplicates ++
        (sitedFiles [] files).flatMap (fun f => f.reports (contextOf files options f.file)) ∧
    (Diagnostic.hasErrors (compile files options).diagnostics = false ↔
      ∀ f ∈ sitedFiles [] files, ∀ site ∈ f.sites,
        ∃ c ∈ (compile files options).database.conversations,
          c.title = site.script.name ∧ c.id = site.id) := by
  refine ⟨⟨?_, map_compile files options⟩, errors_compile files options, ?_⟩
  · rw [compile_eq, List.map_map]
    rfl
  · have none : Diagnostic.hasErrors (compile files options).diagnostics = false ↔
        (compile files options).diagnostics.filter Diagnostic.isError = [] := by
      simp [Diagnostic.hasErrors, List.filter_eq_nil_iff]
    rw [none, errors_compile, List.append_eq_nil_iff, List.flatMap_eq_nil_iff,
      List.flatMap_eq_nil_iff, ← forall₂_and]
    refine forall₂_congr fun f known => ?_
    rw [SitedFile.no_reports_iff]
    exact forall₂_congr fun site member => compiles_iff known member

end Dialogue
