import Dialogue.Proofs.Accounting
import Mathlib.Data.List.Flatten

/-!
Compiled databases are closed under reference: all that a conversation, an entry or a link names is
there. What lowering leaves open are the targets of jumps, whose nodes may be dropped later; the
links to these are removed.
-/

set_option autoImplicit false
set_option relaxedAutoImplicit false

namespace Dialogue

open Compile Script

def Database.HasActor (db : Database) (id : Nat) : Prop :=
  ∃ actor ∈ db.actors, actor.id = id

/-- A link of the entry `i` of a conversation leads to an entry of the conversation, or to the start
of a conversation of the database. -/
structure Link.Closed (l : Link) (db : Database) (c : Conversation) (i : Nat) : Prop where
  origin : l.originConversation = c.id ∧ l.originEntry = i
  inner : l.isConnector = false →
    l.destinationConversation = c.id ∧ ∃ e ∈ c.entries, e.id = l.destinationEntry
  outer : l.isConnector = true → l.destinationEntry = Conversation.startId ∧
    ∃ target ∈ db.conversations, target.id = l.destinationConversation

/-- The entry `i` of a conversation knows its place and names actors of the database. -/
structure Entry.Closed (e : Entry) (db : Database) (c : Conversation) (i : Nat) : Prop where
  id : e.id = i
  owner : e.conversationId = c.id
  root : e.isRoot = true ↔ i = Conversation.startId
  actor : db.HasActor e.actorId
  conversant : db.HasActor e.conversantId
  links : ∀ l ∈ e.links, l.Closed db c i

/-- A conversation with a start and with entries that are closed. -/
structure Conversation.Closed (c : Conversation) (db : Database) : Prop where
  actor : db.HasActor c.actorId
  conversant : db.HasActor c.conversantId
  start : ∃ e, c.entries[Conversation.startId]? = some e ∧ e.title = "START" ∧ e.conditions = ""
  entry : ∀ (i : Nat) (e : Entry), c.entries[i]? = some e → e.Closed db c i

/-- A database whose conversations are told apart by id and by title, in the order of their ids, and
are all closed. -/
structure Database.Closed (db : Database) : Prop where
  ids : (db.conversations.map Conversation.id).Pairwise (· < ·)
  titles : (db.conversations.map Conversation.title).Nodup
  conversation : ∀ c ∈ db.conversations, c.Closed db

namespace Database

/-- The player and the default actor are there. -/
def Staffed (db : Database) : Prop :=
  db.HasActor db.metadata.playerActor ∧ db.HasActor db.metadata.defaultActor

private theorem hasActor_of_actorId? {db : Database} {name : String} {id : Nat}
    (h : db.actorId? name = some id) : db.HasActor id := by
  obtain ⟨actor, found, same⟩ := Option.map_eq_some_iff.mp h
  exact ⟨actor, List.mem_of_find?_eq_some found, same⟩

private theorem Extends.hasActor {db db' : Database} (h : db.Extends db') {id : Nat}
    (known : db.HasActor id) :
    db'.HasActor id := by
  obtain ⟨actor, member, same⟩ := known
  exact ⟨actor, h.actors.subset member, same⟩

private theorem Extends.staffed {db db' : Database} (h : db.Extends db') (staffed : db.Staffed) :
    db'.Staffed := by
  unfold Staffed
  rw [h.metadata]
  exact ⟨h.hasActor staffed.1, h.hasActor staffed.2⟩

private theorem registered_staffed (files : List ScriptFile) (options : Options) :
    (registered files options).1.Staffed := by
  apply (Registration.register_extends _ _ _).staffed
  constructor
  · exact ⟨⟨1, options.playerName, true⟩, List.mem_cons_self, rfl⟩
  · exact ⟨⟨2, options.defaultActorName, false⟩, by simp [Database.new], rfl⟩

end Database

section Scenes

variable {ctx : Context} {node : Node}

private theorem Scene.hasActor_named {fallback : Nat}
    (known : ctx.database.HasActor fallback) (header : String) :
    ctx.database.HasActor
      (((node.headers.get? header).bind ctx.database.actorId?).getD fallback) := by
  cases named : (node.headers.get? header).bind ctx.database.actorId? with
  | none => exact known
  | some id =>
    obtain ⟨name, -, found⟩ := Option.bind_eq_some_iff.mp named
    exact Database.hasActor_of_actorId? found

private theorem Scene.Casts.hasActor (staffed : ctx.database.Staffed) {id : Nat}
    (casts : (Scene.ofNode ctx node).Casts id) : ctx.database.HasActor id := by
  rcases casts with rfl | rfl | rfl | ⟨name, found⟩
  · exact staffed.1
  · exact staffed.2
  · exact Scene.hasActor_named staffed.2 conversantHeader
  · exact Database.hasActor_of_actorId? found

end Scenes

private theorem getElem?_withoutDangling (present : List Nat) (c : Conversation) (i : Nat) :
    (withoutDangling present c).entries[i]? = c.entries[i]?.map fun e =>
      { e with links := e.links.filter fun link => !isDangling present link } :=
  List.getElem?_map

/-- What is left of a lowered conversation is closed. -/
theorem Script.lower_closed {s : Script} {ctx : Context} {id : Nat}
    {c : Conversation} {db : Database} (h : s.lower ctx id = .ok c) (staffed : ctx.database.Staffed)
    (same : db.actors = ctx.database.actors) :
    (withoutDangling (db.conversations.map Conversation.id) c).Closed db := by
  obtain ⟨node, complete, -, rfl, fits, own, head⟩ := lower_fits h
  have known : ∀ {actor : Nat}, ctx.database.HasActor actor → db.HasActor actor := by
    intro actor has
    unfold Database.HasActor
    rw [same]
    exact has
  have inside : ∀ (i : Nat) (e : Entry), complete.entries[i]? = some e →
      e.Fits (Scene.ofNode ctx node) id complete.nextId i := by
    intro i e found
    rw [← own]
    exact fits.entry i e found
  refine ⟨?_, ?_, ?_, ?_⟩
  · exact known (Scene.hasActor_named staffed.1 actorHeader)
  · exact known (Scene.hasActor_named staffed.2 conversantHeader)
  · obtain ⟨first, found, alike⟩ := Option.map_eq_some_iff.mp head
    rw [getElem?_withoutDangling, show complete.entries[Conversation.startId]? =
      some first from found]
    exact ⟨_, rfl, congrArg Entry.title alike, congrArg Entry.conditions alike⟩
  · intro i e pruned
    rw [getElem?_withoutDangling] at pruned
    obtain ⟨whole, found, rfl⟩ := Option.map_eq_some_iff.mp pruned
    have entry := inside i whole found
    refine ⟨entry.id, entry.owner, ?_, known (entry.actor.hasActor staffed),
      known (entry.conversant.hasActor staffed), ?_⟩
    · simp [entry.root]
    · intro l member
      obtain ⟨member, kept⟩ := List.mem_filter.mp member
      have link := entry.links l member
      refine ⟨link.origin, ?_, ?_⟩
      · intro plain
        obtain ⟨owner, lt⟩ := link.inner plain
        obtain ⟨target, found⟩ : ∃ target, complete.entries[l.destinationEntry]? = some target :=
          ⟨_, List.getElem?_eq_getElem lt⟩
        refine ⟨owner, _, List.mem_map_of_mem (List.mem_of_getElem? found), ?_⟩
        exact (inside _ target found).id
      · intro connector
        have present : l.destinationConversation ∈ db.conversations.map Conversation.id := by
          simpa [isDangling, connector] using kept
        exact ⟨(link.outer connector).1, List.mem_map.mp present⟩

theorem compiled_sublist (files : List ScriptFile) (options : Options) :
    ((sitedFiles [] files).flatMap fun f => f.compiled (contextOf files options f.file)).Sublist
      (firsts (files.flatMap ScriptFile.scripts)) := by
  rw [firsts, ← sites_sitedFiles, List.filter_flatMap]
  apply List.Sublist.flatMap_right
  intro f _
  apply List.monotone_filter_right
  intro site compiles
  simp only [SitedFile.compiles, Bool.and_eq_true] at compiles
  exact compiles.1.1

private theorem ids_compile (files : List ScriptFile) (options : Options) :
    ((compile files options).database.conversations.map Conversation.id).Pairwise (· < ·) := by
  have seconds := congrArg (List.map Prod.snd) (map_compile files options)
  rw [List.map_map, List.map_map] at seconds
  have ids : (compile files options).database.conversations.map Conversation.id =
      ((sitedFiles [] files).flatMap fun f =>
        f.compiled (contextOf files options f.file)).map Site.id := seconds
  rw [ids]
  apply List.Pairwise.sublist ((compiled_sublist files options).map Site.id)
  rw [ids_firsts]
  exact List.pairwise_lt_range'

theorem titles_compile (files : List ScriptFile) (options : Options) :
    ((compile files options).database.conversations.map Conversation.title).Nodup := by
  have names := congrArg (List.map Prod.fst) (map_compile files options)
  rw [List.map_map, List.map_map] at names
  have titles : (compile files options).database.conversations.map Conversation.title =
      ((sitedFiles [] files).flatMap fun f =>
        f.compiled (contextOf files options f.file)).map fun site => site.script.name := names
  rw [titles]
  exact List.Nodup.sublist ((compiled_sublist files options).map _) (nodup_names_firsts _)

/-- The nodes of a sited file are the scripts of its file. -/
theorem mem_of_mem_sitedFiles {earlier : List Script} {files : List ScriptFile} {f : SitedFile}
    (known : f ∈ sitedFiles earlier files) :
    f.file ∈ files ∧ ∀ site ∈ f.sites, site.script ∈ f.file.scripts := by
  induction files generalizing earlier with
  | nil => cases known
  | cons file rest ih =>
    rcases List.mem_cons.mp known with rfl | known
    · exact ⟨List.mem_cons_self, fun site member => script_mem_of_mem_sites member⟩
    · obtain ⟨listed, scripts⟩ := ih known
      exact ⟨List.mem_cons_of_mem _ listed, scripts⟩

/-- Every conversation is what a script of a file is lowered to, without its dangling links. -/
theorem exists_script_of_mem_compile {files : List ScriptFile}
    {options : Options} {c : Conversation}
    (member : c ∈ (compile files options).database.conversations) :
    ∃ (f : SitedFile) (site : Site) (whole : Conversation),
      f.file ∈ files ∧ site.script ∈ f.file.scripts ∧
      site.script.lower (contextOf files options f.file) site.id = .ok whole ∧
      c = withoutDangling ((compile files options).database.conversations.map Conversation.id)
        whole := by
  have present : (compile files options).database.conversations.map Conversation.id =
      (conversations files options).map Conversation.id := by
    rw [compile_eq, List.map_map]
    rfl
  rw [present]
  rw [compile_eq] at member
  obtain ⟨whole, found, rfl⟩ := List.mem_map.mp member
  obtain ⟨f, known, found⟩ := List.mem_flatMap.mp found
  obtain ⟨site, compiled, found⟩ := List.mem_filterMap.mp found
  obtain ⟨listed, scripts⟩ := mem_of_mem_sitedFiles known
  exact ⟨f, site, whole, listed, scripts site (List.mem_filter.mp compiled).1,
    Site.lower_of_conversation? found, rfl⟩

private theorem exists_of_mem_compile {files : List ScriptFile}
    {options : Options} {c : Conversation}
    (member : c ∈ (compile files options).database.conversations) :
    ∃ (f : SitedFile) (site : Site) (whole : Conversation),
      site.script.lower (contextOf files options f.file) site.id = .ok whole ∧
      c = withoutDangling ((compile files options).database.conversations.map Conversation.id)
        whole := by
  obtain ⟨f, site, whole, -, -, lowered, same⟩ := exists_script_of_mem_compile member
  exact ⟨f, site, whole, lowered, same⟩

/-- Every compiled database is closed under reference. -/
theorem compile_closed (files : List ScriptFile) (options : Options) :
    (compile files options).database.Closed := by
  refine ⟨ids_compile files options, titles_compile files options, ?_⟩
  intro c member
  obtain ⟨f, site, whole, lowered, rfl⟩ := exists_of_mem_compile member
  apply Script.lower_closed lowered
  · exact Database.registered_staffed files options
  · rw [compile_eq]
    rfl

end Dialogue
