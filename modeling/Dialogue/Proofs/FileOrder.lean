import Dialogue.Proofs.Alike
import Dialogue.Proofs.Speakers
import Mathlib.Data.List.Perm.Basic

/-!
A compilation does not depend on the order of the files. The order decides the ids of conversations
and of actors. What a name stands for does not hang on it: the nodes and the actors that are named
are those of all files together. So the contexts of two orders are alike, every node is lowered to
conversations that are alike, and the same files are condemned. Hence the same conversations are
there at the end, and the same jumps lead nowhere.
-/

set_option autoImplicit false
set_option relaxedAutoImplicit false

namespace Dialogue

open Compile

def Database.actorName? (db : Database) (id : Nat) : Option String :=
  (db.actors.find? (·.id = id)).map Actor.name

def Database.titleOf? (db : Database) (id : Nat) : Option String :=
  (db.conversation? id).map Conversation.title

def Database.SameActor (db₁ db₂ : Database) (a₁ a₂ : Nat) : Prop :=
  ∃ name, db₁.actorName? a₁ = some name ∧ db₂.actorName? a₂ = some name

def Database.SameConversation (db₁ db₂ : Database) (k₁ k₂ : Nat) : Prop :=
  ∃ title, db₁.titleOf? k₁ = some title ∧ db₂.titleOf? k₂ = some title

namespace Database

private theorem mem_names_foldl_addActor_iff {actors : List (String × Bool)}
    {db : Database} {name : String} :
    name ∈ (actors.foldl (fun db a => db.addActor a.1 a.2) db).actors.map Actor.name ↔
      name ∈ db.actors.map Actor.name ∨ name ∈ actors.map Prod.fst := by
  induction actors generalizing db with
  | nil => simp
  | cons actor rest ih =>
    have first : name ∈ (db.addActor actor.1 actor.2).actors.map Actor.name ↔
        name ∈ db.actors.map Actor.name ∨ name = actor.1 := by
      constructor
      · intro member
        unfold addActor at member
        split at member
        · exact .inl member
        · rw [List.map_append, List.mem_append, List.map_singleton, List.mem_singleton] at member
          exact member
      · rintro (member | rfl)
        · exact ((db.addActor_extends actor.1 actor.2).actors.map Actor.name).subset member
        · exact db.mem_names_addActor _ _
    rw [List.foldl_cons, ih, first, List.map_cons, List.mem_cons]
    tauto

private theorem isSome_actorId?_iff {db : Database} {name : String} :
    (db.actorId? name).isSome ↔ name ∈ db.actors.map Actor.name := by
  rw [actorId?, Option.isSome_map, List.find?_isSome, List.mem_map]
  simp

/-- The actor that a name stands for has that name. -/
theorem Numbered.actorName?_eq {db : Database} (numbered : db.Numbered) {actor : Actor}
    (member : actor ∈ db.actors) : db.actorName? actor.id = some actor.name := by
  have distinct : (db.actors.map Actor.id).Nodup := by
    rw [numbered]
    exact List.nodup_range'
  have found : (db.actors.find? (·.id = actor.id)).isSome := by
    rw [List.find?_isSome]
    exact ⟨actor, member, by simp⟩
  obtain ⟨other, here⟩ := Option.isSome_iff_exists.mp found
  have same : other.id = actor.id := by simpa using List.find?_some here
  have equal := List.inj_on_of_nodup_map distinct (List.mem_of_find?_eq_some here) member same
  rw [actorName?, here, equal]
  rfl

end Database

namespace Compile

variable {files files' : List ScriptFile} {options : Options}

/-- The database that registration starts with. -/
def initial (files : List ScriptFile) (options : Options) : Database :=
  { Database.new options.defaultLocale options.locales options.playerName
      options.defaultActorName with sourceFiles := files.map ScriptFile.file }

private theorem registered_numbered (files : List ScriptFile) (options : Options) :
    (registered files options).1.Numbered := by
  have start : (initial files options).Numbered := rfl
  have grown :=
    Database.foldl_addActor_induction start (fun _ name isPlayer h => h.addActor name isPlayer)
      ((Registration.ofFiles files options.defaultLocale).filterMap Registration.Mention.actor?)
  have actors := Registration.actors_register files (initial files options) options.defaultLocale
  unfold Database.Numbered at grown ⊢
  rw [← actors] at grown
  exact grown

private theorem registered_metadata (files : List ScriptFile) (options : Options) :
    (registered files options).1.metadata = (initial files options).metadata :=
  (Registration.register_extends files (initial files options) options.defaultLocale).metadata

/-- The first two actors are the player and the default actor. -/
theorem initial_actors (files : List ScriptFile) (options : Options) :
    [⟨1, options.playerName, true⟩, ⟨2, options.defaultActorName, false⟩] <+:
      (registered files options).1.actors :=
  (Registration.register_extends files (initial files options) options.defaultLocale).actors

private theorem mem_names_registered {name : String} :
    name ∈ (registered files options).1.actors.map Actor.name ↔
      name ∈ [options.playerName, options.defaultActorName] ∨
        ∃ isPlayer, Registration.Mention.actor name isPlayer ∈
          Registration.ofFiles files options.defaultLocale := by
  have actors := Registration.actors_register files (initial files options) options.defaultLocale
  change name ∈
    (Registration.register files (initial files options) options.defaultLocale).1.actors.map
    Actor.name ↔ _
  rw [actors, Database.mem_names_foldl_addActor_iff]
  refine or_congr Iff.rfl ?_
  rw [List.mem_map]
  constructor
  · rintro ⟨⟨_, isPlayer⟩, member, rfl⟩
    obtain ⟨mention, listed, found⟩ := List.mem_filterMap.mp member
    cases mention with
    | actor name isPlayer =>
      cases found
      exact ⟨isPlayer, listed⟩
    | declared usage => cases found
    | assigned usage => cases found
  · rintro ⟨isPlayer, listed⟩
    exact ⟨(name, isPlayer), List.mem_filterMap.mpr ⟨_, listed, rfl⟩, rfl⟩

private theorem mem_names_registered_perm (perm : files.Perm files')
    (options : Options) (name : String) :
    name ∈ (registered files options).1.actors.map Actor.name ↔
      name ∈ (registered files' options).1.actors.map Actor.name := by
  have mentions : (Registration.ofFiles files options.defaultLocale).Perm
      (Registration.ofFiles files' options.defaultLocale) := perm.flatMap_right _
  rw [mem_names_registered, mem_names_registered]
  simp only [mentions.mem_iff]

/-- An actor is the player exactly if it has the first name. -/
theorem actorId?_eq_player_iff {name : String} {id : Nat}
    (found : (registered files options).1.actorId? name = some id) :
    id = (registered files options).1.metadata.playerActor ↔ name = options.playerName := by
  obtain ⟨actor, here, rfl⟩ := Option.map_eq_some_iff.mp found
  have named : actor.name = name := by simpa using List.find?_some here
  have member := List.mem_of_find?_eq_some here
  have player : (registered files options).1.metadata.playerActor = 1 := by
    rw [registered_metadata]
    rfl
  obtain ⟨rest, actors⟩ := initial_actors files options
  rw [player]
  constructor
  · intro first
    have one := (registered_numbered files options).actorName?_eq member
    have head : (registered files options).1.actorName? 1 = some options.playerName := by
      rw [Database.actorName?, ← actors]
      rfl
    rw [first, head] at one
    rw [← named, ← Option.some.inj one]
  · rintro rfl
    rw [← actors] at here
    have first : some (⟨1, options.playerName, true⟩ : Actor) = some actor := by simpa using here
    rw [← Option.some.inj first]

abbrev nodeIds (files : List ScriptFile) : Dict Nat :=
  (numberFiles {} files).1.ids

theorem nodeIds_covers (files : List ScriptFile) :
    (numberFiles {} files).1.Covers (files.flatMap ScriptFile.scripts) :=
  numberFiles_covers files covers_empty

theorem nodeIds_injective {name other : String} {id : Nat}
    (first : (nodeIds files).get? name = some id)
    (second : (nodeIds files).get? other = some id) : name = other := by
  obtain ⟨site, member, rfl, here⟩ := ((nodeIds_covers files).found name id).mp first
  obtain ⟨site', member', rfl, there⟩ := ((nodeIds_covers files).found other id).mp second
  have distinct : ((firsts (files.flatMap ScriptFile.scripts)).map Site.id).Nodup := by
    rw [ids_firsts]
    exact List.nodup_range'
  rw [List.inj_on_of_nodup_map distinct member member' (here.trans there.symm)]

private theorem contains_nodeIds_perm (perm : files.Perm files') (name : String) :
    (nodeIds files).contains name = (nodeIds files').contains name := by
  have scripts : (files.flatMap ScriptFile.scripts).Perm (files'.flatMap ScriptFile.scripts) :=
    perm.flatMap_right _
  rw [(nodeIds_covers files).known, (nodeIds_covers files').known]
  exact scripts.any_eq

/-- Nodes of two projects with the same name. -/
def SameNode (files files' : List ScriptFile) (k₁ k₂ : Nat) : Prop :=
  ∃ name, (nodeIds files).get? name = some k₁ ∧ (nodeIds files').get? name = some k₂

private theorem sameNode_biUnique : Relator.BiUnique (SameNode files files') := by
  constructor
  · rintro k₁ k₂ k₁' ⟨name, here, there⟩ ⟨name', here', there'⟩
    obtain rfl := nodeIds_injective there there'
    exact Option.some.inj (here.symm.trans here')
  · rintro k₁ k₂ k₂' ⟨name, here, there⟩ ⟨name', here', there'⟩
    obtain rfl := nodeIds_injective here here'
    exact Option.some.inj (there.symm.trans there')

/-- Actors with the same name, of whom both or none are the player. -/
def SamePart (files files' : List ScriptFile) (options : Options) (a₁ a₂ : Nat) : Prop :=
  (registered files options).1.SameActor (registered files' options).1 a₁ a₂ ∧
    (a₁ = (registered files options).1.metadata.playerActor ↔
      a₂ = (registered files' options).1.metadata.playerActor)

private theorem actorName?_of_initial (files : List ScriptFile) (options : Options) :
    (registered files options).1.actorName? 1 = some options.playerName ∧
      (registered files options).1.actorName? 2 = some options.defaultActorName := by
  obtain ⟨rest, actors⟩ := initial_actors files options
  rw [Database.actorName?, Database.actorName?, ← actors]
  exact ⟨rfl, rfl⟩

private theorem actorName?_of_actorId? {name : String} {id : Nat}
    (found : (registered files options).1.actorId? name = some id) :
    (registered files options).1.actorName? id = some name := by
  obtain ⟨actor, here, rfl⟩ := Option.map_eq_some_iff.mp found
  have named : actor.name = name := by simpa using List.find?_some here
  rw [(registered_numbered files options).actorName?_eq (List.mem_of_find?_eq_some here), named]

/-- In another order of the files, every name stands for the same actor and the same node. -/
theorem contextOf_alike (perm : files.Perm files') (options : Options) (file : ScriptFile) :
    Context.Alike (SamePart files files' options) (SameNode files files')
      (contextOf files options file) (contextOf files' options file) where
  actors name := by
    have known := mem_names_registered_perm perm options name
    rw [← Database.isSome_actorId?_iff, ← Database.isSome_actorId?_iff] at known
    change Option.Rel _ ((registered files options).1.actorId? name)
      ((registered files' options).1.actorId? name)
    cases first : (registered files options).1.actorId? name with
    | none =>
      cases second : (registered files' options).1.actorId? name with
      | none => exact .none
      | some id => simp [first, second] at known
    | some id =>
      cases second : (registered files' options).1.actorId? name with
      | none => simp [first, second] at known
      | some id' =>
        have same := (actorId?_eq_player_iff first).trans (actorId?_eq_player_iff second).symm
        exact .some ⟨⟨name, actorName?_of_actorId? first, actorName?_of_actorId? second⟩, same⟩
  player := by
    change SamePart files files' options (registered files options).1.metadata.playerActor
      (registered files' options).1.metadata.playerActor
    rw [registered_metadata, registered_metadata]
    refine ⟨⟨options.playerName, ?_, ?_⟩, ?_⟩
    · exact (actorName?_of_initial files options).1
    · exact (actorName?_of_initial files' options).1
    · rw [registered_metadata, registered_metadata]
      exact ⟨fun _ => rfl, fun _ => rfl⟩
  narrator := by
    change SamePart files files' options (registered files options).1.metadata.defaultActor
      (registered files' options).1.metadata.defaultActor
    rw [registered_metadata, registered_metadata]
    refine ⟨⟨options.defaultActorName, ?_, ?_⟩, ?_⟩
    · exact (actorName?_of_initial files options).2
    · exact (actorName?_of_initial files' options).2
    · rw [registered_metadata, registered_metadata]
      exact Iff.rfl
  isPlayer _ _ same := same.2
  conversations name := by
    have known := contains_nodeIds_perm perm name
    unfold Dict.contains at known
    change Option.Rel _ ((nodeIds files).get? name) ((nodeIds files').get? name)
    cases first : (nodeIds files).get? name with
    | none =>
      cases second : (nodeIds files').get? name with
      | none => exact .none
      | some id => simp [first, second] at known
    | some id =>
      cases second : (nodeIds files').get? name with
      | none => simp [first, second] at known
      | some id' => exact .some ⟨name, first, second⟩
  lines := rfl
  defaultLocale := rfl

/-- Whether a result condemns its file. -/
def condemns : Except CompileError Conversation → Bool
  | .ok _ => false
  | .error e => e.isFatal

/-- What the nodes of a file are lowered to, each with the id of its name. -/
def results (ctx : Context) (file : ScriptFile) : List (Except CompileError Conversation) :=
  file.scripts.map fun s => s.lower ctx ((ctx.conversations.get? s.name).getD 0)

def lowered (ctx : Context) (file : ScriptFile) : List Conversation :=
  if (results ctx file).any condemns then [] else (results ctx file).filterMap Except.toOption

section Distinct

/-- No two nodes of a project have the same name. -/
def Distinct (files : List ScriptFile) : Prop :=
  ((files.flatMap ScriptFile.scripts).map Script.name).Nodup

private theorem isFirst_of_distinct (distinct : Distinct files) {site : Site}
    (member : site ∈ sites [] (files.flatMap ScriptFile.scripts)) : site.isFirst = true := by
  have before := (prefix_of_mem_sites member).sublist
  have names := List.Nodup.sublist (before.map Script.name) distinct
  rw [List.map_append, List.nodup_append] at names
  rw [Site.isFirst, List.all_eq_true]
  intro s earlier
  simpa using names.2.2 s.name (List.mem_map_of_mem earlier) site.script.name (by simp)

private theorem scripts_sites (earlier scripts : List Script) :
    (sites earlier scripts).map Site.script = scripts := by
  induction scripts generalizing earlier with
  | nil => rfl
  | cons s rest ih => rw [sites, List.map_cons, ih]

private theorem files_sitedFiles (earlier : List Script) (files : List ScriptFile) :
    (sitedFiles earlier files).map SitedFile.file = files := by
  induction files generalizing earlier with
  | nil => rfl
  | cons file rest ih => rw [sitedFiles, List.map_cons, ih]

private theorem scripts_of_mem_sitedFiles {earlier : List Script} {f : SitedFile}
    (known : f ∈ sitedFiles earlier files) : f.sites.map Site.script = f.file.scripts := by
  induction files generalizing earlier with
  | nil => cases known
  | cons file rest ih =>
    rcases List.mem_cons.mp known with rfl | known
    · exact scripts_sites _ _
    · exact ih known

/-- If names are distinct, a node is lowered with the id of its name. -/
theorem SitedFile.conversations_of_distinct (distinct : Distinct files) {f : SitedFile}
    (known : f ∈ sitedFiles [] files) {ctx : Context} (ids : ctx.conversations = nodeIds files) :
    f.conversations ctx = lowered ctx f.file := by
  have first : ∀ site ∈ f.sites, site.isFirst = true := fun site member =>
    isFirst_of_distinct distinct (mem_sites_of_file known member)
  have all : f.sites.filter Site.isFirst = f.sites := List.filter_eq_self.mpr first
  have listed : results ctx f.file = f.sites.map fun site => site.script.lower ctx site.id := by
    rw [results, ← scripts_of_mem_sitedFiles known, List.map_map]
    apply List.map_congr_left
    intro site member
    have found : ctx.conversations.get? site.script.name = some site.id := by
      rw [ids]
      apply ((nodeIds_covers files).found _ _).mpr
      exact ⟨site, List.mem_filter.mpr ⟨mem_sites_of_file known member, first site member⟩,
        rfl, rfl⟩
    simp [found]
  have condemned : f.isCondemned ctx = (results ctx f.file).any condemns := by
    rw [SitedFile.isCondemned, errors, all, listed, List.any_filterMap, List.any_map]
    congr 1
    funext site
    simp only [Site.error?, Function.comp_apply]
    cases site.script.lower ctx site.id <;> rfl
  rw [f.conversations_eq, condemned, all, lowered]
  congr 1
  rw [listed, List.filterMap_map]
  rfl

private theorem conversations_of_distinct (distinct : Distinct files) (options : Options) :
    conversations files options = files.flatMap fun file =>
      lowered (contextOf files options file) file := by
  have each : conversations files options =
      (sitedFiles [] files).flatMap fun f => lowered (contextOf files options f.file) f.file := by
    unfold conversations
    rw [List.flatMap_def, List.flatMap_def]
    congr 1
    apply List.map_congr_left
    intro f known
    exact SitedFile.conversations_of_distinct distinct known rfl
  have rest := congrArg (List.flatMap fun file => lowered (contextOf files options file) file)
    (files_sitedFiles [] files)
  rw [List.flatMap_map] at rest
  rw [each, rest]

end Distinct

private theorem any_condemns_eq {R : Conversation → Conversation → Prop}
    {first second : List (Except CompileError Conversation)}
    (agree : List.Forall₂ (Agree R) first second) :
    first.any condemns = second.any condemns := by
  induction agree with
  | nil => rfl
  | cons here _ ih =>
    rw [List.any_cons, List.any_cons, ih]
    cases here <;> rfl

private theorem lowered_alike {A C : Nat → Nat → Prop} {ctx₁ ctx₂ : Context}
    (h : Context.Alike A C ctx₁ ctx₂) {file : ScriptFile}
    (known : ∀ s ∈ file.scripts, (ctx₁.conversations.get? s.name).isSome) :
    List.Forall₂ (Conversation.Alike A C) (lowered ctx₁ file) (lowered ctx₂ file) := by
  have agree : List.Forall₂ (Agree (Conversation.Alike A C)) (results ctx₁ file)
      (results ctx₂ file) := by
    rw [results, results, List.forall₂_map_left_iff, List.forall₂_map_right_iff, List.forall₂_same]
    intro s member
    apply s.lower_alike h
    have here := known s member
    have same := h.conversations s.name
    generalize ctx₁.conversations.get? s.name = first at here same ⊢
    generalize ctx₂.conversations.get? s.name = second at same ⊢
    cases same with
    | none => cases here
    | some same => exact same
  unfold lowered
  rw [any_condemns_eq agree]
  split
  · exact .nil
  · refine List.rel_filterMap ?_ agree
    intro x y first
    cases first with
    | ok alike => exact .some alike
    | error e => exact .none

section Dangling

variable {A C A' C' : Nat → Nat → Prop} {present present' : List Nat} {k₁ k₂ : Nat}

/-- Of links that are alike, the same dangle, and those that stay lead to conversations that are
there. -/
theorem links_alike (agree : ∀ k₁ k₂, C k₁ k₂ → (k₁ ∈ present ↔ k₂ ∈ present'))
    (kept : ∀ k₁ k₂, C k₁ k₂ → k₁ ∈ present → C' k₁ k₂) (same : C k₁ k₂) (here : k₁ ∈ present)
    {ls₁ ls₂ : List Link} (h : List.Forall₂ (Link.Alike C k₁ k₂) ls₁ ls₂) :
    List.Forall₂ (Link.Alike C' k₁ k₂) (ls₁.filter fun l => !isDangling present l)
      (ls₂.filter fun l => !isDangling present' l) := by
  induction h with
  | nil => exact .nil
  | @cons l₁ l₂ _ _ alike _ ih =>
    have dangling : isDangling present l₁ = isDangling present' l₂ := by
      have iff := agree _ _ alike.destination
      unfold isDangling
      rw [alike.isConnector]
      congr 2
      rw [Bool.eq_iff_iff, List.contains_iff_mem, List.contains_iff_mem, iff]
    cases stays : isDangling present l₁ with
    | true =>
      rw [List.filter_cons_of_neg (by simp [stays]),
        List.filter_cons_of_neg (by simp [← dangling, stays])]
      exact ih
    | false =>
      rw [List.filter_cons_of_pos (by simp [stays]),
        List.filter_cons_of_pos (by simp [← dangling, stays])]
      refine .cons { alike with destination := ?_ } ih
      cases connector : l₁.isConnector with
      | false =>
        obtain ⟨first, second⟩ := alike.inner connector
        rw [first, second]
        exact kept _ _ same here
      | true =>
        apply kept _ _ alike.destination
        simpa [isDangling, connector] using stays

private theorem withoutDangling_alike (actors : ∀ a₁ a₂, A a₁ a₂ → A' a₁ a₂)
    (agree : ∀ k₁ k₂, C k₁ k₂ → (k₁ ∈ present ↔ k₂ ∈ present'))
    (kept : ∀ k₁ k₂, C k₁ k₂ → k₁ ∈ present → C' k₁ k₂) {c₁ c₂ : Conversation}
    (h : Conversation.Alike A C c₁ c₂) (here : c₁.id ∈ present) :
    Conversation.Alike A' C' (withoutDangling present c₁) (withoutDangling present' c₂) where
  id := kept _ _ h.id here
  title := h.title
  actor := actors _ _ h.actor
  conversant := actors _ _ h.conversant
  entries := by
    apply List.forall₂_map_left_iff.mpr
    apply List.forall₂_map_right_iff.mpr
    refine h.entries.imp fun e₁ e₂ alike => ?_
    exact { alike with
      actor := actors _ _ alike.actor
      conversant := actors _ _ alike.conversant
      links := links_alike agree kept h.id here alike.links }

end Dangling

private theorem nodeIds_of_mem_conversations {c : Conversation}
    (member : c ∈ conversations files options) :
    (nodeIds files).get? c.title = some c.id := by
  have listed : (c.title, c.id) ∈ (conversations files options).map fun c => (c.title, c.id) :=
    List.mem_map_of_mem member
  rw [map_conversations] at listed
  obtain ⟨site, compiled, same⟩ := List.mem_map.mp listed
  obtain ⟨title, id⟩ := Prod.mk.inj same
  exact ((nodeIds_covers files).found _ _).mpr ⟨site,
    (compiled_sublist files options).subset compiled, title, id⟩

theorem database_conversations (files : List ScriptFile) (options : Options) :
    (compile files options).database.conversations = (conversations files options).map
      (withoutDangling ((conversations files options).map Conversation.id)) := by
  rw [compile_eq]

/-- The title of a conversation that is there is the name that its id stands for. -/
theorem titleOf?_of_present {name : String} {k : Nat} (known : (nodeIds files).get? name = some k)
    (present : k ∈ (conversations files options).map Conversation.id) :
    (compile files options).database.titleOf? k = some name := by
  have found : ((compile files options).database.conversation? k).isSome := by
    obtain ⟨c, member, rfl⟩ := List.mem_map.mp present
    rw [Database.conversation?, List.find?_isSome, database_conversations]
    exact ⟨_, List.mem_map_of_mem member, by simp [withoutDangling]⟩
  obtain ⟨c, here⟩ := Option.isSome_iff_exists.mp found
  have id : c.id = k := by simpa using List.find?_some here
  have member := List.mem_of_find?_eq_some here
  rw [database_conversations] at member
  obtain ⟨whole, listed, rfl⟩ := List.mem_map.mp member
  have title := nodeIds_of_mem_conversations listed
  rw [show whole.id = k from id] at title
  rw [Database.titleOf?, here, nodeIds_injective known title]
  rfl

end Compile

private theorem exists_of_forall₂ {α β : Type} {R : α → β → Prop} {as : List α} {bs : List β}
    (h : List.Forall₂ R as bs) {a : α} (member : a ∈ as) : ∃ b ∈ bs, R a b := by
  induction h with
  | nil => cases member
  | cons here _ ih =>
    rcases List.mem_cons.mp member with rfl | member
    · exact ⟨_, List.mem_cons_self, here⟩
    · obtain ⟨b, listed, there⟩ := ih member
      exact ⟨b, List.mem_cons_of_mem _ listed, there⟩

namespace Compile

variable {files files' : List ScriptFile}

private theorem Distinct.perm (distinct : Distinct files) (perm : files.Perm files') :
    Distinct files' := by
  have scripts := perm.flatMap_right ScriptFile.scripts
  exact (scripts.map Script.name).nodup_iff.mp distinct

/-- As they are lowered, the conversations of two orders are alike, up to their own order. -/
theorem conversations_alike (options : Options) (distinct : Distinct files)
    (perm : files.Perm files') :
    ∃ reordered,
      List.Forall₂ (Conversation.Alike (SamePart files files' options) (SameNode files files'))
        (conversations files options) reordered ∧
      reordered.Perm (conversations files' options) := by
  refine ⟨files.flatMap fun file => lowered (contextOf files' options file) file, ?_, ?_⟩
  · rw [conversations_of_distinct distinct]
    have listed : List.Forall₂ (fun file file' => file = file' ∧ file ∈ files) files files :=
      List.forall₂_same.mpr fun _ member => ⟨rfl, member⟩
    refine List.rel_flatMap listed ?_
    rintro file _ ⟨rfl, member⟩
    refine lowered_alike (contextOf_alike perm options file) fun s script => ?_
    change (nodeIds files).contains s.name = true
    rw [(nodeIds_covers files).known, List.any_eq_true]
    exact ⟨s, List.mem_flatMap.mpr ⟨file, member, script⟩, by simp⟩
  · rw [conversations_of_distinct (distinct.perm perm)]
    exact perm.flatMap_right _

/-- The nodes that have conversations are the same. -/
theorem present_iff {options : Options} {reordered : List Conversation}
    (alike : List.Forall₂ (Conversation.Alike (SamePart files files' options)
      (SameNode files files'))
      (conversations files options) reordered)
      (perm : reordered.Perm (conversations files' options))
    (k₁ k₂ : Nat) (same : SameNode files files' k₁ k₂) :
    k₁ ∈ (conversations files options).map Conversation.id ↔
      k₂ ∈ (conversations files' options).map Conversation.id := by
  have ids : List.Forall₂ (SameNode files files')
    ((conversations files options).map Conversation.id)
      (reordered.map Conversation.id) := by
    rw [List.forall₂_map_left_iff, List.forall₂_map_right_iff]
    exact alike.imp fun _ _ alike => alike.id
  exact (List.rel_mem sameNode_biUnique same ids).trans (perm.map Conversation.id).mem_iff

private theorem sameActor_compile {options : Options} {a₁ a₂ : Nat}
    (same : SamePart files files' options a₁ a₂) :
    (compile files options).database.SameActor (compile files' options).database a₁ a₂ := by
  obtain ⟨⟨name, first, second⟩, -⟩ := same
  refine ⟨name, ?_, ?_⟩
  · rw [Database.actorName?, actors_compile]
    exact first
  · rw [Database.actorName?, actors_compile]
    exact second

end Compile

/-- In another order, the files of a project in which no name is taken twice compile to the same
conversations up to the ids of conversations and actors. -/
theorem compile_perm {files files' : List ScriptFile} (options : Options)
    (distinct : ((files.flatMap ScriptFile.scripts).map Script.name).Nodup)
    (perm : files.Perm files') :
    let db := (compile files options).database
    let db' := (compile files' options).database
    (db.conversations.map Conversation.title).Perm (db'.conversations.map Conversation.title) ∧
      ∀ c ∈ db.conversations, ∀ c' ∈ db'.conversations, c.title = c'.title →
        Conversation.Alike (db.SameActor db') (db.SameConversation db') c c' := by
  intro db db'
  obtain ⟨reordered, alike, same⟩ := conversations_alike options distinct perm
  have agree := present_iff alike same
  have kept : ∀ k₁ k₂, SameNode files files' k₁ k₂ →
    k₁ ∈ (conversations files options).map Conversation.id →
      db.SameConversation db' k₁ k₂ := by
    intro k₁ k₂ node present
    have present' := (agree k₁ k₂ node).mp present
    obtain ⟨name, first, second⟩ := node
    exact ⟨name, titleOf?_of_present first present, titleOf?_of_present second present'⟩
  have pairs : List.Forall₂ (Conversation.Alike (db.SameActor db') (db.SameConversation db'))
      db.conversations (reordered.map
        (withoutDangling ((conversations files' options).map Conversation.id))) := by
    have present : ∀ c ∈ conversations files options,
        c.id ∈ (conversations files options).map Conversation.id :=
      fun _ member => List.mem_map_of_mem member
    rw [database_conversations, List.forall₂_map_left_iff, List.forall₂_map_right_iff]
    refine ((List.forall₂_and_left _ _).mpr ⟨present, alike⟩).imp ?_
    rintro c₁ c₂ ⟨here, alike⟩
    exact withoutDangling_alike (fun _ _ => sameActor_compile) agree kept alike here
  have permuted :
    (reordered.map (withoutDangling ((conversations files' options).map Conversation.id))).Perm
      db'.conversations := by
    rw [database_conversations]
    exact same.map _
  constructor
  · have titles : List.Forall₂ (· = ·) (db.conversations.map Conversation.title)
        ((reordered.map (withoutDangling ((conversations files' options).map Conversation.id))).map
          Conversation.title) := by
      rw [List.forall₂_map_left_iff, List.forall₂_map_right_iff]
      exact pairs.imp fun _ _ alike => alike.title
    rw [List.forall₂_eq_eq_eq] at titles
    rw [titles]
    exact permuted.map _
  · intro c member c' member' title
    obtain ⟨other, listed, alike⟩ := exists_of_forall₂ pairs member
    -- Titles are distinct, so the partner of the conversation is the one with its title.
    have partner : other = c' := List.inj_on_of_nodup_map (titles_compile files' options)
      (permuted.mem_iff.mp listed) member' (alike.title.symm.trans title)
    rw [← partner]
    exact alike

namespace Sample

/-- Three files with jumps from one to the next. The last is condemned by an assignment without a
value. -/
def chainBundle : Bundle :=
  { files :=
      [{ file := "a"
         conversations :=
          [.mk (.node "Start" .empty) 1 none none
            [.mk (.line (some "hello") []) 2 none (some [.variable "x"]) [],
              .mk (.jump (some "Other")) 3 none none []]]
         strings := .insert .empty "hello" (.insert .empty "en" "Bob: Hello.") },
       { file := "b"
         conversations :=
          [.mk (.node "Other" (.insert .empty "conversant" "Ann")) 1 none none
            [.mk (.line none []) 2 none none [], .mk (.jump (some "Bad")) 3 none none []]] },
       { file := "c"
         conversations :=
           [.mk (.node "Bad" .empty) 1 none none [.mk (.set "x" "=") 2 none none []]] }] }

end Sample

open Sample in
/-- The two orders number conversations and actors differently. -/
theorem compile_perm_sample : ∃ files, Bundle.read chainBundle = .ok files ∧
    ((files.flatMap ScriptFile.scripts).map Script.name).Nodup ∧
    (compile files {}).database.conversations.map (fun c => (c.id, c.title)) =
      [(1, "Start"), (2, "Other")] ∧
    (compile files.reverse {}).database.conversations.map (fun c => (c.id, c.title)) =
      [(2, "Other"), (3, "Start")] ∧
    ∀ c ∈ (compile files {}).database.conversations,
      ∀ c' ∈ (compile files.reverse {}).database.conversations,
      c.title = c'.title → Conversation.Alike
        ((compile files {}).database.SameActor (compile files.reverse {}).database)
        ((compile files {}).database.SameConversation (compile files.reverse {}).database)
        c c' := by
  obtain ⟨files, read⟩ : ∃ files, Bundle.read chainBundle = .ok files := ⟨_, rfl⟩
  have names : (Bundle.read chainBundle).toOption.map (fun files =>
      (files.flatMap ScriptFile.scripts).map Script.name) =
        some ["Start", "Other", "Bad"] := by decide +kernel
  have forward : (Bundle.read chainBundle).toOption.map (fun files =>
      (compile files {}).database.conversations.map fun c => (c.id, c.title)) =
      some [(1, "Start"), (2, "Other")] := by decide +kernel
  have backward : (Bundle.read chainBundle).toOption.map (fun files =>
      (compile files.reverse {}).database.conversations.map fun c => (c.id, c.title)) =
      some [(2, "Other"), (3, "Start")] := by decide +kernel
  rw [read] at names forward backward
  have distinct : ((files.flatMap ScriptFile.scripts).map Script.name).Nodup := by
    have listed : (files.flatMap ScriptFile.scripts).map Script.name = ["Start", "Other", "Bad"] :=
      Option.some.inj names
    rw [listed]
    decide
  exact ⟨files, read, distinct, Option.some.inj forward, Option.some.inj backward,
    (compile_perm {} distinct files.reverse_perm.symm).2⟩

end Dialogue
