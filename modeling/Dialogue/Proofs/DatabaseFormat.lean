import Dialogue.Database.Codec
import Dialogue.Proofs.Json.Format
import Mathlib.Data.List.Nodup

/-!
The JSON format of databases: which values denote a database, and which one. Lists, dictionaries and
texts that are empty are left out of a record, and a member that is left out has that as its
default. Main statement: decoding what was encoded gives the database back for exactly the databases
whose numbers fit 32 bits and whose initial values are in name order, among them all that were
decoded.
-/

set_option autoImplicit false
set_option relaxedAutoImplicit false

namespace Dialogue

private theorem Dict.mem_of_mem_ofList {α : Type} {pairs : List (String × α)} {entry : String × α}
    (h : entry ∈ (Dict.ofList pairs).entries) : entry ∈ pairs := by
  have inserted (d : Dict α) :
      entry ∈ (pairs.foldl (fun d pair => d.insert pair.1 pair.2) d).entries →
        entry ∈ d.entries ∨ entry ∈ pairs := by
    clear h
    induction pairs generalizing d with
    | nil => exact .inl
    | cons pair rest ih =>
      intro h
      rcases ih _ h with before | later
      · rcases Dict.mem_place before with rfl | before
        · exact .inr List.mem_cons_self
        · exact .inl before
      · exact .inr (List.mem_cons_of_mem _ later)
  rcases inserted Dict.empty h with none | given
  · exact nomatch none
  · exact given

namespace Json

/-- A value that denotes something in all its parts, with the members of every object in strictly
increasing order of their names. -/
inductive Canonical : Json → Prop
  | null : Canonical .null
  | bool (b : Bool) : Canonical (.bool b)
  | num (n : Number) : Canonical (.num n)
  | str (s : String) : Canonical (.str s)
  | arr {items : List Json} (each : ∀ item ∈ items, Canonical item) : Canonical (.arr items)
  | obj {members : List (String × Json)} (increasing : members.Pairwise fun a b => a.1 < b.1)
    (each : ∀ member ∈ members, Canonical member.2) : Canonical (.obj members)

mutual

private theorem canonical_sorted : ∀ value : Json, value.readable = true → value.sorted.Canonical
  | .null, _ => .null
  | .bool b, _ => .bool b
  | .num n, _ => .num n
  | .str s, _ => .str s
  | .arr items, h => .arr (canonical_sortedItems items h)
  | .obj members, h =>
    .obj (Dict.ofList (sortedMembers members)).increasing fun member written =>
      canonical_sortedMembers members h member (Dict.mem_of_mem_ofList written)

private theorem canonical_sortedItems : ∀ items : List Json, readableItems items = true →
    ∀ item ∈ sortedItems items, item.Canonical
  | [], _ => fun _ member => nomatch member
  | item :: rest, h => by
    obtain ⟨here, later⟩ := Bool.and_eq_true_iff.mp h
    exact List.forall_mem_cons.mpr ⟨canonical_sorted item here, canonical_sortedItems rest later⟩

private theorem canonical_sortedMembers :
    ∀ members : List (String × Json), readableMembers members = true →
    ∀ member ∈ sortedMembers members, member.2.Canonical
  | [], _ => fun _ member => nomatch member
  | (_, value) :: rest, h => by
    obtain ⟨here, later⟩ := Bool.and_eq_true_iff.mp h
    exact List.forall_mem_cons.mpr ⟨canonical_sorted value here, canonical_sortedMembers rest later⟩

end

private theorem readable_sorted_items (items : List Json)
    (each : ∀ item ∈ items, item.readable = true ∧ item.sorted = item) :
    readableItems items = true ∧ sortedItems items = items := by
  induction items with
  | nil => exact ⟨rfl, rfl⟩
  | cons item rest ih =>
    obtain ⟨⟨readable, sorted⟩, later⟩ := List.forall_mem_cons.mp each
    obtain ⟨readables, sorteds⟩ := ih later
    exact ⟨by rw [readableItems, readable, readables]; rfl, by rw [sortedItems, sorted, sorteds]⟩

private theorem readable_sorted_members (members : List (String × Json))
    (each : ∀ member ∈ members, member.2.readable = true ∧ member.2.sorted = member.2) :
    readableMembers members = true ∧ sortedMembers members = members := by
  induction members with
  | nil => exact ⟨rfl, rfl⟩
  | cons member rest ih =>
    obtain ⟨name, value⟩ := member
    obtain ⟨⟨readable, sorted⟩, later⟩ := List.forall_mem_cons.mp each
    obtain ⟨readables, sorteds⟩ := ih later
    simp only at readable sorted
    exact ⟨by rw [readableMembers, readable, readables]; rfl, by rw [sortedMembers, sorted,
      sorteds]⟩

private theorem Canonical.readable_sorted {value : Json} (h : value.Canonical) :
    value.readable = true ∧ value.sorted = value := by
  induction h with
  | @arr items _ ih =>
    obtain ⟨readable, sorted⟩ := readable_sorted_items items ih
    exact ⟨readable, by rw [Json.sorted, sorted]⟩
  | @obj members increasing _ ih =>
    obtain ⟨readable, sorted⟩ := readable_sorted_members members ih
    have ordered : (Dict.ofList members).entries = members :=
      Dict.entries_foldl_insert members Dict.empty increasing
    exact ⟨readable, by rw [Json.sorted, sorted, ordered]⟩
  | _ => exact ⟨rfl, rfl⟩

/-- Any readable value denotes itself, with its objects in name order. -/
def IsValue : Format Json := fun value v => value.readable = true ∧ v = value.sorted

private theorem reads_value : Reads value? IsValue := by
  intro value v
  rw [value?, Option.ite_none_right_eq_some, Option.some.injEq]
  exact and_congr_right fun _ => eq_comm

private theorem Canonical.isValue {value : Json} (h : value.Canonical) : IsValue value value :=
  ⟨h.readable_sorted.1, h.readable_sorted.2.symm⟩

private theorem canonical_of_isValue (value v : Json) (h : IsValue value v) : v.Canonical := by
  obtain ⟨readable, rfl⟩ := h
  exact canonical_sorted value readable

/-- A link is a record in which its priority and its being a connector may be missing. -/
inductive IsLink : Format Link
  | mk {value : Json} {members : List (String × Json)} {l : Link}
    (fields : IsRecord ["origin_conversation_id", "origin_entry_id", "destination_conversation_id",
      "destination_entry_id", "priority", "is_connector"] value members)
    (originConversation : Required members "origin_conversation_id" (IsWord 32)
      l.originConversation)
    (originEntry : Required members "origin_entry_id" (IsWord 32) l.originEntry)
    (destinationConversation :
      Required members "destination_conversation_id" (IsWord 32) l.destinationConversation)
    (destinationEntry : Required members "destination_entry_id" (IsWord 32) l.destinationEntry)
    (priority : Defaulted members "priority" .normal
      (fun value priority => IsName .plain value (Priority.name priority)) l.priority)
    (isConnector : Defaulted members "is_connector" false IsBool l.isConnector) :
    IsLink value l

/-- An entry is a record in which its numbers and its title have to be there. -/
inductive IsEntry : Format Entry
  | mk {value : Json} {members : List (String × Json)} {e : Entry}
    (fields : IsRecord ["id", "conversation_id", "title", "actor_id", "conversant_id",
      "dialogue_text", "tags", "conditions", "false_condition_action", "user_script", "sequence",
      "is_root", "is_group", "outgoing_links"] value members)
    (id : Required members "id" (IsWord 32) e.id)
    (conversationId : Required members "conversation_id" (IsWord 32) e.conversationId)
    (title : Required members "title" IsText e.title)
    (actorId : Required members "actor_id" (IsWord 32) e.actorId)
    (conversantId : Required members "conversant_id" (IsWord 32) e.conversantId)
    (dialogueText : Defaulted members "dialogue_text" .empty (IsDict IsText) e.dialogueText)
    (tags : Defaulted members "tags" [] (IsList IsText) e.tags)
    (conditions : Defaulted members "conditions" "" IsText e.conditions)
    (falseAction : Defaulted members "false_condition_action" .block
      (fun value action => IsName .plain value (FalseAction.name action)) e.falseAction)
    (userScript : Defaulted members "user_script" "" IsText e.userScript)
    (sequence : Defaulted members "sequence" "" IsText e.sequence)
    (isRoot : Defaulted members "is_root" false IsBool e.isRoot)
    (isGroup : Defaulted members "is_group" false IsBool e.isGroup)
    (links : Defaulted members "outgoing_links" [] (IsList IsLink) e.links) :
    IsEntry value e

/-- A conversation is a record without optional members. -/
inductive IsConversation : Format Conversation
  | mk {value : Json} {members : List (String × Json)} {c : Conversation}
    (fields : IsRecord ["id", "title", "actor_id", "conversant_id", "entries"] value members)
    (id : Required members "id" (IsWord 32) c.id)
    (title : Required members "title" IsText c.title)
    (actorId : Required members "actor_id" (IsWord 32) c.actorId)
    (conversantId : Required members "conversant_id" (IsWord 32) c.conversantId)
    (entries : Required members "entries" (IsList IsEntry) c.entries) :
    IsConversation value c

/-- An actor is a record with its number and its name; it is no player unless it says so. -/
inductive IsActor : Format Actor
  | mk {value : Json} {members : List (String × Json)} {a : Actor}
    (fields : IsRecord ["id", "name", "is_player"] value members)
    (id : Required members "id" (IsWord 32) a.id) (name : Required members "name" IsText a.name)
    (isPlayer : Defaulted members "is_player" false IsBool a.isPlayer) : IsActor value a

/-- A variable is a record with its name, its type and any initial value. -/
inductive IsVariable : Format Variable
  | mk {value : Json} {members : List (String × Json)} {v : Variable}
    (fields : IsRecord ["name", "kind", "initial_value"] value members)
    (name : Required members "name" IsText v.name)
    (kind : Required members "kind"
      (fun value kind => IsName .plain value (VariableKind.name kind)) v.kind)
    (initialValue : Required members "initial_value" IsValue v.initialValue) :
    IsVariable value v

/-- Metadata is a record in which only the further locales may be missing. -/
inductive IsMetadata : Format Metadata
  | mk {value : Json} {members : List (String × Json)} {m : Metadata}
    (fields : IsRecord ["compiler_version", "default_locale", "locales", "player_actor_id",
      "default_actor_id"] value members)
    (compilerVersion : Required members "compiler_version" IsText m.compilerVersion)
    (defaultLocale : Required members "default_locale" IsText m.defaultLocale)
    (locales : Defaulted members "locales" [] (IsList IsText) m.locales)
    (playerActor : Required members "player_actor_id" (IsWord 32) m.playerActor)
    (defaultActor : Required members "default_actor_id" (IsWord 32) m.defaultActor) :
    IsMetadata value m

/-- A database is a record in which its version and its metadata have to be there. -/
inductive IsDatabase : Format Database
  | mk {value : Json} {members : List (String × Json)} {db : Database}
    (fields : IsRecord ["version", "source_files", "actors", "variables", "conversations",
      "metadata"] value members)
    (version : Required members "version" IsText db.version)
    (sourceFiles : Defaulted members "source_files" [] (IsList IsText) db.sourceFiles)
    (actors : Defaulted members "actors" [] (IsList IsActor) db.actors)
    (declarations : Defaulted members "variables" [] (IsList IsVariable) db.declarations)
    (conversations : Defaulted members "conversations" [] (IsList IsConversation) db.conversations)
    (metadata : Required members "metadata" IsMetadata db.metadata) : IsDatabase value db

/-- An empty list, dictionary or text. -/
def isBlank : Json → Bool
  | .arr items => items.isEmpty
  | .obj members => members.isEmpty
  | .str s => s = ""
  | _ => false

/-- An object in which no member is blank but those with one of some names. -/
def BlankOnly (names : List String) : Json → Prop
  | .obj members => ∀ member ∈ members, member.2.isBlank = true → member.1 ∈ names
  | _ => False

end Json

open Json

/-- A link whose numbers fit 32 bits. -/
structure Link.Encodable (l : Link) : Prop where
  originConversation : l.originConversation < 2 ^ 32
  originEntry : l.originEntry < 2 ^ 32
  destinationConversation : l.destinationConversation < 2 ^ 32
  destinationEntry : l.destinationEntry < 2 ^ 32

/-- An entry whose numbers fit 32 bits, those of its links among them. -/
structure Entry.Encodable (e : Entry) : Prop where
  id : e.id < 2 ^ 32
  conversationId : e.conversationId < 2 ^ 32
  actorId : e.actorId < 2 ^ 32
  conversantId : e.conversantId < 2 ^ 32
  links : ∀ l ∈ e.links, l.Encodable

/-- A conversation whose numbers fit 32 bits, those of its entries among them. -/
structure Conversation.Encodable (c : Conversation) : Prop where
  id : c.id < 2 ^ 32
  actorId : c.actorId < 2 ^ 32
  conversantId : c.conversantId < 2 ^ 32
  entries : ∀ e ∈ c.entries, e.Encodable

/-- A database of the numbers and values that its records can hold: every id is a word of 32 bits,
and an initial value is a JSON value whose objects list different names in order. -/
structure Database.Encodable (db : Database) : Prop where
  actors : ∀ a ∈ db.actors, a.id < 2 ^ 32
  declarations : ∀ v ∈ db.declarations, v.initialValue.Canonical
  conversations : ∀ c ∈ db.conversations, c.Encodable
  playerActor : db.metadata.playerActor < 2 ^ 32
  defaultActor : db.metadata.defaultActor < 2 ^ 32

private theorem Priority.ofName?_eq_some_iff (s : String) (priority : Priority) :
    Priority.ofName? s = some priority ↔ s = priority.name := by
  constructor
  · intro h
    unfold Priority.ofName? at h
    split at h <;> cases h <;> rfl
  · rintro rfl
    cases priority <;> rfl

private theorem FalseAction.ofName?_eq_some_iff (s : String) (action : FalseAction) :
    FalseAction.ofName? s = some action ↔ s = action.name := by
  constructor
  · intro h
    unfold FalseAction.ofName? at h
    split at h <;> cases h <;> rfl
  · rintro rfl
    cases action <;> rfl

private theorem VariableKind.ofName?_eq_some_iff (s : String) (kind : VariableKind) :
    VariableKind.ofName? s = some kind ↔ s = kind.name := by
  constructor
  · intro h
    unfold VariableKind.ofName? at h
    split at h <;> cases h <;> rfl
  · rintro rfl
    cases kind <;> rfl

private theorem Link.reads_ofJson? : Reads Link.ofJson? IsLink := by
  have reads_priority := reads_name .plain Priority.ofName?_eq_some_iff
  intro value l
  simp only [Link.ofJson?, Option.bind_eq_bind, Option.bind_eq_some_iff, Option.pure_def,
    Option.some.injEq, Record.of?_eq_some_iff, Record.required?_eq_some_iff reads_word32,
    Record.withDefault?_eq_some_iff reads_priority, Record.withDefault?_eq_some_iff reads_bool]
  constructor
  · rintro ⟨r, fields, _, fromConversation, _, fromEntry, _, toConversation, _, toEntry, _,
      priority, _, isConnector, rfl⟩
    exact .mk fields fromConversation fromEntry toConversation toEntry priority isConnector
  · intro h
    cases h with
    | mk fields fromConversation fromEntry toConversation toEntry priority isConnector =>
      exact ⟨⟨_⟩, fields, _, fromConversation, _, fromEntry, _, toConversation, _, toEntry, _,
        priority, _, isConnector, rfl⟩

private theorem bind_eq_some_iff_of_iff {α β : Type} {first : Option α}
    {next : α → Option β} {P Q : α → Prop} {b : β} (here : ∀ a, first = some a ↔ P a)
    (later : ∀ a, next a = some b ↔ Q a) :
    first.bind next = some b ↔ ∃ a, P a ∧ Q a := by
  simp only [Option.bind_eq_some_iff, here, later]

private theorem Entry.reads_ofJson? : Reads Entry.ofJson? IsEntry := by
  have reads_action := reads_name .plain FalseAction.ofName?_eq_some_iff
  intro value e
  unfold Entry.ofJson?
  refine Iff.trans (
    bind_eq_some_iff_of_iff (Record.of?_eq_some_iff _ _) fun r =>
    bind_eq_some_iff_of_iff (Record.required?_eq_some_iff reads_word32 r _) fun _ =>
    bind_eq_some_iff_of_iff (Record.required?_eq_some_iff reads_word32 r _) fun _ =>
    bind_eq_some_iff_of_iff (Record.required?_eq_some_iff reads_text r _) fun _ =>
    bind_eq_some_iff_of_iff (Record.required?_eq_some_iff reads_word32 r _) fun _ =>
    bind_eq_some_iff_of_iff (Record.required?_eq_some_iff reads_word32 r _) fun _ =>
    bind_eq_some_iff_of_iff (Record.withDefault?_eq_some_iff reads_text.dict r _ _) fun _ =>
    bind_eq_some_iff_of_iff (Record.withDefault?_eq_some_iff reads_text.list r _ _) fun _ =>
    bind_eq_some_iff_of_iff (Record.withDefault?_eq_some_iff reads_text r _ _) fun _ =>
    bind_eq_some_iff_of_iff (Record.withDefault?_eq_some_iff reads_action r _ _) fun _ =>
    bind_eq_some_iff_of_iff (Record.withDefault?_eq_some_iff reads_text r _ _) fun _ =>
    bind_eq_some_iff_of_iff (Record.withDefault?_eq_some_iff reads_text r _ _) fun _ =>
    bind_eq_some_iff_of_iff (Record.withDefault?_eq_some_iff reads_bool r _ _) fun _ =>
    bind_eq_some_iff_of_iff (Record.withDefault?_eq_some_iff reads_bool r _ _) fun _ =>
    bind_eq_some_iff_of_iff (Record.withDefault?_eq_some_iff Link.reads_ofJson?.list r _ _) fun _ =>
    Option.some_inj) ?_
  constructor
  · rintro ⟨r, fields, _, id, _, conversationId, _, title, _, actorId, _, conversantId, _, texts,
      _, tags, _, conditions, _, action, _, script, _, sequence, _, isRoot, _,
        isGroup, _, links, rfl⟩
    exact .mk fields id conversationId title actorId conversantId texts tags
      conditions action script
      sequence isRoot isGroup links
  · intro h
    cases h with
    | mk fields id conversationId title actorId conversantId texts tags conditions action script
        sequence isRoot isGroup links =>
      exact ⟨⟨_⟩, fields, _, id, _, conversationId, _, title, _, actorId, _, conversantId, _,
        texts, _, tags, _, conditions, _, action, _, script, _, sequence, _, isRoot, _, isGroup, _,
        links, rfl⟩

private theorem Conversation.reads_ofJson? : Reads Conversation.ofJson? IsConversation := by
  intro value c
  simp only [Conversation.ofJson?, Option.bind_eq_bind, Option.bind_eq_some_iff, Option.pure_def,
    Option.some.injEq, Record.of?_eq_some_iff, Record.required?_eq_some_iff reads_word32,
    Record.required?_eq_some_iff reads_text, Record.required?_eq_some_iff Entry.reads_ofJson?.list]
  constructor
  · rintro ⟨r, fields, _, id, _, title, _, actorId, _, conversantId, _, entries, rfl⟩
    exact .mk fields id title actorId conversantId entries
  · intro h
    cases h with
    | mk fields id title actorId conversantId entries =>
      exact ⟨⟨_⟩, fields, _, id, _, title, _, actorId, _, conversantId, _, entries, rfl⟩

private theorem Actor.reads_ofJson? : Reads Actor.ofJson? IsActor := by
  intro value a
  simp only [Actor.ofJson?, Option.bind_eq_bind, Option.bind_eq_some_iff, Option.pure_def,
    Option.some.injEq, Record.of?_eq_some_iff, Record.required?_eq_some_iff reads_word32,
    Record.required?_eq_some_iff reads_text, Record.withDefault?_eq_some_iff reads_bool]
  constructor
  · rintro ⟨r, fields, _, id, _, name, _, isPlayer, rfl⟩
    exact .mk fields id name isPlayer
  · intro h
    cases h with
    | mk fields id name isPlayer => exact ⟨⟨_⟩, fields, _, id, _, name, _, isPlayer, rfl⟩

private theorem Variable.reads_ofJson? : Reads Variable.ofJson? IsVariable := by
  have reads_kind := reads_name .plain VariableKind.ofName?_eq_some_iff
  intro value v
  simp only [Variable.ofJson?, Option.bind_eq_bind, Option.bind_eq_some_iff, Option.pure_def,
    Option.some.injEq, Record.of?_eq_some_iff, Record.required?_eq_some_iff reads_text,
    Record.required?_eq_some_iff reads_kind, Record.required?_eq_some_iff reads_value]
  constructor
  · rintro ⟨r, fields, _, name, _, kind, _, initialValue, rfl⟩
    exact .mk fields name kind initialValue
  · intro h
    cases h with
    | mk fields name kind initialValue =>
      exact ⟨⟨_⟩, fields, _, name, _, kind, _, initialValue, rfl⟩

private theorem Metadata.reads_ofJson? : Reads Metadata.ofJson? IsMetadata := by
  intro value m
  simp only [Metadata.ofJson?, Option.bind_eq_bind, Option.bind_eq_some_iff, Option.pure_def,
    Option.some.injEq, Record.of?_eq_some_iff, Record.required?_eq_some_iff reads_text,
    Record.withDefault?_eq_some_iff reads_text.list, Record.required?_eq_some_iff reads_word32]
  constructor
  · rintro ⟨r, fields, _, version, _, defaultLocale, _, locales, _, player, _, speaker, rfl⟩
    exact .mk fields version defaultLocale locales player speaker
  · intro h
    cases h with
    | mk fields version defaultLocale locales player speaker =>
      exact ⟨⟨_⟩, fields, _, version, _, defaultLocale, _, locales, _, player, _, speaker, rfl⟩

private theorem Database.reads_ofJson? : Reads Database.ofJson? IsDatabase := by
  intro value db
  simp only [Database.ofJson?, Option.bind_eq_bind, Option.bind_eq_some_iff, Option.pure_def,
    Option.some.injEq, Record.of?_eq_some_iff, Record.required?_eq_some_iff reads_text,
    Record.withDefault?_eq_some_iff reads_text.list,
    Record.withDefault?_eq_some_iff Actor.reads_ofJson?.list,
    Record.withDefault?_eq_some_iff Variable.reads_ofJson?.list,
    Record.withDefault?_eq_some_iff Conversation.reads_ofJson?.list,
    Record.required?_eq_some_iff Metadata.reads_ofJson?]
  constructor
  · rintro ⟨r, fields, _, version, _, files, _, actors, _, declarations, _, conversations, _,
      metadata, rfl⟩
    exact .mk fields version files actors declarations conversations metadata
  · intro h
    cases h with
    | mk fields version files actors declarations conversations metadata =>
      exact ⟨⟨_⟩, fields, _, version, _, files, _, actors, _, declarations, _, conversations, _,
        metadata, rfl⟩

namespace Json

/-- The members that are there, of members that may be left out. -/
def present (slots : List (String × Option Json)) : List (String × Json) :=
  slots.filterMap fun slot => slot.2.map (Prod.mk slot.1)

/-- The value of a member that is left out if it is the default. -/
def keep (omitted : Bool) (value : Json) : Option Json :=
  if omitted then none else some value

private theorem present_nil : present [] = [] := rfl

private theorem present_some (name : String) (value : Json) (slots : List (String × Option Json)) :
    present ((name, some value) :: slots) = (name, value) :: present slots := rfl

private theorem present_keep (omitted : Bool) (name : String) (value : Json)
    (slots : List (String × Option Json)) :
    present ((name, keep omitted value) :: slots) =
      memberUnless omitted name value ++ present slots := by
  cases omitted <;> rfl

private theorem mem_present {slots : List (String × Option Json)} {member : String × Json} :
    member ∈ present slots ↔ (member.1, some member.2) ∈ slots := by
  obtain ⟨name, value⟩ := member
  simp [present]

private theorem names_present (slots : List (String × Option Json)) :
    ((present slots).map Prod.fst).Sublist (slots.map Prod.fst) := by
  induction slots with
  | nil => exact List.nil_sublist _
  | cons slot rest ih =>
    obtain ⟨name, value⟩ := slot
    cases value with
    | none => exact ih.cons name
    | some value => exact ih.cons_cons name

section Slots

variable {slots : List (String × Option Json)} {name : String}

private theorem once_present (different : (slots.map Prod.fst).Nodup) :
    Once (present slots) (slots.map Prod.fst) := by
  intro name _
  exact List.nodup_iff_count_le_one.mp ((names_present slots).nodup different) name

private theorem lookup_eq_none_of_fresh {members : List (String × Json)}
    (fresh : name ∉ members.map Prod.fst) : members.lookup name = none := by
  rw [List.lookup_eq_none_iff]
  intro member listed
  refine bne_iff_ne.mpr fun same => fresh ?_
  rw [same]
  exact List.mem_map_of_mem listed

/-- What is found under a name is what the slot of that name holds. -/
theorem lookup_present (different : (slots.map Prod.fst).Nodup) {value : Option Json}
    (slot : slots.lookup name = some value) : (present slots).lookup name = value := by
  induction slots with
  | nil => cases slot
  | cons first rest ih =>
    obtain ⟨key, held⟩ := first
    obtain ⟨fresh, later⟩ := List.nodup_cons.mp different
    by_cases here : name = key
    · subst here
      rw [List.lookup_cons_self, Option.some.injEq] at slot
      subst slot
      cases held with
      | none =>
        exact lookup_eq_none_of_fresh fun listed => fresh ((names_present rest).subset listed)
      | some value => exact List.lookup_cons_self
    · have other : (name == key) = false := beq_false_of_ne here
      rw [List.lookup_cons, other] at slot
      have found := ih later slot
      cases held with
      | none => exact found
      | some value => rwa [present_some, List.lookup_cons, other]

private theorem required_present {α : Type} {F : Format α} {x : α}
    (different : (slots.map Prod.fst).Nodup)
    {value : Json} (slot : slots.lookup name = some (some value)) (h : F value x) :
    Required (present slots) name F x :=
  ⟨value, lookup_present different slot, h⟩

private theorem defaulted_present {α : Type} {F : Format α} {x default : α}
    (different : (slots.map Prod.fst).Nodup) {value : Json}
    (slot : slots.lookup name = some (some value)) (h : F value x) :
    Defaulted (present slots) name default F x := by
  rw [Defaulted, lookup_present different slot]
  exact h

/-- A value is left out only where it is the default. -/
theorem defaulted_keep {α : Type} {F : Format α} {x default : α}
    (different : (slots.map Prod.fst).Nodup) {value : Json} {omitted : Bool}
    (slot : slots.lookup name = some (keep omitted value)) (blank : omitted = true → x = default)
    (h : F value x) : Defaulted (present slots) name default F x := by
  rw [Defaulted, lookup_present different slot]
  cases omitted with
  | false => exact h
  | true => exact blank rfl

end Slots

end Json

private theorem Dict.eq_empty_of_isEmpty {α : Type} {d : Dict α} (h : d.isEmpty = true) :
    d = .empty :=
  Dict.ext (List.isEmpty_iff.mp h)

private theorem Link.isLink_toJson {l : Link} (h : l.Encodable) : IsLink l.toJson l :=
  .mk (.obj (by simp [Once])) ⟨_, rfl, rfl, h.originConversation⟩ ⟨_, rfl, rfl, h.originEntry⟩
    ⟨_, rfl, rfl, h.destinationConversation⟩ ⟨_, rfl, rfl, h.destinationEntry⟩ (.alone _) rfl

namespace Entry

/-- The members of an entry, those that may be left out among them. -/
def slots (e : Entry) : List (String × Option Json) :=
  [("id", some (.ofNat e.id)), ("conversation_id", some (.ofNat e.conversationId)),
    ("title", some (.str e.title)), ("actor_id", some (.ofNat e.actorId)),
    ("conversant_id", some (.ofNat e.conversantId)),
    ("dialogue_text", keep e.dialogueText.isEmpty (.ofDict .str e.dialogueText)),
    ("tags", keep e.tags.isEmpty (.arr (e.tags.map .str))),
    ("conditions", keep (e.conditions = "") (.str e.conditions)),
    ("false_condition_action", some (.str e.falseAction.name)),
    ("user_script", keep (e.userScript = "") (.str e.userScript)),
    ("sequence", keep (e.sequence = "") (.str e.sequence)),
    ("is_root", some (.bool e.isRoot)), ("is_group", some (.bool e.isGroup)),
    ("outgoing_links", keep e.links.isEmpty (.arr (e.links.map Link.toJson)))]

private theorem toJson_eq_slots (e : Entry) : e.toJson = .obj (present e.slots) := by
  simp only [toJson, slots, present_some, present_keep, present_nil, listMember, textMember,
    List.cons_append, List.nil_append, List.append_nil, List.append_assoc]

private theorem isEntry_toJson {e : Entry} (h : e.Encodable) : IsEntry e.toJson e := by
  have different : (e.slots.map Prod.fst).Nodup := by simp [slots]
  rw [toJson_eq_slots]
  exact .mk (.obj (once_present different))
    (required_present different rfl ⟨rfl, h.id⟩)
    (required_present different rfl ⟨rfl, h.conversationId⟩)
    (required_present different rfl rfl)
    (required_present different rfl ⟨rfl, h.actorId⟩)
    (required_present different rfl ⟨rfl, h.conversantId⟩)
    (defaulted_keep different rfl Dict.eq_empty_of_isEmpty
      (isDict_ofDict (F := IsText) (fun _ => rfl) _))
    (defaulted_keep different rfl List.isEmpty_iff.mp (isList_map (F := IsText) fun _ _ => rfl))
    (defaulted_keep different rfl of_decide_eq_true rfl)
    (defaulted_present different rfl (.alone _))
    (defaulted_keep different rfl of_decide_eq_true rfl)
    (defaulted_keep different rfl of_decide_eq_true rfl)
    (defaulted_present different rfl rfl)
    (defaulted_present different rfl rfl)
    (defaulted_keep different rfl List.isEmpty_iff.mp
      (isList_map fun l member => Link.isLink_toJson (h.links l member)))

end Entry

private theorem Conversation.isConversation_toJson {c : Conversation} (h : c.Encodable) :
    IsConversation c.toJson c :=
  .mk (.obj (by simp [Once])) ⟨_, rfl, rfl, h.id⟩ ⟨_, rfl, rfl⟩ ⟨_, rfl, rfl, h.actorId⟩
    ⟨_, rfl, rfl, h.conversantId⟩
    ⟨_, rfl, isList_map fun e member => Entry.isEntry_toJson (h.entries e member)⟩

private theorem Actor.isActor_toJson {a : Actor} (h : a.id < 2 ^ 32) : IsActor a.toJson a :=
  .mk (.obj (by simp [Once])) ⟨_, rfl, rfl, h⟩ ⟨_, rfl, rfl⟩ rfl

private theorem Variable.isVariable_toJson {v : Variable} (h : v.initialValue.Canonical) :
    IsVariable v.toJson v :=
  .mk (.obj (by simp [Once])) ⟨_, rfl, rfl⟩ ⟨_, rfl, .alone _⟩ ⟨_, rfl, h.isValue⟩

namespace Metadata

/-- The members of metadata, the one that may be left out among them. -/
def slots (m : Metadata) : List (String × Option Json) :=
  [("compiler_version", some (.str m.compilerVersion)),
    ("default_locale", some (.str m.defaultLocale)),
    ("locales", keep m.locales.isEmpty (.arr (m.locales.map .str))),
    ("player_actor_id", some (.ofNat m.playerActor)),
    ("default_actor_id", some (.ofNat m.defaultActor))]

private theorem toJson_eq_slots (m : Metadata) : m.toJson = .obj (present m.slots) := by
  simp only [toJson, slots, present_some, present_keep, present_nil, listMember, List.cons_append,
    List.nil_append]

private theorem isMetadata_toJson {m : Metadata} (player : m.playerActor < 2 ^ 32)
    (speaker : m.defaultActor < 2 ^ 32) : IsMetadata m.toJson m := by
  have different : (m.slots.map Prod.fst).Nodup := by simp [slots]
  rw [toJson_eq_slots]
  exact .mk (.obj (once_present different))
    (required_present different rfl rfl)
    (required_present different rfl rfl)
    (defaulted_keep different rfl List.isEmpty_iff.mp (isList_map (F := IsText) fun _ _ => rfl))
    (required_present different rfl ⟨rfl, player⟩)
    (required_present different rfl ⟨rfl, speaker⟩)

end Metadata

namespace Database

/-- The members of a database, those that may be left out among them. -/
def slots (db : Database) : List (String × Option Json) :=
  [("version", some (.str db.version)),
    ("source_files", keep db.sourceFiles.isEmpty (.arr (db.sourceFiles.map .str))),
    ("actors", keep db.actors.isEmpty (.arr (db.actors.map Actor.toJson))),
    ("variables", keep db.declarations.isEmpty (.arr (db.declarations.map Variable.toJson))),
    ("conversations",
      keep db.conversations.isEmpty (.arr (db.conversations.map Conversation.toJson))),
    ("metadata", some db.metadata.toJson)]

private theorem toJson_eq_slots (db : Database) : db.toJson = .obj (present db.slots) := by
  simp only [toJson, slots, present_some, present_keep, present_nil, listMember, List.cons_append,
    List.nil_append, List.append_assoc]

private theorem isDatabase_toJson {db : Database} (h : db.Encodable) : IsDatabase db.toJson db := by
  have different : (db.slots.map Prod.fst).Nodup := by simp [slots]
  rw [toJson_eq_slots]
  exact .mk (.obj (once_present different))
    (required_present different rfl rfl)
    (defaulted_keep different rfl List.isEmpty_iff.mp (isList_map (F := IsText) fun _ _ => rfl))
    (defaulted_keep different rfl List.isEmpty_iff.mp
      (isList_map fun a member => Actor.isActor_toJson (h.actors a member)))
    (defaulted_keep different rfl List.isEmpty_iff.mp
      (isList_map fun v member => Variable.isVariable_toJson (h.declarations v member)))
    (defaulted_keep different rfl List.isEmpty_iff.mp
      (isList_map fun c member => Conversation.isConversation_toJson (h.conversations c member)))
    (required_present different rfl (Metadata.isMetadata_toJson h.playerActor h.defaultActor))

end Database

namespace Json

private theorem blankOnly_present {names : List String} {slots : List (String × Option Json)}
    (each : ∀ slot ∈ slots, ∀ value ∈ slot.2, value.isBlank = true → slot.1 ∈ names) :
    BlankOnly names (.obj (present slots)) := by
  intro member written blank
  exact each (member.1, some member.2) (mem_present.mp written) member.2 rfl blank

private theorem keep_eq_some_iff {omitted : Bool} {value written : Json} :
    keep omitted value = some written ↔ omitted = false ∧ value = written := by
  cases omitted <;> simp [keep]

@[simp] theorem isBlank_str (s : String) : (Json.str s).isBlank = decide (s = "") := rfl

@[simp] theorem isBlank_bool (b : Bool) : (Json.bool b).isBlank = false := rfl

@[simp] theorem isBlank_ofNat (n : Nat) : (Json.ofNat n).isBlank = false := rfl

@[simp] theorem isBlank_map {α : Type} (f : α → Json) (xs : List α) :
    (Json.arr (xs.map f)).isBlank = xs.isEmpty := by
  rw [isBlank, List.isEmpty_map]

@[simp] theorem isBlank_ofDict {α : Type} (f : α → Json) (d : Dict α) :
    (Json.ofDict f d).isBlank = d.isEmpty := by
  rw [ofDict, isBlank, List.isEmpty_map, Dict.isEmpty]

end Json

private theorem Entry.blankOnly_toJson (e : Entry) : e.toJson.BlankOnly ["title"] := by
  have named : e.falseAction.name ≠ "" := by cases e.falseAction <;> decide
  rw [toJson_eq_slots]
  apply blankOnly_present
  simp [slots, keep_eq_some_iff, named]

private theorem Metadata.blankOnly_toJson (m : Metadata) :
    m.toJson.BlankOnly ["compiler_version", "default_locale"] := by
  rw [toJson_eq_slots]
  apply blankOnly_present
  simp [slots, keep_eq_some_iff]

private theorem Database.blankOnly_toJson (db : Database) : db.toJson.BlankOnly ["version"] := by
  have object : db.metadata.toJson.isBlank = false := rfl
  rw [toJson_eq_slots]
  apply blankOnly_present
  simp [slots, keep_eq_some_iff, object]

private theorem Json.Defaulted.forall_mem {α : Type}
    {members : List (String × Json)} {name : String}
    {F : Format α} {P : α → Prop} {xs : List α} (h : Defaulted members name [] (IsList F) xs)
    (each : ∀ value x, F value x → P x) : ∀ x ∈ xs, P x :=
  h.holds (P := fun xs => ∀ x ∈ xs, P x) (fun _ member => nomatch member)
    fun _ _ h => h.forall_mem each

private theorem Link.encodable_of_isLink (value : Json) (l : Link) (h : IsLink value l) :
    l.Encodable := by
  cases h with
  | mk _ fromConversation fromEntry toConversation toEntry _ _ =>
    exact ⟨fromConversation.holds fun _ _ h => h.2, fromEntry.holds fun _ _ h => h.2,
      toConversation.holds fun _ _ h => h.2, toEntry.holds fun _ _ h => h.2⟩

private theorem Entry.encodable_of_isEntry (value : Json) (e : Entry) (h : IsEntry value e) :
    e.Encodable := by
  cases h with
  | mk _ id conversationId _ actorId conversantId _ _ _ _ _ _ _ _ links =>
    exact ⟨id.holds fun _ _ h => h.2, conversationId.holds fun _ _ h => h.2,
      actorId.holds fun _ _ h => h.2, conversantId.holds fun _ _ h => h.2,
      links.forall_mem Link.encodable_of_isLink⟩

private theorem Conversation.encodable_of_isConversation (value : Json) (c : Conversation)
    (h : IsConversation value c) : c.Encodable := by
  cases h with
  | mk _ id _ actorId conversantId entries =>
    exact ⟨id.holds fun _ _ h => h.2, actorId.holds fun _ _ h => h.2,
      conversantId.holds fun _ _ h => h.2,
      entries.holds fun _ _ h => h.forall_mem Entry.encodable_of_isEntry⟩

private theorem Actor.id_lt_of_isActor (value : Json) (a : Actor) (h : IsActor value a) :
    a.id < 2 ^ 32 := by
  cases h with
  | mk _ id _ _ => exact id.holds fun _ _ h => h.2

private theorem Variable.canonical_of_isVariable (value : Json) (v : Variable)
    (h : IsVariable value v) :
    v.initialValue.Canonical := by
  cases h with
  | mk _ _ _ initialValue => exact initialValue.holds canonical_of_isValue

private theorem Metadata.words_of_isMetadata (value : Json) (m : Metadata)
    (h : IsMetadata value m) :
    m.playerActor < 2 ^ 32 ∧ m.defaultActor < 2 ^ 32 := by
  cases h with
  | mk _ _ _ _ player speaker =>
    exact ⟨player.holds fun _ _ h => h.2, speaker.holds fun _ _ h => h.2⟩

namespace Database

private theorem encodable_of_isDatabase {value : Json} {db : Database} (h : IsDatabase value db) :
    db.Encodable := by
  cases h with
  | mk _ _ _ actors declarations conversations metadata =>
    obtain ⟨player, speaker⟩ := metadata.holds Metadata.words_of_isMetadata
    exact {
      actors := actors.forall_mem Actor.id_lt_of_isActor
      declarations := declarations.forall_mem Variable.canonical_of_isVariable
      conversations := conversations.forall_mem Conversation.encodable_of_isConversation
      playerActor := player
      defaultActor := speaker }

/-- Encoding and then decoding gives back every database whose numbers are words of 32 bits and
whose initial values are JSON values in name order, which are those that a database can hold; so it
does for every database that was decoded. Decoding accepts exactly the values that denote a database
by the format, in which every member that is left out has its default. What is written leaves out
each empty list, dictionary and text of the database, its metadata and its entries, but for the
texts that have to be there. -/
theorem format_lossless :
    (∀ db : Database, ofJson? db.toJson = some db ↔ db.Encodable) ∧
    (∀ (value : Json) (db : Database), ofJson? value = some db ↔ IsDatabase value db) ∧
    (∀ (value : Json) (db : Database), ofJson? value = some db → ofJson? db.toJson = some db) ∧
    (∀ db : Database, db.toJson.BlankOnly ["version"]) ∧
    (∀ m : Metadata, m.toJson.BlankOnly ["compiler_version", "default_locale"]) ∧
    ∀ e : Entry, e.toJson.BlankOnly ["title"] := by
  have returns : ∀ db : Database, ofJson? db.toJson = some db ↔ db.Encodable := by
    intro db
    rw [reads_ofJson? db.toJson db]
    exact ⟨encodable_of_isDatabase, isDatabase_toJson⟩
  refine ⟨returns, reads_ofJson?, ?_, blankOnly_toJson, Metadata.blankOnly_toJson,
    Entry.blankOnly_toJson⟩
  intro value db decoded
  have denoted : IsDatabase value db := (reads_ofJson? value db).mp decoded
  exact (returns db).mpr (encodable_of_isDatabase denoted)

/-- A database with most of its optional members left out. -/
def Sample.sparseJson : Json :=
  let jump :=
    Json.obj [("destination_entry_id", .ofNat 0), ("destination_conversation_id", .ofNat 2),
      ("origin_conversation_id", .ofNat 1), ("origin_entry_id", .ofNat 0),
      ("priority", .str "BelowNormal")]
  let start := Json.obj [("id", .ofNat 0), ("conversation_id", .ofNat 1), ("title", .str ""),
    ("actor_id", .ofNat 1), ("conversant_id", .ofNat 2), ("is_root", .bool true),
    ("dialogue_text", .obj [("en", .str "Hi"), ("de", .str "Hallo")]),
      ("outgoing_links", .arr [jump])]
  let conversation :=
    Json.obj [("entries", .arr [start]), ("id", .ofNat 1), ("title", .str "Start"),
      ("actor_id", .ofNat 1), ("conversant_id", .ofNat 2)]
  let gold := Json.obj [("name", .str "gold"), ("kind", .str "Number"),
    ("initial_value", .obj [("b", .null), ("a", .arr [.obj []])])]
  .obj [("version", .str ""), ("conversations", .arr [conversation]), ("variables", .arr [gold]),
    ("metadata", .obj [("compiler_version", .str "0.1.0"), ("default_locale", .str "en"),
      ("player_actor_id", .ofNat 1), ("default_actor_id", .ofNat 2)])]

def Sample.sparse : Database where
  version := ""
  declarations := [⟨"gold", .number, .obj [("a", .arr [.obj []]), ("b", .null)]⟩]
  conversations := [{
    id := 1
    title := "Start"
    actorId := 1
    conversantId := 2
    entries := [{
      id := 0
      conversationId := 1
      title := ""
      actorId := 1
      conversantId := 2
      dialogueText := .ofList [("en", "Hi"), ("de", "Hallo")]
      isRoot := true
      links := [⟨1, 0, 2, 0, .belowNormal, false⟩] }] }]
  metadata := ⟨"0.1.0", "en", [], 1, 2⟩

theorem format_lossless_sample :
    ofJson? Sample.sparseJson = some Sample.sparse ∧ IsDatabase Sample.sparseJson Sample.sparse ∧
      ofJson? Sample.sparse.toJson = some Sample.sparse ∧ Sample.sparse.Encodable := by
  have decoded : ofJson? Sample.sparseJson = some Sample.sparse := by rfl
  have returned := format_lossless.2.2.1 Sample.sparseJson Sample.sparse decoded
  exact ⟨decoded, (format_lossless.2.1 _ _).mp decoded, returned, (format_lossless.1 _).mp returned⟩

end Database

end Dialogue
