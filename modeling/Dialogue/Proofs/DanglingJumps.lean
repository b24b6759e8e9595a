import Dialogue.Proofs.FileOrder

/-!
Jumps that lead nowhere. A node may be dropped after others were lowered with jumps to it. The links
of these jumps are removed at the end, and nothing else is: what was lowered is compiled as it is.
Each removed link is reported once, by the name of the node that its destination was meant for. That
name is found again from the id, since ids are given to nodes one to one and only nodes with an id
can be jumped to.
-/

set_option autoImplicit false
set_option relaxedAutoImplicit false

namespace Dialogue

open Compile

def Link.Dangles (l : Link) (db : Database) : Prop :=
  l.isConnector = true ∧ ∀ c ∈ db.conversations, c.id ≠ l.destinationConversation

instance (l : Link) (db : Database) : Decidable (l.Dangles db) :=
  inferInstanceAs (Decidable (_ ∧ _))

/-- An entry without its dangling links, and with all else it had. -/
structure Entry.Pruned (whole e : Entry) (db : Database) : Prop where
  links : e.links = whole.links.filter fun l => ¬ l.Dangles db
  others : { e with links := whole.links } = whole

/-- A conversation without its dangling links, and with all else it had. -/
structure Conversation.Pruned (whole c : Conversation) (db : Database) : Prop where
  entries : List.Forall₂ (fun e e' => Entry.Pruned e e' db) whole.entries c.entries
  others : { c with entries := whole.entries } = whole

/-- The dangling links of conversations with the titles of these, in order. -/
def Compile.removed (wholes : List Conversation) (db : Database) : List (String × Link) :=
  wholes.flatMap fun whole => (whole.links.filter fun l => l.Dangles db).map
    fun l => (whole.title, l)

/-- The warning of a removed link names the one node that has the id of its destination. -/
def Compile.Warns (files : List ScriptFile) (jump : String × Link) (d : Diagnostic) : Prop :=
  ∃ site ∈ firsts (files.flatMap ScriptFile.scripts), site.id = jump.2.destinationConversation ∧
    (∀ other ∈ firsts (files.flatMap ScriptFile.scripts),
      other.id = jump.2.destinationConversation → other = site) ∧
    d = { severity := .warning
          message := "jump to node '" ++ site.script.name ++
            "' removed: that node failed to compile"
          conversation := some jump.1 }

private theorem Dict.mem_entries_iff {α : Type} {d : Dict α} {key : String} {value : α} :
    (key, value) ∈ d.entries ↔ d.get? key = some value := by
  rw [get?, List.lookup_eq_some_iff]
  constructor
  · intro member
    obtain ⟨before, after, split⟩ := List.append_of_mem member
    refine ⟨before, after, split, fun entry earlier => ?_⟩
    -- The keys before it are smaller.
    have increasing := d.increasing
    rw [split, List.pairwise_append] at increasing
    have lt := increasing.2.2 entry earlier (key, value) List.mem_cons_self
    simpa using (String.ne_of_lt lt).symm
  · rintro ⟨before, after, split, -⟩
    rw [split]
    exact List.mem_append_right _ List.mem_cons_self

/-- The name of an id is the only key under which it stands. -/
theorem Compile.nodeName_eq {ids : Dict Nat} {name : String} {id : Nat}
    (known : ids.get? name = some id) (only : ∀ other, ids.get? other = some id → other = name) :
    nodeName ids id = name := by
  have found : (ids.entries.find? fun entry => entry.2 = id).isSome := by
    rw [List.find?_isSome]
    exact ⟨(name, id), Dict.mem_entries_iff.mpr known, by simp⟩
  obtain ⟨⟨other, value⟩, here⟩ := Option.isSome_iff_exists.mp found
  have same : value = id := by simpa using List.find?_some here
  subst same
  rw [nodeName, here]
  exact only other (Dict.mem_entries_iff.mp (List.mem_of_find?_eq_some here))

/-- A link that leaves a lowered conversation leads to a node with an id. -/
theorem Script.lower_connector {s : Script} {ctx : Context} {id : Nat} {c : Conversation}
    (lowered : s.lower ctx id = .ok c) {l : Link} (member : l ∈ c.links)
    (connector : l.isConnector = true) :
    ∃ name, ctx.conversations.get? name = some l.destinationConversation := by
  obtain ⟨node, complete, -, rfl, fits, -, -⟩ := lower_fits lowered
  obtain ⟨e, listed, member⟩ := List.mem_flatMap.mp member
  obtain ⟨i, found⟩ := List.getElem?_of_mem listed
  exact (((fits.entry i e found).links l member).outer connector).2

namespace Compile

variable {files : List ScriptFile} {options : Options}

private theorem isDangling_iff {l : Link} :
    isDangling ((conversations files options).map Conversation.id) l = true ↔
      l.Dangles (compile files options).database := by
  have present : (conversations files options).map Conversation.id =
      (compile files options).database.conversations.map Conversation.id := by
    rw [database_conversations, List.map_map]
    rfl
  rw [present]
  simp only [isDangling, Link.Dangles, Bool.and_eq_true, Bool.not_eq_true', List.contains_eq_mem,
    decide_eq_false_iff_not, List.mem_map, not_exists, not_and]

private theorem isDangling_eq (l : Link) :
    isDangling ((conversations files options).map Conversation.id) l =
      decide (l.Dangles (compile files options).database) :=
  Bool.eq_iff_iff.mpr (isDangling_iff.trans decide_eq_true_iff.symm)

private theorem withoutDangling_pruned (whole : Conversation) :
    Conversation.Pruned whole (withoutDangling
      ((conversations files options).map Conversation.id) whole)
      (compile files options).database := by
  refine ⟨?_, rfl⟩
  rw [withoutDangling, List.forall₂_map_right_iff, List.forall₂_same]
  intro e _
  refine ⟨?_, rfl⟩
  simp only [isDangling_eq, decide_not]

private theorem lowered_of_mem_conversations {whole : Conversation}
    (member : whole ∈ conversations files options) :
    ∃ f ∈ sitedFiles [] files, ∃ site ∈ f.sites, site.isFirst = true ∧
    whole.title = site.script.name ∧
      whole.id = site.id ∧ site.script.lower (contextOf files options f.file) site.id =
        .ok whole := by
  obtain ⟨f, known, found⟩ := List.mem_flatMap.mp member
  obtain ⟨site, compiled, found⟩ := List.mem_filterMap.mp found
  obtain ⟨listed, compiles⟩ := List.mem_filter.mp compiled
  simp only [SitedFile.compiles, Bool.and_eq_true] at compiles
  obtain ⟨title, id⟩ := Site.conversation?_head found
  exact ⟨f, known, site, listed, compiles.1.1, title, id, Site.lower_of_conversation? found⟩

private theorem warnings_eq (files : List ScriptFile) (options : Options) :
    (conversations files options).flatMap
        (danglingReports ((conversations files options).map Conversation.id) (nodeIds files)) =
      (removed (conversations files options) (compile files options).database).map
        fun jump => removedJump (nodeIds files) jump.1 jump.2 := by
  rw [removed, List.map_flatMap]
  congr 1
  funext whole
  rw [danglingReports, List.map_map, show isDangling _ = _ from funext isDangling_eq]
  rfl

/-- The warning of a dangling link of a lowered conversation names a node. -/
theorem removedJump_warns {jump : String × Link}
    (member : jump ∈ removed (conversations files options) (compile files options).database) :
    Warns files jump (removedJump (nodeIds files) jump.1 jump.2) := by
  obtain ⟨whole, listed, member⟩ := List.mem_flatMap.mp member
  obtain ⟨l, inside, rfl⟩ := List.mem_map.mp member
  obtain ⟨linked, dangles⟩ := List.mem_filter.mp inside
  obtain ⟨f, -, site, -, -, -, -, lowered⟩ := lowered_of_mem_conversations listed
  have connector : l.isConnector = true := (of_decide_eq_true dangles).1
  obtain ⟨name, known⟩ := Script.lower_connector lowered linked connector
  have known : (nodeIds files).get? name = some l.destinationConversation := known
  obtain ⟨target, first, rfl, id⟩ := ((nodeIds_covers files).found _ _).mp known
  refine ⟨target, first, id, ?_, ?_⟩
  · intro other first' id'
    have distinct : ((firsts (files.flatMap ScriptFile.scripts)).map Site.id).Nodup := by
      rw [ids_firsts]
      exact List.nodup_range'
    exact List.inj_on_of_nodup_map distinct first' first (id'.trans id.symm)
  · rw [removedJump, nodeName_eq known fun other same => nodeIds_injective same known]

end Compile

/-- A compilation removes the dangling links from what the nodes of its files were lowered to, and
changes nothing else. Its last reports are the warnings of the removed links, one for each and in
order. -/
theorem compile_removes_dangling (files : List ScriptFile) (options : Options) :
    ∃ (wholes : List Conversation) (warnings : List Diagnostic),
      wholes = (sitedFiles [] files).flatMap
        (fun f => f.conversations (contextOf files options f.file)) ∧
      List.Forall₂ (fun whole c =>
        (∃ f ∈ sitedFiles [] files, ∃ site ∈ f.sites, site.isFirst = true ∧
          c.title = site.script.name ∧ c.id = site.id ∧
          site.script.lower (contextOf files options f.file) site.id = .ok whole) ∧
        Conversation.Pruned whole c (compile files options).database)
          wholes (compile files options).database.conversations ∧
      (compile files options).diagnostics = (registered files options).2 ++
        (sitedFiles [] files).flatMap SitedFile.duplicates ++
        (sitedFiles [] files).flatMap (fun f => f.reports (contextOf files options f.file)) ++
          warnings ∧
      List.Forall₂ (Warns files) (removed wholes (compile files options).database) warnings := by
  refine ⟨conversations files options, (conversations files options).flatMap
    (danglingReports ((conversations files options).map Conversation.id) (nodeIds files)),
    rfl, ?_, ?_, ?_⟩
  · rw [database_conversations, List.forall₂_map_right_iff, List.forall₂_same]
    intro whole member
    exact ⟨lowered_of_mem_conversations member, withoutDangling_pruned whole⟩
  · rw [compile_eq]
  · rw [warnings_eq, List.forall₂_map_right_iff, List.forall₂_same]
    exact fun jump member => removedJump_warns member

end Dialogue
