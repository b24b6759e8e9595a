import Dialogue.Proofs.Attachment
import Dialogue.Proofs.BlockLayout
import Dialogue.Proofs.Speakers

/-!
The Lua scripts of the entries of a conversation. What an entry runs is known from the statement
that it is made from and from the entries that it leads to: first the script of the statement, then
the calls that set the format arguments of the lines behind the entry, in the order of its links.
`Sources.script` says so, and the lowering keeps to it at each of its steps, although it adds the
calls long after the entry.
-/

set_option autoImplicit false
set_option relaxedAutoImplicit false

namespace Dialogue

open Script

namespace Lua

def assignment (name : String) (op : Update) (value : String) : String :=
  match op.luaOperator? with
  | none => lookup name ++ " = " ++ value
  | some symbol => lookup name ++ " = " ++ lookup name ++ " " ++ symbol ++ " (" ++ value ++ ")"

end Lua

namespace Script

/-- What the entry of a statement runs for the statement: a call, an assignment, the end of the
conversation, or the function that a command names. -/
def Content.ownScript (s : Content Kind) : Except ExprError (List String) :=
  let payload := s.payload?.getD []
  match s.kind with
  | .basic (.call _) => do return [← payload.fragment]
  | .basic (.set name op) => do return [Lua.assignment name op (← payload.fragment)]
  | .basic (.declare name) => do return [Lua.assignment name .assign (← payload.fragment)]
  | .basic (.command name arguments _) =>
    match Command.Kind.ofName name with
    | .stop => .ok [Lua.stopConversation ++ "()"]
    | .custom => do
      let spelled ← arguments.mapM Command.Argument.fragments
      return [name ++ "(" ++ ", ".intercalate spelled.flatten ++ ")"]
    | _ => .ok []
  | _ => .ok []

def Content.isLine (s : Content Kind) : Bool :=
  match s.kind with
  | .basic (.line _) => true
  | _ => false

def Content.formatArguments (s : Content Kind) : Except ExprError (List String) :=
  match s.isLine, s.payload? with
  | true, some tokens => tokens.fragments
  | _, _ => .ok []

/-- The statement that an entry of a script's conversation is made from. The first entry of an
option is made from the line that the option shows. -/
def contentAt? (s : Script) (entry : Nat) : Option (Content Kind) :=
  ((s.origins[entry]?).bind List.getLast?).map Prod.snd

end Script

/-- The statements that entries are made from. -/
abbrev Sources := Nat → Option (Content Kind)

namespace Sources

variable (sources : Sources) (conversation : Nat)

/-- What an entry runs for its statement. -/
def ownScript (entry : Nat) : Except ExprError (List String) :=
  match sources entry with
  | some s => s.ownScript
  | none => .ok []

def isLine (entry : Nat) : Bool :=
  (sources entry).any Content.isLine

def formatArguments (entry : Nat) : Except ExprError (List String) :=
  match sources entry with
  | some s => s.formatArguments
  | none => .ok []

/-- The calls that an entry needs to be run before it. -/
def formatCalls (entry : Nat) : Except ExprError (List String) := do
  return Lua.formatCalls conversation entry (← sources.formatArguments entry)

/-- What an entry with some links runs: the script of its statement, then what the entries that it
leads to need. -/
def statements (entry : Nat) (links : List Link) : Except ExprError (List String) := do
  let own ← sources.ownScript entry
  let calls ← (links.filter (!·.isConnector)).mapM fun link =>
    sources.formatCalls conversation link.destinationEntry
  return own ++ calls.flatten

def script (entry : Nat) (links : List Link) : Except ExprError String := do
  return "\n".intercalate (← sources.statements conversation entry links)

end Sources

private theorem Lua.formatCalls_ne_empty (conversation entry : Nat) (fragments : List String) :
    ∀ call ∈ formatCalls conversation entry fragments, call ≠ "" := by
  intro call member
  obtain ⟨index, _, rfl⟩ := List.mem_mapIdx.mp member
  exact append_ne_empty (by decide)

private theorem Lua.assignment_ne_empty {name : String} {op : Update}
    {value : String} (h : value ≠ "") :
    assignment name op value ≠ "" := by
  unfold assignment
  split
  · exact append_ne_empty h
  · exact append_ne_empty (by decide)

/-- A statement of a script is never empty. -/
theorem Script.Content.ownScript_ne_empty {s : Content Kind} {own : List String}
    (h : s.ownScript = .ok own) : ∀ t ∈ own, t ≠ "" := by
  have single {t : String} (written : t ≠ "") : ∀ t' ∈ [t], t' ≠ "" := by simpa using written
  unfold ownScript at h
  simp only at h
  split at h
  · simp only [bind_eq_ok_iff, pure_eq_ok_iff] at h
    obtain ⟨t, written, rfl⟩ := h
    exact single (Expression.fragment_ne_empty written)
  · simp only [bind_eq_ok_iff, pure_eq_ok_iff] at h
    obtain ⟨t, written, rfl⟩ := h
    exact single (Lua.assignment_ne_empty (Expression.fragment_ne_empty written))
  · simp only [bind_eq_ok_iff, pure_eq_ok_iff] at h
    obtain ⟨t, written, rfl⟩ := h
    exact single (Lua.assignment_ne_empty (Expression.fragment_ne_empty written))
  · split at h
    · cases h
      exact single (by decide)
    · simp only [bind_eq_ok_iff, pure_eq_ok_iff] at h
      obtain ⟨spelled, -, rfl⟩ := h
      exact single (Lua.append_ne_empty (by decide))
    · cases h
      exact List.forall_mem_nil _
  · cases h
    exact List.forall_mem_nil _

private theorem Sources.ownScript_ne_empty {sources : Sources} {entry : Nat} {own : List String}
    (h : sources.ownScript entry = .ok own) : ∀ t ∈ own, t ≠ "" := by
  unfold ownScript at h
  split at h
  · exact Content.ownScript_ne_empty h
  · cases h
    exact nofun

namespace Draft

private theorem joinScript_intercalate {statements : List String}
    (written : ∀ t ∈ statements, t ≠ "") (more : String) :
    joinScript ("\n".intercalate statements) more = "\n".intercalate (statements ++ [more]) := by
  cases statements with
  | nil => simp [joinScript]
  | cons first rest =>
    have filled : "\n".intercalate (first :: rest) ≠ "" := by
      have head := written first List.mem_cons_self
      cases rest with
      | nil => simpa using head
      | cons second rest =>
        rw [String.intercalate_cons_cons]
        intro empty
        exact head (String.append_eq_empty_iff.mp (String.append_eq_empty_iff.mp empty).1).1
    rw [joinScript, if_neg filled,
      String.intercalate_append_of_ne_nil (List.cons_ne_nil _ _) (List.cons_ne_nil _ _),
      String.intercalate_singleton]

/-- Statements that are joined to a script one after the other are joined to its statements. -/
theorem foldl_joinScript : ∀ (more : List String) {statements : List String},
    (∀ t ∈ statements, t ≠ "") → (∀ t ∈ more, t ≠ "") →
    more.foldl joinScript ("\n".intercalate statements) = "\n".intercalate (statements ++ more)
  | [], statements, _, _ => by simp
  | t :: rest, statements, written, writtenMore => by
    obtain ⟨first, later⟩ := List.forall_mem_cons.mp writtenMore
    have both : ∀ t' ∈ statements ++ [t], t' ≠ "" := by
      intro t' member
      rcases List.mem_append.mp member with member | member
      · exact written t' member
      · exact List.mem_singleton.mp member ▸ first
    rw [List.foldl_cons, joinScript_intercalate written, foldl_joinScript rest both later,
      List.append_assoc, List.singleton_append]

end Draft

/-- Whether a link leads to an entry of its own conversation. -/
def Link.reaches (link : Link) (entry : Nat) : Bool :=
  !link.isConnector && link.destinationEntry == entry

/-- The number of links that lead to an entry. -/
def Conversation.arrivals (c : Conversation) (entry : Nat) : Nat :=
  c.links.countP (·.reaches entry)

namespace Sources

variable {sources : Sources} {conversation entry : Nat}

/-- An entry that no basic statement makes. -/
def Bare (sources : Sources) (entry : Nat) : Prop :=
  ∀ s, sources entry = some s → ∃ block, s.kind = .block block

private theorem Bare.ownScript (h : sources.Bare entry) : sources.ownScript entry = .ok [] := by
  unfold Sources.ownScript
  split
  · next s found =>
    obtain ⟨block, kind⟩ := h s found
    simp only [Content.ownScript, kind]
  · rfl

private theorem Bare.isLine (h : sources.Bare entry) : sources.isLine entry = false := by
  cases found : sources entry with
  | none => simp [Sources.isLine, found]
  | some s =>
    obtain ⟨block, kind⟩ := h s found
    simp [Sources.isLine, found, Content.isLine, kind]

private theorem formatArguments_of_not_isLine (h : sources.isLine entry = false) :
    sources.formatArguments entry = .ok [] := by
  cases found : sources entry with
  | none => simp [formatArguments, found]
  | some s =>
    have other : s.isLine = false := by simpa [isLine, found] using h
    simp [formatArguments, found, Content.formatArguments, other]

private theorem formatCalls_of_arguments {fragments : List String}
    (h : sources.formatArguments entry = .ok fragments) (conversation : Nat) :
    sources.formatCalls conversation entry =
      .ok (Lua.formatCalls conversation entry fragments) := by
  rw [formatCalls, h]
  rfl

private theorem statements_nil {own : List String} (h : sources.ownScript entry = .ok own) :
    sources.statements conversation entry [] = .ok own := by
  simp only [statements, bind_eq_ok_iff, pure_eq_ok_iff]
  exact ⟨own, h, [], rfl, List.append_nil own⟩

private theorem statements_append {links : List Link} {link : Link} {found more : List String}
    (h : sources.statements conversation entry links = .ok found) (inner : link.isConnector = false)
    (calls : sources.formatCalls conversation link.destinationEntry = .ok more) :
    sources.statements conversation entry (links ++ [link]) = .ok (found ++ more) := by
  simp only [statements, bind_eq_ok_iff, pure_eq_ok_iff] at h ⊢
  obtain ⟨own, foundOwn, heard, foundCalls, rfl⟩ := h
  refine ⟨own, foundOwn, heard ++ [more], ?_, by simp⟩
  rw [List.filter_append, List.mapM_append, foundCalls]
  simp [inner, calls]
  rfl

private theorem statements_connector (links : List Link) {link : Link}
    (outer : link.isConnector = true) :
    sources.statements conversation entry (links ++ [link]) =
      sources.statements conversation entry links := by
  simp [statements, List.filter_append, outer]

/-- A part of the entries, from `base` on, with their origins. -/
def Lists (sources : Sources) (base : Nat) (origins : List (List Tree.Origin)) : Prop :=
  ∀ k origin, origins[k]? = some origin → sources (base + k) = origin.getLast?.map Prod.snd

private theorem Lists.append {base : Nat} {origins more : List (List Tree.Origin)}
    (h : sources.Lists base (origins ++ more)) :
    sources.Lists base origins ∧ sources.Lists (base + origins.length) more := by
  constructor
  · intro k origin found
    obtain ⟨lt, -⟩ := List.getElem?_eq_some_iff.mp found
    exact h k origin (by rwa [List.getElem?_append_left lt])
  · intro k origin found
    rw [Nat.add_assoc]
    refine h (origins.length + k) origin ?_
    rwa [List.getElem?_append_right (Nat.le_add_right _ _), Nat.add_sub_cancel_left]

private theorem Lists.cons {base : Nat} {origin : List Tree.Origin} {more : List (List Tree.Origin)}
    (h : sources.Lists base (origin :: more)) :
    sources base = origin.getLast?.map Prod.snd ∧ sources.Lists (base + 1) more :=
  ⟨h 0 origin rfl, (@append _ _ [origin] _ h).2⟩

private theorem bare_of_none (h : sources entry = none) : sources.Bare entry := by
  intro s found
  rw [h] at found
  cases found

private theorem bare_of_block {s : Content Kind} {block : Block} (h : sources entry = some s)
    (kind : s.kind = .block block) : sources.Bare entry := by
  intro s' found
  rw [h] at found
  cases found
  exact ⟨block, kind⟩

end Sources

/-- The script of an entry is the one that its statement and its links say, and its title tells
whether it shows a line. -/
structure Entry.Accounted (sources : Sources) (conversation entry : Nat) (e : Entry)
    (found : List String) : Prop where
  spoken : e.isSpoken = sources.isLine entry
  statements : sources.statements conversation entry e.links = .ok found
  written : ∀ t ∈ found, t ≠ ""
  script : e.userScript = "\n".intercalate found

/-- The scripts of a draft are those that statements and links say, and every line has one link to
it. -/
structure Draft.Scripted (sources : Sources) (id : Nat) (d : Draft) : Prop where
  id_eq : d.conversation.id = id
  entry : ∀ i e, d.entryAt? i = some e → ∃ found, e.Accounted sources id i found
  reached : ∀ j, sources.isLine j = true → d.conversation.arrivals j = if j < d.nextId then 1 else 0

namespace Draft

private theorem arrivals_eq (d : Draft) (j : Nat) : d.conversation.arrivals j =
    (d.view fun e => e.links.countP (·.reaches j)).sum :=
  List.countP_flatMap

private theorem arrivals_push (d : Draft) {e : Entry} (bare : e.links = []) (j : Nat) :
    (d.push e).conversation.arrivals j = d.conversation.arrivals j := by
  rw [arrivals_eq, arrivals_eq, view_push, List.sum_append, List.sum_singleton, bare]
  rfl

private theorem arrivals_modify (d : Draft) {f : Entry → Entry} {j : Nat}
    (same : ∀ e, (f e).links.countP (·.reaches j) = e.links.countP (·.reaches j)) (i : Nat) :
    (d.modify i f).conversation.arrivals j = d.conversation.arrivals j := by
  rw [arrivals_eq, arrivals_eq, d.view_modify same i]

private theorem arrivals_link_of_ne (d : Draft) (i : Nat) {j k : Nat} (p : Priority) (h : j ≠ k) :
    (d.link i j p).conversation.arrivals k = d.conversation.arrivals k := by
  refine d.arrivals_modify (fun e => ?_) i
  simp [Link.reaches, h]

private theorem arrivals_link_self (d : Draft) {i : Nat} (lt : i < d.nextId)
    (j : Nat) (p : Priority) :
    (d.link i j p).conversation.arrivals j = d.conversation.arrivals j + 1 := by
  rw [arrivals_eq, arrivals_eq]
  refine d.sum_view_modify lt fun e _ => ?_
  simp [Link.reaches]

private theorem arrivals_connect (d : Draft) (i k j target : Nat) :
    (d.connect i k target).conversation.arrivals j = d.conversation.arrivals j := by
  refine d.arrivals_modify (fun e => ?_) i
  simp [Link.reaches]

namespace Scripted

variable {sources : Sources} {id : Nat} {d : Draft}

private theorem push (h : d.Scripted sources id) {e : Entry} {own : List String}
    (bare : e.links = []) (found : sources.ownScript d.nextId = .ok own)
    (script : e.userScript = "\n".intercalate own)
    (other : sources.isLine d.nextId = false) (silent : e.isSpoken = false) :
    (d.push e).Scripted sources id where
  id_eq := h.id_eq
  entry i e' here := by
    rw [entryAt?_push] at here
    split at here
    · next new =>
      cases here
      subst new
      exact ⟨own, silent.trans other.symm, bare ▸ Sources.statements_nil found,
        Sources.ownScript_ne_empty found, script⟩
    · exact h.entry i e' here
  reached j line := by
    have apart : j ≠ d.nextId := by
      rintro rfl
      rw [other] at line
      cases line
    rw [arrivals_push d bare, h.reached j line, nextId_push]
    exact if_congr (by omega) rfl rfl

/-- A change that leaves the title, the script and the links of an entry. -/
theorem modify (h : d.Scripted sources id) {f : Entry → Entry} (title : ∀ e, (f e).title = e.title)
    (script : ∀ e, (f e).userScript = e.userScript) (links : ∀ e, (f e).links = e.links) (i : Nat) :
    (d.modify i f).Scripted sources id where
  id_eq := h.id_eq
  entry j e here := by
    rw [entryAt?_modify] at here
    split at here
    · obtain ⟨old, was, rfl⟩ := Option.map_eq_some_iff.mp here
      obtain ⟨found, accounted⟩ := h.entry j old was
      refine ⟨found, ?_, ?_, accounted.written, ?_⟩
      · rw [Entry.isSpoken, title]
        exact accounted.spoken
      · rw [links]
        exact accounted.statements
      · rw [script]
        exact accounted.script
    · exact h.entry j e here
  reached j line := by
    rw [d.arrivals_modify (fun e => by rw [links]), nextId_modify]
    exact h.reached j line

private theorem control (h : d.Scripted sources id) (bare : sources.Bare d.nextId) {title : String}
    (silent : title ≠ "Line" ∧ title ≠ "Shortcut Option Start") :
    (d.control title).Scripted sources id :=
  h.push rfl bare.ownScript rfl bare.isLine (by simp [Entry.isSpoken, fresh, silent])

private theorem setGroup (h : d.Scripted sources id) (i : Nat) :
    (d.setGroup i).Scripted sources id :=
  h.modify (by intro; rfl) (by intro; rfl) (by intro; rfl) i

private theorem setConditions (h : d.Scripted sources id) (i : Nat)
    (conditions : String) (a : FalseAction) :
    (d.setConditions i conditions a).Scripted sources id :=
  h.modify (by intro; rfl) (by intro; rfl) (by intro; rfl) i

private theorem appendSequence (h : d.Scripted sources id) (i : Nat) (text : String) :
    (d.appendSequence i text).Scripted sources id :=
  h.modify (by intro; rfl) (by intro; rfl) (by intro; rfl) i

/-- Links to entries that show no line add nothing to the scripts. -/
theorem link (h : d.Scripted sources id) (i : Nat) {j : Nat} (p : Priority)
    (other : sources.isLine j = false) : (d.link i j p).Scripted sources id where
  id_eq := h.id_eq
  entry k e here := by
    rw [link_eq, entryAt?_modify] at here
    split at here
    · obtain ⟨old, was, rfl⟩ := Option.map_eq_some_iff.mp here
      obtain ⟨found, accounted⟩ := h.entry k old was
      have calls :=
        Sources.formatCalls_of_arguments (Sources.formatArguments_of_not_isLine other) id
      refine ⟨found, accounted.spoken, ?_, accounted.written, accounted.script⟩
      rw [← List.append_nil found]
      exact Sources.statements_append accounted.statements rfl calls
    · exact h.entry k e here
  reached k line := by
    have apart : j ≠ k := by
      rintro rfl
      rw [other] at line
      cases line
    rw [arrivals_link_of_ne d i p apart, nextId_link]
    exact h.reached k line

private theorem connect (h : d.Scripted sources id) (i k j : Nat) :
    (d.connect i k j).Scripted sources id where
  id_eq := h.id_eq
  entry m e here := by
    rw [connect_eq, entryAt?_modify] at here
    split at here
    · obtain ⟨old, was, rfl⟩ := Option.map_eq_some_iff.mp here
      obtain ⟨found, accounted⟩ := h.entry m old was
      refine ⟨found, accounted.spoken, ?_, accounted.written, accounted.script⟩
      exact (Sources.statements_connector _ rfl).trans accounted.statements
    · exact h.entry m e here
  reached m line := by
    rw [arrivals_connect, nextId_connect]
    exact h.reached m line

/-- An entry behind another adds the calls for its format arguments and the link together. -/
theorem withEntry (h : d.Scripted sources id) {pred : Nat} (lt : pred < d.nextId) {e : Entry}
    {own fragments : List String} (bare : e.links = [])
    (found : sources.ownScript d.nextId = .ok own) (script : e.userScript = "\n".intercalate own)
    (arguments : sources.formatArguments d.nextId = .ok fragments)
    (spoken : e.isSpoken = sources.isLine d.nextId) :
    (Scene.withEntry d pred e fragments).Scripted sources id where
  id_eq := by
    rw [Scene.withEntry, addFormatArguments_eq_modify]
    exact h.id_eq
  entry i e' here := by
    rw [Scene.withEntry, addFormatArguments_eq_modify, link_eq, modify_modify_self, entryAt?_modify,
      entryAt?_push] at here
    by_cases new : i = d.nextId
    · rw [if_neg (by omega), if_pos new] at here
      cases here
      subst new
      exact ⟨own, spoken, bare ▸ Sources.statements_nil found,
        Sources.ownScript_ne_empty found, script⟩
    · rw [if_neg new] at here
      split at here
      · obtain ⟨old, was, rfl⟩ := Option.map_eq_some_iff.mp here
        obtain ⟨before, accounted⟩ := h.entry i old was
        have calls := Sources.formatCalls_of_arguments arguments id
        refine ⟨before ++ Lua.formatCalls id d.nextId fragments, accounted.spoken, ?_, ?_, ?_⟩
        · exact Sources.statements_append accounted.statements rfl calls
        · intro t member
          rcases List.mem_append.mp member with member | member
          · exact accounted.written t member
          · exact Lua.formatCalls_ne_empty _ _ _ t member
        · have joined := foldl_joinScript (Lua.formatCalls id d.nextId fragments) accounted.written
            (Lua.formatCalls_ne_empty _ _ _)
          rw [← joined, ← accounted.script, ← h.id_eq]
          rfl
      · exact h.entry i e' here
  reached j line := by
    have pushed : (d.push e).nextId = d.nextId + 1 := d.nextId_push e
    have next := Scene.nextId_withEntry d pred e fragments
    rw [Scene.withEntry, nextId_link] at next
    have before : ((d.push e).addFormatArguments pred d.nextId fragments).conversation.arrivals j =
        d.conversation.arrivals j := by
      rw [addFormatArguments_eq_modify, arrivals_modify _ (by intro; rfl), arrivals_push d bare]
    rw [Scene.withEntry, nextId_link, next]
    by_cases new : j = d.nextId
    · subst new
      rw [arrivals_link_self _ (by omega), before, h.reached _ line, if_neg (Nat.lt_irrefl _),
        if_pos (Nat.lt_succ_self _)]
    · rw [arrivals_link_of_ne _ _ _ (Ne.symm new), before, h.reached j line]
      exact if_congr (by omega) rfl rfl

end Scripted

end Draft

private theorem Entry.links_guarded (e : Entry) (condition : Option String) (action : FalseAction) :
    (e.guarded condition action).links = e.links := by
  cases condition <;> rfl

theorem Entry.isSpoken_guarded (e : Entry) (condition : Option String) (action : FalseAction) :
    (e.guarded condition action).isSpoken = e.isSpoken := by
  cases condition <;> rfl

private theorem Entry.userScript_guarded (e : Entry) (condition : Option String)
    (action : FalseAction) :
    (e.guarded condition action).userScript = e.userScript := by
  cases condition <;> rfl

namespace Scene

variable {scene : Scene} {sources : Sources} {id : Nat}

private theorem lineEntry_userScript (scene : Scene) (d : Draft) (s : Content Spoken)
    (choiceOf : Option (Content Unit)) : (scene.lineEntry d s choiceOf).userScript = "" := by
  unfold lineEntry
  cases scene.lineTexts s <;> rfl

section Basic

variable {d d' : Draft} {pred exit : Nat}

private theorem addScript_scripted {κ : Type} {s : Content κ}
    {title script : String} {own : List String} (h : d.Scripted sources id) (lt : pred < d.nextId)
    (found : sources.ownScript d.nextId = .ok own)
    (written : script = "\n".intercalate own) (other : sources.isLine d.nextId = false)
    (silent : title ≠ "Line" ∧ title ≠ "Shortcut Option Start")
    (added : scene.addScript d pred s title script = .ok (d', exit)) : d'.Scripted sources id := by
  simp only [addScript, bind_eq_ok_iff, pure_eq_ok_iff, Prod.mk.injEq] at added
  obtain ⟨condition, -, rfl, -⟩ := added
  let e : Entry := { d.fresh title with sequence := Lua.continueSequence, userScript := script }
  have plain : e.isSpoken = false := by simp [e, Entry.isSpoken, Draft.fresh, silent]
  change (Scene.withEntry d pred (e.guarded condition .passthrough) []).Scripted sources id
  refine h.withEntry lt (e.links_guarded _ _) found ((e.userScript_guarded _ _).trans written)
    (Sources.formatArguments_of_not_isLine other) ?_
  rw [e.isSpoken_guarded, plain, other]

/-- The entry of a line, of an option or not, that shows the content it is made from. -/
theorem withLine_scripted {content : Content Kind} {spoken : Spoken} {fragments : List String}
    (choiceOf : Option (Content Unit)) (condition : Option String) (action : FalseAction)
    (h : d.Scripted sources id) (lt : pred < d.nextId) (here : sources d.nextId = some content)
    (kind : content.kind = .basic (.line spoken))
    (read : scene.lineFragments (content.withKind spoken) = .ok fragments) :
    (Scene.withEntry d pred
      ((scene.lineEntry d (content.withKind spoken) choiceOf).guarded condition action)
      fragments).Scripted sources id := by
  have own : sources.ownScript d.nextId = .ok [] := by
    simp only [Sources.ownScript, here, Content.ownScript, kind]
  have line : content.isLine = true := by simp only [Content.isLine, kind]
  have arguments : sources.formatArguments d.nextId = .ok fragments := by
    simp only [Sources.formatArguments, here, Content.formatArguments, line]
    unfold lineFragments at read
    rw [show (content.withKind spoken).payload? = content.payload? from rfl] at read
    split at read
    · next tokens payload =>
      rw [payload]
      exact eq_ok_of_mapError read
    · next payload =>
      rw [payload]
      cases read
      rfl
  refine h.withEntry lt ?_ own ?_ arguments ?_
  · rw [Entry.links_guarded, (lineEntry_joins scene d _ choiceOf).links]
  · rw [Entry.userScript_guarded, lineEntry_userScript]
    rfl
  · rw [Entry.isSpoken_guarded, Entry.isSpoken, lineEntry_title, Sources.isLine,
      here, Option.any_some, line]
    cases choiceOf <;> rfl

/-- A jump runs nothing, nor does the entry behind it. -/
theorem withJump_scripted {condition : Option String} {target : Nat} (h : d.Scripted sources id)
    (lt : pred < d.nextId) (found : sources.ownScript d.nextId = .ok [])
    (other : sources.isLine d.nextId = false) (bare : sources.Bare (d.nextId + 1)) :
    (withJump d pred condition target).Scripted sources id := by
  let e : Entry := { d.fresh "Jump to Conversation" with sequence := Lua.continueSequence }
  have jumped : (d.scriptEntry pred "Jump to Conversation" "" condition).Scripted sources id := by
    change (Scene.withEntry d pred (e.guarded condition .passthrough) []).Scripted sources id
    refine h.withEntry lt (e.links_guarded _ _) found (e.userScript_guarded _ _)
      (Sources.formatArguments_of_not_isLine other) ?_
    rw [e.isSpoken_guarded, other]
    rfl
  have next : ((d.scriptEntry pred "Jump to Conversation" "" condition).connect d.nextId target
      Conversation.startId).nextId = d.nextId + 1 := by simp
  have connected := jumped.connect d.nextId target Conversation.startId
  refine Draft.Scripted.link ?_ _ _ bare.isLine
  rw [← next] at bare
  exact connected.push rfl bare.ownScript rfl bare.isLine rfl

private theorem addAssignment_scripted {κ : Type} {s : Content κ} {name : String} {op : Update}
    (h : d.Scripted sources id) (lt : pred < d.nextId)
    (found : ∀ value, (s.payload?.getD []).fragment = .ok value →
      sources.ownScript d.nextId = .ok [Lua.assignment name op value])
    (other : sources.isLine d.nextId = false)
    (added : scene.addAssignment d pred s name op = .ok (d', exit)) : d'.Scripted sources id := by
  unfold addAssignment at added
  split at added
  · next payload known =>
    obtain ⟨value, written, added⟩ := bind_eq_ok_iff.mp added
    refine addScript_scripted h lt (found value ?_) ?_ other (by decide) added
    · rw [known]
      exact eq_ok_of_mapError written
    · exact String.intercalate_singleton.symm
  · cases added

private theorem single_of_lists {entry statement : Nat} {content : Content Kind}
    {rest : List (List Tree.Origin)}
    (listed : sources.Lists entry ([(statement, content)] :: rest)) :
    sources entry = some content ∧ sources.isLine entry = content.isLine := by
  have here := listed.cons.1
  exact ⟨here, by simp [Sources.isLine, here]⟩

private theorem addCommand_scripted {statement : Nat} {content : Content Kind}
    {name rawText : String} {arguments : List Command.Argument}
    (kind : content.kind = .basic (.command name arguments rawText)) (h : d.Scripted sources id)
    (lt : pred < d.nextId)
    (listed : sources.Lists d.nextId
      (Tree.basicOrigins (statement, content) (.command name arguments rawText)))
    (added : scene.addBasic d pred (content.withKind (.command name arguments rawText)) =
      .ok (d', exit)) : d'.Scripted sources id := by
  unfold addBasic at added
  simp only [Content.withKind] at added
  cases sort : Command.Kind.ofName name with
  | playSequence =>
    simp only [sort, bind_eq_ok_iff, pure_eq_ok_iff, Prod.mk.injEq] at added
    obtain ⟨directive, -, rfl, -⟩ := added
    exact h.appendSequence pred directive
  | wait =>
    simp only [sort, bind_eq_ok_iff, pure_eq_ok_iff, Prod.mk.injEq] at added
    obtain ⟨directive, -, rfl, -⟩ := added
    exact h.appendSequence pred directive
  | stop =>
    simp only [Tree.basicOrigins, sort] at listed
    obtain ⟨here, line⟩ := single_of_lists listed
    simp only [sort] at added
    have own : sources.ownScript d.nextId = .ok [Lua.stopConversation ++ "()"] := by
      simp only [Sources.ownScript, here, Content.ownScript, kind, sort]
    refine addScript_scripted h lt own String.intercalate_singleton.symm ?_ (by decide) added
    simp only [line, Content.isLine, kind]
  | custom =>
    simp only [Tree.basicOrigins, sort] at listed
    obtain ⟨here, line⟩ := single_of_lists listed
    simp only [sort, bind_eq_ok_iff] at added
    obtain ⟨script, written, added⟩ := added
    obtain ⟨spelled, known, ⟨⟩⟩ := bind_eq_ok_iff.mp (eq_ok_of_mapError written)
    have own : sources.ownScript d.nextId =
        .ok [name ++ "(" ++ ", ".intercalate spelled.flatten ++ ")"] := by
      simp only [Sources.ownScript, here, Content.ownScript, kind, sort, known]
      rfl
    refine addScript_scripted h lt own String.intercalate_singleton.symm ?_ (by decide) added
    simp only [line, Content.isLine, kind]

private theorem addBasic_scripted {statement : Nat} {content : Content Kind} {b : Basic}
    (kind : content.kind = .basic b) (h : d.Scripted sources id) (lt : pred < d.nextId)
    (listed : sources.Lists d.nextId (Tree.basicOrigins (statement, content) b))
    (added : scene.addBasic d pred (content.withKind b) = .ok (d', exit)) :
    d'.Scripted sources id := by
  unfold addBasic at added
  cases b with
  | line spoken =>
    obtain ⟨here, -⟩ := single_of_lists listed
    simp only [Content.withKind, addLine_eq, bind_eq_ok_iff, pure_eq_ok_iff, Prod.mk.injEq] at added
    obtain ⟨condition, -, fragments, read, rfl, -⟩ := added
    exact withLine_scripted none condition _ h lt here kind read
  | command => exact addCommand_scripted kind h lt listed added
  | call name =>
    obtain ⟨here, line⟩ := single_of_lists listed
    simp only [Content.withKind] at added
    split at added
    · next payload known =>
      obtain ⟨script, written, added⟩ := bind_eq_ok_iff.mp added
      replace known : content.payload? = some payload := known
      have own : sources.ownScript d.nextId = .ok [script] := by
        simp only [Sources.ownScript, here, Content.ownScript, kind, known, Option.getD_some,
          eq_ok_of_mapError written]
        rfl
      refine addScript_scripted h lt own String.intercalate_singleton.symm ?_ (by decide) added
      simp only [line, Content.isLine, kind]
    · cases added
  | jump target =>
    obtain ⟨here, line⟩ := single_of_lists listed
    simp only [Content.withKind] at added
    cases addJump_adds (s := content.withKind (.jump target)) added rfl with
    | directive none => cases none
    | entry one => cases one
    | jump =>
      have own : sources.ownScript d.nextId = .ok [] := by
        simp only [Sources.ownScript, here, Content.ownScript, kind]
      refine withJump_scripted h lt own ?_ (Sources.bare_of_none listed.cons.2.cons.1)
      simp only [line, Content.isLine, kind]
  | set name op =>
    obtain ⟨here, line⟩ := single_of_lists listed
    refine addAssignment_scripted h lt (fun value written => ?_) ?_ added
    · replace written : (content.payload?.getD []).fragment = .ok value := written
      simp only [Sources.ownScript, here, Content.ownScript, kind, written]
      rfl
    · simp only [line, Content.isLine, kind]
  | declare name =>
    obtain ⟨here, line⟩ := single_of_lists listed
    refine addAssignment_scripted h lt (fun value written => ?_) ?_ added
    · replace written : (content.payload?.getD []).fragment = .ok value := written
      simp only [Sources.ownScript, here, Content.ownScript, kind, written]
      rfl
    · simp only [line, Content.isLine, kind]

end Basic

end Scene

namespace Sources

variable {sources : Sources}

/-- The parts of a clause among the entries. -/
structure ListsClause (sources : Sources) (base : Nat) (content : Content Kind)
    (body rest : List Tree) :
    Prop where
  start : sources base = some content
  finish : sources (base + 1) = none
  inner : sources.Lists (base + 2) (Tree.originsList body)
  fallback : content.hasConditions = true →
    sources (base + 2 + (Tree.originsList body).length) = none ∧
      sources.Lists (base + 2 + (Tree.originsList body).length + 1) (Tree.clauseOrigins rest)

private theorem Lists.clause {base id : Nat} {content : Content Kind} {body rest : List Tree}
    (h : sources.Lists base (Tree.clauseOrigins (.node id content body :: rest))) :
    sources.ListsClause base content body rest := by
  rw [Tree.clauseOrigins] at h
  obtain ⟨start, h⟩ := h.cons
  obtain ⟨finish, h⟩ := h.cons
  obtain ⟨inner, h⟩ := h.append
  refine ⟨start, finish, inner, fun conditions => ?_⟩
  rw [if_pos conditions] at h
  exact h.cons

/-- The links between the clauses of a block lead to entries that no basic statement makes. -/
theorem Lists.arms : ∀ (ts : List Tree) {isFirst : Bool} {base : Nat},
    clausesFlaw? isFirst ts = none → sources.Lists base (Tree.clauseOrigins ts) →
    ∀ arm ∈ Tree.arms base ts, sources.Bare arm.start ∧
      ∀ i, arm.fallback = some i → sources.Bare i
  | [], _, _, _, _, _, member => by cases member
  | .node id content body :: rest, isFirst, base, sound, listed, arm, member => by
    obtain ⟨kind, isClause⟩ : ∃ kind, content.kind = .block (.ifClause kind) :=
      Tree.clause_of_sound sound
    have clause := listed.clause
    have start : sources.Bare base := bare_of_block clause.start isClause
    cases conditions : content.hasConditions with
    | true =>
      obtain ⟨fallback, later⟩ := clause.fallback conditions
      simp only [Tree.arms, conditions, if_true, List.mem_cons] at member
      rcases member with rfl | member
      · refine ⟨start, ?_⟩
        rintro i ⟨⟩
        exact bare_of_none fallback
      · exact Lists.arms rest (Option.or_eq_none_iff.mp sound).2 later arm member
    | false =>
      obtain ⟨-, rfl, -⟩ := Tree.last_of_unguarded sound conditions
      simp only [Tree.arms, conditions, Bool.false_eq_true, if_false, List.mem_singleton] at member
      subst member
      exact ⟨start, by rintro _ ⟨⟩⟩

end Sources

namespace Scene

variable {scene : Scene} {sources : Sources} {id : Nat}

private theorem openArm_scripted {d : Draft} (h : d.Scripted sources id) (kind : ClauseKind)
    (start : sources.Bare d.nextId) (finish : sources.Bare (d.nextId + 1)) :
    (openArm d kind).Scripted sources id := by
  have opened := h.control start (show kind.name ++ " Clause Start" ≠ "Line" ∧
    kind.name ++ " Clause Start" ≠ "Shortcut Option Start" by cases kind <;> decide)
  rw [← d.nextId_control (kind.name ++ " Clause Start")] at finish
  exact opened.control finish (by cases kind <;> decide)

private theorem closeClause_scripted {d : Draft} {start : Nat}
    (h : d.Scripted sources id) (exit : Nat) (kind : ClauseKind) (condition : String)
    (finish : sources.Bare (start + 1))
    (fallback : sources.Bare d.nextId) :
    (closeClause d start exit kind condition).Scripted sources id := by
  have ended := (h.link exit .normal finish.isLine).setConditions start condition .block
  exact ended.control (by simpa using fallback) (by cases kind <;> decide)

private theorem openBranch_scripted {d : Draft} (h : d.Scripted sources id) (pred : Nat)
    (start : sources.Bare d.nextId) (finish : sources.Bare (d.nextId + 1)) :
    (openBranch d pred).Scripted sources id := by
  have opened := (h.control start (show "If Block Start" ≠ "Line" ∧
    "If Block Start" ≠ "Shortcut Option Start" by decide)).setGroup d.nextId
  exact (opened.link pred .normal start.isLine).control (by simpa using finish) (by decide)

private theorem openMenu_scripted {d : Draft} (h : d.Scripted sources id) (pred : Nat)
    (choices : List Choice) (start : sources.Bare d.nextId) (finish : sources.Bare (d.nextId + 1)) :
    (openMenu d pred choices).Scripted sources id := by
  have opened := h.control start (show "Shortcut Option List Start" ≠ "Line" ∧
    "Shortcut Option List Start" ≠ "Shortcut Option Start" by decide)
  unfold openMenu
  split
  · refine Draft.Scripted.control ?_ (by simpa using finish) (by decide)
    exact (opened.setGroup d.nextId).link pred .normal start.isLine
  · exact (opened.link pred .normal start.isLine).control (by simpa using finish) (by decide)

private theorem enterArms_scripted {d : Draft} {arms : List Arm}
    (h : d.Scripted sources id) (start : Nat) (bare : ∀ arm ∈ arms, sources.Bare arm.start) :
    (enterArms d start arms).Scripted sources id := by
  unfold enterArms
  split
  · next first found => exact h.link start .normal (bare first (List.mem_of_head? found)).isLine
  · exact h

private theorem linkArms_scripted {finish : Nat} (last : sources.Bare finish) :
    ∀ (arms : List Arm) {d : Draft}
    {previous : Nat}, d.Scripted sources id →
    (∀ arm ∈ arms, sources.Bare arm.start ∧ ∀ i, arm.fallback = some i → sources.Bare i) →
    (linkArms d previous finish arms).Scripted sources id
  | [], _, _, h, _ => h
  | ⟨start, ending, some fallback⟩ :: rest, d, previous, h, bare => by
    obtain ⟨here, later⟩ := List.forall_mem_cons.mp bare
    have next : sources.Bare ((rest.head?.map Arm.start).getD finish) := by
      cases rest with
      | nil => exact last
      | cons second rest => exact (later second List.mem_cons_self).1
    have chained :=
      (h.link previous .belowNormal (here.2 fallback rfl).isLine).link fallback .normal next.isLine
    exact linkArms_scripted last rest ((chained.setGroup previous).link ending .normal last.isLine)
      later
  | ⟨start, ending, none⟩ :: rest, d, previous, h, bare => by
    exact linkArms_scripted last rest (h.link ending .normal last.isLine)
      (List.forall_mem_cons.mp bare).2

mutual

private theorem addItem_scripted : ∀ (t : Tree) {i : Item} {d d' : Draft} {pred exit : Nat},
    t.item = .ok i →
    pred < d.nextId → sources.Lists d.nextId t.origins → d.Scripted sources id →
    scene.addItem d pred i = .ok (d', exit) → d'.Scripted sources id
  | .node statement content children, i, d, d', pred, exit, read, lt, listed, h, added => by
    cases Tree.stands_of_item read with
    | basic kind leaf =>
      simp only [Tree.origins, kind] at listed
      rw [addItem] at added
      exact addBasic_scripted kind h lt listed added
    | @branch clauses otherwise kind filled sound readClauses =>
      simp only [Tree.origins, kind] at listed
      obtain ⟨start, listed⟩ := listed.cons
      obtain ⟨finish, listed⟩ := listed.cons
      replace start := Sources.bare_of_none start
      replace finish := Sources.bare_of_none finish
      have arms := listed.arms children sound
      rw [Tree.arms_eq children _ sound readClauses] at arms
      obtain ⟨-, guarded, complete, branched⟩ := exists_branched added
      rw [Nat.add_assoc, ← nextId_openBranch d pred] at listed
      have opened := openBranch_scripted h pred start finish
      have closed := addClauses_scripted children sound readClauses listed opened branched.added
        branched.addedLast
      rw [branched.linked]
      exact linkArms_scripted finish _ (enterArms_scripted closed _ fun arm member =>
        (arms arm member).1)
        arms
    | @menu choices kind options readChoices =>
      simp only [Tree.origins, kind] at listed
      obtain ⟨start, listed⟩ := listed.cons
      obtain ⟨finish, listed⟩ := listed.cons
      replace start := Sources.bare_of_none start
      replace finish := Sources.bare_of_none finish
      obtain ⟨complete, _, addedChoices, rfl, -⟩ := addItem_menu_ok added
      have opened := nextId_openMenu d pred choices
      rw [Nat.add_assoc, ← opened] at listed
      have closed := addChoices_scripted children readChoices (by omega) finish listed
        (openMenu_scripted h pred choices start finish) addedChoices
      unfold closeMenu
      split
      · exact closed.link _ .belowNormal finish.isLine
      · exact closed

private theorem addItems_scripted :
    ∀ (ts : List Tree) {items : List Item} {d d' : Draft} {pred exit : Nat},
    Tree.itemList ts = .ok items → pred < d.nextId → sources.Lists d.nextId (Tree.originsList ts) →
    d.Scripted sources id → scene.addItems d pred items = .ok (d', exit) → d'.Scripted sources id
  | [], items, d, d', pred, exit, read, _, _, h, added => by
    cases read
    cases added
    exact h
  | t :: rest, items, d, d', pred, exit, read, lt, listed, h, added => by
    obtain ⟨first, others, one, more, rfl⟩ := Tree.itemList_cons read
    simp only [addItems, bind_eq_ok_iff] at added
    obtain ⟨⟨grown, middle⟩, addedFirst, addedRest⟩ := added
    have lowered := addItem_grown first lt addedFirst
    obtain ⟨here, later⟩ := listed.append
    rw [Tree.length_origins t one, ← lowered.nextId] at later
    exact addItems_scripted rest more lowered.exit_lt later
      (addItem_scripted t one lt here h addedFirst)
      addedRest

private theorem addClauses_scripted : ∀ (ts : List Tree) {isFirst : Bool} {clauses : List Clause}
    {otherwise : Option (List Item)} {d guarded complete : Draft} {kind : ClauseKind}
    {arms last : List Arm}, clausesFlaw? isFirst ts = none →
    Tree.clauseList ts = .ok (clauses, otherwise) →
    sources.Lists d.nextId (Tree.clauseOrigins ts) → d.Scripted sources id →
    scene.addClauses d kind clauses = .ok (guarded, arms) →
    scene.addOtherwise guarded otherwise = .ok (complete, last) → complete.Scripted sources id
  | [], _, clauses, otherwise, d, guarded, complete, kind, arms, last, _, read, _, h, added,
      addedLast => by
    cases read
    cases added
    cases addedLast
    exact h
  | .node statement content body :: rest, isFirst, clauses, otherwise, d, guarded, complete, kind,
      arms, last, sound, read, listed, h, added, addedLast => by
    obtain ⟨clauseKind, isClause⟩ : ∃ kind, content.kind = .block (.ifClause kind) :=
      Tree.clause_of_sound sound
    have clause := listed.clause
    have start : sources.Bare d.nextId := Sources.bare_of_block clause.start isClause
    have finish : sources.Bare (d.nextId + 1) := Sources.bare_of_none clause.finish
    have inner : ∀ kind, sources.Lists (openArm d kind).nextId (Tree.originsList body) := by
      intro kind
      rw [nextId_openArm]
      exact clause.inner
    have first : ∀ kind, d.nextId < (openArm d kind).nextId := by
      intro kind
      rw [nextId_openArm]
      omega
    obtain ⟨items, readBody, guardedClause | lastClause⟩ := Tree.clauseList_cons sound read
    · obtain ⟨guard, others, known, soundRest, readRest, rfl⟩ := guardedClause
      obtain ⟨grown, exit, condition, _, addedBody, -, addedRest, rfl⟩ := addClauses_cons_ok added
      have conditions : content.hasConditions = true := by simp [Content.hasConditions, known]
      have lowered := addItems_grown items (first kind) addedBody
      have total := lowered.nextId
      rw [nextId_openArm] at total
      obtain ⟨fallback, later⟩ := clause.fallback conditions
      rw [Tree.length_originsList body readBody, ← total] at fallback later
      have grownScripted := addItems_scripted body readBody (first kind) (inner kind)
        (openArm_scripted h kind start finish) addedBody
      have closed := closeClause_scripted grownScripted exit kind condition finish
        (Sources.bare_of_none fallback)
      refine addClauses_scripted rest soundRest readRest ?_ closed addedRest addedLast
      rwa [show (closeClause grown d.nextId exit kind condition).nextId = grown.nextId + 1 by
        simp [closeClause]]
    · obtain ⟨-, rfl, rfl, rfl⟩ := lastClause
      cases added
      simp only [addOtherwise, bind_eq_ok_iff, pure_eq_ok_iff, Prod.mk.injEq] at addedLast
      obtain ⟨⟨grown, exit⟩, addedBody, rfl, -⟩ := addedLast
      have grownScripted := addItems_scripted body readBody (first .else_) (inner .else_)
        (openArm_scripted h .else_ start finish) addedBody
      exact grownScripted.link exit .normal finish.isLine

private theorem addChoices_scripted {allGuarded : Bool} :
    ∀ (ts : List Tree) {choices : List Choice} {d d' : Draft}
    {start finish : Nat}, Tree.choiceList ts = .ok choices → start < d.nextId →
    sources.Bare finish →
    sources.Lists d.nextId (Tree.optionOrigins ts) → d.Scripted sources id →
    scene.addChoices d start finish choices = .ok (d', allGuarded) → d'.Scripted sources id
  | [], choices, d, d', start, finish, read, _, _, _, h, added => by
    cases read
    cases added
    exact h
  | .node _ _ [] :: rest, _, _, _, _, _, read, _, _, _, _, _ => by cases read
  | .node statement option (.node lineId shown below :: following) :: rest, choices, d, d', start,
      finish, read, lt, last, listed, h, added => by
    obtain ⟨_, _, _, spoken, body, others, same, kind, readBody, readRest, rfl⟩ :=
      Tree.choiceList_cons read
    cases same
    obtain ⟨condition, fragments, grown, exit, _, -, arguments, addedBody, addedRest⟩ :=
      addChoices_cons_ok added
    rw [Tree.optionOrigins] at listed
    obtain ⟨here, listed⟩ := listed.cons
    obtain ⟨inner, later⟩ := listed.append
    have headed :=
      withLine_scripted (some (option.withKind ())) condition .block h lt here kind arguments
    have next := nextId_withChoice scene d start (option.withKind ()) (shown.withKind spoken)
      condition fragments
    have lowered := addItems_grown body (by omega) addedBody
    have total := lowered.nextId
    rw [Tree.length_originsList following readBody, ← next, ← total] at later
    rw [← next] at inner
    have grownScripted := addItems_scripted following readBody (by omega) inner headed addedBody
    refine addChoices_scripted rest readRest ?_ last ?_
      (grownScripted.link exit .normal last.isLine)
      addedRest
    · rw [Draft.nextId_link]
      omega
    · rwa [Draft.nextId_link]

end

/-- The entry where a conversation starts runs nothing. -/
theorem opening_scripted (scene : Scene) (id : Nat) (start : sources.Bare Conversation.startId) :
    (scene.opening id).Scripted sources id := by
  let empty : Draft :=
    ⟨⟨id, scene.name, scene.actor, scene.conversant, []⟩, scene.narrator, scene.player⟩
  have nothing : empty.Scripted sources id := ⟨rfl, nofun, fun _ _ => rfl⟩
  exact nothing.push rfl start.ownScript rfl start.isLine rfl

end Scene

private theorem Script.lists_contentAt? (s : Script) : Sources.Lists s.contentAt? 0 s.origins := by
  intro k origin found
  rw [Nat.zero_add, contentAt?, found, Option.bind_some]

/-- The scripts of a conversation are accounted for: an entry runs the script of its statement and
then, in the order of its links, the calls for the format arguments of the lines that it leads to,
and nothing else. Exactly one link leads to each line, so no call is missing and none is run in two
places. -/
theorem Script.lower_scripts {s : Script} {ctx : Context} {id : Nat} {c : Conversation}
    (lowered : s.lower ctx id = .ok c) : ∀ e ∈ c.entries,
      Sources.script s.contentAt? id e.id e.links = .ok e.userScript ∧
        e.isSpoken = Sources.isLine s.contentAt? e.id ∧
        (e.isSpoken = true → c.arrivals e.id = 1) := by
  obtain ⟨node, complete, exit, checked, added, rfl⟩ := lower_ok lowered
  obtain ⟨-, read⟩ := Tree.check_ok checked
  obtain ⟨start, listed⟩ := s.lists_contentAt?.cons
  have opening := Scene.opening_scripted (Scene.ofNode ctx node) id (Sources.bare_of_none start)
  have scripted := Scene.addItems_scripted s.tree.children read Nat.zero_lt_one listed opening added
  have grown := Scene.addItems_grown _ Nat.zero_lt_one added
  have fits := Draft.Steps.fits grown.steps ((Scene.ofNode ctx node).opening_fits id)
  intro e member
  obtain ⟨i, found⟩ := List.mem_iff_getElem?.mp member
  obtain rfl : e.id = i := (fits.entry i e found).id
  obtain ⟨statements, accounted⟩ := scripted.entry e.id e found
  refine ⟨?_, accounted.spoken, fun spoken => ?_⟩
  · simp only [Sources.script, accounted.statements, accounted.script]
    rfl
  · rw [scripted.reached e.id (accounted.spoken ▸ spoken)]
    exact if_pos (complete.lt_nextId_of_entryAt? found)

namespace Sample

/-- A command, an assignment, a line with two format arguments, and a menu of two lines with one
each. -/
def askingScript : Script where
  statements :=
    [⟨⟨.block (.node "Start" .empty), 1, none, none⟩, none, [1, 2, 3, 4]⟩,
      ⟨⟨.basic (.command "shake" [.text "door", .expression [.variable "x"]] "shake door {$x}"), 2,
        none, none⟩, some 0, []⟩,
      ⟨⟨.basic (.set "y" .assign), 3, none, some [.variable "z"]⟩, some 0, []⟩,
      ⟨⟨.basic (.line {}), 4, none, some [.variable "x", .variable "y"]⟩, some 0, []⟩,
      ⟨⟨.block .options, 5, none, none⟩, some 0, [5, 7]⟩,
      ⟨⟨.block .option, 5, none, none⟩, some 4, [6]⟩,
      ⟨⟨.basic (.line {}), 5, none, some [.variable "x"]⟩, some 5, []⟩,
      ⟨⟨.block .option, 6, none, none⟩, some 4, [8]⟩,
      ⟨⟨.basic (.line {}), 6, none, some [.variable "y"]⟩, some 7, []⟩]
  root := 0
  root_lt := by decide

end Sample

open Sample in
/-- The entry of the assignment sets the arguments of the line behind it, and the start of the menu
those of both its lines. -/
theorem Script.lower_scripts_sample : ∃ c, askingScript.lower context 1 = .ok c ∧
    (∃ e ∈ c.entries, e.id = 1 ∧ Sources.script askingScript.contentAt? 1 1 e.links =
      .ok "shake('door', Variable['x'])") ∧
    (∃ e ∈ c.entries, e.id = 2 ∧ Sources.script askingScript.contentAt? 1 2 e.links = .ok
      ("Variable['y'] = Variable['z']\nds_clr_add_fmt_arg(1, 3, tostring(Variable['x']))\n" ++
        "ds_add_fmt_arg(1, 3, tostring(Variable['y']))")) ∧
    ∃ e ∈ c.entries, e.id = 4 ∧ Sources.script askingScript.contentAt? 1 4 e.links = .ok
      ("ds_clr_add_fmt_arg(1, 6, tostring(Variable['x']))\n" ++
        "ds_clr_add_fmt_arg(1, 7, tostring(Variable['y']))") := by
  have texts : ((askingScript.lower context 1).toOption.map fun c =>
      c.entries.map fun e => (e.id, e.userScript)) = some [(0, ""),
        (1, "shake('door', Variable['x'])"),
        (2, "Variable['y'] = Variable['z']\nds_clr_add_fmt_arg(1, 3, tostring(Variable['x']))\n" ++
          "ds_add_fmt_arg(1, 3, tostring(Variable['y']))"), (3, ""),
        (4, "ds_clr_add_fmt_arg(1, 6, tostring(Variable['x']))\n" ++
          "ds_clr_add_fmt_arg(1, 7, tostring(Variable['y']))"), (5, ""), (6, ""), (7, "")] := by
    decide +kernel
  cases lowered : askingScript.lower context 1 with
  | error e =>
    rw [lowered] at texts
    cases texts
  | ok c =>
    rw [lowered] at texts
    replace texts := Option.some.inj texts
    simp only at texts
    have runs {i : Nat} {text : String}
        (listed : (i, text) ∈ c.entries.map fun e => (e.id, e.userScript)) :
        ∃ e ∈ c.entries, e.id = i ∧
          Sources.script askingScript.contentAt? 1 i e.links = .ok text := by
      obtain ⟨e, member, same⟩ := List.mem_map.mp listed
      obtain ⟨rfl, rfl⟩ := Prod.mk.inj same
      exact ⟨e, member, rfl, (Script.lower_scripts lowered e member).1⟩
    rw [texts] at runs
    exact ⟨c, rfl, runs (.tail _ (.head _)), runs (.tail _ (.tail _ (.head _))),
      runs (.tail _ (.tail _ (.tail _ (.tail _ (.head _)))))⟩

end Dialogue
