import Dialogue.Graph.Lowering

/-!
How the operations on a draft change its entries. Every operation either adds one entry at the end
or changes one entry in place, so what an entry holds afterwards follows from `entryAt?_push` and
`entryAt?_modify`. What is proved of drafts is mostly about a view of their entries, such as their
titles or where their links lead; a view that does not see the changed part of an entry stays as it
is.
-/

set_option autoImplicit false
set_option relaxedAutoImplicit false

namespace Dialogue

/-- A chain of fallible steps succeeds exactly when each step does. -/
theorem bind_eq_ok_iff {ε α β : Type} {first : Except ε α} {next : α → Except ε β} {result : β} :
    first >>= next = .ok result ↔ ∃ value, first = .ok value ∧ next value = .ok result := by
  rcases first with e | value
  · exact ⟨nofun, fun ⟨_, h, _⟩ => nomatch h⟩
  · exact ⟨fun h => ⟨value, rfl, h⟩, fun ⟨_, h, h'⟩ => Except.ok.inj h ▸ h'⟩

theorem pure_eq_ok_iff {ε α : Type} {value result : α} :
    (pure value : Except ε α) = .ok result ↔ value = result :=
  ⟨Except.ok.inj, congrArg Except.ok⟩

theorem eq_ok_of_mapError {ε ε' α : Type} {f : ε → ε'} {result : Except ε α} {value : α}
    (h : result.mapError f = .ok value) : result = .ok value := by
  cases result with
  | error e => cases h
  | ok found =>
    cases h
    rfl

/-- A link between two entries of one conversation. -/
def Link.inner (conversation origin destination : Nat) (priority : Priority) : Link :=
  { originConversation := conversation
    originEntry := origin
    destinationConversation := conversation
    destinationEntry := destination
    priority := priority }

def Link.outer (conversation origin target destination : Nat) : Link :=
  { originConversation := conversation
    originEntry := origin
    destinationConversation := target
    destinationEntry := destination
    isConnector := true }

theorem getElem?_concat {α : Type} (xs : List α) (x : α) (i : Nat) :
    (xs ++ [x])[i]? = if i = xs.length then some x else xs[i]? := by
  rcases Nat.lt_trichotomy i xs.length with before | here | after
  · rw [List.getElem?_append_left before, if_neg (Nat.ne_of_lt before)]
  · simp [here]
  · have outside : (xs ++ [x]).length ≤ i := by
      rw [List.length_append, List.length_singleton]
      omega
    rw [List.getElem?_eq_none outside, List.getElem?_eq_none (by omega),
      if_neg (Nat.ne_of_gt after)]

namespace Entry

variable {β : Type}

/-- A view of entries that does not see their links. -/
class IgnoresLinks (v : Entry → β) : Prop where
  links_eq (e : Entry) (links : List Link) : v { e with links := links } = v e

/-- A view of entries that does not see whether they are groups. -/
class IgnoresGroup (v : Entry → β) : Prop where
  group_eq (e : Entry) (isGroup : Bool) : v { e with isGroup := isGroup } = v e

/-- A view of entries that does not see their guards. -/
class IgnoresGuard (v : Entry → β) : Prop where
  guard_eq (e : Entry) (conditions : String) (falseAction : FalseAction) :
    v { e with conditions := conditions, falseAction := falseAction } = v e

/-- A view of entries that does not see their scripts. -/
class IgnoresScript (v : Entry → β) : Prop where
  script_eq (e : Entry) (userScript : String) : v { e with userScript := userScript } = v e

/-- A view of entries that does not see their sequences. -/
class IgnoresSequence (v : Entry → β) : Prop where
  sequence_eq (e : Entry) (sequence : String) : v { e with sequence := sequence } = v e

/-- A view of entries that sees nothing of what changes once an entry is there. -/
class Steady (v : Entry → β) : Prop extends IgnoresLinks v, IgnoresGroup v, IgnoresGuard v,
  IgnoresScript v, IgnoresSequence v

instance : Steady Entry.title where
  links_eq _ _ := rfl
  group_eq _ _ := rfl
  guard_eq _ _ _ := rfl
  script_eq _ _ := rfl
  sequence_eq _ _ := rfl

theorem view_guarded (v : Entry → β) [IgnoresGuard v] (e : Entry) (condition : Option String)
    (action : FalseAction) : v (e.guarded condition action) = v e := by
  cases condition with
  | none => rfl
  | some conditions => exact IgnoresGuard.guard_eq e conditions action

@[simp] theorem title_guarded (e : Entry) (condition : Option String) (action : FalseAction) :
    (e.guarded condition action).title = e.title :=
  view_guarded Entry.title e condition action

end Entry

namespace Draft

variable (d : Draft)

@[simp] theorem entries_withEntries (es : List Entry) : (d.withEntries es).entries = es := rfl

@[simp] theorem title_fresh (title : String) : (d.fresh title).title = title := rfl

@[simp] theorem entries_push (e : Entry) : (d.push e).entries = d.entries ++ [e] := rfl

@[simp] theorem entries_modify (i : Nat) (f : Entry → Entry) :
    (d.modify i f).entries = d.entries.modify i f := rfl

@[simp] theorem nextId_push (e : Entry) : (d.push e).nextId = d.nextId + 1 := by
  simp [nextId]

@[simp] theorem nextId_modify (i : Nat) (f : Entry → Entry) : (d.modify i f).nextId = d.nextId := by
  simp [nextId]

theorem lt_nextId_of_entryAt? {i : Nat} {e : Entry} (h : d.entryAt? i = some e) : i < d.nextId := by
  rw [entryAt?, List.getElem?_eq_some_iff] at h
  exact h.1

theorem entryAt?_push (e : Entry) (i : Nat) :
    (d.push e).entryAt? i = if i = d.nextId then some e else d.entryAt? i :=
  getElem?_concat d.entries e i

@[simp] theorem entryAt?_push_self (e : Entry) : (d.push e).entryAt? d.nextId = some e := by
  rw [entryAt?_push, if_pos rfl]

theorem entryAt?_push_of_lt (e : Entry) {i : Nat} (h : i < d.nextId) :
    (d.push e).entryAt? i = d.entryAt? i := by
  rw [entryAt?_push, if_neg (by omega)]

theorem entryAt?_modify (i j : Nat) (f : Entry → Entry) :
    (d.modify i f).entryAt? j = if i = j then (d.entryAt? j).map f else d.entryAt? j := by
  simp only [entryAt?, entries_modify, List.getElem?_modify]
  split <;> cases d.entries[j]? <;> rfl

@[simp] theorem entryAt?_modify_self (i : Nat) (f : Entry → Entry) :
    (d.modify i f).entryAt? i = (d.entryAt? i).map f := by
  rw [entryAt?_modify, if_pos rfl]

theorem entryAt?_modify_of_ne {i j : Nat} (f : Entry → Entry) (h : i ≠ j) :
    (d.modify i f).entryAt? j = d.entryAt? j := by
  rw [entryAt?_modify, if_neg h]

theorem link_eq (i j : Nat) (p : Priority) : d.link i j p =
    d.modify i fun e => { e with links := e.links ++ [.inner d.conversation.id i j p] } := rfl

theorem connect_eq (i k j : Nat) : d.connect i k j =
    d.modify i fun e => { e with links := e.links ++ [.outer d.conversation.id i k j] } := rfl

@[simp] theorem nextId_link (i j : Nat) (p : Priority) : (d.link i j p).nextId = d.nextId :=
  d.nextId_modify _ _

@[simp] theorem nextId_connect (i k j : Nat) : (d.connect i k j).nextId = d.nextId :=
  d.nextId_modify _ _

@[simp] theorem nextId_setGroup (i : Nat) : (d.setGroup i).nextId = d.nextId :=
  d.nextId_modify _ _

@[simp] theorem nextId_setConditions (i : Nat) (c : String) (a : FalseAction) :
    (d.setConditions i c a).nextId = d.nextId :=
  d.nextId_modify _ _

@[simp] theorem nextId_appendScript (i : Nat) (s : String) :
    (d.appendScript i s).nextId = d.nextId :=
  d.nextId_modify _ _

@[simp] theorem nextId_appendSequence (i : Nat) (s : String) :
    (d.appendSequence i s).nextId = d.nextId :=
  d.nextId_modify _ _

@[simp] theorem nextId_control (title : String) : (d.control title).nextId = d.nextId + 1 :=
  d.nextId_push _

@[simp] theorem nextId_scriptEntry (pred : Nat) (title script : String) (c : Option String) :
    (d.scriptEntry pred title script c).nextId = d.nextId + 1 := by
  simp [scriptEntry]

theorem modify_modify_self (i : Nat) (f g : Entry → Entry) :
    (d.modify i f).modify i g = d.modify i fun e => g (f e) := by
  have entries : ∀ j, ((d.modify i f).modify i g).entryAt? j =
      (d.modify i fun e => g (f e)).entryAt? j := by
    intro j
    simp only [entryAt?_modify]
    split
    · rw [Option.map_map]
      rfl
    · rfl
  exact congrArg d.withEntries (List.ext_getElem? entries)

theorem addFormatArguments_eq_modify (pred entry : Nat) (fragments : List String) :
    d.addFormatArguments pred entry fragments = d.modify pred fun e => { e with
      userScript :=
        (Lua.formatCalls d.conversation.id entry fragments).foldl joinScript e.userScript } := by
  rw [addFormatArguments]
  generalize Lua.formatCalls d.conversation.id entry fragments = calls
  induction calls generalizing d with
  | nil =>
    have same : d.entries.modify pred (fun e => e) = d.entries := List.modify_id pred d.entries
    exact (congrArg d.withEntries same).symm
  | cons call rest ih =>
    rw [List.foldl_cons, ih]
    exact d.modify_modify_self pred _ _

@[simp] theorem nextId_addFormatArguments (pred entry : Nat) (fragments : List String) :
    (d.addFormatArguments pred entry fragments).nextId = d.nextId := by
  rw [addFormatArguments_eq_modify, nextId_modify]

section Views

variable {β : Type} {v : Entry → β}

/-- What a view shows of the entries so far. -/
def view (v : Entry → β) : List β :=
  d.entries.map v

theorem getElem?_view (i : Nat) : (d.view v)[i]? = (d.entryAt? i).map v :=
  List.getElem?_map

theorem exists_of_view {d : Draft} {i : Nat} {seen : β} (h : (d.view v)[i]? = some seen) :
    ∃ e, d.entryAt? i = some e ∧ v e = seen := by
  rw [getElem?_view] at h
  exact Option.map_eq_some_iff.mp h

theorem lt_nextId_of_view {i : Nat} {seen : β} (h : (d.view v)[i]? = some seen) : i < d.nextId := by
  obtain ⟨e, found, -⟩ := exists_of_view h
  exact d.lt_nextId_of_entryAt? found

theorem view_congr {d d' : Draft} {i : Nat} (h : d'.entryAt? i = d.entryAt? i) :
    (d'.view v)[i]? = (d.view v)[i]? := by
  rw [getElem?_view, h, getElem?_view]

@[simp] theorem view_push (e : Entry) : (d.push e).view v = d.view v ++ [v e] := by
  simp [view]

theorem view_push_self (e : Entry) : ((d.push e).view v)[d.nextId]? = some (v e) := by
  rw [getElem?_view, entryAt?_push_self, Option.map_some]

theorem view_push_of_lt (e : Entry) {i : Nat} (h : i < d.nextId) :
    ((d.push e).view v)[i]? = (d.view v)[i]? :=
  view_congr (d.entryAt?_push_of_lt e h)

/-- A change that acts on what is seen of an entry. -/
theorem view_modify_self {f : Entry → Entry} {g : β → β} (acts : ∀ e, v (f e) = g (v e)) (i : Nat) :
    ((d.modify i f).view v)[i]? = ((d.view v)[i]?).map g := by
  rw [getElem?_view, entryAt?_modify_self, getElem?_view, Option.map_map, Option.map_map]
  exact congrArg (fun h => (d.entryAt? i).map h) (funext acts)

theorem view_modify_of_ne (f : Entry → Entry) {i j : Nat} (h : i ≠ j) :
    ((d.modify i f).view v)[j]? = (d.view v)[j]? :=
  view_congr (d.entryAt?_modify_of_ne f h)

/-- A change that is not seen. -/
theorem view_modify {f : Entry → Entry} (same : ∀ e, v (f e) = v e) (i : Nat) :
    (d.modify i f).view v = d.view v := by
  apply List.ext_getElem?
  intro j
  by_cases here : i = j
  · subst here
    rw [view_modify_self d (g := id) same, Option.map_id_fun, id]
  · exact d.view_modify_of_ne f here

@[simp] theorem view_link [Entry.IgnoresLinks v] (i j : Nat) (p : Priority) :
    (d.link i j p).view v = d.view v :=
  d.view_modify (fun e => Entry.IgnoresLinks.links_eq e _) i

@[simp] theorem view_connect [Entry.IgnoresLinks v] (i k j : Nat) :
    (d.connect i k j).view v = d.view v :=
  d.view_modify (fun e => Entry.IgnoresLinks.links_eq e _) i

@[simp] theorem view_setGroup [Entry.IgnoresGroup v] (i : Nat) : (d.setGroup i).view v = d.view v :=
  d.view_modify (fun e => Entry.IgnoresGroup.group_eq e true) i

@[simp] theorem view_setConditions [Entry.IgnoresGuard v] (i : Nat) (c : String) (a : FalseAction) :
    (d.setConditions i c a).view v = d.view v :=
  d.view_modify (fun e => Entry.IgnoresGuard.guard_eq e c a) i

@[simp] theorem view_appendScript [Entry.IgnoresScript v] (i : Nat) (s : String) :
    (d.appendScript i s).view v = d.view v :=
  d.view_modify (fun e => Entry.IgnoresScript.script_eq e _) i

@[simp] theorem view_appendSequence [Entry.IgnoresSequence v] (i : Nat) (s : String) :
    (d.appendSequence i s).view v = d.view v :=
  d.view_modify (fun e => Entry.IgnoresSequence.sequence_eq e _) i

@[simp] theorem view_addFormatArguments [Entry.IgnoresScript v] (pred entry : Nat)
    (fragments : List String) : (d.addFormatArguments pred entry fragments).view v = d.view v := by
  rw [addFormatArguments_eq_modify]
  exact d.view_modify (fun e => Entry.IgnoresScript.script_eq e _) pred

@[simp] theorem view_control (title : String) : (d.control title).view v =
    d.view v ++ [v { d.fresh title with sequence := Lua.continueSequence }] :=
  d.view_push _

theorem view_control_self (title : String) : ((d.control title).view v)[d.nextId]? =
    some (v { d.fresh title with sequence := Lua.continueSequence }) :=
  d.view_push_self _

theorem view_control_of_lt (title : String) {i : Nat} (h : i < d.nextId) :
    ((d.control title).view v)[i]? = (d.view v)[i]? :=
  d.view_push_of_lt _ h

theorem view_link_of_ne {i k : Nat} (j : Nat) (p : Priority) (h : i ≠ k) :
    ((d.link i j p).view v)[k]? = (d.view v)[k]? :=
  d.view_modify_of_ne _ h

theorem view_connect_of_ne {i m : Nat} (k j : Nat) (h : i ≠ m) :
    ((d.connect i k j).view v)[m]? = (d.view v)[m]? :=
  d.view_modify_of_ne _ h

theorem view_setGroup_of_ne {i k : Nat} (h : i ≠ k) :
    ((d.setGroup i).view v)[k]? = (d.view v)[k]? :=
  d.view_modify_of_ne _ h

theorem view_setConditions_of_ne (c : String) (a : FalseAction) {i k : Nat} (h : i ≠ k) :
    ((d.setConditions i c a).view v)[k]? = (d.view v)[k]? :=
  d.view_modify_of_ne _ h

end Views

end Draft

end Dialogue
