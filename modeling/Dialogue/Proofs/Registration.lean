import Dialogue.Registration

/-!
What registration changes. It adds actors and variables behind those that are there and leaves the
rest of the database as it is, and nothing that it reports is an error.
-/

set_option autoImplicit false
set_option relaxedAutoImplicit false

namespace Dialogue

namespace Database

/-- A database with more actors and more variables. -/
structure Extends (db db' : Database) : Prop where
  actors : db.actors <+: db'.actors
  declarations : db.declarations <+: db'.declarations
  rest : { db' with actors := db.actors, declarations := db.declarations } = db

private theorem Extends.refl (db : Database) : db.Extends db :=
  ⟨List.prefix_refl _, List.prefix_refl _, rfl⟩

private theorem Extends.trans {db db' db'' : Database} (h : db.Extends db')
    (h' : db'.Extends db'') :
    db.Extends db'' where
  actors := h.actors.trans h'.actors
  declarations := h.declarations.trans h'.declarations
  rest := by
    have same := h.rest
    rw [← h'.rest] at same
    exact same

theorem Extends.metadata {db db' : Database} (h : db.Extends db') : db'.metadata = db.metadata := by
  have same := congrArg Database.metadata h.rest
  exact same

theorem addActor_extends (db : Database) (name : String) (isPlayer : Bool) :
    db.Extends (db.addActor name isPlayer) := by
  unfold addActor
  split
  · exact .refl db
  · exact ⟨List.prefix_append _ _, List.prefix_refl _, rfl⟩

theorem define_extends (db : Database) (v : Variable) : db.Extends (db.define v) := by
  unfold define
  split
  · exact .refl db
  · exact ⟨List.prefix_refl _, List.prefix_append _ _, rfl⟩

theorem foldl_extends {α : Type} {f : Database → α → Database} (step : ∀ db a, Extends db (f db a))
    (items : List α) (db : Database) : db.Extends (items.foldl f db) := by
  induction items generalizing db with
  | nil => exact .refl db
  | cons item rest ih => exact (step db item).trans (ih (f db item))

end Database

namespace Registration

private theorem declare_spec (state : Database × List Diagnostic) (usage : VariableUse) :
    state.1.Extends (declare state usage).1 ∧
      ∀ d ∈ (declare state usage).2, d ∈ state.2 ∨ d.isError = false := by
  obtain ⟨db, reports⟩ := state
  simp only [declare]
  cases db.findVariable? usage.name with
  | none => exact ⟨db.define_extends _, fun d member => .inl member⟩
  | some existing =>
    simp only
    split
    · refine ⟨.refl db, fun d member => ?_⟩
      rcases List.mem_append.mp member with member | member
      · exact .inl member
      · obtain rfl := List.mem_singleton.mp member
        exact .inr rfl
    · exact ⟨.refl db, fun d member => .inl member⟩

private theorem declareAll_spec (usages : List VariableUse) (state : Database × List Diagnostic) :
    state.1.Extends (usages.foldl declare state).1 ∧
      ∀ d ∈ (usages.foldl declare state).2, d ∈ state.2 ∨ d.isError = false := by
  induction usages generalizing state with
  | nil => exact ⟨.refl _, fun d member => .inl member⟩
  | cons usage rest ih =>
    obtain ⟨here, reports⟩ := declare_spec state usage
    obtain ⟨later, others⟩ := ih (declare state usage)
    refine ⟨here.trans later, fun d member => ?_⟩
    rcases others d member with old | mild
    · exact reports d old
    · exact .inr mild

/-- Registration only adds actors and variables. -/
theorem register_extends (files : List ScriptFile) (db : Database) (defaultLocale : String) :
    db.Extends (register files db defaultLocale).1 := by
  let found := ofFiles files defaultLocale
  have cast := Database.foldl_extends (fun db (a : String × Bool) => db.addActor_extends a.1 a.2)
    (found.filterMap Mention.actor?) db
  have declared := declareAll_spec (byName (found.filterMap Mention.declared?))
  have assigned := Database.foldl_extends
    (fun db (usage : VariableUse) => db.define_extends (.emptyText usage.name))
    (byName (found.filterMap Mention.assigned?))
  exact cast.trans ((declared (_, [])).1.trans (assigned _))

/-- Registration reports no errors. -/
theorem register_reports (files : List ScriptFile) (db : Database) (defaultLocale : String) :
    ∀ d ∈ (register files db defaultLocale).2, d.isError = false := by
  intro d member
  rcases (declareAll_spec _ (_, [])).2 d member with old | mild
  · cases old
  · exact mild

end Registration

end Dialogue
