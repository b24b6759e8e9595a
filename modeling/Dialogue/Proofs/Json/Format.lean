import Dialogue.Json.Decode
import Mathlib.Algebra.Group.Nat.Defs
import Mathlib.Data.List.Forall2

/-!
Formats of JSON values. A format says which values of a type a JSON value denotes, without saying
how they are found: the texts, numbers, lists and dictionaries, the names that stand alone, and the
members of a record with what a missing one means. A decoder reads a format if it gives exactly what
the format says, and each decoder of the library is shown to read one.
-/

set_option autoImplicit false
set_option relaxedAutoImplicit false

namespace Dialogue

namespace Dict

variable {α : Type}

private theorem place_of_greater (key : String) (value : α) (entries : List (String × α))
    (greater : ∀ entry ∈ entries, entry.1 < key) :
    place key value entries = entries ++ [(key, value)] := by
  induction entries with
  | nil => rfl
  | cons entry rest ih =>
    obtain ⟨first, later⟩ := List.forall_mem_cons.mp greater
    have notBefore : ¬ key < entry.1 := String.lt_asymm first
    have different : key ≠ entry.1 := fun same => String.lt_irrefl _ (same ▸ first)
    rw [place, if_neg notBefore, if_neg different, ih later, List.cons_append]

theorem entries_foldl_insert (rest : List (String × α)) (d : Dict α)
    (increasing : (d.entries ++ rest).Pairwise (fun a b => a.1 < b.1)) :
    (rest.foldl (fun d entry => d.insert entry.1 entry.2) d).entries = d.entries ++ rest := by
  induction rest generalizing d with
  | nil => exact (List.append_nil _).symm
  | cons entry rest ih =>
    have greater : ∀ other ∈ d.entries, other.1 < entry.1 := fun other member =>
      (List.pairwise_append.mp increasing).2.2 other member entry List.mem_cons_self
    have placed : (d.insert entry.1 entry.2).entries = d.entries ++ [entry] :=
      place_of_greater entry.1 entry.2 d.entries greater
    have split : d.entries ++ entry :: rest = (d.insert entry.1 entry.2).entries ++ rest := by
      rw [placed, List.append_assoc, List.singleton_append]
    rw [List.foldl_cons, split]
    exact ih _ (split ▸ increasing)

/-- A dictionary is the one of its own entries. -/
theorem ofList_entries (d : Dict α) : ofList d.entries = d :=
  Dict.ext (entries_foldl_insert d.entries empty d.increasing)

end Dict

namespace Json

variable {α β : Type}

/-- Which values of a type a JSON value denotes. -/
abbrev Format (α : Type) := Json → α → Prop

/-- A decoder reads a format if it gives `x` on exactly the values that denote `x`. -/
def Reads (f : Json → Option α) (F : Format α) : Prop :=
  ∀ value x, f value = some x ↔ F value x

def IsText : Format String := fun value s => value = .str s

def IsBool : Format Bool := fun value b => value = .bool b

/-- A number of so many bits is an integer literal in range. -/
def IsWord (bits : Nat) : Format Nat := fun value n => value = .ofNat n ∧ n < 2 ^ bits

/-- A number is any finite number literal. -/
inductive IsNumber : Format Float
  | int {n : Int} (finite : (Float.ofInt n).isFinite = true) :
  IsNumber (.num (.int n)) (Float.ofInt n)
  | real {x : Float} (finite : x.isFinite = true) : IsNumber (.num (.real x finite)) x

/-- A name without content stands alone, or with a payload that stands for no content. -/
inductive IsName (setting : Setting) : Format String
  | alone (name : String) : IsName setting (.str name) name
  | tagged {payload : Json} (name : String) (unit : isUnit setting payload = true) :
    IsName setting (.obj [(name, payload)]) name

theorem reads_text : Reads text? IsText := by
  intro value s
  cases value <;> simp [text?, IsText]

theorem reads_bool : Reads bool? IsBool := by
  intro value b
  cases value <;> simp [bool?, IsBool]

private theorem reads_natBelow (bits : Nat) : Reads (natBelow? (Nat.pow 2 bits)) (IsWord bits) := by
  intro value n
  unfold natBelow? IsWord ofNat
  split
  · next k =>
    have bound : Nat.pow 2 bits = 2 ^ bits := rfl
    simp only [Bool.and_eq_true, decide_eq_true_eq, Option.ite_none_right_eq_some,
      Option.some.injEq, Json.num.injEq, Number.int.injEq, bound]
    omega
  · next other =>
    constructor
    · intro h
      cases h
    · rintro ⟨rfl, -⟩
      exact absurd rfl (other n)

theorem reads_word32 : Reads word32? (IsWord 32) := reads_natBelow 32

theorem reads_word64 : Reads word64? (IsWord 64) := reads_natBelow 64

theorem reads_float : Reads float? IsNumber := by
  intro value x
  constructor
  · intro h
    unfold float? at h
    split at h
    · next n =>
      obtain ⟨finite, same⟩ := Option.ite_none_right_eq_some.mp h
      cases same
      exact .int finite
    · next finite =>
      cases h
      exact .real finite
    · cases h
  · intro h
    cases h with
    | int finite => rw [float?, if_pos finite]
    | real finite => rfl

theorem IsNumber.isFinite {value : Json} {x : Float} (h : IsNumber value x) :
    x.isFinite = true := by
  cases h with
  | int finite => exact finite
  | real finite => exact finite

theorem isNumber_ofFloat {x : Float} (finite : x.isFinite = true) : IsNumber (.ofFloat x) x := by
  rw [ofFloat, dif_pos finite]
  exact .real finite

theorem variant?_tagged_iff (value payload : Json) (name : String) :
    variant? value = some (name, some payload) ↔ value = .obj [(name, payload)] := by
  unfold variant?
  split
  · simp
  · simp
  · next other =>
    constructor
    · intro h
      cases h
    · rintro rfl
      exact absurd rfl (other name payload)

theorem isName_iff (setting : Setting) (value : Json) (name : String) :
    IsName setting value name ↔
      ∃ payload, variant? value = some (name, payload) ∧ payload.all (isUnit setting) = true := by
  constructor
  · intro h
    cases h with
    | alone => exact ⟨none, rfl, rfl⟩
    | tagged _ unit => exact ⟨_, rfl, unit⟩
  · rintro ⟨payload, named, unit⟩
    unfold variant? at named
    split at named
    · cases named
      exact .alone _
    · cases named
      exact .tagged _ unit
    · cases named

/-- A name is found by its spelling where the names of a type tell its values apart. -/
theorem reads_name {ofName? : String → Option α} {name : α → String} (setting : Setting)
    (found : ∀ s x, ofName? s = some x ↔ s = name x) :
    Reads (name? setting ofName?) (fun value x => IsName setting value (name x)) := by
  intro value x
  refine Iff.trans ?_ (isName_iff setting value (name x)).symm
  constructor
  · intro h
    obtain ⟨⟨s, payload⟩, named, h⟩ := Option.bind_eq_some_iff.mp h
    obtain ⟨unit, same⟩ := Option.ite_none_right_eq_some.mp h
    cases (found s x).mp same
    exact ⟨payload, named, unit⟩
  · rintro ⟨payload, named, unit⟩
    have same := (found (name x) x).mpr rfl
    refine Option.bind_eq_some_iff.mpr ⟨(name x, payload), named, ?_⟩
    show (if payload.all (isUnit setting) then ofName? (name x) else none) = some x
    rw [if_pos unit, same]

/-- A list is an array of its elements in order. -/
inductive IsList (F : Format α) : Format (List α)
  | arr {items : List Json} {xs : List α} (each : List.Forall₂ F items xs) :
  IsList F (.arr items) xs

/-- A dictionary is an object with its entries as members; of several members with one name the last
one counts. -/
inductive IsDict (F : Format α) : Format (Dict α)
  | obj {members : List (String × Json)} {entries : List (String × α)}
    (each : List.Forall₂ (fun member entry => member.1 = entry.1 ∧
      F member.2 entry.2) members entries) :
    IsDict F (.obj members) (Dict.ofList entries)

/-- A value that may be missing is `null`, or what it is when it is there. -/
inductive IsNullable (F : Format α) : Format (Option α)
  | null : IsNullable F .null none
  | value {value : Json} {x : α} (present : value ≠ .null) (h : F value x) :
      IsNullable F value (some x)

private theorem mapM_eq_some_iff (f : α → Option β) (items : List α) (xs : List β) :
    items.mapM f = some xs ↔ List.Forall₂ (fun item x => f item = some x) items xs := by
  induction items generalizing xs with
  | nil => simp [eq_comm]
  | cons item rest ih =>
    simp only [List.mapM_cons, Option.bind_eq_bind, Option.bind_eq_some_iff, Option.pure_def,
      Option.some.injEq, ih, List.forall₂_cons_left_iff]
    constructor
    · rintro ⟨x, here, xs, later, rfl⟩
      exact ⟨x, xs, here, later, rfl⟩
    · rintro ⟨x, xs, here, later, rfl⟩
      exact ⟨x, here, xs, later, rfl⟩

theorem Reads.list {f : Json → Option α} {F : Format α} (reads : Reads f F) :
    Reads (list? f) (IsList F) := by
  have same : (fun item x => f item = some x) = F := by
    funext item x
    exact propext (reads item x)
  intro value xs
  constructor
  · intro h
    cases value with
    | arr items =>
      rw [list?, mapM_eq_some_iff, same] at h
      exact .arr h
    | _ => cases h
  · intro h
    cases h with
    | arr each => rwa [list?, mapM_eq_some_iff, same]

theorem Reads.dict {f : Json → Option α} {F : Format α} (reads : Reads f F) :
    Reads (dict? f) (IsDict F) := by
  have same : (fun (member : String × Json) entry =>
        (f member.2).map (Prod.mk member.1) = some entry) =
      fun member entry => member.1 = entry.1 ∧ F member.2 entry.2 := by
    funext member ⟨name, x⟩
    rw [Option.map_eq_some_iff, ← reads]
    aesop
  intro value d
  constructor
  · intro h
    cases value with
    | obj members =>
      obtain ⟨entries, decoded, rfl⟩ := Option.map_eq_some_iff.mp h
      rw [mapM_eq_some_iff, same] at decoded
      exact .obj decoded
    | _ => cases h
  · intro h
    cases h with
    | obj each =>
      rw [← same, ← mapM_eq_some_iff] at each
      rw [dict?, each]
      rfl

private theorem Reads.nullable {f : Json → Option α} {F : Format α} (reads : Reads f F) :
    Reads (nullable? f) (IsNullable F) := by
  intro value x
  constructor
  · intro h
    unfold nullable? at h
    split at h
    · cases h
      exact .null
    · next present =>
      obtain ⟨y, decoded, rfl⟩ := Option.map_eq_some_iff.mp h
      exact .value present ((reads value y).mp decoded)
  · intro h
    cases h with
    | null => rfl
    | value present h =>
      have decoded := (reads _ _).mpr h
      unfold nullable?
      split
      · exact absurd rfl present
      · rw [decoded, Option.map_some]

theorem IsList.forall_mem {F : Format α} {P : α → Prop} {value : Json} {xs : List α}
    (h : IsList F value xs) (each : ∀ value x, F value x → P x) : ∀ x ∈ xs, P x := by
  cases h with
  | arr items =>
    induction items with
    | nil => exact fun _ member => nomatch member
    | cons here _ ih => exact List.forall_mem_cons.mpr ⟨each _ _ here, ih⟩

private theorem IsNullable.forall_mem {F : Format α} {P : α → Prop} {value : Json} {x : Option α}
    (h : IsNullable F value x) (each : ∀ value x, F value x → P x) : ∀ y ∈ x, P y := by
  cases h with
  | null => exact fun _ member => nomatch member
  | value _ h =>
    intro y member
    cases member
    exact each _ _ h

theorem isList_map {F : Format α} {g : α → Json} {xs : List α} (each : ∀ x ∈ xs, F (g x) x) :
    IsList F (.arr (xs.map g)) xs :=
  .arr (List.forall₂_map_left_iff.mpr (List.forall₂_same.mpr each))

theorem isDict_ofDict {F : Format α} {g : α → Json} (each : ∀ x, F (g x) x) (d : Dict α) :
    IsDict F (.ofDict g d) d := by
  have entries : List.Forall₂ (fun (member : String × Json) (entry : String × α) =>
      member.1 = entry.1 ∧ F member.2 entry.2)
      (d.entries.map fun entry => (entry.1, g entry.2)) d.entries :=
    List.forall₂_map_left_iff.mpr (List.forall₂_same.mpr fun entry _ => ⟨rfl, each entry.2⟩)
  have object := IsDict.obj entries
  rwa [Dict.ofList_entries] at object

theorem isNullable_ofText? (s : Option String) : IsNullable IsText (.ofText? s) s := by
  cases s with
  | none => exact .null
  | some s => exact .value (fun same => nomatch same) rfl

/-- Each of some names stands at most once among the members. -/
def Once (members : List (String × Json)) (names : List String) : Prop :=
  ∀ name ∈ names, (members.map Prod.fst).count name ≤ 1

instance (members : List (String × Json)) (names : List String) : Decidable (Once members names) :=
  inferInstanceAs (Decidable (∀ name ∈ names, (members.map Prod.fst).count name ≤ 1))

/-- A record is an object in which no known name is repeated, or an array of the values of the known
names, in order, of which the last ones may be missing. -/
inductive IsRecord (known : List String) : Json → List (String × Json) → Prop
  | obj {members : List (String × Json)} (once : Once members known) :
    IsRecord known (.obj members) members
  | arr {items : List Json} (fits : items.length ≤ known.length) :
    IsRecord known (.arr items) (known.zip items)

def Required (members : List (String × Json)) (name : String) (F : Format α) (x : α) : Prop :=
  ∃ value, members.lookup name = some value ∧ F value x

def Defaulted (members : List (String × Json)) (name : String) (default : α)
    (F : Format α) (x : α) :
    Prop :=
  match members.lookup name with
  | some value => F value x
  | none => x = default

/-- A member that may be missing or `null`. -/
def Optional (members : List (String × Json)) (name : String) (F : Format α)
    (x : Option α) : Prop :=
  Defaulted members name none (IsNullable F) x

namespace Record

private theorem of?_obj (known : List String) (members : List (String × Json)) :
    of? known (.obj members) = if Once members known then some ⟨members⟩ else none := by
  have counted (name : String) :
      (members.filter (·.1 = name)).length = (members.map Prod.fst).count name := by
    rw [List.count, List.countP_map, List.countP_eq_length_filter]
    rfl
  have known_iff : (known.all fun name => (members.filter (·.1 = name)).length ≤ 1) = true ↔
      Once members known := by
    simp only [Once, List.all_eq_true, decide_eq_true_eq, counted]
  exact if_congr known_iff rfl rfl

theorem of?_eq_some_iff (known : List String) (value : Json) (r : Record) :
    of? known value = some r ↔ IsRecord known value r.members := by
  constructor
  · intro h
    cases value with
    | obj members =>
      rw [of?_obj] at h
      obtain ⟨once, ⟨⟩⟩ := Option.ite_none_right_eq_some.mp h
      exact .obj once
    | arr items =>
      obtain ⟨fits, ⟨⟩⟩ := Option.ite_none_right_eq_some.mp h
      exact .arr fits
    | _ => cases h
  · intro h
    obtain ⟨members⟩ := r
    cases h with
    | obj once => rw [of?_obj, if_pos once]
    | arr fits => exact if_pos fits

variable {f : Json → Option α} {F : Format α}

theorem required?_eq_some_iff (reads : Reads f F) (r : Record) (name : String) (x : α) :
    r.required? name f = some x ↔ Required r.members name F x := by
  simp only [required?, Required, Option.bind_eq_some_iff, reads _ x]

theorem withDefault?_eq_some_iff (reads : Reads f F) (r : Record) (name : String) (default x : α) :
    r.withDefault? name default f = some x ↔ Defaulted r.members name default F x := by
  simp only [withDefault?, Defaulted]
  cases r.members.lookup name with
  | some value => exact reads value x
  | none => rw [Option.some.injEq, eq_comm]

theorem optional?_eq_some_iff (reads : Reads f F) (r : Record) (name : String) (x : Option α) :
    r.optional? name f = some x ↔ Optional r.members name F x :=
  withDefault?_eq_some_iff reads.nullable r name none x

end Record

theorem Required.holds {members : List (String × Json)} {name : String}
    {F : Format α} {P : α → Prop} {x : α} (h : Required members name F x)
    (each : ∀ value x, F value x → P x) : P x := by
  obtain ⟨value, -, h⟩ := h
  exact each value x h

theorem Defaulted.holds {members : List (String × Json)} {name : String}
    {default : α} {F : Format α} {P : α → Prop} {x : α} (h : Defaulted members name default F x)
    (missing : P default)
    (each : ∀ value x, F value x → P x) : P x := by
  unfold Defaulted at h
  split at h
  · exact each _ x h
  · exact h ▸ missing

theorem Optional.forall_mem {members : List (String × Json)} {name : String} {F : Format α}
    {P : α → Prop} {x : Option α} (h : Optional members name F x)
    (each : ∀ value x, F value x → P x) :
    ∀ y ∈ x, P y :=
  h.holds (P := fun x => ∀ y ∈ x, P y) (fun _ member => nomatch member)
    fun _ _ h => h.forall_mem each

theorem readableItems_map {g : α → Json} {xs : List α} (each : ∀ x ∈ xs, (g x).readable = true) :
    readableItems (xs.map g) = true := by
  induction xs with
  | nil => rfl
  | cons x rest ih =>
    obtain ⟨here, later⟩ := List.forall_mem_cons.mp each
    rw [List.map_cons, readableItems, here, ih later]
    rfl

theorem readable_ofDict {g : α → Json} (each : ∀ x, (g x).readable = true) (d : Dict α) :
    (ofDict g d).readable = true := by
  rw [ofDict, readable]
  induction d.entries with
  | nil => rfl
  | cons entry rest ih =>
    rw [List.map_cons, readableMembers, each, ih]
    rfl

end Json

end Dialogue
