/-!
Dictionaries with text keys, kept in strictly increasing key order. A key holds one value; writing
to a key that is present replaces its value. Two dictionaries are equal when their entry lists are.
-/

set_option autoImplicit false
set_option relaxedAutoImplicit false

namespace Dialogue

/-- A finite map from texts, listed in strictly increasing order of its keys. -/
@[ext]
structure Dict (α : Type) where
  entries : List (String × α)
  increasing : entries.Pairwise (fun a b => a.1 < b.1)

namespace Dict

variable {α β : Type}

/-- Put a value under a key of an ordered entry list, in place of the value already there. -/
def place (key : String) (value : α) : List (String × α) → List (String × α)
  | [] => [(key, value)]
  | (k, v) :: rest =>
    if key < k then (key, value) :: (k, v) :: rest
    else if key = k then (key, value) :: rest
    else (k, v) :: place key value rest

theorem mem_place {key : String} {value : α} {entry : String × α} :
    ∀ {entries : List (String × α)}, entry ∈ place key value entries →
      entry = (key, value) ∨ entry ∈ entries
  | [], h => by simpa [place] using h
  | (k, v) :: rest, h => by
    unfold place at h
    split at h
    · simpa using h
    · split at h
      · rcases List.mem_cons.mp h with h | h
        · exact .inl h
        · exact .inr (List.mem_cons_of_mem _ h)
      · rcases List.mem_cons.mp h with h | h
        · exact .inr (h ▸ List.mem_cons_self)
        · rcases mem_place h with h | h
          · exact .inl h
          · exact .inr (List.mem_cons_of_mem _ h)

theorem increasing_place (key : String) (value : α) :
    ∀ (entries : List (String × α)), entries.Pairwise (fun a b => a.1 < b.1) →
      (place key value entries).Pairwise (fun a b => a.1 < b.1)
  | [], _ => by simp [place]
  | (k, v) :: rest, h => by
    obtain ⟨first, later⟩ := List.pairwise_cons.mp h
    unfold place
    split
    · next before =>
      refine List.pairwise_cons.mpr ⟨fun entry member => ?_, h⟩
      rcases List.mem_cons.mp member with rfl | member
      · exact before
      · exact String.lt_trans before (first entry member)
    · next notBefore =>
      split
      · next same =>
        subst same
        exact List.pairwise_cons.mpr ⟨first, later⟩
      · next different =>
        have after : k < key := by
          refine String.not_le.mp fun le => different ?_
          exact String.le_antisymm le (String.not_lt.mp notBefore)
        refine List.pairwise_cons.mpr ⟨fun entry member => ?_,
          increasing_place key value rest later⟩
        rcases mem_place member with rfl | member
        · exact after
        · exact first entry member

def empty : Dict α := ⟨[], .nil⟩

instance : EmptyCollection (Dict α) := ⟨empty⟩

instance : Inhabited (Dict α) := ⟨empty⟩

instance [DecidableEq α] : DecidableEq (Dict α) := fun a b =>
  decidable_of_iff (a.entries = b.entries) Dict.ext_iff.symm

def insert (d : Dict α) (key : String) (value : α) : Dict α :=
  ⟨place key value d.entries, increasing_place key value d.entries d.increasing⟩

def get? (d : Dict α) (key : String) : Option α :=
  d.entries.lookup key

def contains (d : Dict α) (key : String) : Bool :=
  (d.get? key).isSome

def isEmpty (d : Dict α) : Bool :=
  d.entries.isEmpty

def values (d : Dict α) : List α :=
  d.entries.map Prod.snd

/-- The dictionary of a list of pairs, a later pair winning over an earlier one of the same key. -/
def ofList (pairs : List (String × α)) : Dict α :=
  pairs.foldl (fun d pair => d.insert pair.1 pair.2) empty

/-- The dictionary with the same keys and every value changed. -/
def map (f : α → β) (d : Dict α) : Dict β :=
  ⟨d.entries.map fun entry => (entry.1, f entry.2), by
    rw [List.pairwise_map]
    exact d.increasing⟩

end Dict

end Dialogue
