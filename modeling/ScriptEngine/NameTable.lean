/-!
# Tables over names

A finite map from names. A table lists its entries in no particular order, but never two for the same name.
-/

namespace ScriptEngine

/-- A finite map from names. -/
structure NameTable (α : Type u) where
  entries : List (String × α)
  distinct : (entries.map (·.1)).Nodup
  deriving Repr

namespace NameTable

variable {α : Type u}

/-- The table without entries. -/
def empty : NameTable α where
  entries := []
  distinct := .nil

instance : Inhabited (NameTable α) := ⟨empty⟩

/-- The value at a name. -/
def get? (t : NameTable α) (name : String) : Option α := (t.entries.find? (·.1 = name)).map (·.2)

/-- The name has a value. -/
def contains (t : NameTable α) (name : String) : Bool := (t.get? name).isSome

/-- The table with a value at a name, in place of the one that is there. -/
def insert (t : NameTable α) (name : String) (v : α) : NameTable α where
  entries := (name, v) :: t.entries.filter (·.1 ≠ name)
  distinct := by
    have hothers : ((t.entries.filter (·.1 ≠ name)).map (·.1)).Nodup :=
      t.distinct.sublist (List.filter_sublist.map _)
    refine List.nodup_cons.mpr ⟨fun hname => ?_, hothers⟩
    obtain ⟨e, he, heq⟩ := List.mem_map.mp hname
    exact of_decide_eq_true (List.mem_filter.mp he).2 heq

/-- The names that have a value. -/
def names (t : NameTable α) : List String := t.entries.map (·.1)

/-- How many names have a value. -/
def size (t : NameTable α) : Nat := t.entries.length

@[simp] theorem get?_empty (name : String) : (empty : NameTable α).get? name = none := rfl

theorem contains_eq_false_iff {t : NameTable α} {name : String} : t.contains name = false ↔ t.get? name = none :=
  Option.isSome_eq_false_iff.trans Option.isNone_iff_eq_none

/-- A table answers for the inserted name with its value, and for every other name as before. -/
theorem get?_insert (t : NameTable α) (name other : String) (v : α) :
    (t.insert name v).get? other = if name = other then some v else t.get? other := by
  unfold get? insert
  by_cases hname : name = other
  · simp [hname]
  · have hsame : ∀ e : String × α, (!decide (e.1 = name) && decide (e.1 = other)) = decide (e.1 = other) := by
      intro e
      by_cases he : e.1 = other
      · simp [he, Ne.symm hname]
      · simp [he]
    simp [hname, List.find?_filter, hsame]

/-- The names that have a value are those that are listed. -/
theorem mem_names_iff {t : NameTable α} {name : String} : name ∈ t.names ↔ ∃ v, t.get? name = some v := by
  simp only [names, List.mem_map, get?, Option.map_eq_some_iff]
  constructor
  · rintro ⟨e, he, rfl⟩
    have hsome : (t.entries.find? (·.1 = e.1)).isSome := List.find?_isSome.mpr ⟨e, he, decide_eq_true rfl⟩
    obtain ⟨e', he'⟩ := Option.isSome_iff_exists.mp hsome
    exact ⟨e'.2, e', he', rfl⟩
  · rintro ⟨v, e, he, rfl⟩
    have hname := List.find?_some he
    exact ⟨e, List.mem_of_find?_eq_some he, of_decide_eq_true hname⟩

end NameTable

end ScriptEngine
