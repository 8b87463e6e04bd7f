/-!
# Maps from names

A finite map from names, kept as a list with one entry at most for a name.
-/

namespace LittleTiny

/-- A map from names to values. -/
structure NameMap (α : Type) where
  entries : List (String × α) := []
  distinct : (entries.map Prod.fst).Nodup := by exact List.nodup_nil
deriving DecidableEq, Repr

namespace NameMap

variable {α : Type}

/-- The value of a name. -/
def get? (m : NameMap α) (name : String) : Option α := m.entries.lookup name

/-- The map with the value for the name, in the place of any that it had. -/
def insert (m : NameMap α) (name : String) (x : α) : NameMap α where
  entries := (name, x) :: m.entries.filter fun entry => entry.1 != name
  distinct := by
    rw [List.map_cons, List.nodup_cons]
    refine ⟨by simp, m.distinct.sublist (List.filter_sublist.map _)⟩

theorem get?_insert (m : NameMap α) (name : String) (x : α) (other : String) :
    (m.insert name x).get? other = if other = name then some x else m.get? other := by
  rw [get?, insert, List.lookup_cons]
  by_cases h : other = name
  · simp [h]
  · have hne : (other == name) = false := by simp [h]
    rw [hne, if_neg h, get?]
    induction m.entries with
    | nil => rfl
    | cons entry entries ih =>
      by_cases hentry : entry.1 = name
      · have hother : (other == entry.1) = false := by simp [hentry, h]
        rw [List.filter_cons_of_neg (by simp [hentry]), List.lookup_cons, hother]
        exact ih
      · rw [List.filter_cons_of_pos (by simp [hentry]), List.lookup_cons, List.lookup_cons]
        cases other == entry.1 with
        | true => rfl
        | false => exact ih

end NameMap

end LittleTiny
