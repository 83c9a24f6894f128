/-!
# Ordered tables

A table lists its entries in the order in which their keys were first put. Putting a key again
keeps its place and replaces its value.

* `get?_put`: a look-up after a put finds the value put, and every other key as before.
* `keys_put`: a put leaves the order of the keys and appends a key that is new.
-/

namespace WhereClause

abbrev Table (κ υ : Type) := List (κ × υ)

namespace Table

variable {κ υ : Type} [DecidableEq κ]

def get? (key : κ) : Table κ υ → Option υ
  | [] => none
  | (k, v) :: rest => if k = key then some v else get? key rest

/-- Replaces the value under the key in its place, or appends the entry. -/
def put (key : κ) (value : υ) : Table κ υ → Table κ υ
  | [] => [(key, value)]
  | (k, v) :: rest => if k = key then (k, value) :: rest else (k, v) :: put key value rest

def erase (key : κ) : Table κ υ → Table κ υ
  | [] => []
  | (k, v) :: rest => if k = key then rest else (k, v) :: erase key rest

def putAll (entries : List (κ × υ)) (table : Table κ υ) : Table κ υ :=
  entries.foldl (fun table (key, value) => put key value table) table

def keys (table : Table κ υ) : List κ := table.map Prod.fst

def values (table : Table κ υ) : List υ := table.map Prod.snd

theorem get?_put (key other : κ) (value : υ) (table : Table κ υ) :
    get? other (put key value table) = if key = other then some value else get? other table := by
  induction table with
  | nil => simp [put, get?]
  | cons entry rest ih =>
    obtain ⟨k, v⟩ := entry
    by_cases same : k = key
    · subst same
      by_cases h : k = other <;> simp [put, get?, h]
    · by_cases h : k = other
      · subst h
        simp [put, get?, same, Ne.symm same]
      · simp [put, get?, same, h, ih]

theorem keys_put (key : κ) (value : υ) (table : Table κ υ) :
    keys (put key value table) = if key ∈ keys table then keys table else keys table ++ [key] := by
  induction table with
  | nil => simp [put, keys]
  | cons entry rest ih =>
    obtain ⟨k, v⟩ := entry
    by_cases same : k = key
    · simp [put, keys, same]
    · simp only [keys] at ih
      by_cases member : key ∈ rest.map Prod.fst <;>
        simp [put, keys, same, Ne.symm same, ih, member]

theorem mem_put {key : κ} {value : υ} {table : Table κ υ} {entry : κ × υ}
    (member : entry ∈ put key value table) : entry = (key, value) ∨ entry ∈ table := by
  induction table with
  | nil => simpa [put] using member
  | cons first rest ih =>
    obtain ⟨k, v⟩ := first
    by_cases same : k = key
    · simp only [put, if_pos same, List.mem_cons] at member
      rcases member with rfl | later
      · exact .inl (by rw [same])
      · exact .inr (List.mem_cons_of_mem _ later)
    · simp only [put, if_neg same, List.mem_cons] at member
      rcases member with rfl | later
      · exact .inr List.mem_cons_self
      · exact (ih later).imp_right (List.mem_cons_of_mem _)

theorem get?_of_mem {key : κ} {value : υ} {table : Table κ υ} (nodup : (keys table).Nodup)
    (member : (key, value) ∈ table) : get? key table = some value := by
  induction table with
  | nil => cases member
  | cons entry rest ih =>
    obtain ⟨k, v⟩ := entry
    rw [keys, List.map_cons, List.nodup_cons] at nodup
    rcases List.mem_cons.mp member with same | later
    · cases same
      exact if_pos rfl
    · have other : k ≠ key := by
        intro same
        exact nodup.1 (List.mem_map.mpr ⟨_, later, same.symm⟩)
      rw [get?, if_neg other, ih nodup.2 later]

end Table
end WhereClause
