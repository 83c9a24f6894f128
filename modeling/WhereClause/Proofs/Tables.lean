import Mathlib.Data.List.Nodup
import WhereClause.Table

/-!
# Puts, look-ups and removals

What a table holds and lists after many entries are put one after the other, and after an entry is
taken out.

* `get?_putAll`, `keys_putAll`: entries with different keys stand over what was there, and those
  with new keys come last.
* `perm_put`: a put takes the old entry out and adds the new one.
-/

namespace WhereClause.Table

variable {κ υ : Type} [DecidableEq κ] {key : κ} {value : υ} {table : Table κ υ} {entry : κ × υ}

/-! ## Look-ups -/

theorem mem_of_get? (found : get? key table = some value) : (key, value) ∈ table := by
  induction table with
  | nil => cases found
  | cons entry rest ih =>
      obtain ⟨k, v⟩ := entry
      rw [get?] at found
      split at found
      · rename_i same
        cases found
        exact same ▸ List.mem_cons_self
      · exact List.mem_cons_of_mem _ (ih found)

theorem get?_eq_none_iff : get? key table = none ↔ key ∉ keys table := by
  induction table with
  | nil => simp [get?, keys]
  | cons entry rest ih =>
      obtain ⟨k, v⟩ := entry
      rw [get?, keys, List.map_cons, List.mem_cons, not_or, ← keys, ← ih]
      split
      · rename_i same
        simp [same]
      · rename_i other
        simp [Ne.symm other]

theorem get?_map {υ' : Type} (f : υ → υ') (key : κ) (table : Table κ υ) :
    get? key (table.map (Prod.map id f)) = (get? key table).map f := by
  induction table with
  | nil => rfl
  | cons entry rest ih =>
      obtain ⟨k, v⟩ := entry
      rw [List.map_cons, Prod.map_apply, id_eq, get?, get?, ih]
      split <;> rfl

/-! ## One put -/

theorem put_of_not_mem (new : key ∉ keys table) : put key value table = table ++ [(key, value)] := by
  induction table with
  | nil => rfl
  | cons entry rest ih =>
      obtain ⟨k, v⟩ := entry
      have other : key ≠ k := List.ne_of_not_mem_cons new
      rw [put, if_neg other.symm, ih (List.not_mem_of_not_mem_cons new), List.cons_append]

theorem nodup_put (nodup : (keys table).Nodup) : (keys (put key value table)).Nodup := by
  rw [keys_put]
  split
  · exact nodup
  · rename_i new
    rw [List.nodup_append]
    refine ⟨nodup, List.nodup_singleton key, ?_⟩
    intro other known same here
    rw [List.mem_singleton.mp here]
    rintro rfl
    exact new known

theorem mem_keys_put {other : κ} (member : other ∈ keys (put key value table)) :
    other = key ∨ other ∈ keys table := by
  rw [keys_put] at member
  split at member
  · exact .inr member
  · simpa [or_comm] using member

theorem mem_keys_of_put {other : κ} (member : other = key ∨ other ∈ keys table) :
    other ∈ keys (put key value table) := by
  rw [keys_put]
  split
  · rename_i known
    exact member.elim (fun same => same ▸ known) id
  · simpa [or_comm] using member

theorem mem_put_self : (key, value) ∈ put key value table :=
  mem_of_get? (by rw [get?_put, if_pos rfl])

theorem mem_put_of_ne (different : entry.1 ≠ key) (member : entry ∈ table) :
    entry ∈ put key value table := by
  induction table with
  | nil => cases member
  | cons first rest ih =>
      obtain ⟨k, v⟩ := first
      rw [put]
      split
      · rename_i same
        rcases List.mem_cons.mp member with rfl | later
        · exact absurd same different
        · exact List.mem_cons_of_mem _ later
      · rcases List.mem_cons.mp member with rfl | later
        · exact List.mem_cons_self
        · exact List.mem_cons_of_mem _ (ih later)

theorem put_map {κ' υ' : Type} [DecidableEq κ'] {f : κ → κ'} {g : υ → υ'} (key : κ) (value : υ)
    {table : Table κ υ} (inj : ∀ k ∈ keys table, f k = f key → k = key) :
    put (f key) (g value) (table.map (Prod.map f g)) =
      (put key value table).map (Prod.map f g) := by
  induction table with
  | nil => rfl
  | cons entry rest ih =>
      obtain ⟨k, v⟩ := entry
      obtain ⟨here, later⟩ := List.forall_mem_cons.mp inj
      simp only [List.map_cons, Prod.map_apply, put]
      by_cases same : k = key
      · rw [if_pos same, if_pos (congrArg f same), List.map_cons, Prod.map_apply]
      · rw [if_neg same, if_neg fun equal => same (here equal), ih later, List.map_cons,
          Prod.map_apply]

/-! ## Many puts -/

variable {entries : List (κ × υ)}

theorem nodup_putAll (nodup : (keys table).Nodup) : (keys (putAll entries table)).Nodup := by
  induction entries generalizing table with
  | nil => exact nodup
  | cons entry rest ih => exact ih (nodup_put nodup)

theorem mem_keys_putAll (member : key ∈ keys entries ∨ key ∈ keys table) :
    key ∈ keys (putAll entries table) := by
  induction entries generalizing table with
  | nil => exact member.resolve_left nofun
  | cons entry rest ih =>
      apply ih
      rcases member with given | known
      · rcases List.mem_cons.mp given with here | later
        · exact .inr (mem_keys_of_put (.inl here))
        · exact .inl later
      · exact .inr (mem_keys_of_put (.inr known))

theorem mem_putAll (member : entry ∈ putAll entries table) : entry ∈ entries ∨ entry ∈ table := by
  induction entries generalizing table with
  | nil => exact .inr member
  | cons first rest ih =>
      rcases ih member with later | before
      · exact .inl (List.mem_cons_of_mem _ later)
      · rcases mem_put before with rfl | known
        · exact .inl List.mem_cons_self
        · exact .inr known

theorem exists_get?_putAll (member : key ∈ keys entries) :
    ∃ value, get? key (putAll entries []) = some value ∧ (key, value) ∈ entries := by
  have known : key ∈ keys (putAll entries []) := mem_keys_putAll (.inl member)
  obtain ⟨⟨_, value⟩, inside, rfl⟩ := List.mem_map.mp known
  refine ⟨value, get?_of_mem (nodup_putAll .nil) inside, ?_⟩
  exact (mem_putAll inside).resolve_right nofun

/-- Of entries with different keys, each stands over what was there. -/
theorem get?_putAll (nodup : (keys entries).Nodup) (key : κ) (table : Table κ υ) :
    get? key (putAll entries table) = (get? key entries).or (get? key table) := by
  induction entries generalizing table with
  | nil => rfl
  | cons entry rest ih =>
      obtain ⟨k, v⟩ := entry
      rw [keys, List.map_cons, List.nodup_cons] at nodup
      show get? key (putAll rest (put k v table)) = _
      rw [ih nodup.2, get?_put, get?]
      by_cases same : k = key
      · subst same
        rw [get?_eq_none_iff.mpr nodup.1, if_pos rfl, if_pos rfl, Option.none_or, Option.some_or]
      · rw [if_neg same, if_neg same]

theorem keys_putAll (nodup : (keys entries).Nodup) (table : Table κ υ) :
    keys (putAll entries table) =
      keys table ++ (keys entries).filter (fun key => key ∉ keys table) := by
  induction entries generalizing table with
  | nil => exact (List.append_nil _).symm
  | cons entry rest ih =>
      obtain ⟨k, v⟩ := entry
      rw [keys, List.map_cons, List.nodup_cons] at nodup
      show keys (putAll rest (put k v table)) = _
      rw [ih nodup.2, keys_put, keys.eq_1 (_ :: rest), List.map_cons, List.filter_cons]
      by_cases known : k ∈ keys table
      · simp only [known, if_true, not_true_eq_false, decide_false, Bool.false_eq_true, if_false]
        rfl
      · simp only [known, if_false, not_false_eq_true, decide_true, if_true, List.append_assoc,
          List.singleton_append]
        have later : (keys rest).filter (fun key => key ∉ keys table ++ [k]) =
            (keys rest).filter (fun key => key ∉ keys table) := by
          apply List.filter_congr
          intro other member
          have different : other ≠ k := fun same => nodup.1 (same ▸ member)
          simp [different]
        rw [later]
        rfl

theorem putAll_of_nodup (table : Table κ υ) (nodup : (keys (table ++ entries)).Nodup) :
    putAll entries table = table ++ entries := by
  induction entries generalizing table with
  | nil => rw [List.append_nil]; rfl
  | cons entry rest ih =>
      obtain ⟨key, value⟩ := entry
      have new : key ∉ keys table := by
        rw [keys, List.map_append, List.nodup_append] at nodup
        intro member
        exact nodup.2.2 key member key List.mem_cons_self rfl
      have whole : table ++ (key, value) :: rest = put key value table ++ rest := by
        rw [put_of_not_mem new, List.append_assoc, List.singleton_append]
      rw [whole] at nodup ⊢
      exact ih _ nodup

/-- If all entries have one key, the last of them is left. -/
theorem putAll_of_same (same : ∀ entry ∈ entries, entry.1 = key) :
    putAll entries [] = entries.getLast?.toList := by
  have go (first : κ × υ) (rest : List (κ × υ)) (one : ∀ entry ∈ first :: rest, entry.1 = key) :
      putAll rest [first] = (first :: rest).getLast?.toList := by
    induction rest generalizing first with
    | nil => rfl
    | cons second rest ih =>
        obtain ⟨here, later⟩ := List.forall_mem_cons.mp one
        have put_eq : put second.1 second.2 [first] = [second] := by
          rw [put, if_pos (here.trans (later second List.mem_cons_self).symm), here,
            ← later second List.mem_cons_self]
        rw [List.getLast?_cons_cons, ← ih second later]
        show putAll rest (put second.1 second.2 [first]) = _
        rw [put_eq]
  cases entries with
  | nil => rfl
  | cons first rest => exact go first rest same

theorem mem_putAll_of_notMem (other : entry.1 ∉ keys entries) (member : entry ∈ table) :
    entry ∈ putAll entries table := by
  induction entries generalizing table with
  | nil => exact member
  | cons first rest ih =>
      rw [keys, List.map_cons, List.mem_cons, not_or] at other
      exact ih other.2 (mem_put_of_ne other.1 member)

/-- Of entries with different keys, all are there in the end. -/
theorem mem_putAll_of_nodup (nodup : (keys entries).Nodup) (member : entry ∈ entries) :
    entry ∈ putAll entries table := by
  induction entries generalizing table with
  | nil => cases member
  | cons first rest ih =>
      rw [keys, List.map_cons, List.nodup_cons] at nodup
      rw [putAll, List.foldl_cons]
      rcases List.mem_cons.mp member with rfl | later
      · exact mem_putAll_of_notMem nodup.1 mem_put_self
      · exact ih nodup.2 later

theorem putAll_map {κ' υ' : Type} [DecidableEq κ'] {p : κ → Prop} {f : κ → κ'} {g : υ → υ'}
    (inj : ∀ k l, p k → p l → f k = f l → k = l) {entries : List (κ × υ)}
    (each : ∀ entry ∈ entries, p entry.1) (table : Table κ υ) (before : ∀ key ∈ keys table, p key) :
    putAll (entries.map (Prod.map f g)) (table.map (Prod.map f g)) =
      (putAll entries table).map (Prod.map f g) := by
  induction entries generalizing table with
  | nil => rfl
  | cons entry rest ih =>
      obtain ⟨key, value⟩ := entry
      obtain ⟨here, later⟩ := List.forall_mem_cons.mp each
      simp only [List.map_cons, putAll, List.foldl_cons, Prod.map_apply]
      rw [put_map key value fun k member same => inj k key (before k member) here same]
      refine ih later _ fun k member => ?_
      rcases mem_keys_put member with rfl | known
      · exact here
      · exact before k known

/-! ## Removals -/

theorem perm_of_get? (found : get? key table = some value) :
    table.Perm ((key, value) :: erase key table) := by
  induction table with
  | nil => cases found
  | cons entry rest ih =>
      obtain ⟨k, v⟩ := entry
      by_cases same : k = key
      · rw [get?, if_pos same] at found
        cases found
        rw [erase, if_pos same, same]
      · rw [get?, if_neg same] at found
        rw [erase, if_neg same]
        exact ((ih found).cons _).trans (.swap ..)

theorem perm_put : (put key value table).Perm ((key, value) :: erase key table) := by
  induction table with
  | nil => exact .refl _
  | cons entry rest ih =>
      obtain ⟨k, v⟩ := entry
      by_cases same : k = key
      · rw [put, if_pos same, erase, if_pos same, same]
      · rw [put, if_neg same, erase, if_neg same]
        exact (ih.cons _).trans (.swap ..)

theorem sublist_erase : (erase key table).Sublist table := by
  induction table with
  | nil => exact .refl _
  | cons entry rest ih =>
      obtain ⟨k, v⟩ := entry
      rw [erase]
      split
      · exact List.sublist_cons_self ..
      · exact ih.cons_cons _

theorem mem_of_mem_erase (member : entry ∈ erase key table) : entry ∈ table :=
  sublist_erase.subset member

theorem mem_erase_of_ne (member : entry ∈ table) (other : entry.1 ≠ key) :
    entry ∈ erase key table := by
  induction table with
  | nil => cases member
  | cons first rest ih =>
      rw [erase]
      rcases List.mem_cons.mp member with rfl | later
      · rw [if_neg other]
        exact List.mem_cons_self
      · split
        · exact later
        · exact List.mem_cons_of_mem _ (ih later)

theorem erase_put : erase key (put key value table) = erase key table := by
  induction table with
  | nil => simp [put, erase]
  | cons entry rest ih =>
      obtain ⟨k, v⟩ := entry
      by_cases same : k = key <;> simp [put, erase, same, ih]

theorem erase_of_get?_none (unknown : get? key table = none) : erase key table = table := by
  induction table with
  | nil => rfl
  | cons entry rest ih =>
      obtain ⟨k, v⟩ := entry
      rw [get?] at unknown
      split at unknown
      · cases unknown
      · rename_i different
        rw [erase, if_neg different, ih unknown]

theorem get?_erase {other : κ} (different : key ≠ other) :
    get? other (erase key table) = get? other table := by
  induction table with
  | nil => rfl
  | cons entry rest ih =>
      obtain ⟨k, v⟩ := entry
      by_cases same : k = key
      · rw [erase, if_pos same, get?, if_neg (same ▸ different)]
      · rw [erase, if_neg same, get?, get?, ih]

end WhereClause.Table
