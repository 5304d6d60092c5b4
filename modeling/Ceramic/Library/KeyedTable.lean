import Mathlib.Data.List.Nodup

/-! Tables with a primary key: no two rows have the same key. -/

structure KeyedTable (α : Type) {κ : Type} (key : α → κ) where
  rows : List α
  unique : (rows.map key).Nodup

namespace KeyedTable

variable {α κ : Type} [DecidableEq κ] {key : α → κ}

def empty : KeyedTable α key := ⟨[], List.nodup_nil⟩

def find? (table : KeyedTable α key) (k : κ) : Option α := table.rows.find? fun row => key row = k

def delete (table : KeyedTable α key) (k : κ) : KeyedTable α key where
  rows := table.rows.filter fun row => key row ≠ k
  unique := table.unique.sublist (List.filter_sublist.map key)

/-- The rows with the row of this key replaced, or with one more row. -/
def put (table : KeyedTable α key) (row : α) : KeyedTable α key where
  rows := (table.delete (key row)).rows ++ [row]
  unique := by
    rw [List.map_append, List.map_singleton]
    refine (table.delete (key row)).unique.append (List.nodup_singleton _) ?_
    rintro k inRows inSingle
    obtain ⟨other, member, rfl⟩ := List.mem_map.mp inRows
    rw [List.mem_singleton] at inSingle
    exact absurd inSingle (of_decide_eq_true (List.mem_filter.mp member).2)

/-- `INSERT … ON CONFLICT … MERGE`. -/
def insertOrMerge (table : KeyedTable α key) (row : α) (merge : α → α) : KeyedTable α key :=
  match table.find? (key row) with
  | none => table.put row
  | some old => table.put (merge old)

theorem find?_delete_self (table : KeyedTable α key) (k : κ) : (table.delete k).find? k = none := by
  refine List.find?_eq_none.mpr fun row member => ?_
  have other := (List.mem_filter.mp member).2
  simpa using other

theorem find?_put_self (table : KeyedTable α key) (row : α) : (table.put row).find? (key row) = some row := by
  have none : (table.delete (key row)).rows.find? (fun other => key other = key row) = none :=
    table.find?_delete_self (key row)
  unfold find? put
  rw [List.find?_append, none]
  simp

theorem find?_insertOrMerge_self (table : KeyedTable α key) (row : α) (merge : α → α)
    (keeps : ∀ old, key (merge old) = key row) :
    (table.insertOrMerge row merge).find? (key row) =
      some ((table.find? (key row)).elim row merge) := by
  unfold insertOrMerge
  cases found : table.find? (key row) with
  | none => exact table.find?_put_self row
  | some old =>
    have merged := table.find?_put_self (merge old)
    rw [keeps old] at merged
    exact merged

theorem find?_put_other (table : KeyedTable α key) {row : α} {k : κ} (other : k ≠ key row) :
    (table.put row).find? k = table.find? k := by
  have apart : ((table.delete (key row)).rows.find? fun a => decide (key a = k)) = table.rows.find? fun a => decide (key a = k) := by
    unfold delete
    rw [List.find?_filter]
    congr 1
    funext a
    by_cases same : key a = k <;> simp [same, other]
  unfold find? put
  rw [List.find?_append, apart, List.find?_singleton, if_neg (by simpa using other.symm), Option.or_none]

theorem find?_delete (table : KeyedTable α key) (k other : κ) :
    (table.delete k).find? other = if other = k then none else table.find? other := by
  split
  next same => rw [same, find?_delete_self]
  next apart =>
    unfold find? delete
    rw [List.find?_filter]
    congr 1
    funext a
    by_cases same : key a = other <;> simp [same, apart]

theorem key_of_find? {table : KeyedTable α key} {k : κ} {row : α} (found : table.find? k = some row) : key row = k := by
  simpa using List.find?_some found

theorem find?_insertOrMerge (table : KeyedTable α key) (row : α) (merge : α → α) (keeps : ∀ old, key (merge old) = key old) (k : κ) :
    (table.insertOrMerge row merge).find? k = if k = key row then some ((table.find? k).elim row merge) else table.find? k := by
  unfold insertOrMerge
  split
  next found =>
    split
    next same => rw [same, find?_put_self, found, Option.elim_none]
    next other => exact find?_put_other table other
  next old found =>
    have sameKey : key (merge old) = key row := (keeps old).trans (key_of_find? found)
    split
    next same => rw [same, found, ← sameKey, find?_put_self, Option.elim_some]
    next other => exact find?_put_other table fun same => other (same.trans sameKey)

/-- Rows inserted one after the other, where merging leaves a row of the kind inserted as it is. -/
theorem find?_foldl_insertOrMerge (table : KeyedTable α key) (rows : List α) (merge : α → α) (keeps : ∀ old, key (merge old) = key old)
    (once : ∀ old, merge (merge old) = merge old) (settled : ∀ row ∈ rows, merge row = row) (k : κ) :
    (rows.foldl (fun table row => table.insertOrMerge row merge) table).find? k =
      (rows.find? fun row => decide (key row = k)).elim (table.find? k) fun row => some ((table.find? k).elim row merge) := by
  induction rows generalizing table with
  | nil => rfl
  | cons row rows ih =>
    obtain ⟨here, behind⟩ := List.forall_mem_cons.mp settled
    rw [List.foldl_cons, ih _ behind, find?_insertOrMerge table row merge keeps, List.find?_cons]
    by_cases same : key row = k
    · subst same
      cases rows.find? fun other => decide (key other = key row) with
      | none => simp
      | some other => cases table.find? (key row) <;> simp [here, once]
    · simp [same, Ne.symm same]

section Lists

theorem mem_iff_find? {list : List α} (unique : (list.map key).Nodup) {a : α} :
    a ∈ list ↔ list.find? (fun other => decide (key other = key a)) = some a := by
  constructor
  · intro member
    obtain ⟨found, isFound⟩ := Option.isSome_iff_exists.mp (List.find?_isSome.mpr ⟨a, member, by simp⟩ :
      (list.find? fun other => decide (key other = key a)).isSome)
    have same : key found = key a := by simpa using List.find?_some isFound
    rw [isFound, List.inj_on_of_nodup_map unique (List.mem_of_find?_eq_some isFound) member same]
  · exact List.mem_of_find?_eq_some

/-- Lists without two entries of one key are the same up to order if they have the same entry for each. -/
theorem perm_iff_find? {list other : List α} (unique : (list.map key).Nodup) :
    list.Perm other ↔ (other.map key).Nodup ∧ ∀ k, list.find? (fun a => decide (key a = k)) = other.find? fun a => decide (key a = k) := by
  constructor
  · intro same
    have otherUnique : (other.map key).Nodup := (same.map key).nodup_iff.mp unique
    refine ⟨otherUnique, fun k => Option.ext fun a => ?_⟩
    have found {xs : List α} (nodup : (xs.map key).Nodup) : xs.find? (fun b => decide (key b = k)) = some a ↔ a ∈ xs ∧ key a = k := by
      constructor
      · exact fun isFound => ⟨List.mem_of_find?_eq_some isFound, by simpa using List.find?_some isFound⟩
      · rintro ⟨member, rfl⟩
        exact (mem_iff_find? nodup).mp member
    rw [found unique, found otherUnique, same.mem_iff]
  · rintro ⟨otherUnique, same⟩
    refine (List.perm_ext_iff_of_nodup (List.Nodup.of_map key unique) (List.Nodup.of_map key otherUnique)).mpr fun a => ?_
    rw [mem_iff_find? unique, mem_iff_find? otherUnique, same]

end Lists

end KeyedTable
