import Mathlib.Data.List.Nodup

/-! Maps that list their entries in the order in which the keys came in. A key that is set
again keeps its place. -/

structure InsertionMap (κ α : Type) where
  entries : List (κ × α)
  unique : (entries.map Prod.fst).Nodup

namespace InsertionMap

variable {κ α : Type}

def empty (κ α : Type) : InsertionMap κ α := ⟨[], List.nodup_nil⟩

def keys (map : InsertionMap κ α) : List κ := map.entries.map Prod.fst

variable [DecidableEq κ]

def find? (map : InsertionMap κ α) (key : κ) : Option α :=
  (map.entries.find? fun entry => entry.1 = key).map Prod.snd

def has (map : InsertionMap κ α) (key : κ) : Bool := (map.find? key).isSome

/-- The entry with the value in its place. -/
def replace (key : κ) (value : α) (entry : κ × α) : κ × α :=
  if entry.1 = key then (key, value) else entry

theorem fst_replace (key : κ) (value : α) (entry : κ × α) : (replace key value entry).1 = entry.1 := by
  unfold replace
  split
  · symm; assumption
  · rfl

theorem find?_eq_some_iff {map : InsertionMap κ α} {key : κ} {value : α} :
    map.find? key = some value ↔ (key, value) ∈ map.entries := by
  constructor
  · intro found
    obtain ⟨⟨k, v⟩, located, rfl⟩ := Option.map_eq_some_iff.mp found
    obtain rfl : k = key := by simpa using List.find?_some located
    exact List.mem_of_find?_eq_some located
  · intro member
    obtain ⟨entry, located⟩ : ∃ entry, map.entries.find? (fun entry => decide (entry.1 = key)) = some entry :=
      Option.isSome_iff_exists.mp (List.find?_isSome.mpr ⟨_, member, by simp⟩)
    have same : entry.1 = key := by simpa using List.find?_some located
    have eq := List.inj_on_of_nodup_map map.unique (List.mem_of_find?_eq_some located) member same
    rw [find?, located, eq]
    rfl

theorem mem_keys_iff {map : InsertionMap κ α} {key : κ} :
    key ∈ map.keys ↔ ∃ value, map.find? key = some value := by
  simp only [keys, List.mem_map, find?_eq_some_iff]
  constructor
  · rintro ⟨⟨k, v⟩, member, rfl⟩
    exact ⟨v, member⟩
  · rintro ⟨v, member⟩
    exact ⟨_, member, rfl⟩

theorem find?_eq_none_iff {map : InsertionMap κ α} {key : κ} : map.find? key = none ↔ key ∉ map.keys := by
  rw [mem_keys_iff, Option.eq_none_iff_forall_ne_some, not_exists]

def set (map : InsertionMap κ α) (key : κ) (value : α) : InsertionMap κ α :=
  if present : key ∈ map.keys then
    { entries := map.entries.map (replace key value)
      unique := by
        have same : (map.entries.map (replace key value)).map Prod.fst = map.entries.map Prod.fst := by
          rw [List.map_map]
          exact List.map_congr_left fun entry _ => fst_replace key value entry
        rw [same]
        exact map.unique }
  else
    { entries := map.entries ++ [(key, value)]
      unique := by
        rw [List.map_append, List.map_singleton]
        refine map.unique.append (List.nodup_singleton _) fun k inMap inSingle => ?_
        have same : k = key := List.mem_singleton.mp inSingle
        exact present (same ▸ inMap) }

def delete (map : InsertionMap κ α) (key : κ) : InsertionMap κ α where
  entries := map.entries.filter fun entry => entry.1 ≠ key
  unique := map.unique.sublist (List.filter_sublist.map _)

@[simp] theorem find?_empty (key : κ) : (empty κ α).find? key = none := rfl

theorem mem_set {map : InsertionMap κ α} {key : κ} {value : α} {entry : κ × α} :
    entry ∈ (map.set key value).entries ↔
      entry = (key, value) ∨ (entry ∈ map.entries ∧ entry.1 ≠ key) := by
  unfold set
  split
  next present =>
    constructor
    · intro member
      obtain ⟨old, inMap, rfl⟩ := List.mem_map.mp member
      unfold replace
      split
      next => exact .inl rfl
      next other => exact .inr ⟨inMap, other⟩
    · rintro (rfl | ⟨inMap, other⟩)
      · obtain ⟨old, inMap, same⟩ := List.mem_map.mp present
        exact List.mem_map.mpr ⟨old, inMap, by rw [replace, if_pos same]⟩
      · exact List.mem_map.mpr ⟨entry, inMap, by rw [replace, if_neg other]⟩
  next absent =>
    constructor
    · intro member
      rcases List.mem_append.mp member with inMap | new
      · refine .inr ⟨inMap, ?_⟩
        rintro rfl
        exact absent (List.mem_map_of_mem inMap)
      · exact .inl (List.mem_singleton.mp new)
    · rintro (rfl | ⟨inMap, _⟩)
      · exact List.mem_append_right _ (List.mem_singleton.mpr rfl)
      · exact List.mem_append_left _ inMap

theorem find?_set (map : InsertionMap κ α) (key : κ) (value : α) (k : κ) :
    (map.set key value).find? k = if k = key then some value else map.find? k := by
  apply Option.ext
  intro v
  rw [find?_eq_some_iff, mem_set]
  by_cases same : k = key
  · simp [same, eq_comm]
  · simp [same, find?_eq_some_iff]

theorem find?_delete (map : InsertionMap κ α) (key k : κ) :
    (map.delete key).find? k = if k = key then none else map.find? k := by
  apply Option.ext
  intro v
  rw [find?_eq_some_iff, delete, List.mem_filter]
  by_cases same : k = key
  · simp [same]
  · simp [same, find?_eq_some_iff]

theorem find?_set_self (map : InsertionMap κ α) (key : κ) (value : α) : (map.set key value).find? key = some value := by
  rw [find?_set, if_pos rfl]

def values (map : InsertionMap κ α) : List α := map.entries.map Prod.snd

theorem mem_values_iff {map : InsertionMap κ α} {value : α} :
    value ∈ map.values ↔ ∃ key, map.find? key = some value := by
  simp only [values, List.mem_map, find?_eq_some_iff]
  constructor
  · rintro ⟨⟨key, _⟩, member, rfl⟩
    exact ⟨key, member⟩
  · rintro ⟨key, member⟩
    exact ⟨_, member, rfl⟩

theorem values_set_new {map : InsertionMap κ α} {key : κ} (absent : map.find? key = none) (value : α) :
    (map.set key value).values = map.values ++ [value] := by
  rw [values, set, dif_neg (find?_eq_none_iff.mp absent), List.map_append]
  rfl

/-- The values are what is left and the value that goes. -/
theorem values_delete {map : InsertionMap κ α} {key : κ} {value : α} (found : map.find? key = some value) :
    map.values.Perm (value :: (map.delete key).values) := by
  have gone : map.entries.filter (fun entry => !decide (entry.1 ≠ key)) = [(key, value)] := by
    refine List.perm_singleton.mp ((List.perm_ext_iff_of_nodup ?_ (List.nodup_singleton _)).mpr ?_)
    · exact (List.Nodup.of_map _ map.unique).filter _
    · rintro ⟨k, v⟩
      simp only [List.mem_filter, ← find?_eq_some_iff, List.mem_singleton, Prod.mk.injEq]
      constructor
      · rintro ⟨member, same⟩
        obtain rfl : k = key := by simpa using same
        exact ⟨rfl, Option.some.inj (member.symm.trans found)⟩
      · rintro ⟨rfl, rfl⟩
        exact ⟨found, by simp⟩
  have parts := (List.filter_append_perm (fun entry => decide (entry.1 ≠ key)) map.entries).symm.map Prod.snd
  rw [gone, List.map_append] at parts
  exact parts.trans List.perm_append_comm

end InsertionMap
