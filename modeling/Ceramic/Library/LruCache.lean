import Mathlib.Data.List.Nodup

/-! Caches of bounded size, which give up the entry that was used least recently. -/

/-- The entries from the one used last to the one used least recently. -/
structure LruCache (κ α : Type) where
  capacity : Nat
  entries : List (κ × α)
  unique : (entries.map Prod.fst).Nodup
  bounded : entries.length ≤ capacity

namespace LruCache

variable {κ α : Type} [DecidableEq κ]

def empty (κ α : Type) (capacity : Nat) : LruCache κ α := ⟨capacity, [], List.nodup_nil, Nat.zero_le _⟩

def find? (cache : LruCache κ α) (key : κ) : Option α :=
  (cache.entries.find? fun entry => entry.1 = key).map Prod.snd

def has (cache : LruCache κ α) (key : κ) : Bool := (cache.find? key).isSome

def others (cache : LruCache κ α) (key : κ) : List (κ × α) :=
  cache.entries.filter fun entry => entry.1 ≠ key

def delete (cache : LruCache κ α) (key : κ) : LruCache κ α where
  capacity := cache.capacity
  entries := cache.others key
  unique := cache.unique.sublist (List.filter_sublist.map _)
  bounded := Nat.le_trans (List.length_filter_le _ _) cache.bounded

theorem unique_push (cache : LruCache κ α) (key : κ) (value : α) :
    (((key, value) :: cache.others key).map Prod.fst).Nodup := by
  refine List.nodup_cons.mpr ⟨?_, cache.unique.sublist (List.filter_sublist.map _)⟩
  rintro inOthers
  obtain ⟨entry, member, same⟩ := List.mem_map.mp inOthers
  exact absurd same (of_decide_eq_true (List.mem_filter.mp member).2)

/-- The entry becomes the one used last; the one used least recently goes if there is no room. -/
def set (cache : LruCache κ α) (key : κ) (value : α) : LruCache κ α where
  capacity := cache.capacity
  entries := ((key, value) :: cache.others key).take cache.capacity
  unique := (cache.unique_push key value).sublist ((List.take_sublist _ _).map _)
  bounded := List.length_take_le _ _

/-- What `set` gives up. -/
def evicted (cache : LruCache κ α) (key : κ) (value : α) : List (κ × α) :=
  ((key, value) :: cache.others key).drop cache.capacity

/-- The cache after the entry was read. -/
def touch (cache : LruCache κ α) (key : κ) : LruCache κ α :=
  match cache.find? key with
  | some value => cache.set key value
  | none => cache

@[simp] theorem find?_empty (capacity : Nat) (key : κ) : (empty κ α capacity).find? key = none := rfl

theorem mem_of_find? {cache : LruCache κ α} {key : κ} {value : α} (found : cache.find? key = some value) :
    (key, value) ∈ cache.entries := by
  obtain ⟨⟨k, v⟩, located, rfl⟩ := Option.map_eq_some_iff.mp found
  obtain rfl : k = key := by simpa using List.find?_some located
  exact List.mem_of_find?_eq_some located

theorem find?_of_mem {cache : LruCache κ α} {key : κ} {value : α} (member : (key, value) ∈ cache.entries) :
    cache.find? key = some value := by
  obtain ⟨entry, located⟩ : ∃ entry, cache.entries.find? (fun entry => decide (entry.1 = key)) = some entry :=
    Option.isSome_iff_exists.mp (List.find?_isSome.mpr ⟨_, member, by simp⟩)
  have same : entry.1 = key := by simpa using List.find?_some located
  have eq := List.inj_on_of_nodup_map cache.unique (List.mem_of_find?_eq_some located) member same
  rw [find?, located, eq]
  rfl

theorem mem_set {cache : LruCache κ α} {key : κ} {value : α} {entry : κ × α}
    (member : entry ∈ (cache.set key value).entries) : entry = (key, value) ∨ entry ∈ cache.entries := by
  rcases List.mem_cons.mp (List.mem_of_mem_take member) with isNew | other
  · exact .inl isNew
  · exact .inr (List.mem_of_mem_filter other)

theorem find?_set_self {cache : LruCache κ α} {key : κ} {value : α} (hasRoom : 0 < cache.capacity) :
    (cache.set key value).find? key = some value := by
  obtain ⟨room, eq⟩ := Nat.exists_eq_add_one_of_ne_zero (Nat.ne_of_gt hasRoom)
  simp [find?, set, eq]

theorem find?_delete_self (cache : LruCache κ α) (key : κ) : (cache.delete key).find? key = none := by
  have none : (cache.others key).find? (fun entry => entry.1 = key) = none :=
    List.find?_eq_none.mpr fun entry member => by simpa using (List.mem_filter.mp member).2
  rw [find?, delete, none]
  rfl

/-- What gets a place in a cache with room is not given up at once. -/
theorem mem_evicted {cache : LruCache κ α} {key : κ} {value : α} {entry : κ × α}
    (hasRoom : 0 < cache.capacity) (member : entry ∈ cache.evicted key value) :
    entry.1 ≠ key ∧ entry ∈ cache.entries := by
  obtain ⟨room, eq⟩ := Nat.exists_eq_add_one_of_ne_zero (Nat.ne_of_gt hasRoom)
  unfold evicted at member
  rw [eq, List.drop_succ_cons] at member
  obtain ⟨old, isOther⟩ := List.mem_filter.mp (List.mem_of_mem_drop member)
  exact ⟨of_decide_eq_true isOther, old⟩

@[simp] theorem capacity_touch (cache : LruCache κ α) (key : κ) :
    (cache.touch key).capacity = cache.capacity := by
  unfold touch
  split <;> rfl

theorem mem_touch {cache : LruCache κ α} {key : κ} {entry : κ × α}
    (member : entry ∈ (cache.touch key).entries) : entry ∈ cache.entries := by
  unfold touch at member
  split at member
  next value found =>
    rcases mem_set member with rfl | old
    · exact mem_of_find? found
    · exact old
  next => exact member

section

variable {ε : Type}

/-- Values are kept together with the absence of one, and an absent one is asked for again. -/
def getOrAsk (cache : LruCache κ (Option α)) (key : κ) (reply : Except ε (Option α)) :
    Except ε (Option α) × LruCache κ (Option α) :=
  match cache.find? key, reply with
  | some (some value), _ => (.ok (some value), cache.touch key)
  | _, .error e => (.error e, cache.touch key)
  | _, .ok value => (.ok value, (cache.touch key).set key value)

variable {cache : LruCache κ (Option α)} {key : κ} {reply : Except ε (Option α)}

/-- What is given out was kept before or is the reply. -/
theorem getOrAsk_eq_ok {value : α} (given : (cache.getOrAsk key reply).1 = .ok (some value)) :
    (cache.find? key).join = some value ∨ (cache.find? key).join = none ∧ reply = .ok (some value) := by
  unfold getOrAsk at given
  split at given
  next kept =>
    obtain rfl := Option.some.inj (Except.ok.inj given)
    exact .inl (congrArg Option.join kept)
  next => cases given
  next absent =>
    obtain rfl := Except.ok.inj given
    refine .inr ⟨Option.eq_none_iff_forall_ne_some.mpr fun old found => ?_, rfl⟩
    exact absurd (Option.join_eq_some_iff.mp found) (absent old)

theorem mem_getOrAsk {entry : κ × Option α} (member : entry ∈ (cache.getOrAsk key reply).2.entries) :
    entry ∈ cache.entries ∨ entry.1 = key ∧ reply = .ok entry.2 := by
  unfold getOrAsk at member
  split at member
  next => exact .inl (mem_touch member)
  next => exact .inl (mem_touch member)
  next =>
    rcases mem_set member with rfl | old
    · exact .inr ⟨rfl, rfl⟩
    · exact .inl (mem_touch old)

end

end LruCache
