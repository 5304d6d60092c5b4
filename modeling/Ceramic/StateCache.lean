import Ceramic.Library.InsertionMap
import Ceramic.Library.LruCache

/-! The cache of running states. What is in its durable bucket is not evicted; what is in the
volatile one may be, when room is needed. -/
namespace Ceramic

/-- `Boolean(value)` for the values of a type. -/
class ToBoolean (α : Type) where
  toBoolean : α → Bool

structure StateCache (κ α : Type) where
  volatile : LruCache κ α
  durable : InsertionMap κ α
  /-- There is no volatile bucket with a limit of 0. -/
  hasRoom : 0 < volatile.capacity

namespace StateCache

/-- A cache with room for at least one volatile item. -/
def new (κ α : Type) (limit : Nat) (positive : 0 < limit) : StateCache κ α :=
  ⟨.empty κ α limit, .empty κ α, positive⟩

section

variable {κ α : Type} [DecidableEq κ] [ToBoolean α] (cache : StateCache κ α) (key : κ) (value : α)

/-- The durable value, where it is one that `||` and `if` accept. -/
def durable? : Option α := (cache.durable.find? key).filter ToBoolean.toBoolean

def get : Option α := cache.durable? key <|> cache.volatile.find? key

/-- The cache after `get`: only the volatile bucket keeps track of what is read. -/
def afterGet : StateCache κ α :=
  match cache.durable? key with
  | some _ => cache
  | none => { cache with
      volatile := cache.volatile.touch key
      hasRoom := by rw [LruCache.capacity_touch]; exact cache.hasRoom }

def set : StateCache κ α where
  volatile := cache.volatile.set key value
  durable := if cache.durable.has key then cache.durable.set key value else cache.durable
  hasRoom := cache.hasRoom

/-- What is passed to `onEvicted` when a value is put in the volatile bucket. -/
def passed : List (κ × α) := (cache.volatile.evicted key value).filter fun entry => ToBoolean.toBoolean entry.2

def evictedBySet : List (κ × α) := cache.passed key value

def delete : StateCache κ α where
  volatile := cache.volatile.delete key
  durable := cache.durable.delete key
  hasRoom := cache.hasRoom

def clear : StateCache κ α := new κ α cache.volatile.capacity cache.hasRoom

def endure : StateCache κ α where
  volatile := cache.volatile.delete key
  durable := cache.durable.set key value
  hasRoom := cache.hasRoom

def free : StateCache κ α :=
  match cache.durable? key with
  | some entry =>
    { volatile := cache.volatile.set key entry
      durable := cache.durable.delete key
      hasRoom := cache.hasRoom }
  | none => cache

def evictedByFree : List (κ × α) :=
  match cache.durable? key with
  | some entry => cache.passed key entry
  | none => []

def entries : List (κ × α) := cache.durable.entries ++ cache.volatile.entries

def keys : List κ := cache.entries.map Prod.fst

end

section

variable {κ α : Type} [DecidableEq κ] {cache : StateCache κ α} {key other : κ} {value : α}

/-- Every item, in either bucket, is as it should be under its key. -/
structure All (cache : StateCache κ α) (Allowed : κ → α → Prop) : Prop where
  volatile : ∀ entry ∈ cache.volatile.entries, Allowed entry.1 entry.2
  durable : ∀ k v, cache.durable.find? k = some v → Allowed k v

namespace All

variable {Allowed : κ → α → Prop}

theorem new (limit : Nat) (positive : 0 < limit) : (StateCache.new κ α limit positive).All Allowed where
  volatile := nofun
  durable := nofun

theorem push (all : cache.All Allowed) (allowed : Allowed key value) (entry : κ × α)
    (member : entry ∈ (cache.volatile.set key value).entries) : Allowed entry.1 entry.2 := by
  rcases LruCache.mem_set member with rfl | old
  · exact allowed
  · exact all.volatile entry old

theorem update (all : cache.All Allowed) (allowed : Allowed key value) (k : κ) (v : α)
    (at_k : (cache.durable.set key value).find? k = some v) : Allowed k v := by
  rw [InsertionMap.find?_set] at at_k
  split at at_k
  next same => exact same ▸ Option.some.inj at_k ▸ allowed
  next => exact all.durable k v at_k

theorem set (all : cache.All Allowed) (allowed : Allowed key value) : (cache.set key value).All Allowed where
  volatile := all.push allowed
  durable := by
    unfold StateCache.set
    dsimp only
    split
    · exact all.update allowed
    · exact all.durable

theorem endure (all : cache.All Allowed) (allowed : Allowed key value) :
    (cache.endure key value).All Allowed where
  volatile entry member := all.volatile entry (List.mem_of_mem_filter member)
  durable := all.update allowed

theorem remove (all : cache.All Allowed) (k : κ) (v : α) (at_k : (cache.durable.delete key).find? k = some v) :
    Allowed k v := by
  rw [InsertionMap.find?_delete] at at_k
  split at at_k
  · cases at_k
  · exact all.durable k v at_k

end All

/-- The item of a key is durable, and the key has no other. -/
structure Endures (cache : StateCache κ α) (key : κ) (value : α) : Prop where
  durable : cache.durable.find? key = some value
  apart : ∀ entry ∈ cache.volatile.entries, entry.1 ≠ key

namespace Endures

theorem begin : (cache.endure key value).Endures key value where
  durable := by simp [StateCache.endure, InsertionMap.find?_set]
  apart _ member := of_decide_eq_true (List.mem_filter.mp member).2

theorem push {new : α} (endures : cache.Endures key value) (isOther : other ≠ key) (entry : κ × α)
    (member : entry ∈ (cache.volatile.set other new).entries) : entry.1 ≠ key := by
  rcases LruCache.mem_set member with rfl | old
  · exact isOther
  · exact endures.apart entry old

theorem update {new : α} (endures : cache.Endures key value) (isOther : other ≠ key) :
    (cache.durable.set other new).find? key = some value := by
  rw [InsertionMap.find?_set, if_neg (Ne.symm isOther)]
  exact endures.durable

theorem set {new : α} (endures : cache.Endures key value) (isOther : other ≠ key) :
    (cache.set other new).Endures key value where
  durable := by
    unfold StateCache.set
    dsimp only
    split
    · exact endures.update isOther
    · exact endures.durable
  apart := endures.push isOther

theorem endure {new : α} (endures : cache.Endures key value) (isOther : other ≠ key) :
    (cache.endure other new).Endures key value where
  durable := endures.update isOther
  apart entry member := endures.apart entry (List.mem_of_mem_filter member)

theorem delete (endures : cache.Endures key value) (isOther : other ≠ key) :
    (cache.delete other).Endures key value where
  durable := by
    unfold StateCache.delete
    dsimp only
    rw [InsertionMap.find?_delete, if_neg (Ne.symm isOther)]
    exact endures.durable
  apart entry member := endures.apart entry (List.mem_of_mem_filter member)

end Endures

variable [ToBoolean α] {Allowed : κ → α → Prop}

theorem get_of_durable (durable : cache.durable.find? key = some value)
    (truthy : ToBoolean.toBoolean value = true) : cache.get key = some value := by
  simp [get, durable?, durable, truthy]

@[simp] theorem get_set_self (truthy : ToBoolean.toBoolean value = true) :
    (cache.set key value).get key = some value := by
  have volatile : (cache.volatile.set key value).find? key = some value :=
    LruCache.find?_set_self cache.hasRoom
  by_cases durable : cache.durable.has key
  · exact get_of_durable (by simp [set, durable, InsertionMap.find?_set]) truthy
  · have absent : cache.durable.find? key = none := by simpa [InsertionMap.has] using durable
    simp [get, durable?, set, durable, absent, volatile]

@[simp] theorem get_endure_self (truthy : ToBoolean.toBoolean value = true) :
    (cache.endure key value).get key = some value :=
  get_of_durable (by simp [endure, InsertionMap.find?_set]) truthy

/-- What is put in the volatile bucket is not itself evicted. -/
theorem ne_of_passed {entry : κ × α} (passed : entry ∈ cache.passed key value) :
    entry.1 ≠ key ∧ entry ∈ cache.volatile.entries :=
  LruCache.mem_evicted cache.hasRoom (List.mem_of_mem_filter passed)

theorem All.free (all : cache.All Allowed) : (cache.free key).All Allowed := by
  unfold StateCache.free
  cases durable : cache.durable? key with
  | none => exact all
  | some value =>
    have found : cache.durable.find? key = some value := (Option.filter_eq_some_iff.mp durable).1
    exact ⟨all.push (all.durable key value found), all.remove⟩

theorem All.afterGet (all : cache.All Allowed) : (cache.afterGet key).All Allowed := by
  unfold StateCache.afterGet
  cases cache.durable? key with
  | some value => exact all
  | none => exact ⟨fun entry member => all.volatile entry (LruCache.mem_touch member), all.durable⟩

theorem Endures.free (endures : cache.Endures key value) (isOther : other ≠ key) :
    (cache.free other).Endures key value := by
  unfold StateCache.free
  cases cache.durable? other with
  | none => exact endures
  | some new => exact ⟨(endures.delete isOther).durable, endures.push isOther⟩

theorem Endures.afterGet (endures : cache.Endures key value) : (cache.afterGet other).Endures key value := by
  unfold StateCache.afterGet
  cases cache.durable? other with
  | some new => exact endures
  | none => exact ⟨endures.durable, fun entry member => endures.apart entry (LruCache.mem_touch member)⟩

end

end StateCache

end Ceramic
