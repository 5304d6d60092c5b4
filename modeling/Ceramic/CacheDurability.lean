import Ceramic.StateCache
import Ceramic.Library.Transition

/-! Whether what was endured stays in the cache. `endure` takes a key out of the volatile bucket,
but `set` puts it there again, so a durable value can still be evicted. -/
namespace Ceramic

inductive CacheOperation (κ α : Type) where
  | get (key : κ)
  | set (key : κ) (value : α)
  | endure (key : κ) (value : α)
  | free (key : κ)
  | delete (key : κ)
  | clear
  deriving DecidableEq

structure CacheRun (κ α : Type) where
  cache : StateCache κ α
  /-- The last value of each key that was endured and not freed, deleted or cleared since. -/
  endured : κ → Option α
  /-- What the last operation passed to `onEvicted`. -/
  evicted : List α

namespace CacheRun

variable {κ α : Type} [DecidableEq κ] [ToBoolean α]

def start (κ α : Type) (limit : Nat) (positive : 0 < limit) : CacheRun κ α :=
  ⟨.new κ α limit positive, fun _ => none, []⟩

def step (r : CacheRun κ α) : CacheOperation κ α → CacheRun κ α
  | .get key => { r with cache := r.cache.afterGet key, evicted := [] }
  | .set key value =>
    { cache := r.cache.set key value
      endured := if (r.endured key).isSome then Function.update r.endured key (some value) else r.endured
      evicted := (r.cache.evictedBySet key value).map Prod.snd }
  | .endure key value =>
    { cache := r.cache.endure key value
      endured := Function.update r.endured key (some value)
      evicted := [] }
  | .free key =>
    { cache := r.cache.free key
      endured := Function.update r.endured key none
      evicted := (r.cache.evictedByFree key).map Prod.snd }
  | .delete key =>
    { cache := r.cache.delete key
      endured := Function.update r.endured key none
      evicted := [] }
  | .clear => { cache := r.cache.clear, endured := fun _ => none, evicted := [] }

/-- What was endured is retrievable and not evicted, and no key is listed twice. -/
structure Durable (r : CacheRun κ α) : Prop where
  retrievable : ∀ key value, r.endured key = some value → r.cache.get key = some value
  notEvicted : ∀ key value, r.endured key = some value → value ∉ r.evicted
  once : ∀ key, (r.cache.durable.has key ∨ r.cache.volatile.has key) → r.cache.keys.count key = 1

/-- The volatile item that makes room is not also a durable one under another key. -/
def Spares (r : CacheRun κ α) (key : κ) (evicted : List (κ × α)) : Prop :=
  ∀ entry ∈ evicted, ∀ durable ∈ r.cache.durable.entries, durable.1 ≠ key → durable.2 ≠ entry.2

/-- Only what is not durable is set, and only a value that `||` takes is endured. -/
def MayTake (r : CacheRun κ α) : CacheOperation κ α → Prop
  | .set key value => r.cache.durable.has key = false ∧ r.Spares key (r.cache.evictedBySet key value)
  | .endure _ value => ToBoolean.toBoolean value = true
  | .free key => r.Spares key (r.cache.evictedByFree key)
  | _ => True

instance [DecidableEq α] (r : CacheRun κ α) (key : κ) (evicted : List (κ × α)) : Decidable (r.Spares key evicted) :=
  inferInstanceAs (Decidable (∀ entry ∈ evicted, ∀ durable ∈ r.cache.durable.entries,
    durable.1 ≠ key → durable.2 ≠ entry.2))

instance [DecidableEq α] (r : CacheRun κ α) : (operation : CacheOperation κ α) → Decidable (r.MayTake operation)
  | .set key value => inferInstanceAs (Decidable (_ = false ∧ r.Spares key (r.cache.evictedBySet key value)))
  | .endure _ value => inferInstanceAs (Decidable (ToBoolean.toBoolean value = true))
  | .free key => inferInstanceAs (Decidable (r.Spares key (r.cache.evictedByFree key)))
  | .get _ | .delete _ | .clear => inferInstanceAs (Decidable True)

/-- The durable bucket has what was endured, and the volatile one has other keys. -/
structure Apart (r : CacheRun κ α) : Prop where
  durable : ∀ key, r.cache.durable.find? key = r.endured key
  truthy : ∀ key value, r.endured key = some value → ToBoolean.toBoolean value = true
  apart : ∀ entry ∈ r.cache.volatile.entries, r.endured entry.1 = none

theorem start_apart (limit : Nat) (positive : 0 < limit) : (start κ α limit positive).Apart where
  durable _ := rfl
  truthy := nofun
  apart := nofun

section

variable {r : CacheRun κ α} {key : κ} {value : α}

theorem Apart.absent (apart : r.Apart) (notDurable : r.cache.durable.has key = false) : r.endured key = none := by
  rw [← apart.durable]
  simpa [InsertionMap.has] using notDurable

theorem Apart.durable? (apart : r.Apart) (key : κ) : r.cache.durable? key = r.endured key := by
  rw [StateCache.durable?, apart.durable]
  cases endured : r.endured key with
  | none => rfl
  | some value => simp [apart.truthy key value endured]

theorem Apart.afterGet (apart : r.Apart) : (r.step (.get key)).Apart := by
  refine ⟨fun other => ?_, apart.truthy, fun entry member => apart.apart entry ?_⟩
  · simp only [step, StateCache.afterGet, ← apart.durable]
    split <;> rfl
  · simp only [step, StateCache.afterGet] at member
    split at member
    · exact member
    · exact LruCache.mem_touch member

theorem Apart.set (apart : r.Apart) (notDurable : r.cache.durable.has key = false) :
    (r.step (.set key value)).Apart := by
  have absent := apart.absent notDurable
  have same : (r.step (.set key value)).endured = r.endured := by simp [step, absent]
  constructor
  · intro other
    rw [same, ← apart.durable]
    simp [step, StateCache.set, notDurable]
  · rw [same]
    exact apart.truthy
  · intro entry member
    rw [same]
    rcases LruCache.mem_set member with rfl | old
    · exact absent
    · exact apart.apart entry old

theorem Apart.endure (apart : r.Apart) (truthy : ToBoolean.toBoolean value = true) :
    (r.step (.endure key value)).Apart := by
  constructor
  · intro other
    simp only [step, StateCache.endure, InsertionMap.find?_set, Function.update_apply, apart.durable]
  · intro other v endured
    simp only [step, Function.update_apply] at endured
    split at endured
    · exact Option.some.inj endured ▸ truthy
    · exact apart.truthy other v endured
  · intro entry member
    obtain ⟨old, isOther⟩ := List.mem_filter.mp member
    simp only [step, Function.update_apply, if_neg (of_decide_eq_true isOther)]
    exact apart.apart entry old

/-- Without one of its keys, the durable bucket is apart from the volatile one still. -/
theorem Apart.forget {volatile : LruCache κ α} {hasRoom : 0 < volatile.capacity} {evicted : List α}
    (apart : r.Apart) (others : ∀ entry ∈ volatile.entries, entry.1 ≠ key → entry ∈ r.cache.volatile.entries) :
    Apart ⟨⟨volatile, r.cache.durable.delete key, hasRoom⟩, Function.update r.endured key none, evicted⟩ := by
  constructor
  · intro other
    simp only [InsertionMap.find?_delete, Function.update_apply, apart.durable]
  · intro other v endured
    simp only [Function.update_apply] at endured
    split at endured
    · cases endured
    · exact apart.truthy other v endured
  · intro entry member
    simp only [Function.update_apply]
    split
    next => rfl
    next isOther => exact apart.apart entry (others entry member isOther)

theorem Apart.free (apart : r.Apart) : (r.step (.free key)).Apart := by
  simp only [step, StateCache.free, StateCache.evictedByFree]
  cases durable : r.cache.durable? key with
  | none =>
    have absent : r.endured key = none := by rw [← apart.durable?, durable]
    have same : Function.update r.endured key none = r.endured := by
      rw [← absent]
      exact Function.update_eq_self key r.endured
    rw [same]
    exact ⟨apart.durable, apart.truthy, apart.apart⟩
  | some value =>
    refine apart.forget fun entry member isOther => ?_
    rcases LruCache.mem_set member with rfl | old
    · exact absurd rfl isOther
    · exact old

theorem Apart.step {operation : CacheOperation κ α} (apart : r.Apart) (may : r.MayTake operation) :
    (r.step operation).Apart := by
  cases operation with
  | get key => exact apart.afterGet
  | set key value => exact apart.set may.1
  | endure key value => exact apart.endure may
  | free key => exact apart.free
  | delete key => exact apart.forget fun entry member _ => List.mem_of_mem_filter member
  | clear => exact ⟨fun _ => rfl, nofun, nofun⟩

/-- A key is in one bucket only, and there once. -/
theorem Apart.once (apart : r.Apart) (key : κ)
    (present : r.cache.durable.has key ∨ r.cache.volatile.has key) : r.cache.keys.count key = 1 := by
  have nodup : r.cache.keys.Nodup := by
    rw [StateCache.keys, StateCache.entries, List.map_append]
    refine r.cache.durable.unique.append r.cache.volatile.unique fun k inDurable inVolatile => ?_
    obtain ⟨value, durable⟩ := InsertionMap.mem_keys_iff.mp inDurable
    obtain ⟨entry, member, rfl⟩ := List.mem_map.mp inVolatile
    rw [apart.durable, apart.apart entry member] at durable
    cases durable
  refine List.count_eq_one_of_mem nodup ?_
  rw [StateCache.keys, StateCache.entries, List.map_append, List.mem_append]
  rcases present with durable | volatile
  · exact .inl (InsertionMap.mem_keys_iff.mpr (Option.isSome_iff_exists.mp durable))
  · obtain ⟨value, found⟩ := Option.isSome_iff_exists.mp volatile
    exact .inr (List.mem_map_of_mem (LruCache.mem_of_find? found))

theorem Apart.retrievable (apart : r.Apart) (key : κ) (value : α) (endured : r.endured key = some value) :
    r.cache.get key = some value := by
  rw [StateCache.get, apart.durable?, endured]
  rfl

theorem Apart.notEvicted {evicted : List (κ × α)} (apart : r.Apart) (spares : r.Spares key evicted)
    {other : κ} (isOther : other ≠ key) (endured : r.endured other = some value) :
    value ∉ evicted.map Prod.snd := by
  intro inEvicted
  obtain ⟨entry, member, rfl⟩ := List.mem_map.mp inEvicted
  rw [← apart.durable] at endured
  exact spares entry member _ (InsertionMap.find?_eq_some_iff.mp endured) isOther rfl

theorem Apart.durable_step {operation : CacheOperation κ α} (apart : r.Apart) (may : r.MayTake operation) :
    (r.step operation).Durable := by
  have after := apart.step may
  refine ⟨after.retrievable, ?_, after.once⟩
  cases operation with
  | set key value =>
    have absent := apart.absent may.1
    intro other v endured
    have same : r.endured other = some v := by simpa [CacheRun.step, absent] using endured
    refine apart.notEvicted may.2 ?_ same
    rintro rfl
    rw [absent] at same
    cases same
  | free key =>
    intro other v endured
    simp only [CacheRun.step, Function.update_apply] at endured
    split at endured
    next => cases endured
    next isOther => exact apart.notEvicted may isOther endured
  | _ => exact fun _ _ _ => List.not_mem_nil

theorem not_durable_of_shared {evicted : List (κ × α)} {r' : CacheRun κ α} (apart : r.Apart)
    (shares : ¬r.Spares key evicted) (kept : ∀ other, other ≠ key → r'.endured other = r.endured other)
    (passed : r'.evicted = evicted.map Prod.snd) : ¬r'.Durable := by
  intro durable
  refine shares fun entry member item inDurable isOther same => ?_
  have endured : r'.endured item.1 = some item.2 := by
    rw [kept item.1 isOther, ← apart.durable]
    exact InsertionMap.find?_eq_some_iff.mpr inDurable
  refine durable.notEvicted item.1 item.2 endured ?_
  rw [passed, same]
  exact List.mem_map_of_mem member

omit [ToBoolean α] in
theorem durable_of_set (durable : r.cache.durable.has key = true) :
    (r.cache.set key value).durable.find? key = some value := by
  simp [StateCache.set, durable, InsertionMap.find?_set]

/-- A durable key that is set is in both buckets. -/
theorem listed_twice (durable : r.cache.durable.has key = true) :
    (r.step (.set key value)).cache.keys.count key ≠ 1 := by
  have inDurable : 0 < ((r.cache.set key value).durable.entries.map Prod.fst).count key :=
    List.count_pos_iff.mpr (InsertionMap.mem_keys_iff.mpr ⟨value, durable_of_set durable⟩)
  have inVolatile : 0 < ((r.cache.set key value).volatile.entries.map Prod.fst).count key := by
    have found : (r.cache.volatile.set key value).find? key = some value :=
      LruCache.find?_set_self r.cache.hasRoom
    exact List.count_pos_iff.mpr (List.mem_map_of_mem (LruCache.mem_of_find? found))
  change (r.cache.set key value).keys.count key ≠ 1
  rw [StateCache.keys, StateCache.entries, List.map_append, List.count_append]
  omega

theorem not_durable_step {operation : CacheOperation κ α} (apart : r.Apart) (mayNot : ¬r.MayTake operation) :
    ¬(r.step operation).Durable := by
  cases operation with
  | set key value =>
    cases durable : r.cache.durable.has key with
    | true =>
      intro isDurable
      refine listed_twice durable (isDurable.once key (.inl ?_))
      exact Option.isSome_iff_exists.mpr ⟨value, durable_of_set durable⟩
    | false =>
      refine not_durable_of_shared apart (fun spares => mayNot ⟨durable, spares⟩) (fun other _ => ?_) rfl
      simp [step, apart.absent durable]
  | endure key value =>
    intro isDurable
    have got := isDurable.retrievable key value (by simp [step])
    have notTruthy : ToBoolean.toBoolean value = false := by simpa [MayTake] using mayNot
    have deleted : (r.cache.volatile.delete key).find? key = none := LruCache.find?_delete_self _ _
    simp [step, StateCache.get, StateCache.durable?, StateCache.endure, InsertionMap.find?_set, notTruthy,
      deleted] at got
  | free key =>
    refine not_durable_of_shared apart mayNot (fun other isOther => ?_) rfl
    simp [step, isOther]
  | get _ | delete _ | clear => exact absurd trivial mayNot

theorem start_durable (limit : Nat) (positive : 0 < limit) : (start κ α limit positive).Durable where
  retrievable := nofun
  notEvicted := nofun
  once key present := by simp [start, StateCache.new, InsertionMap.has, LruCache.has] at present

/-- As long as nothing durable is set, no falsy value is endured and none that is durable under
another key makes room, what was endured stays; the first operation otherwise breaks it. -/
theorem endured_stays {limit : Nat} {positive : 0 < limit}
    (run : Transition.Reaches (fun r operation => some (step r operation)) MayTake
      (start κ α limit positive) r) :
    r.Durable ∧ ∀ operation, (r.step operation).Durable ↔ r.MayTake operation := by
  have both : r.Apart ∧ r.Durable := by
    induction run with
    | start => exact ⟨start_apart limit positive, start_durable limit positive⟩
    | next _ may stepped ih =>
      obtain rfl := Option.some.inj stepped
      exact ⟨ih.1.step may, ih.1.durable_step may⟩
  refine ⟨both.2, fun operation => ⟨fun durable => ?_, both.1.durable_step⟩⟩
  by_contra mayNot
  exact not_durable_step both.1 mayNot durable

end

instance : ToBoolean Nat := ⟨fun n => n != 0⟩

def numbers : CacheRun String Nat := start String Nat 1 (by decide)

/-- Other keys come and go while one is durable. -/
def besideDurable : List (CacheOperation String Nat) :=
  [.set "a" 1, .endure "a" 1, .set "b" 2, .set "c" 3, .get "a", .free "a"]

/-- A durable key is set, and then another one. -/
def setDurable : List (CacheOperation String Nat) := [.endure "a" 1, .set "a" 2, .set "b" 3]

def after (operations : List (CacheOperation String Nat)) : CacheRun String Nat :=
  operations.foldl step numbers

theorem endured_stays_besideDurable : (after besideDurable).Durable :=
  (endured_stays (Transition.reaches_of_run
    (rfl : Transition.run (fun r operation => some (step r operation)) numbers besideDurable =
      some (after besideDurable)) (by decide))).1

/-- The value that is durable is passed to `onEvicted`. -/
theorem set_evicts_durable : ¬∀ r : CacheRun String Nat,
    Transition.Reaches (fun r operation => some (step r operation)) (fun _ _ => True) numbers r → r.Durable := by
  intro stays
  have ran : Transition.run (fun r operation => some (step r operation)) numbers setDurable =
      some (after setDurable) := rfl
  have durable := stays _ (Transition.reaches_of_run ran (by decide))
  exact durable.notEvicted "a" 2 (by decide) (by decide)

end CacheRun

end Ceramic
