import Mathlib.Order.Lattice
import Mathlib.Data.List.Nodup
import Mathlib.Data.List.Induction

/-! Maps that keep their entries in the order of the keys, with searches over ranges of keys. -/

structure OrderedMap (κ α : Type) [LinearOrder κ] where
  entries : List (κ × α)
  ordered : entries.Pairwise fun a b => a.1 < b.1

namespace OrderedMap

variable {κ α β : Type} [LinearOrder κ] {k : κ} {v : α} {m : OrderedMap κ α}

def empty : OrderedMap κ α := ⟨[], List.Pairwise.nil⟩

def get? (m : OrderedMap κ α) (k : κ) : Option α := (m.entries.find? fun entry => entry.1 = k).map Prod.snd

/-- The entries with one more, or with another value for its key. -/
def insertEntry (k : κ) (v : α) : List (κ × α) → List (κ × α)
  | [] => [(k, v)]
  | entry :: rest =>
    if k < entry.1 then (k, v) :: entry :: rest
    else if entry.1 < k then entry :: insertEntry k v rest
    else (k, v) :: rest

theorem mem_insertEntry {entries : List (κ × α)} {entry : κ × α} (member : entry ∈ insertEntry k v entries) :
    entry = (k, v) ∨ entry ∈ entries := by
  induction entries with
  | nil => exact .inl (List.mem_singleton.mp member)
  | cons first rest ih =>
    unfold insertEntry at member
    split at member
    · exact List.mem_cons.mp member
    · split at member
      · rcases List.mem_cons.mp member with rfl | later
        · exact .inr List.mem_cons_self
        · exact (ih later).imp_right (List.mem_cons_of_mem _)
      · exact (List.mem_cons.mp member).imp_right (List.mem_cons_of_mem _)

theorem insertEntry_ordered {entries : List (κ × α)} (ordered : entries.Pairwise fun a b => a.1 < b.1) :
    (insertEntry k v entries).Pairwise fun a b => a.1 < b.1 := by
  induction entries with
  | nil => exact List.pairwise_singleton _ _
  | cons first rest ih =>
    obtain ⟨above, orderedRest⟩ := List.pairwise_cons.mp ordered
    unfold insertEntry
    split
    next below =>
      refine List.pairwise_cons.mpr ⟨fun entry member => ?_, ordered⟩
      rcases List.mem_cons.mp member with rfl | later
      · exact below
      · exact lt_trans below (above entry later)
    next notBelow =>
      split
      next after =>
        refine List.pairwise_cons.mpr ⟨fun entry member => ?_, ih orderedRest⟩
        rcases mem_insertEntry member with rfl | later
        · exact after
        · exact above entry later
      next notAfter =>
        obtain rfl : k = first.1 := le_antisymm (not_lt.mp notAfter) (not_lt.mp notBelow)
        exact List.pairwise_cons.mpr ⟨above, orderedRest⟩

def put (m : OrderedMap κ α) (k : κ) (v : α) : OrderedMap κ α :=
  ⟨insertEntry k v m.entries, insertEntry_ordered m.ordered⟩

def del (m : OrderedMap κ α) (k : κ) : OrderedMap κ α :=
  ⟨m.entries.filter fun entry => entry.1 ≠ k, m.ordered.filter _⟩

/-- The entries with other values under the same keys. -/
def map (f : α → β) (m : OrderedMap κ α) : OrderedMap κ β :=
  ⟨m.entries.map fun entry => (entry.1, f entry.2), m.ordered.map _ fun _ _ less => less⟩

theorem entries_injective {other : OrderedMap κ α} (same : m.entries = other.entries) : m = other := by
  cases m
  cases other
  cases same
  rfl

theorem keys_nodup (m : OrderedMap κ α) : (m.entries.map Prod.fst).Nodup :=
  (m.ordered.map (S := (· < ·)) Prod.fst fun _ _ less => less).imp ne_of_lt

theorem get?_eq_some_iff : m.get? k = some v ↔ (k, v) ∈ m.entries := by
  constructor
  · intro found
    obtain ⟨entry, located, rfl⟩ := Option.map_eq_some_iff.mp found
    obtain rfl : entry.1 = k := by simpa using List.find?_some located
    exact List.mem_of_find?_eq_some located
  · intro member
    obtain ⟨entry, located⟩ : ∃ entry, m.entries.find? (fun entry => decide (entry.1 = k)) = some entry :=
      Option.isSome_iff_exists.mp (List.find?_isSome.mpr ⟨_, member, by simp⟩)
    have sameKey : entry.1 = k := by simpa using List.find?_some located
    have same := List.inj_on_of_nodup_map m.keys_nodup (List.mem_of_find?_eq_some located) member sameKey
    unfold get?
    rw [located, same]
    rfl

theorem mem_insertEntry_iff {entries : List (κ × α)} (ordered : entries.Pairwise fun a b => a.1 < b.1)
    (entry : κ × α) : entry ∈ insertEntry k v entries ↔ entry = (k, v) ∨ (entry ∈ entries ∧ entry.1 ≠ k) := by
  induction entries with
  | nil => simp [insertEntry]
  | cons first rest ih =>
    obtain ⟨above, orderedRest⟩ := List.pairwise_cons.mp ordered
    unfold insertEntry
    split
    next below =>
      have others : ∀ entry ∈ first :: rest, entry.1 ≠ k := by
        intro entry member
        rcases List.mem_cons.mp member with rfl | later
        · exact ne_of_gt below
        · exact ne_of_gt (lt_trans below (above entry later))
      rw [List.mem_cons]
      exact or_congr_right ⟨fun member => ⟨member, others entry member⟩, And.left⟩
    next notBelow =>
      split
      next after =>
        rw [List.mem_cons, List.mem_cons, ih orderedRest]
        constructor
        · rintro (rfl | rfl | ⟨later, other⟩)
          · exact .inr ⟨.inl rfl, ne_of_lt after⟩
          · exact .inl rfl
          · exact .inr ⟨.inr later, other⟩
        · rintro (rfl | ⟨rfl | later, other⟩)
          · exact .inr (.inl rfl)
          · exact .inl rfl
          · exact .inr (.inr ⟨later, other⟩)
      next notAfter =>
        obtain rfl : k = first.1 := le_antisymm (not_lt.mp notAfter) (not_lt.mp notBelow)
        rw [List.mem_cons, List.mem_cons]
        constructor
        · rintro (rfl | later)
          · exact .inl rfl
          · exact .inr ⟨.inr later, ne_of_gt (above entry later)⟩
        · rintro (rfl | ⟨rfl | later, other⟩)
          · exact .inl rfl
          · exact absurd rfl other
          · exact .inr later

theorem get?_put (m : OrderedMap κ α) (k : κ) (v : α) (other : κ) :
    (m.put k v).get? other = if other = k then some v else m.get? other := by
  refine Option.ext fun value => ?_
  rw [get?_eq_some_iff, put, mem_insertEntry_iff m.ordered, Prod.mk.injEq]
  split
  next same => simp [same, eq_comm]
  next apart => simp [apart, get?_eq_some_iff]

theorem get?_del (m : OrderedMap κ α) (k other : κ) :
    (m.del k).get? other = if other = k then none else m.get? other := by
  refine Option.ext fun value => ?_
  rw [get?_eq_some_iff, del, List.mem_filter]
  split
  next same => simp [same]
  next apart => simp [apart, get?_eq_some_iff]

theorem get?_map (f : α → β) (m : OrderedMap κ α) (k : κ) : (m.map f).get? k = (m.get? k).map f := by
  unfold get? map
  rw [List.find?_map, Option.map_map, Option.map_map]
  rfl

/-- Maps with the same values are the same. -/
theorem ext {other : OrderedMap κ α} (same : ∀ k, m.get? k = other.get? k) : m = other := by
  have members : ∀ entry, entry ∈ m.entries ↔ entry ∈ other.entries := by
    rintro ⟨k, v⟩
    rw [← get?_eq_some_iff, ← get?_eq_some_iff, same k]
  have perm : m.entries.Perm other.entries :=
    (List.perm_ext_iff_of_nodup m.keys_nodup.of_map other.keys_nodup.of_map).mpr members
  refine entries_injective (perm.eq_of_pairwise ?_ m.ordered other.ordered)
  exact fun a b _ _ less greater => absurd greater (lt_asymm less)

theorem map_put (f : α → β) (m : OrderedMap κ α) (k : κ) (v : α) : (m.put k v).map f = (m.map f).put k (f v) := by
  refine ext fun other => ?_
  rw [get?_map, get?_put, get?_put, get?_map]
  split <;> rfl

theorem map_del (f : α → β) (m : OrderedMap κ α) (k : κ) : (m.del k).map f = (m.map f).del k := by
  refine ext fun other => ?_
  rw [get?_map, get?_del, get?_del, get?_map]
  split <;> rfl

/-- One change of a batch. -/
inductive Write (κ α : Type) where
  | put (k : κ) (v : α)
  | del (k : κ)
  deriving DecidableEq, Repr

namespace Write

def key : Write κ α → κ
  | put k _ => k
  | del k => k

/-- What is under the key after the change. -/
def value : Write κ α → Option α
  | put _ v => some v
  | del _ => none

def map (f : α → β) : Write κ α → Write κ β
  | put k v => put k (f v)
  | del k => del k

end Write

def write (m : OrderedMap κ α) : Write κ α → OrderedMap κ α
  | .put k v => m.put k v
  | .del k => m.del k

def writeAll (m : OrderedMap κ α) (writes : List (Write κ α)) : OrderedMap κ α := writes.foldl write m

/-- What the last change of a key leaves there, if there is one. -/
def lastWrite (writes : List (Write κ α)) (k : κ) : Option (Option α) :=
  (writes.reverse.find? fun change => change.key = k).map Write.value

theorem get?_write (m : OrderedMap κ α) (change : Write κ α) (k : κ) :
    (m.write change).get? k = if k = change.key then change.value else m.get? k := by
  cases change with
  | put => exact m.get?_put _ _ k
  | del => exact m.get?_del _ k

/-- A key has what it was last given. -/
theorem get?_writeAll (m : OrderedMap κ α) (writes : List (Write κ α)) (k : κ) :
    (m.writeAll writes).get? k = (lastWrite writes k).getD (m.get? k) := by
  induction writes using List.reverseRecOn with
  | nil => rfl
  | append_singleton writes change ih =>
    have last : lastWrite (writes ++ [change]) k =
        if k = change.key then some change.value else lastWrite writes k := by
      unfold lastWrite
      rw [List.reverse_append, List.reverse_singleton, List.singleton_append, List.find?_cons]
      by_cases same : change.key = k
      · simp [same]
      · simp [same, Ne.symm same]
    rw [writeAll, List.foldl_append, List.foldl_cons, List.foldl_nil, get?_write, last]
    split
    · rfl
    · exact ih

theorem lastWrite_map (f : α → β) (writes : List (Write κ α)) (k : κ) :
    lastWrite (writes.map (Write.map f)) k = (lastWrite writes k).map (Option.map f) := by
  have sameKey (change : Write κ α) : (change.map f).key = change.key := by cases change <;> rfl
  have sameValue (change : Write κ α) : (change.map f).value = change.value.map f := by cases change <;> rfl
  unfold lastWrite
  rw [← List.map_reverse, List.find?_map, Option.map_map, Option.map_map]
  simp only [Function.comp_def, sameKey, sameValue]

/-- A range of keys, with a direction and a number of entries. -/
structure Search (κ : Type) where
  gte : Option κ := none
  gt : Option κ := none
  lte : Option κ := none
  lt : Option κ := none
  reverse : Bool := false
  limit : Option Int := none

namespace Search

/-- An inclusive bound is taken before an exclusive one. -/
def inRange (params : Search κ) (k : κ) : Bool :=
  (match params.gte, params.gt with
    | some bound, _ => decide (bound ≤ k)
    | none, some bound => decide (bound < k)
    | none, none => true) &&
  (match params.lte, params.lt with
    | some bound, _ => decide (k ≤ bound)
    | none, some bound => decide (k < bound)
    | none, none => true)

/-- Without a limit, or with a negative one, everything is taken. -/
def take (params : Search κ) (found : List α) : List α :=
  match params.limit with
  | some limit => if limit < 0 then found else found.take limit.toNat
  | none => found

end Search

/-- All entries in the range. -/
def range (m : OrderedMap κ α) (params : Search κ) : List (κ × α) :=
  m.entries.filter fun entry => params.inRange entry.1

/-- The entries of a range, in the direction of the search and up to its limit. -/
def search (m : OrderedMap κ α) (params : Search κ) : List (κ × α) :=
  params.take (if params.reverse then (m.range params).reverse else m.range params)

theorem range_map (f : α → β) (m : OrderedMap κ α) (params : Search κ) :
    (m.map f).range params = (m.range params).map fun entry => (entry.1, f entry.2) := by
  unfold range map
  rw [List.filter_map]
  rfl

theorem search_map (f : α → β) (m : OrderedMap κ α) (params : Search κ) :
    (m.map f).search params = (m.search params).map fun entry => (entry.1, f entry.2) := by
  have taken (found : List (κ × α)) : params.take (found.map fun entry => (entry.1, f entry.2)) =
      (params.take found).map fun entry => (entry.1, f entry.2) := by
    unfold Search.take
    split
    · rw [← List.map_take]
      split <;> rfl
    · rfl
  unfold search
  rw [range_map, ← taken, ← List.map_reverse]
  split <;> rfl

/-- A search finds nothing when there is nothing, or when it is to find nothing. -/
theorem search_eq_nil_iff (m : OrderedMap κ α) (params : Search κ) :
    m.search params = [] ↔ m.range params = [] ∨ params.limit = some 0 := by
  have directed : (if params.reverse then (m.range params).reverse else m.range params) = [] ↔
      m.range params = [] := by
    split
    · exact List.reverse_eq_nil_iff
    · exact Iff.rfl
  unfold search Search.take
  split
  next limit isLimit =>
    rw [isLimit, Option.some.injEq]
    split
    next below =>
      rw [directed, or_iff_left (by omega)]
    next above =>
      have none : limit.toNat = 0 ↔ limit = 0 := by omega
      rw [List.take_eq_nil_iff, directed, none, or_comm]
  next noLimit =>
    rw [directed, noLimit]
    simp

end OrderedMap
