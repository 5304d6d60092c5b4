import Ceramic.Library.OrderedMap

/-! Reading the keys of a map batch by batch, each batch from the last key of the one before it, while the map is
changed between the reads. -/
namespace CursorScan

open OrderedMap

variable {κ α : Type} [LinearOrder κ]

/-- A search for the first entries from a cursor on. -/
def params (n : Nat) (cursor : Option κ) : Search κ := { gt := cursor, limit := some n }

def Behind (cursor : Option κ) (k : κ) : Prop := ∀ c ∈ cursor, c < k

theorem behind_none (k : κ) : Behind none k := nofun

theorem behind_some {c k : κ} : Behind (some c) k ↔ c < k :=
  ⟨fun behind => behind c rfl, fun less _ same => Option.some.inj same ▸ less⟩

theorem inRange_params (n : Nat) (cursor : Option κ) (k : κ) : (params n cursor).inRange k ↔ Behind cursor k := by
  cases cursor with
  | none => exact iff_of_true rfl (behind_none k)
  | some c => simp [params, Search.inRange, behind_some]

theorem search_params (m : OrderedMap κ α) (n : Nat) (cursor : Option κ) :
    m.search (params n cursor) = (m.range (params n cursor)).take n := by
  simp [search, params, Search.take]

theorem mem_range_iff {m : OrderedMap κ α} {n : Nat} {cursor : Option κ} {entry : κ × α} :
    entry ∈ m.range (params n cursor) ↔ entry ∈ m.entries ∧ Behind cursor entry.1 := by
  rw [range, List.mem_filter, inRange_params]

/-- What has been read up to a cursor: keys in their order, none behind the cursor, and every key that is not behind it
and has been there all along. -/
structure ReadTo (present : κ → Prop) (cursor : Option κ) (seen : List κ) : Prop where
  ordered : seen.Pairwise (· < ·)
  upTo : ∀ k ∈ seen, ¬Behind cursor k
  complete : ∀ k, present k → ¬Behind cursor k → k ∈ seen

namespace ReadTo

variable {present : κ → Prop} {m : OrderedMap κ α} {n : Nat} {cursor : Option κ} {seen : List κ}

theorem start (present : κ → Prop) : ReadTo present none [] :=
  ⟨.nil, nofun, fun k _ notBehind => absurd (behind_none k) notBehind⟩

/-- What is there now is less than what has been there all along. -/
theorem mono {fewer : κ → Prop} (readTo : ReadTo present cursor seen) (still : ∀ k, fewer k → present k) :
    ReadTo fewer cursor seen :=
  ⟨readTo.ordered, readTo.upTo, fun k holds notBehind => readTo.complete k (still k holds) notBehind⟩

/-- A batch is read; the cursor is at its last key. -/
theorem read (readTo : ReadTo present cursor seen) (there : ∀ k, present k → (m.get? k).isSome)
    {last : κ × α} (isLast : (m.search (params n cursor)).getLast? = some last) :
    ReadTo present (some last.1) (seen ++ (m.search (params n cursor)).map Prod.fst) := by
  have sorted : (m.range (params n cursor)).Pairwise fun a b => a.1 < b.1 := m.ordered.filter _
  have split := List.take_append_drop n (m.range (params n cursor))
  rw [search_params] at isLast ⊢
  rw [← split] at sorted
  obtain ⟨sortedItems, _, later⟩ := List.pairwise_append.mp sorted
  have inBatch := List.mem_of_getLast? isLast
  have behind {entry : κ × α} (member : entry ∈ (m.range (params n cursor)).take n) : Behind cursor entry.1 :=
    (mem_range_iff.mp (List.mem_of_mem_take member)).2
  have atMost {entry : κ × α} (member : entry ∈ (m.range (params n cursor)).take n) : entry.1 ≤ last.1 := by
    obtain ⟨front, shape⟩ := List.getLast?_eq_some_iff.mp isLast
    rw [shape] at member sortedItems
    rcases List.mem_append.mp member with before | same
    · exact le_of_lt ((List.pairwise_append.mp sortedItems).2.2 entry before last (List.mem_singleton.mpr rfl))
    · exact le_of_eq (congrArg Prod.fst (List.mem_singleton.mp same))
  -- a key that was read before is not behind the cursor, one of the batch is
  have before {k : κ} (member : k ∈ seen) {entry : κ × α} (read : entry ∈ (m.range (params n cursor)).take n) :
      k < entry.1 := by
    by_contra notLess
    refine readTo.upTo k member fun c isCursor => ?_
    exact lt_of_lt_of_le (behind read c isCursor) (not_lt.mp notLess)
  refine ⟨List.pairwise_append.mpr ⟨readTo.ordered, ?_, ?_⟩, ?_, ?_⟩
  · exact List.pairwise_map.mpr sortedItems
  · intro k member key isKey
    obtain ⟨entry, read, rfl⟩ := List.mem_map.mp isKey
    exact before member read
  · intro k member
    rw [behind_some, not_lt]
    rcases List.mem_append.mp member with old | new
    · exact le_of_lt (before old inBatch)
    · obtain ⟨entry, read, rfl⟩ := List.mem_map.mp new
      exact atMost read
  · intro k holds notBehind
    rw [behind_some, not_lt] at notBehind
    by_cases old : Behind cursor k
    · obtain ⟨value, found⟩ := Option.isSome_iff_exists.mp (there k holds)
      have inRange : (k, value) ∈ m.range (params n cursor) :=
        mem_range_iff.mpr ⟨get?_eq_some_iff.mp found, old⟩
      rw [← split] at inRange
      rcases List.mem_append.mp inRange with read | beyond
      · exact List.mem_append_right _ (List.mem_map_of_mem read)
      · exact absurd (later last inBatch (k, value) beyond) (not_lt.mpr notBehind)
    · exact List.mem_append_left _ (readTo.complete k holds old)

/-- Where a batch is empty, everything that has been there all along has been read. -/
theorem finished (readTo : ReadTo present cursor seen) (there : ∀ k, present k → (m.get? k).isSome)
    (positive : 0 < n) (nothing : m.search (params n cursor) = []) {k : κ} (holds : present k) : k ∈ seen := by
  refine readTo.complete k holds fun behind => ?_
  obtain ⟨value, found⟩ := Option.isSome_iff_exists.mp (there k holds)
  have inRange : (k, value) ∈ m.range (params n cursor) := mem_range_iff.mpr ⟨get?_eq_some_iff.mp found, behind⟩
  rw [search_params, List.take_eq_nil_iff] at nothing
  rcases nothing with zero | empty
  · omega
  · rw [empty] at inRange
    cases inRange

/-- What a batch that was read is good for. -/
structure Fetched (present : κ → Prop) (cursor : Option κ) (seen batch : List κ) : Prop where
  before : ReadTo present cursor seen
  finished : batch = [] → ∀ k, present k → k ∈ seen
  next : ∀ last ∈ batch.getLast?, ReadTo present (some last) (seen ++ batch)

theorem fetch (readTo : ReadTo present cursor seen) (there : ∀ k, present k → (m.get? k).isSome) (positive : 0 < n) :
    Fetched present cursor seen ((m.search (params n cursor)).map Prod.fst) := by
  refine ⟨readTo, fun nothing k => readTo.finished there positive (List.map_eq_nil_iff.mp nothing), ?_⟩
  intro last isLast
  rw [List.getLast?_map] at isLast
  obtain ⟨entry, isEntry, rfl⟩ := Option.map_eq_some_iff.mp isLast
  exact readTo.read there isEntry

end ReadTo

end CursorScan
