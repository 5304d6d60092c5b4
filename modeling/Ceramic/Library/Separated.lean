import Mathlib.Algebra.GroupWithZero.Nat
import Mathlib.Data.List.Basic

/-! Lists joined with a separator between them, and how far the joined list still tells them apart. -/
namespace Separated

variable {α ι : Type} [DecidableEq α]

/-- Splitting a joined list splits each of its parts. -/
theorem splitOn_intercalate_flatMap (separator : α) {parts : List (List α)} (nonempty : parts ≠ []) :
    ([separator].intercalate parts).splitOn separator = parts.flatMap (·.splitOn separator) := by
  induction parts with
  | nil => exact absurd rfl nonempty
  | cons part parts ih =>
    cases parts with
    | nil => simp
    | cons next parts =>
      rw [List.intercalate_cons_cons, List.append_assoc, List.singleton_append,
        List.splitOn_append_cons_self, ih (by simp), List.flatMap_cons (x := part)]

/-- The separators of a joined list are those of its parts and those between them. -/
theorem count_intercalate (separator : α) {parts : List (List α)} (nonempty : parts ≠ []) :
    ([separator].intercalate parts).count separator + 1 =
      (parts.map (·.count separator)).sum + parts.length := by
  induction parts with
  | nil => exact absurd rfl nonempty
  | cons part parts ih =>
    cases parts with
    | nil => simp
    | cons next parts =>
      have behind := ih (by simp)
      rw [List.intercalate_cons_cons, List.count_append, List.count_append, List.count_singleton_self,
        List.map_cons, List.sum_cons, List.length_cons]
      omega

/-- With no more separators than were put between them the parts have none. -/
theorem not_mem_of_count {separator : α} {parts : List (List α)}
    (least : ([separator].intercalate parts).count separator + 1 = parts.length) :
    ∀ part ∈ parts, separator ∉ part := by
  by_cases nonempty : parts = []
  · simp [nonempty]
  · have counts := count_intercalate separator nonempty
    have none : (parts.map (·.count separator)).sum = 0 := by omega
    intro part member inside
    have here := List.sum_eq_zero_iff_forall_eq_nat.mp none _ (List.mem_map_of_mem member)
    exact List.count_eq_zero.mp here inside

theorem splitOn_injective {separator : α} {xs ys : List α} (same : xs.splitOn separator = ys.splitOn separator) :
    xs = ys :=
  calc xs = [separator].intercalate (xs.splitOn separator) := (List.intercalate_splitOn separator).symm
    _ = [separator].intercalate (ys.splitOn separator) := by rw [same]
    _ = ys := List.intercalate_splitOn separator

/-- Parts without separators are not split any further. -/
theorem flatMap_splitOn_plain {separator : α} {places : List ι} {v : ι → List α}
    (plain : ∀ place ∈ places, separator ∉ v place) :
    places.flatMap (fun place => (v place).splitOn separator) = places.map v := by
  induction places with
  | nil => rfl
  | cons place places ih =>
    rw [List.flatMap_cons, List.splitOn_eq_singleton (plain place List.mem_cons_self), List.map_cons,
      ih fun other member => plain other (List.mem_cons_of_mem _ member)]
    rfl

section Injective

variable {separator : α} {places : List ι} (plain : ι → Bool) {v w : ι → List α}

theorem flatMap_splitOn_injective (atMostOne : (places.filter fun place => !plain place).length ≤ 1)
    (plainV : ∀ place ∈ places, plain place → separator ∉ v place)
    (plainW : ∀ place ∈ places, plain place → separator ∉ w place)
    (same : places.flatMap (fun place => (v place).splitOn separator) =
      places.flatMap (fun place => (w place).splitOn separator)) : ∀ place ∈ places, v place = w place := by
  induction places with
  | nil => simp
  | cons place places ih =>
    have behindV : ∀ other ∈ places, plain other → separator ∉ v other :=
      fun other member => plainV other (List.mem_cons_of_mem _ member)
    have behindW : ∀ other ∈ places, plain other → separator ∉ w other :=
      fun other member => plainW other (List.mem_cons_of_mem _ member)
    rw [List.flatMap_cons, List.flatMap_cons] at same
    have here : (v place).splitOn separator = (w place).splitOn separator ∧
        places.flatMap (fun place => (v place).splitOn separator) =
          places.flatMap (fun place => (w place).splitOn separator) := by
      cases isPlain : plain place with
      | true =>
        -- A part without separators is one piece on both sides.
        have oneV := List.splitOn_eq_singleton (plainV place List.mem_cons_self isPlain)
        have oneW := List.splitOn_eq_singleton (plainW place List.mem_cons_self isPlain)
        exact List.append_inj same (by rw [oneV, oneW]; rfl)
      | false =>
        -- All the others are plain, so they are as many pieces on both sides.
        have others : ∀ other ∈ places, plain other = true := by
          rw [List.filter_cons_of_pos (by simp [isPlain]), List.length_cons] at atMostOne
          have none : places.filter (fun place => !plain place) = [] := List.length_eq_zero_iff.mp (by omega)
          simpa using List.filter_eq_nil_iff.mp none
        have piecesV := flatMap_splitOn_plain fun other member => behindV other member (others other member)
        have piecesW := flatMap_splitOn_plain fun other member => behindW other member (others other member)
        exact List.append_inj' same (by rw [piecesV, piecesW, List.length_map, List.length_map])
    have fewer : (places.filter fun place => !plain place).length ≤ 1 :=
      Nat.le_trans ((List.sublist_cons_self place places).filter _).length_le atMostOne
    rintro other (_ | ⟨_, member⟩)
    · exact splitOn_injective here.1
    · exact ih fewer behindV behindW here.2 other member

/-- Two lists of parts that are joined to the same list are the same if at most at one place parts may
have separators of their own. -/
theorem intercalate_injective (atMostOne : (places.filter fun place => !plain place).length ≤ 1)
    (plainV : ∀ place ∈ places, plain place → separator ∉ v place)
    (plainW : ∀ place ∈ places, plain place → separator ∉ w place)
    (same : [separator].intercalate (places.map v) = [separator].intercalate (places.map w)) :
    ∀ place ∈ places, v place = w place := by
  by_cases nonempty : places = []
  · simp [nonempty]
  have split := congrArg (·.splitOn separator) same
  simp only [splitOn_intercalate_flatMap separator (show places.map _ ≠ [] by simpa using nonempty), List.flatMap_map]
    at split
  exact flatMap_splitOn_injective plain atMostOne plainV plainW split

end Injective

end Separated
