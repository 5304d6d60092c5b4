import Mathlib.Data.List.Nodup

/-! Comparison functions that answer with a number: negative, zero or positive. -/
namespace Comparator

variable {α β : Type} {compare second : α → α → Int}

/-- The signs are those of a total order, up to what ties. -/
structure Ranking (compare : α → α → Int) : Prop where
  swap (a b : α) : compare a b < 0 ↔ 0 < compare b a
  trans (a b c : α) : compare a b ≤ 0 → compare b c ≤ 0 → compare a c ≤ 0

/-- The second comparison decides where the first one ties. -/
def thenBy (compare second : α → α → Int) (a b : α) : Int := if compare a b = 0 then second a b else compare a b

/-- Nothing is behind everything. -/
def noneLast (compare : α → α → Int) : Option α → Option α → Int
  | some a, some b => compare a b
  | some _, none => -1
  | none, some _ => 1
  | none, none => 0

namespace Ranking

theorem ties (ranking : Ranking compare) (a b : α) (tie : compare a b = 0) : compare b a = 0 := by
  have := ranking.swap a b
  have := ranking.swap b a
  omega

theorem lt_of_lt_of_le (ranking : Ranking compare) {a b c : α} (before : compare a b < 0) (after : compare b c ≤ 0) :
    compare a c < 0 := by
  by_contra notBefore
  have back : compare c a ≤ 0 := by
    have := ranking.swap c a
    have := ranking.swap a c
    omega
  have around := ranking.trans b c a after back
  have := (ranking.swap a b).mp before
  omega

theorem lt_of_le_of_lt (ranking : Ranking compare) {a b c : α} (before : compare a b ≤ 0) (after : compare b c < 0) :
    compare a c < 0 := by
  by_contra notBefore
  have back : compare c a ≤ 0 := by
    have := ranking.swap c a
    have := ranking.swap a c
    omega
  have around := ranking.trans c a b back before
  have := (ranking.swap b c).mp after
  omega

theorem total (ranking : Ranking compare) (a b : α) : compare a b ≤ 0 ∨ compare b a ≤ 0 := by
  have := ranking.swap b a
  omega

theorem comap (ranking : Ranking compare) (f : β → α) : Ranking fun a b => compare (f a) (f b) where
  swap a b := ranking.swap (f a) (f b)
  trans a b c := ranking.trans (f a) (f b) (f c)

theorem noneLast (ranking : Ranking compare) : Ranking (Comparator.noneLast compare) where
  swap a b := by
    cases a <;> cases b
    · exact Iff.rfl
    · exact iff_of_false (by simp [Comparator.noneLast]) (by simp [Comparator.noneLast])
    · exact iff_of_true (by simp [Comparator.noneLast]) (by simp [Comparator.noneLast])
    · exact ranking.swap _ _
  trans a b c first second := by
    cases b with
    | none =>
      cases c with
      | none => exact first
      | some => simp [Comparator.noneLast] at second
    | some b =>
      cases a with
      | none => simp [Comparator.noneLast] at first
      | some a =>
        cases c with
        | none => simp [Comparator.noneLast]
        | some c => exact ranking.trans a b c first second

theorem thenBy (ranking : Ranking compare) (rankingSecond : Ranking second) :
    Ranking (Comparator.thenBy compare second) where
  swap a b := by
    unfold Comparator.thenBy
    have swap := ranking.swap a b
    have back := ranking.swap b a
    split
    next tie =>
      rw [if_pos (ranking.ties a b tie)]
      exact rankingSecond.swap a b
    next apart =>
      rw [if_neg (mt (ranking.ties b a) apart)]
      exact swap
  trans a b c first after := by
    unfold Comparator.thenBy at *
    split at first
    next tie =>
      split at after
      next tieAfter =>
        have forth := ranking.trans a b c (Int.le_of_eq tie) (Int.le_of_eq tieAfter)
        have back := ranking.trans c b a (Int.le_of_eq (ranking.ties b c tieAfter)) (Int.le_of_eq (ranking.ties a b tie))
        have swap := ranking.swap a c
        rw [if_pos (by omega)]
        exact rankingSecond.trans a b c first after
      next apart =>
        have before := ranking.lt_of_le_of_lt (Int.le_of_eq tie) (show compare b c < 0 by omega)
        rw [if_neg (by omega)]
        exact Int.le_of_lt before
    next apart =>
      have lower : compare b c ≤ 0 := by
        split at after
        next tieAfter => exact Int.le_of_eq tieAfter
        next => exact after
      have before := ranking.lt_of_lt_of_le (show compare a b < 0 by omega) lower
      rw [if_neg (by omega)]
      exact Int.le_of_lt before

/-- Sorting forgets the order if only what is equal ties. -/
theorem mergeSort_eq (ranking : Ranking compare) {l l' : List α} (same : l.Perm l')
    (apart : ∀ a ∈ l, ∀ b ∈ l, compare a b = 0 → a = b) :
    (l.mergeSort fun a b => decide (compare a b ≤ 0)) = l'.mergeSort fun a b => decide (compare a b ≤ 0) := by
  have transitive (a b c : α) : decide (compare a b ≤ 0) → decide (compare b c ≤ 0) → decide (compare a c ≤ 0) := by
    simpa using ranking.trans a b c
  have total (a b : α) : decide (compare a b ≤ 0) || decide (compare b a ≤ 0) := by
    simpa using ranking.total a b
  refine List.Perm.eq_of_pairwise ?_ (List.pairwise_mergeSort transitive total l)
    (List.pairwise_mergeSort transitive total l')
    ((List.mergeSort_perm _ _).trans (same.trans (List.mergeSort_perm _ _).symm))
  intro a b member member' before after
  have inside : a ∈ l := List.mem_mergeSort.mp member
  have inside' : b ∈ l := same.mem_iff.mpr (List.mem_mergeSort.mp member')
  have forth := of_decide_eq_true before
  have back := of_decide_eq_true after
  have swap := ranking.swap a b
  exact apart a inside b inside' (by omega)

end Ranking

end Comparator
