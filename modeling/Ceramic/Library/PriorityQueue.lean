import Mathlib.Data.List.Basic

/-! Priority queues. What is equal to the comparison may come out in any order. -/

structure PriorityQueue (Queue α : Type) where
  empty : Queue
  toList : Queue → List α
  front : Queue → Option α
  enqueue : Queue → α → Queue
  dequeue : Queue → Queue

namespace PriorityQueue

variable {Queue α : Type} [DecidableEq α]

/-- Nothing in the queue compares below what is in front, and only that is taken from it. -/
structure Lawful (queue : PriorityQueue Queue α) (compare : α → α → Int) : Prop where
  toList_empty : queue.toList queue.empty = []
  toList_enqueue (q : Queue) (a : α) : (queue.toList (queue.enqueue q a)).Perm (a :: queue.toList q)
  toList_of_front_none (q : Queue) : queue.front q = none → queue.toList q = []
  mem_of_front (q : Queue) (a : α) : queue.front q = some a → a ∈ queue.toList q
  compare_front (q : Queue) (a b : α) : queue.front q = some a → b ∈ queue.toList q → compare a b ≤ 0
  toList_dequeue (q : Queue) (a : α) : queue.front q = some a →
    (queue.toList (queue.dequeue q)).Perm ((queue.toList q).erase a)

variable {queue : PriorityQueue Queue α} {compare : α → α → Int}

theorem Lawful.toList_perm (lawful : queue.Lawful compare) {q : Queue} {a : α} (front : queue.front q = some a) :
    (queue.toList q).Perm (a :: queue.toList (queue.dequeue q)) :=
  (List.perm_cons_erase (lawful.mem_of_front q a front)).trans ((lawful.toList_dequeue q a front).symm.cons a)

theorem Lawful.length_dequeue (lawful : queue.Lawful compare) {q : Queue} {a : α} (front : queue.front q = some a) :
    (queue.toList (queue.dequeue q)).length + 1 = (queue.toList q).length :=
  (lawful.toList_perm front).length_eq.symm

/-- What is added in front of what compares above it. -/
def insertSorted (compare : α → α → Int) (a : α) : List α → List α
  | [] => [a]
  | b :: rest => if compare b a ≤ 0 then b :: insertSorted compare a rest else a :: b :: rest

theorem perm_insertSorted (compare : α → α → Int) (a : α) (l : List α) :
    (insertSorted compare a l).Perm (a :: l) := by
  induction l with
  | nil => exact .refl _
  | cons b rest ih =>
    unfold insertSorted
    split
    · exact (ih.cons b).trans (List.Perm.swap a b rest)
    · exact .refl _

/-- A list that is sorted by the comparison. -/
def Sorted (compare : α → α → Int) : Type := { l : List α // l.Pairwise fun a b => compare a b ≤ 0 }

variable (transitive : ∀ a b c, compare a b ≤ 0 → compare b c ≤ 0 → compare a c ≤ 0)
  (total : ∀ a b, ¬compare b a ≤ 0 → compare a b ≤ 0)

include transitive total in
theorem sorted_insertSorted (a : α) {l : List α} (sorted : l.Pairwise fun a b => compare a b ≤ 0) :
    (insertSorted compare a l).Pairwise fun a b => compare a b ≤ 0 := by
  induction l with
  | nil => exact List.pairwise_singleton _ _
  | cons b rest ih =>
    obtain ⟨before, sortedRest⟩ := List.pairwise_cons.mp sorted
    unfold insertSorted
    split
    next first =>
      refine List.pairwise_cons.mpr ⟨fun c member => ?_, ih sortedRest⟩
      rcases List.mem_cons.mp ((perm_insertSorted compare a rest).mem_iff.mp member) with rfl | old
      · exact first
      · exact before c old
    next notFirst =>
      refine List.pairwise_cons.mpr ⟨fun c member => ?_, sorted⟩
      rcases List.mem_cons.mp member with rfl | old
      · exact total _ _ notFirst
      · exact transitive a b c (total _ _ notFirst) (before c old)

/-- The queue of sorted lists. -/
def sortedLists : PriorityQueue (Sorted compare) α where
  empty := ⟨[], .nil⟩
  toList := Subtype.val
  front q := q.val.head?
  enqueue q a := ⟨insertSorted compare a q.val, sorted_insertSorted transitive total a q.property⟩
  dequeue q := ⟨q.val.tail, q.property.tail⟩

theorem sortedLists_lawful (reflexive : ∀ a, compare a a ≤ 0) : (sortedLists transitive total).Lawful compare where
  toList_empty := rfl
  toList_enqueue q a := perm_insertSorted compare a q.val
  toList_of_front_none _ front := List.head?_eq_none_iff.mp front
  mem_of_front _ _ front := List.mem_of_head? front
  compare_front q a b front member := by
    obtain ⟨rest, isCons⟩ := List.head?_eq_some_iff.mp front
    rcases List.mem_cons.mp (isCons ▸ member : b ∈ a :: rest) with rfl | later
    · exact reflexive b
    · have sorted : (a :: rest).Pairwise fun a b => compare a b ≤ 0 := isCons ▸ q.property
      exact List.rel_of_pairwise_cons sorted later
  toList_dequeue q a front := by
    obtain ⟨rest, isCons⟩ := List.head?_eq_some_iff.mp front
    have same : q.val.erase a = rest := by rw [isCons, List.erase_cons_head]
    have tail : q.val.tail = rest := by rw [isCons, List.tail_cons]
    exact .of_eq (tail.trans same.symm)

end PriorityQueue
