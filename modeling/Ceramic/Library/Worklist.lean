import Mathlib.Algebra.GroupWithZero.Nat
import Mathlib.Algebra.Order.BigOperators.Group.List
import Mathlib.Algebra.Order.Group.Nat
import Mathlib.Logic.Relation

/-! Tasks that wait together, of which any may be finished next. A finished task leaves events and
further tasks. -/
namespace Worklist

variable {τ ε : Type} (finish : τ → List ε × List τ)

/-- The events in the order in which they come; `order` picks the next task of those that wait. -/
def drain : Nat → List Nat → List τ → List ε
  | 0, _, _ => []
  | fuel + 1, order, tasks =>
    let i := order.headD 0 % tasks.length
    match tasks[i]? with
    | none => []
    | some task => (finish task).1 ++ drain fuel order.tail (tasks.eraseIdx i ++ (finish task).2)

/-- The second task is one that the first leaves. -/
def Spawns (task spawned : τ) : Prop := spawned ∈ (finish task).2

/-- An event of the task itself or of one that comes from it. -/
def Leaves (task : τ) (event : ε) : Prop :=
  ∃ later, Relation.ReflTransGen (Spawns finish) task later ∧ event ∈ (finish later).1

variable {finish}

theorem leaves_iff {task : τ} {event : ε} :
    Leaves finish task event ↔ event ∈ (finish task).1 ∨ ∃ next ∈ (finish task).2, Leaves finish next event := by
  constructor
  · rintro ⟨later, comes, member⟩
    rcases Relation.ReflTransGen.cases_head comes with rfl | ⟨next, spawned, rest⟩
    · exact .inl member
    · exact .inr ⟨next, spawned, later, rest, member⟩
  · rintro (member | ⟨next, spawned, later, rest, member⟩)
    · exact ⟨task, .refl, member⟩
    · exact ⟨later, .head spawned rest, member⟩

theorem perm_eraseIdx {tasks : List τ} {i : Nat} {task : τ} (here : tasks[i]? = some task) :
    (task :: tasks.eraseIdx i).Perm tasks := by
  obtain ⟨inside, rfl⟩ := List.getElem?_eq_some_iff.mp here
  exact List.getElem_cons_eraseIdx_perm inside

/-- Where tasks leave less than they were, the order in which they are finished does not tell which events
come. -/
theorem mem_drain {size : τ → Nat} (shrinks : ∀ task, ((finish task).2.map size).sum < size task) {fuel : Nat}
    {order : List Nat} {tasks : List τ} (enough : (tasks.map size).sum ≤ fuel) {event : ε} :
    event ∈ drain finish fuel order tasks ↔ ∃ task ∈ tasks, Leaves finish task event := by
  induction fuel generalizing order tasks with
  | zero =>
    have none : tasks = [] := by
      refine List.eq_nil_iff_forall_not_mem.mpr fun task member => ?_
      have atMost := List.le_sum_of_mem (List.mem_map_of_mem (f := size) member)
      have := shrinks task
      omega
    simp [none, drain]
  | succ fuel ih =>
    unfold drain
    dsimp only
    split
    next done =>
      have none : tasks = [] := by
        by_contra nonempty
        have inside := Nat.mod_lt (order.headD 0) (List.length_pos_iff.mpr nonempty)
        exact absurd (List.getElem?_eq_none_iff.mp done) (Nat.not_le.mpr inside)
      simp [none]
    next task here =>
      have rest := perm_eraseIdx here
      have total : size task + ((tasks.eraseIdx (order.headD 0 % tasks.length)).map size).sum = (tasks.map size).sum :=
        (rest.map size).sum_eq
      have less := shrinks task
      rw [List.mem_append, ih (by rw [List.map_append, List.sum_append]; omega)]
      constructor
      · rintro (here' | ⟨next, member, leaves⟩)
        · exact ⟨task, rest.subset List.mem_cons_self, leaves_iff.mpr (.inl here')⟩
        · rcases List.mem_append.mp member with waiting | spawned
          · exact ⟨next, rest.subset (List.mem_cons_of_mem _ waiting), leaves⟩
          · exact ⟨task, rest.subset List.mem_cons_self, leaves_iff.mpr (.inr ⟨next, spawned, leaves⟩)⟩
      · rintro ⟨other, member, leaves⟩
        rcases List.mem_cons.mp (rest.symm.subset member) with rfl | waiting
        · refine (leaves_iff.mp leaves).imp_right ?_
          rintro ⟨next, spawned, leaves⟩
          exact ⟨next, List.mem_append_right _ spawned, leaves⟩
        · exact .inr ⟨other, List.mem_append_left _ waiting, leaves⟩

end Worklist
