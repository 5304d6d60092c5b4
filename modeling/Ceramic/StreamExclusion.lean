import Ceramic.ExecutionQueue

/-! Tasks of one stream. A lane keeps the tasks of its name apart and in order, so the
tasks of a stream are kept apart and in order as long as those that have not ended all
have the same name. -/
namespace Ceramic

/-- A part of an ordered list that contains whatever comes before one of its elements
is its beginning. -/
theorem prefix_of_closed {α : Type} (rank : α → Nat) {part whole : List α}
    (orderedPart : part.Pairwise fun x y => rank x < rank y)
    (orderedWhole : whole.Pairwise fun x y => rank x < rank y)
    (inside : ∀ x ∈ part, x ∈ whole)
    (closed : ∀ x ∈ part, ∀ y ∈ whole, rank y < rank x → y ∈ part) : part <+: whole := by
  induction whole generalizing part with
  | nil =>
    have empty : part = [] := List.eq_nil_iff_forall_not_mem.mpr fun x member => by
      simpa using inside x member
    simp [empty]
  | cons y whole ih =>
    obtain ⟨lowest, orderedRest⟩ := List.pairwise_cons.mp orderedWhole
    cases part with
    | nil => simp
    | cons x part =>
      obtain ⟨lowestPart, orderedTail⟩ := List.pairwise_cons.mp orderedPart
      have first : x = y := by
        rcases List.mem_cons.mp (inside x (by simp)) with same | behind
        · exact same
        · have less := lowest x behind
          rcases List.mem_cons.mp (closed x (by simp) y (by simp) less) with same | later
          · exact same.symm
          · have := lowestPart y later
            omega
      subst first
      have behindFirst : ∀ z ∈ part, z ∈ whole := by
        intro z member
        have above := lowestPart z member
        rcases List.mem_cons.mp (inside z (List.mem_cons_of_mem _ member)) with same | behind
        · rw [same] at above
          omega
        · exact behind
      refine List.cons_prefix_cons.mpr ⟨rfl, ih orderedTail orderedRest behindFirst ?_⟩
      intro z member w behind less
      have above := lowest w behind
      rcases List.mem_cons.mp (closed z (List.mem_cons_of_mem _ member) w
        (List.mem_cons_of_mem _ behind) less) with same | later
      · rw [same] at above
        omega
      · exact later

namespace ExecutionQueue

open NamedTaskQueue

/-- No two tasks of a stream run at the same time. -/
def Exclusive (queue : ExecutionQueue) : Prop :=
  ∀ task ∈ queue.running, ∀ other ∈ queue.running, task.stream = other.stream → task = other

/-- The tasks of a stream start in the order in which they were submitted. -/
def StartsInOrder (queue : ExecutionQueue) : Prop :=
  ∀ stream, (queue.started.filter fun task => task.stream = stream) <+:
    (queue.submitted.filter fun task => task.stream = stream)

/-- A task is submitted under the name of its stream's tasks that have not ended. -/
def UnderOneName (queue : ExecutionQueue) : Action → Prop
  | .run id => ∀ task ∈ queue.submitted, task ∉ queue.ended → task.stream = id.baseID →
      task.lane = id.toString
  | _ => True

structure Invariant (queue : ExecutionQueue) : Prop where
  numbered : ∀ (i : Nat) (task : StreamTask), queue.submitted[i]? = some task → task.number = i
  registered : Registered StreamTask.lane queue.tasks
  known : ∀ i, ∀ task ∈ (queue.tasks.queues i).tasks, task ∈ queue.submitted
  unfinished : ∀ task ∈ queue.submitted, task ∉ queue.ended →
    ∃ i, task ∈ (queue.tasks.queues i).tasks
  ordered : ∀ i, (queue.tasks.queues i).tasks.Pairwise fun task other => task.number < other.number
  waiting : ∀ i, ∀ task ∈ (queue.tasks.queues i).waiting,
    task ∉ queue.started ∧ task ∉ queue.semaphore.waiting
  asking : ∀ task ∈ queue.semaphore.waiting, task ∉ queue.started ∧
    ∃ i, (queue.tasks.queues i).pending = some task
  askingOnce : queue.semaphore.waiting.Nodup
  running : ∀ task ∈ queue.started, task ∉ queue.ended →
    ∃ i, (queue.tasks.queues i).pending = some task
  started : ∀ task ∈ queue.started, task ∈ queue.submitted
  ended : ∀ task ∈ queue.ended, task ∈ queue.started
  oneName : ∀ task ∈ queue.submitted, task ∉ queue.ended → ∀ other ∈ queue.submitted,
    other ∉ queue.ended → task.stream = other.stream → task.lane = other.lane
  inOrder : queue.started.Pairwise fun task other =>
    task.stream = other.stream → task.number < other.number
  closed : ∀ task ∈ queue.started, ∀ other ∈ queue.submitted, other.stream = task.stream →
    other.number < task.number → other ∈ queue.started

theorem initial_invariant (name : String) (concurrencyLimit : Nat) :
    Invariant (make name concurrencyLimit) := by
  constructor <;> simp [make, Registered, TaskQueue.tasks]

namespace Invariant

variable {queue : ExecutionQueue} (valid : Invariant queue)

include valid

theorem number_lt : ∀ task ∈ queue.submitted, task.number < queue.submitted.length := by
  intro task member
  obtain ⟨i, found⟩ := List.mem_iff_getElem?.mp member
  rw [valid.numbered i task found]
  exact (List.getElem?_eq_some_iff.mp found).1

theorem eq_of_number {task other : StreamTask} (first : task ∈ queue.submitted)
    (second : other ∈ queue.submitted) (same : task.number = other.number) : task = other := by
  obtain ⟨i, found⟩ := List.mem_iff_getElem?.mp first
  obtain ⟨j, found'⟩ := List.mem_iff_getElem?.mp second
  rw [valid.numbered i task found, valid.numbered j other found'] at same
  rw [same] at found
  exact Option.some.inj (found.symm.trans found')

theorem pending_known {i : Nat} {task : StreamTask}
    (pending : (queue.tasks.queues i).pending = some task) : task ∈ queue.submitted :=
  valid.known i task (TaskQueue.mem_tasks.mpr (.inl pending))

theorem run (id : StreamRef) (oneName : UnderOneName queue (.run id)) :
    Invariant { queue with
      tasks := queue.tasks.run id.toString ⟨queue.submitted.length, id⟩
      submitted := queue.submitted ++ [⟨queue.submitted.length, id⟩] } := by
  generalize new : (⟨queue.submitted.length, id⟩ : StreamTask) = task
  have lane : id.toString = task.lane := by rw [← new]; rfl
  have stream : id.baseID = task.stream := by rw [← new]; rfl
  have number : task.number = queue.submitted.length := by rw [← new]
  have fresh : task ∉ queue.submitted := fun member => by
    have := valid.number_lt task member
    omega
  have notStarted : task ∉ queue.started := mt (valid.started task) fresh
  have notAsking : task ∉ queue.semaphore.waiting := fun asks => by
    obtain ⟨_, i, pending⟩ := valid.asking task asks
    exact fresh (valid.pending_known pending)
  have tasks (i : Nat) : ((queue.tasks.run task.lane task).queues i).tasks =
      (queue.tasks.queues i).tasks ++
        if i = (queue.tasks.queue task.lane).1 then [task] else [] := by
    rw [run_queues]
    split <;> simp
  have waiting (i : Nat) : ((queue.tasks.run task.lane task).queues i).waiting =
      (queue.tasks.queues i).waiting ++
        if i = (queue.tasks.queue task.lane).1 then [task] else [] := by
    rw [run_queues]
    split <;> simp
  have pending (i : Nat) : ((queue.tasks.run task.lane task).queues i).pending =
      (queue.tasks.queues i).pending := by
    rw [run_queues]
    split <;> simp
  rw [lane]
  constructor <;> dsimp only
  · intro i other found
    rw [List.getElem?_append] at found
    split at found
    · exact valid.numbered i other found
    next beyond =>
      cases past : i - queue.submitted.length with
      | zero =>
        obtain rfl : task = other := by simpa [past] using found
        omega
      | succ n => simp [past] at found
  · exact valid.registered.run task
  · intro i other member
    rw [tasks] at member
    rcases List.mem_append.mp member with old | new
    · exact List.mem_append_left _ (valid.known i other old)
    · split at new
      · exact List.mem_append_right _ new
      · cases new
  · intro other member notEnded
    rcases List.mem_append.mp member with old | new
    · obtain ⟨i, held⟩ := valid.unfinished other old notEnded
      exact ⟨i, by rw [tasks]; exact List.mem_append_left _ held⟩
    · exact ⟨_, by rw [tasks, if_pos rfl]; exact List.mem_append_right _ new⟩
  · intro i
    rw [tasks, List.pairwise_append]
    refine ⟨valid.ordered i, by split <;> simp, fun old member new isNew => ?_⟩
    split at isNew
    · rw [List.mem_singleton.mp isNew, number]
      exact valid.number_lt old (valid.known i old member)
    · cases isNew
  · intro i other member
    rw [waiting] at member
    rcases List.mem_append.mp member with old | new
    · exact valid.waiting i other old
    · split at new
      · rw [List.mem_singleton.mp new]
        exact ⟨notStarted, notAsking⟩
      · cases new
  · intro other asks
    obtain ⟨notStarted, i, runs⟩ := valid.asking other asks
    exact ⟨notStarted, i, by rw [pending, runs]⟩
  · exact valid.askingOnce
  · intro other begun notEnded
    obtain ⟨i, runs⟩ := valid.running other begun notEnded
    exact ⟨i, by rw [pending, runs]⟩
  · exact fun other begun => List.mem_append_left _ (valid.started other begun)
  · exact valid.ended
  · intro first memberFirst notEnded second memberSecond notEnded' same
    rcases List.mem_append.mp memberFirst with old | new <;>
      rcases List.mem_append.mp memberSecond with old' | new'
    · exact valid.oneName first old notEnded second old' notEnded' same
    · rw [List.mem_singleton.mp new', ← stream] at same
      rw [List.mem_singleton.mp new', ← lane]
      exact oneName first old notEnded same
    · rw [List.mem_singleton.mp new, ← stream] at same
      rw [List.mem_singleton.mp new, ← lane]
      exact (oneName second old' notEnded' same.symm).symm
    · rw [List.mem_singleton.mp new, List.mem_singleton.mp new']
  · exact valid.inOrder
  · intro first begun second member same less
    rcases List.mem_append.mp member with old | new
    · exact valid.closed first begun second old same less
    · rw [List.mem_singleton.mp new, number] at less
      have := valid.number_lt first (valid.started first begun)
      omega

/-- A lane's next task asks for the semaphore. -/
theorem start {index : Nat} {task : StreamTask}
    (next : (queue.tasks.queues index).next = some task) (warnings : List String) :
    Invariant { queue with
      tasks := queue.tasks.update index ((queue.tasks.queues index).start task)
      semaphore := { queue.semaphore with waiting := queue.semaphore.waiting ++ [task] }
      warnings } := by
  obtain ⟨idle, waits⟩ := TaskQueue.next_eq next
  have member : task ∈ (queue.tasks.queues index).waiting := by
    rw [waits]
    simp
  obtain ⟨notStarted, notAsking⟩ := valid.waiting index task member
  have tasks (i : Nat) : ((queue.tasks.update index ((queue.tasks.queues index).start task)).queues
      i).tasks = (queue.tasks.queues i).tasks := by
    rw [update_queues]
    split
    next same => rw [same, TaskQueue.tasks_start next]
    next => rfl
  have stillPending {other : StreamTask} (pending : ∃ i, (queue.tasks.queues i).pending = some other) :
      ∃ i, ((queue.tasks.update index ((queue.tasks.queues index).start task)).queues i).pending =
        some other := by
    obtain ⟨i, runs⟩ := pending
    have apart : i ≠ index := by
      rintro rfl
      rw [idle] at runs
      cases runs
    exact ⟨i, by rw [update_queues, if_neg apart, runs]⟩
  constructor <;> dsimp only
  · exact valid.numbered
  · exact valid.registered.of_subset rfl fun i other held => tasks i ▸ held
  · exact fun i other held => valid.known i other (tasks i ▸ held)
  · intro other submitted notEnded
    obtain ⟨i, held⟩ := valid.unfinished other submitted notEnded
    exact ⟨i, (tasks i).symm ▸ held⟩
  · exact fun i => (tasks i).symm ▸ valid.ordered i
  · intro i other still
    have before : other ∈ (queue.tasks.queues i).waiting ∧ other ≠ task := by
      rw [update_queues] at still
      split at still
      next same =>
        subst same
        have later : other ∈ (queue.tasks.queues i).waiting.tail := still
        refine ⟨List.mem_of_mem_tail later, fun same => ?_⟩
        have ordered := valid.ordered i
        rw [TaskQueue.tasks, idle, waits] at ordered
        have less := (List.pairwise_cons.mp ordered).1 other later
        rw [same] at less
        omega
      next apart =>
        refine ⟨still, fun same => apart ?_⟩
        subst same
        exact valid.registered.same_queue (TaskQueue.mem_tasks.mpr (.inr still))
          (TaskQueue.mem_tasks.mpr (.inr member)) rfl
    obtain ⟨noStart, noAsk⟩ := valid.waiting i other before.1
    exact ⟨noStart, by simp [noAsk, before.2]⟩
  · intro other asks
    rcases List.mem_append.mp asks with old | new
    · exact ⟨(valid.asking other old).1, stillPending (valid.asking other old).2⟩
    · rw [List.mem_singleton.mp new]
      exact ⟨notStarted, index, by rw [update_queues, if_pos rfl]; rfl⟩
  · exact List.nodup_append.mpr ⟨valid.askingOnce, by simp, by
      rintro other asks _ new rfl
      exact notAsking (List.mem_singleton.mp new ▸ asks)⟩
  · exact fun other begun notEnded => stillPending (valid.running other begun notEnded)
  · exact valid.started
  · exact valid.ended
  · exact valid.oneName
  · exact valid.inOrder
  · exact valid.closed

/-- The first waiter's task starts: every earlier task of its stream has started, as it
has the same name unless it has ended, and would be before it in its lane. -/
theorem acquire {task : StreamTask} {waiting : List StreamTask}
    (asks : queue.semaphore.waiting = task :: waiting) (count : Nat) :
    Invariant { queue with semaphore := { count, waiting }, started := queue.started ++ [task] } := by
  have first : task ∈ queue.semaphore.waiting := by simp [asks]
  obtain ⟨notStarted, index, pending⟩ := valid.asking task first
  have submitted := valid.pending_known pending
  have notEnded : task ∉ queue.ended := mt (valid.ended task) notStarted
  have askOnce := valid.askingOnce
  rw [asks, List.nodup_cons] at askOnce
  have earlierStarted : ∀ other ∈ queue.submitted, other.stream = task.stream →
      other.number < task.number → other ∈ queue.started := by
    intro other member same less
    by_contra missing
    have notEnded' : other ∉ queue.ended := mt (valid.ended other) missing
    obtain ⟨i, held⟩ := valid.unfinished other member notEnded'
    have heldTask := TaskQueue.mem_tasks.mpr (.inl pending)
    have lane := valid.oneName other member notEnded' task submitted notEnded same
    obtain rfl := valid.registered.same_queue held heldTask lane
    have ordered := valid.ordered i
    rw [TaskQueue.tasks_settle pending] at ordered held
    rcases List.mem_cons.mp held with rfl | behind
    · omega
    · have := (List.pairwise_cons.mp ordered).1 other behind
      omega
  constructor <;> dsimp only
  · exact valid.numbered
  · exact valid.registered
  · exact valid.known
  · exact valid.unfinished
  · exact valid.ordered
  · intro i other waits
    obtain ⟨noStart, noAsk⟩ := valid.waiting i other waits
    rw [asks, List.mem_cons, not_or] at noAsk
    exact ⟨by simp [noStart, noAsk.1], noAsk.2⟩
  · intro other still
    obtain ⟨noStart, runs⟩ := valid.asking other (by simp [asks, still])
    have apart : other ≠ task := fun same => askOnce.1 (same ▸ still)
    exact ⟨by simp [noStart, apart], runs⟩
  · exact askOnce.2
  · intro other begun notEnded
    rcases List.mem_append.mp begun with old | new
    · exact valid.running other old notEnded
    · exact ⟨index, by rw [List.mem_singleton.mp new, pending]⟩
  · intro other begun
    rcases List.mem_append.mp begun with old | new
    · exact valid.started other old
    · exact List.mem_singleton.mp new ▸ submitted
  · exact fun other done => List.mem_append_left _ (valid.ended other done)
  · exact valid.oneName
  · refine List.pairwise_append.mpr ⟨valid.inOrder, by simp, fun other begun _ new same => ?_⟩
    rw [List.mem_singleton.mp new] at same ⊢
    by_contra later
    rcases Nat.lt_or_ge task.number other.number with less | equal
    · exact notStarted (valid.closed other begun task submitted same.symm less)
    · have sameTask := valid.eq_of_number (valid.started other begun) submitted (by omega)
      exact notStarted (sameTask ▸ begun)
  · intro other begun earlier member same less
    rcases List.mem_append.mp begun with old | new
    · exact List.mem_append_left _ (valid.closed other old earlier member same less)
    · rw [List.mem_singleton.mp new] at same less
      exact List.mem_append_left _ (earlierStarted earlier member same less)

theorem finish {task : StreamTask} (runs : task ∈ queue.running) (count : Nat) :
    Invariant { queue with
      semaphore := { queue.semaphore with count }
      ended := queue.ended ++ [task] } := by
  have begun : task ∈ queue.started := List.mem_of_mem_filter runs
  have notEnded {other : StreamTask} (still : other ∉ queue.ended ++ [task]) :
      other ∉ queue.ended := fun done => still (List.mem_append_left _ done)
  constructor <;> dsimp only
  · exact valid.numbered
  · exact valid.registered
  · exact valid.known
  · exact fun other member still => valid.unfinished other member (notEnded still)
  · exact valid.ordered
  · exact valid.waiting
  · exact valid.asking
  · exact valid.askingOnce
  · exact fun other begun still => valid.running other begun (notEnded still)
  · exact valid.started
  · intro other done
    rcases List.mem_append.mp done with old | new
    · exact valid.ended other old
    · exact List.mem_singleton.mp new ▸ begun
  · exact fun first member still second member' still' =>
      valid.oneName first member (notEnded still) second member' (notEnded still')
  · exact valid.inOrder
  · exact valid.closed

/-- A lane only lets go of a task that has ended. -/
theorem settle {index : Nat} {task : StreamTask}
    (pending : (queue.tasks.queues index).pending = some task) (done : task ∈ queue.ended)
    (removing : List String) :
    Invariant { queue with
      tasks := queue.tasks.update index (queue.tasks.queues index).settle
      removing } := by
  have subset (i : Nat) : ∀ other ∈ ((queue.tasks.update index
      (queue.tasks.queues index).settle).queues i).tasks, other ∈ (queue.tasks.queues i).tasks := by
    intro other held
    rw [update_queues] at held
    split at held
    next same =>
      rw [same, TaskQueue.tasks_settle pending]
      exact List.mem_cons_of_mem _ held
    next => exact held
  have stillPending {other : StreamTask} (notEnded : other ∉ queue.ended)
      (runs : ∃ i, (queue.tasks.queues i).pending = some other) :
      ∃ i, ((queue.tasks.update index (queue.tasks.queues index).settle).queues i).pending =
        some other := by
    obtain ⟨i, runs⟩ := runs
    have apart : i ≠ index := by
      rintro rfl
      obtain rfl := Option.some.inj (pending.symm.trans runs)
      exact notEnded done
    exact ⟨i, by rw [update_queues, if_neg apart, runs]⟩
  constructor <;> dsimp only
  · exact valid.numbered
  · exact valid.registered.of_subset rfl subset
  · exact fun i other held => valid.known i other (subset i other held)
  · intro other member notEnded
    obtain ⟨i, held⟩ := valid.unfinished other member notEnded
    refine ⟨i, ?_⟩
    rw [update_queues]
    split
    next same =>
      rw [same, TaskQueue.tasks_settle pending] at held
      rcases List.mem_cons.mp held with rfl | behind
      · exact absurd done notEnded
      · exact behind
    next => exact held
  · intro i
    have ordered := valid.ordered i
    rw [update_queues]
    split
    next same =>
      rw [same, TaskQueue.tasks_settle pending] at ordered
      exact (List.pairwise_cons.mp ordered).2
    next => exact ordered
  · intro i other waits
    refine valid.waiting i other ?_
    rw [update_queues] at waits
    split at waits
    next same => exact same ▸ waits
    next => exact waits
  · intro other asks
    obtain ⟨notStarted, runs⟩ := valid.asking other asks
    exact ⟨notStarted, stillPending (mt (valid.ended other) notStarted) runs⟩
  · exact valid.askingOnce
  · exact fun other begun notEnded => stillPending notEnded (valid.running other begun notEnded)
  · exact valid.started
  · exact valid.ended
  · exact valid.oneName
  · exact valid.inOrder
  · exact valid.closed

theorem remove (name : String) (removing : List String) :
    Invariant { queue with tasks := queue.tasks.remove name, removing } := by
  constructor <;> simp only [remove_queues]
  · exact valid.numbered
  · exact valid.registered.remove name
  · exact valid.known
  · exact valid.unfinished
  · exact valid.ordered
  · exact valid.waiting
  · exact valid.asking
  · exact valid.askingOnce
  · exact valid.running
  · exact valid.started
  · exact valid.ended
  · exact valid.oneName
  · exact valid.inOrder
  · exact valid.closed

theorem pause : Invariant { queue with tasks := queue.tasks.pause } := by
  constructor <;> simp only [pause_tasks, pause_waiting, pause_pending]
  · exact valid.numbered
  · exact valid.registered.of_subset rfl fun i task held => by simpa using held
  · exact valid.known
  · exact valid.unfinished
  · exact valid.ordered
  · exact valid.waiting
  · exact valid.asking
  · exact valid.askingOnce
  · exact valid.running
  · exact valid.started
  · exact valid.ended
  · exact valid.oneName
  · exact valid.inOrder
  · exact valid.closed

/-- One step, whichever it is. -/
theorem step {action : Action} {next : ExecutionQueue} (allowed : UnderOneName queue action)
    (stepped : queue.step action = some next) : Invariant next := by
  cases action with
  | run id =>
    obtain rfl := Option.some.inj stepped
    exact valid.run id allowed
  | start index =>
    simp only [ExecutionQueue.step] at stepped
    cases may : (queue.tasks.queues index).next with
    | none => simp [may] at stepped
    | some task =>
      simp only [may] at stepped
      obtain rfl := Option.some.inj stepped
      exact valid.start may _
  | acquire =>
    simp only [ExecutionQueue.step] at stepped
    split at stepped
    next count task waiting _ asks =>
      obtain rfl := Option.some.inj stepped
      exact valid.acquire asks count
    next => cases stepped
  | finish task =>
    simp only [ExecutionQueue.step] at stepped
    split at stepped
    next runs =>
      obtain rfl := Option.some.inj stepped
      exact valid.finish runs _
    next => cases stepped
  | settle index =>
    simp only [ExecutionQueue.step] at stepped
    cases pending : (queue.tasks.queues index).pending with
    | none => simp [pending] at stepped
    | some task =>
      simp only [pending] at stepped
      split at stepped
      next done =>
        obtain rfl := Option.some.inj stepped
        exact valid.settle pending done _
      next => cases stepped
  | remove name =>
    simp only [ExecutionQueue.step] at stepped
    split at stepped
    next due =>
      obtain rfl := Option.some.inj stepped
      exact valid.remove name _
    next => cases stepped
  | pause =>
    obtain rfl := Option.some.inj stepped
    exact valid.pause

theorem exclusive : Exclusive queue := by
  intro task runs other runs' same
  obtain ⟨begun, notEnded⟩ : task ∈ queue.started ∧ task ∉ queue.ended := by
    simpa [ExecutionQueue.running] using runs
  obtain ⟨begun', notEnded'⟩ : other ∈ queue.started ∧ other ∉ queue.ended := by
    simpa [ExecutionQueue.running] using runs'
  obtain ⟨i, pending⟩ := valid.running task begun notEnded
  obtain ⟨j, pending'⟩ := valid.running other begun' notEnded'
  have lane := valid.oneName task (valid.started task begun) notEnded other
    (valid.started other begun') notEnded' same
  obtain rfl := valid.registered.same_queue (TaskQueue.mem_tasks.mpr (.inl pending))
    (TaskQueue.mem_tasks.mpr (.inl pending')) lane
  exact Option.some.inj (pending.symm.trans pending')

theorem startsInOrder : StartsInOrder queue := by
  intro stream
  refine prefix_of_closed StreamTask.number ?_ ?_ ?_ ?_
  · refine (List.pairwise_filter.mpr ?_)
    refine valid.inOrder.imp fun less inStream inStream' => less ?_
    simp only [decide_eq_true_eq] at inStream inStream'
    rw [inStream, inStream']
  · refine List.Pairwise.filter _ ?_
    rw [List.pairwise_iff_getElem]
    intro i j withinI withinJ less
    rw [valid.numbered i _ (List.getElem?_eq_getElem withinI),
      valid.numbered j _ (List.getElem?_eq_getElem withinJ)]
    exact less
  · intro task member
    obtain ⟨begun, inStream⟩ := List.mem_filter.mp member
    exact List.mem_filter.mpr ⟨valid.started task begun, inStream⟩
  · intro task member other member' less
    obtain ⟨begun, inStream⟩ := List.mem_filter.mp member
    obtain ⟨submitted, inStream'⟩ := List.mem_filter.mp member'
    refine List.mem_filter.mpr ⟨valid.closed task begun other submitted ?_ less, inStream'⟩
    simp only [decide_eq_true_eq] at inStream inStream'
    rw [inStream, inStream']

end Invariant

/-- As long as tasks are submitted under one name per stream, those of a stream exclude
each other and start in order. -/
theorem streams_serialized {name : String} {concurrencyLimit : Nat} {queue : ExecutionQueue}
    (reached : Transition.Reaches step UnderOneName (make name concurrencyLimit) queue) :
    Exclusive queue ∧ StartsInOrder queue := by
  have valid : Invariant queue := reached.invariant (initial_invariant name concurrencyLimit)
    fun _ _ _ valid allowed stepped => valid.step allowed stepped
  exact ⟨valid.exclusive, valid.startsInOrder⟩

/-- A task for a commit never meets the condition while one for its stream is unfinished. -/
theorem commit_apart {queue : ExecutionQueue} {task : StreamTask} {id : CommitID}
    (nonempty : ∀ commit ∈ id.commit, commit.bytes ≠ []) (submitted : task ∈ queue.submitted)
    (notEnded : task ∉ queue.ended) (stream : task.id = .streamID id.baseID) :
    ¬UnderOneName queue (.run (.commitID id)) := by
  intro oneName
  have lane := oneName task submitted notEnded (by rw [StreamTask.stream, stream]; rfl)
  rw [StreamTask.lane, stream] at lane
  exact id.toString_ne_baseID nonempty lane.symm

def someStream : StreamID := ⟨TILE_TYPE_ID, ⟨[1]⟩⟩

def someCommit : CommitID := .make TILE_TYPE_ID ⟨[1]⟩ (some ⟨[2]⟩)

instance (queue : ExecutionQueue) (action : Action) : Decidable (UnderOneName queue action) := by
  cases action <;> unfold UnderOneName <;> infer_instance

/-- Two tasks of one stream, the second waiting behind the first. -/
def oneBehindOther : List Action :=
  [.run (.streamID someStream), .start 0, .run (.streamID someStream), .acquire]

/-- A task of a stream and one of a commit of it. -/
def commitBesideStream : List Action :=
  [.run (.streamID someStream), .start 0, .acquire, .run (.commitID someCommit), .start 1, .acquire]

def after (actions : List Action) : ExecutionQueue :=
  (Transition.run step (make "execution" 100) actions).getD (make "execution" 100)

theorem streams_serialized_oneBehindOther :
    Exclusive (after oneBehindOther) ∧ StartsInOrder (after oneBehindOther) :=
  streams_serialized (Transition.reaches_of_run
    (rfl : Transition.run step (make "execution" 100) oneBehindOther = some (after oneBehindOther))
    (by decide))

/-- The commit has a lane of its own, so its task runs at the same time. -/
theorem commit_runs_beside_stream :
    ¬∀ queue, Transition.Reaches step (fun _ _ => True) (make "execution" 100) queue →
      Exclusive queue ∧ StartsInOrder queue := by
  intro serialized
  have ran : Transition.run step (make "execution" 100) commitBesideStream =
      some (after commitBesideStream) := rfl
  have exclusive := (serialized _ (Transition.reaches_of_run ran (by decide))).1
  have same := exclusive ⟨0, .streamID someStream⟩ (by decide) ⟨1, .commitID someCommit⟩ (by decide) rfl
  cases same

end ExecutionQueue

end Ceramic
