import Mathlib.Data.List.Basic

/-! Named lanes of tasks. A lane is made when its name is first used and forgotten when
a task of it is done and nothing is left. Forgetting a lane does not stop its queue, so
the queues are kept apart from the names that lead to them. -/
namespace Ceramic

/-- A queue that runs one task at a time, first in, first out. -/
structure TaskQueue (Task : Type) where
  waiting : List Task := []
  pending : Option Task := none
  paused : Bool := false

namespace TaskQueue

variable {Task : Type}

/-- Deferred and running tasks. -/
def size (queue : TaskQueue Task) : Nat := queue.waiting.length + queue.pending.toList.length

def run (queue : TaskQueue Task) (task : Task) : TaskQueue Task :=
  { queue with waiting := queue.waiting ++ [task] }

/-- The next task, if one may start. -/
def next (queue : TaskQueue Task) : Option Task :=
  if queue.paused || queue.pending.isSome then none else queue.waiting.head?

def start (queue : TaskQueue Task) (task : Task) : TaskQueue Task :=
  { queue with pending := some task, waiting := queue.waiting.tail }

def settle (queue : TaskQueue Task) : TaskQueue Task := { queue with pending := none }

def pause (queue : TaskQueue Task) : TaskQueue Task := { queue with paused := true }

/-- The tasks a queue still has, the running one first. -/
def tasks (queue : TaskQueue Task) : List Task := queue.pending.toList ++ queue.waiting

variable {queue : TaskQueue Task} {task other : Task}

theorem size_eq_zero : queue.size = 0 ↔ queue.tasks = [] := by
  cases pending : queue.pending <;> simp [size, tasks, pending]

theorem mem_tasks : task ∈ queue.tasks ↔ queue.pending = some task ∨ task ∈ queue.waiting := by
  cases pending : queue.pending <;> simp [tasks, pending, eq_comm]

@[simp] theorem tasks_run : (queue.run task).tasks = queue.tasks ++ [task] := by
  simp [tasks, run]

@[simp] theorem tasks_pause : queue.pause.tasks = queue.tasks := rfl

@[simp] theorem pending_run : (queue.run task).pending = queue.pending := rfl

@[simp] theorem waiting_run : (queue.run task).waiting = queue.waiting ++ [task] := rfl

@[simp] theorem pending_start : (queue.start task).pending = some task := rfl

@[simp] theorem pending_settle : queue.settle.pending = none := rfl

@[simp] theorem waiting_settle : queue.settle.waiting = queue.waiting := rfl

@[simp] theorem pending_pause : queue.pause.pending = queue.pending := rfl

@[simp] theorem waiting_pause : queue.pause.waiting = queue.waiting := rfl

theorem next_eq (may : queue.next = some task) :
    queue.pending = none ∧ queue.waiting = task :: queue.waiting.tail := by
  unfold next at may
  split at may
  · cases may
  next free =>
    have idle : queue.pending.isSome = false := by
      cases pending : queue.pending <;> simp_all
    exact ⟨by simpa using idle, (List.cons_head?_tail may).symm⟩

/-- Starting a task changes which tasks run, not which there are or their order. -/
theorem tasks_start (may : queue.next = some task) : (queue.start task).tasks = queue.tasks := by
  obtain ⟨idle, waiting⟩ := next_eq may
  rw [tasks, tasks, idle, waiting]
  rfl

theorem tasks_settle (running : queue.pending = some task) :
    queue.tasks = task :: queue.settle.tasks := by
  simp [tasks, running]

end TaskQueue

/-- The queues are indexed in the order in which they are made; those from `created` on
are not made yet and empty. -/
structure NamedTaskQueue (Task : Type) where
  queues : Nat → TaskQueue Task := fun _ => {}
  created : Nat := 0
  lanes : List (String × Nat) := []

namespace NamedTaskQueue

variable {Task : Type}

def update (named : NamedTaskQueue Task) (index : Nat) (queue : TaskQueue Task) :
    NamedTaskQueue Task :=
  { named with queues := fun other => if other = index then queue else named.queues other }

/-- Return the existing queue, or create a new one. -/
def queue (named : NamedTaskQueue Task) (name : String) : Nat × NamedTaskQueue Task :=
  match named.lanes.lookup name with
  | some found => (found, named)
  | none => (named.created,
      { named with
        created := named.created + 1
        lanes := named.lanes ++ [(name, named.created)] })

/-- Called after a task is done. -/
def remove (named : NamedTaskQueue Task) (name : String) : NamedTaskQueue Task :=
  match named.lanes.lookup name with
  | some found =>
    if (named.queues found).size = 0
    then { named with lanes := named.lanes.filter fun lane => lane.1 != name }
    else named
  | none => named

/-- `run` and `add` differ in what they do with the result. -/
def run (named : NamedTaskQueue Task) (name : String) (task : Task) : NamedTaskQueue Task :=
  let (index, named) := named.queue name
  named.update index ((named.queues index).run task)

def pause (named : NamedTaskQueue Task) : NamedTaskQueue Task :=
  { named with queues := fun index =>
      if named.lanes.any (fun lane => lane.2 = index) then (named.queues index).pause
      else named.queues index }

/-- The name of every task still in a queue leads to that queue. -/
def Registered (key : Task → String) (named : NamedTaskQueue Task) : Prop :=
  ∀ index task, task ∈ (named.queues index).tasks → named.lanes.lookup (key task) = some index

@[simp] theorem update_queues (named : NamedTaskQueue Task) (index other : Nat)
    (queue : TaskQueue Task) : (named.update index queue).queues other =
      if other = index then queue else named.queues other := rfl

@[simp] theorem update_lanes (named : NamedTaskQueue Task) (index : Nat) (queue : TaskQueue Task) :
    (named.update index queue).lanes = named.lanes := rfl

@[simp] theorem queue_queues (named : NamedTaskQueue Task) (name : String) :
    (named.queue name).2.queues = named.queues := by
  unfold queue
  split <;> rfl

@[simp] theorem remove_queues (named : NamedTaskQueue Task) (name : String) :
    (named.remove name).queues = named.queues := by
  unfold remove
  split
  · split <;> rfl
  · rfl

@[simp] theorem pause_tasks (named : NamedTaskQueue Task) (index : Nat) :
    (named.pause.queues index).tasks = (named.queues index).tasks := by
  unfold pause
  dsimp only
  split <;> rfl

@[simp] theorem pause_pending (named : NamedTaskQueue Task) (index : Nat) :
    (named.pause.queues index).pending = (named.queues index).pending := by
  unfold pause
  dsimp only
  split <;> rfl

@[simp] theorem pause_waiting (named : NamedTaskQueue Task) (index : Nat) :
    (named.pause.queues index).waiting = (named.queues index).waiting := by
  unfold pause
  dsimp only
  split <;> rfl

theorem run_queues (named : NamedTaskQueue Task) (name : String) (task : Task) (index : Nat) :
    (named.run name task).queues index =
      if index = (named.queue name).1 then (named.queues index).run task else named.queues index := by
  unfold run
  dsimp only
  rw [update_queues, queue_queues]
  split
  next same => rw [same]
  next => rfl

theorem run_lanes (named : NamedTaskQueue Task) (name : String) (task : Task) :
    (named.run name task).lanes.lookup name = some (named.queue name).1 ∧
    ∀ other index, named.lanes.lookup other = some index →
      (named.run name task).lanes.lookup other = some index := by
  unfold run
  dsimp only
  rw [update_lanes]
  unfold queue
  cases found : named.lanes.lookup name with
  | some index => exact ⟨found, fun _ _ known => known⟩
  | none =>
    refine ⟨by simp [List.lookup_append, found], fun other index known => ?_⟩
    simp [List.lookup_append, known]

theorem lookup_filter_ne {lanes : List (String × Nat)} {name other : String} (apart : other ≠ name) :
    (lanes.filter fun lane => lane.1 != name).lookup other = lanes.lookup other := by
  induction lanes with
  | nil => rfl
  | cons lane lanes ih =>
    obtain ⟨first, index⟩ := lane
    by_cases same : first = name
    · have different : (other == first) = false := by simpa [same] using apart
      simp [same, List.lookup_cons, ih, same ▸ different]
    · simp [same, List.lookup_cons, ih]

variable {key : Task → String} {named : NamedTaskQueue Task}

theorem Registered.run (registered : Registered key named) (task : Task) :
    Registered key (named.run (key task) task) := by
  obtain ⟨own, others⟩ := run_lanes named (key task) task
  intro index other member
  rw [run_queues] at member
  split at member
  next lane =>
    rw [TaskQueue.tasks_run] at member
    rcases List.mem_append.mp member with old | new
    · exact others _ _ (registered index other old)
    · obtain rfl := List.mem_singleton.mp new
      rw [own, lane]
  next => exact others _ _ (registered index other member)

/-- A lane is only forgotten when it is empty. -/
theorem Registered.remove (registered : Registered key named) (name : String) :
    Registered key (named.remove name) := by
  intro index task member
  rw [remove_queues] at member
  have known := registered index task member
  unfold NamedTaskQueue.remove
  split
  next found lane =>
    split
    next empty =>
      by_cases same : key task = name
      · obtain rfl : found = index := Option.some.inj (lane.symm.trans (same ▸ known))
        rw [TaskQueue.size_eq_zero.mp empty] at member
        cases member
      · rw [lookup_filter_ne same]
        exact known
    next => exact known
  next => exact known

/-- The queues may lose tasks without the lanes changing. -/
theorem Registered.of_subset {fewer : NamedTaskQueue Task} (registered : Registered key named)
    (lanes : fewer.lanes = named.lanes)
    (subset : ∀ index task, task ∈ (fewer.queues index).tasks → task ∈ (named.queues index).tasks) :
    Registered key fewer := by
  intro index task member
  rw [lanes]
  exact registered index task (subset index task member)

/-- Tasks of one name are in one queue. -/
theorem Registered.same_queue (registered : Registered key named) {i j : Nat} {task other : Task}
    (first : task ∈ (named.queues i).tasks) (second : other ∈ (named.queues j).tasks)
    (same : key task = key other) : i = j := by
  have lane := registered i task first
  rw [same, registered j other second] at lane
  exact (Option.some.inj lane).symm

end NamedTaskQueue

end Ceramic
