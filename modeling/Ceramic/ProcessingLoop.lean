import Ceramic.Library.Transition
import Mathlib.Data.List.Perm.Basic

/-! A loop over a source of values. The tasks of a bounded queue fetch a value each and handle it; an abort ends both,
but the call of the handler that a task waited for goes on by itself. -/
namespace Ceramic

/-- How far a task has come. -/
inductive LoopTaskStage (α : Type) where
  /-- `source.next()` is raced against the abort. -/
  | fetching
  /-- The task has started when the abort was settled already, which wins the race. -/
  | decided
  /-- `undefined` is no value. -/
  | received (value : Option α)
  | handling (value : α)
  deriving DecidableEq, Repr

structure ProcessingTask (α : Type) where
  id : Nat
  stage : LoopTaskStage α
  deriving DecidableEq, Repr

/-- Where the loop is that adds tasks to the queue. -/
inductive ProcessingStage where
  | adding
  | onEmpty
  | onIdle
  | complete
  deriving DecidableEq, Repr

/-- How far `stop` has come. -/
inductive StopStage where
  | none
  /-- `source.return()` is under way. -/
  | returning
  | waiting
  | resolved
  deriving DecidableEq, Repr

/-- A loop that has been started. -/
structure ProcessingLoop (α : Type) where
  /-- The tasks of the queue that have not started. -/
  waiting : Nat
  tasks : List (ProcessingTask α)
  /-- How many tasks have started so far. -/
  started : Nat
  /-- The tasks that have called `source.next()`, in the order of the calls that are not answered. -/
  requests : List Nat
  /-- The source has no more values. -/
  ended : Bool
  taskIds : List String
  isDone : Bool
  main : ProcessingStage
  aborted : Bool
  /-- `doneOnAbortSignal` is settled. -/
  doneOnAbort : Bool
  /-- The values whose handlers run without a task that waits for them. -/
  leftBehind : List α
  stopping : StopStage
  deriving DecidableEq, Repr

inductive LoopAction (α : Type) where
  | add
  | emptied
  | start
  /-- The source answers the first request with a value. -/
  | yields (value : Option α)
  | ends
  | throws
  /-- The race of a task goes to the abort. -/
  | fetchAborted (i : Nat)
  | dispatch (i : Nat)
  | handled (i : Nat)
  | handlerFailed (i : Nat)
  /-- The race of a handler goes to the abort. -/
  | handlingAborted (i : Nat)
  /-- A handler that was left behind ends. -/
  | leftHandled (k : Nat)
  | abortSettled
  | idle
  | stop
  | sourceReturned
  | stopped
  deriving DecidableEq, Repr

namespace ProcessingTask

variable {α : Type}

/-- The stage of a task that runs. -/
def stageOf (i : Nat) : List (ProcessingTask α) → Option (LoopTaskStage α)
  | [] => none
  | task :: tasks => if task.id = i then some task.stage else stageOf i tasks

def setStage (i : Nat) (stage : LoopTaskStage α) : List (ProcessingTask α) → List (ProcessingTask α)
  | [] => []
  | task :: tasks => if task.id = i then { task with stage } :: tasks else task :: setStage i stage tasks

/-- The tasks without one that is done. -/
def remove (i : Nat) : List (ProcessingTask α) → List (ProcessingTask α)
  | [] => []
  | task :: tasks => if task.id = i then tasks else task :: remove i tasks

/-- The value that a task handles. -/
def handles (task : ProcessingTask α) : Option α :=
  match task.stage with
  | .handling value => some value
  | _ => none

end ProcessingTask

namespace ProcessingLoop

open ProcessingTask

variable {α : Type} (toUniqueString : α → String) (limit : Nat)

/-- The state after the call of `start`. -/
def initial : ProcessingLoop α where
  waiting := 0
  tasks := []
  started := 0
  requests := []
  ended := false
  taskIds := []
  isDone := false
  main := .adding
  aborted := false
  doneOnAbort := false
  leftBehind := []
  stopping := .none

/-- The values that tasks handle. -/
def handledValues (loop : ProcessingLoop α) : List α := loop.tasks.filterMap handles

/-- The values whose handlers run. -/
def running (loop : ProcessingLoop α) : List α := loop.handledValues ++ loop.leftBehind

/-- `while (!isDone)` -/
def afterIteration (isDone : Bool) : ProcessingStage := if isDone then .onIdle else .adding

/-- The task `i` has fetched a value. -/
def dispatch (loop : ProcessingLoop α) (i : Nat) : Option α → ProcessingLoop α
  | none => { loop with isDone := false, tasks := remove i loop.tasks }
  | some value =>
    if toUniqueString value ∈ loop.taskIds then { loop with isDone := false, tasks := remove i loop.tasks }
    else { loop with
      isDone := false
      taskIds := toUniqueString value :: loop.taskIds
      tasks := setStage i (.handling value) loop.tasks }

/-- The task `i` is at the end of its race for a handler. -/
def release (loop : ProcessingLoop α) (i : Nat) (value : α) : ProcessingLoop α :=
  { loop with taskIds := loop.taskIds.erase (toUniqueString value), tasks := remove i loop.tasks }

/-- The first request is answered. -/
def answered (loop : ProcessingLoop α) (i : Nat) (rest : List Nat) (answer : ProcessingLoop α → ProcessingLoop α) :
    ProcessingLoop α :=
  match stageOf i loop.tasks with
  | some .fetching => answer { loop with requests := rest }
  | _ => { loop with requests := rest }

def step (loop : ProcessingLoop α) : LoopAction α → Option (ProcessingLoop α)
  | .add =>
    if loop.main = .adding then some { loop with
      waiting := loop.waiting + 1
      main := if limit ≤ loop.waiting + 1 + loop.tasks.length then .onEmpty else afterIteration loop.isDone }
    else none
  | .emptied =>
    if loop.main = .onEmpty ∧ loop.waiting = 0 then some { loop with main := afterIteration loop.isDone } else none
  | .start =>
    if 0 < loop.waiting ∧ loop.tasks.length < limit then some { loop with
      waiting := loop.waiting - 1
      tasks := loop.tasks ++ [⟨loop.started, if loop.doneOnAbort then .decided else .fetching⟩]
      started := loop.started + 1
      requests := loop.requests ++ [loop.started] }
    else none
  | .yields value =>
    match loop.requests with
    | i :: rest =>
      if loop.ended then none
      else some (loop.answered i rest fun loop => { loop with tasks := setStage i (.received value) loop.tasks })
    | [] => none
  | .ends =>
    match loop.requests with
    | i :: rest => some ({ loop with ended := true }.answered i rest fun loop =>
        { loop with isDone := true, tasks := remove i loop.tasks })
    | [] => none
  | .throws =>
    match loop.requests with
    | i :: rest =>
      if loop.ended then none
      else some ({ loop with ended := true }.answered i rest fun loop => { loop with tasks := remove i loop.tasks })
    | [] => none
  | .fetchAborted i =>
    match loop.doneOnAbort, stageOf i loop.tasks with
    | true, some .fetching | true, some .decided => some { loop with isDone := true, tasks := remove i loop.tasks }
    | _, _ => none
  | .dispatch i =>
    match stageOf i loop.tasks with
    | some (.received value) => some (loop.dispatch toUniqueString i value)
    | _ => none
  | .handled i =>
    match stageOf i loop.tasks with
    | some (.handling value) => some (loop.release toUniqueString i value)
    | _ => none
  | .handlerFailed i =>
    match stageOf i loop.tasks with
    | some (.handling value) => some { loop.release toUniqueString i value with aborted := true }
    | _ => none
  | .handlingAborted i =>
    match loop.doneOnAbort, stageOf i loop.tasks with
    | true, some (.handling value) => some { loop.release toUniqueString i value with
        leftBehind := loop.leftBehind ++ [value] }
    | _, _ => none
  | .leftHandled k => some { loop with leftBehind := loop.leftBehind.eraseIdx k }
  | .abortSettled => if loop.aborted then some { loop with doneOnAbort := true } else none
  | .idle =>
    if loop.main = .onIdle ∧ loop.waiting = 0 ∧ loop.tasks = [] then some { loop with main := .complete } else none
  | .stop =>
    if loop.stopping = .none then some { loop with aborted := true, stopping := .returning } else none
  | .sourceReturned =>
    if loop.stopping = .returning then some { loop with ended := true, stopping := .waiting } else none
  | .stopped =>
    if loop.stopping = .waiting ∧ loop.main = .complete ∧ loop.waiting = 0 ∧ loop.tasks = [] then
      some { loop with stopping := .resolved }
    else none

/-- What becomes of a value that a task has received: nothing if it is `undefined` or a value of the same id is being
handled, otherwise its handler runs. -/
def Treated (loop next : ProcessingLoop α) (i : Nat) : Option α → Prop
  | none => True
  | some value => (∃ other ∈ loop.handledValues, toUniqueString other = toUniqueString value) ∨
    stageOf i next.tasks = some (.handling value)

/-- The loop while handlers run: no more than the limit, and of one id only one that has not been left behind by an
abort. Each value that comes before an abort is received by a task and treated. When the loop is complete no task is
left, and when it has stopped only what was left behind runs. -/
structure Discipline (loop : ProcessingLoop α) : Prop where
  limited : loop.running.length ≤ limit
  distinct : (loop.handledValues.map toUniqueString).Nodup
  leftBehind : loop.aborted = false → loop.leftBehind = []
  received : ∀ value next, loop.aborted = false → step toUniqueString limit loop (.yields value) = some next →
    ∃ i, stageOf i loop.tasks = some .fetching ∧ stageOf i next.tasks = some (.received value)
  treated : ∀ i value, stageOf i loop.tasks = some (.received value) →
    (∃ next, step toUniqueString limit loop (.dispatch i) = some next) ∧
    ∀ action next, step toUniqueString limit loop action = some next →
      stageOf i next.tasks = some (.received value) ∨
        action = .dispatch i ∧ Treated toUniqueString loop next i value
  complete : loop.main = .complete → loop.waiting = 0 ∧ loop.tasks = [] ∧ (loop.ended = true ∨ loop.aborted = true)
  stopped : loop.stopping = .resolved → loop.tasks = [] ∧ loop.running = loop.leftBehind

end ProcessingLoop

namespace ProcessingTask

variable {α : Type} {tasks : List (ProcessingTask α)} {i j : Nat} {stage : LoopTaskStage α}

theorem stageOf_nil : stageOf i ([] : List (ProcessingTask α)) = none := rfl

theorem stageOf_cons (task : ProcessingTask α) :
    stageOf i (task :: tasks) = if task.id = i then some task.stage else stageOf i tasks := rfl

theorem setStage_cons (task : ProcessingTask α) (next : LoopTaskStage α) : setStage i next (task :: tasks) =
    if task.id = i then { task with stage := next } :: tasks else task :: setStage i next tasks := rfl

theorem remove_cons (task : ProcessingTask α) :
    remove i (task :: tasks) = if task.id = i then tasks else task :: remove i tasks := rfl

/-- The tasks around one that runs, and what is made of them. -/
theorem split_of_stageOf (at_ : stageOf i tasks = some stage) :
    ∃ front back, tasks = front ++ ⟨i, stage⟩ :: back ∧ remove i tasks = front ++ back ∧
      ∀ next, setStage i next tasks = front ++ ⟨i, next⟩ :: back := by
  induction tasks with
  | nil => cases at_
  | cons task tasks ih =>
    obtain ⟨id, itsStage⟩ := task
    by_cases same : id = i
    · subst same
      have isStage : itsStage = stage := by simpa [stageOf_cons] using at_
      subst isStage
      exact ⟨[], tasks, rfl, by simp [remove_cons], fun next => by simp [setStage_cons]⟩
    · have behind : stageOf i tasks = some stage := by simpa [stageOf_cons, same] using at_
      obtain ⟨front, back, rfl, removed, set⟩ := ih behind
      refine ⟨⟨id, itsStage⟩ :: front, back, rfl, ?_, fun next => ?_⟩
      · simp [remove_cons, same, removed]
      · simp [setStage_cons, same, set]

theorem stageOf_setStage_self (at_ : stageOf i tasks = some stage) (next : LoopTaskStage α) :
    stageOf i (setStage i next tasks) = some next := by
  induction tasks with
  | nil => cases at_
  | cons task tasks ih =>
    by_cases same : task.id = i
    · simp [setStage_cons, stageOf_cons, same]
    · have behind : stageOf i tasks = some stage := by simpa [stageOf_cons, same] using at_
      simp [setStage_cons, stageOf_cons, same, ih behind]

@[simp] theorem stageOf_setStage_other (other : j ≠ i) (next : LoopTaskStage α) :
    stageOf j (setStage i next tasks) = stageOf j tasks := by
  induction tasks with
  | nil => rfl
  | cons task tasks ih =>
    by_cases same : task.id = i
    · simp [setStage_cons, stageOf_cons, same, Ne.symm other]
    · simp [setStage_cons, stageOf_cons, same, ih]

@[simp] theorem stageOf_remove_other (other : j ≠ i) : stageOf j (remove i tasks) = stageOf j tasks := by
  induction tasks with
  | nil => rfl
  | cons task tasks ih =>
    by_cases same : task.id = i
    · simp [remove_cons, stageOf_cons, same, Ne.symm other]
    · simp [remove_cons, stageOf_cons, same, ih]

theorem stageOf_append (task : ProcessingTask α) :
    stageOf j (tasks ++ [task]) = (stageOf j tasks).or (if task.id = j then some task.stage else none) := by
  induction tasks with
  | nil => simp [stageOf_cons, stageOf_nil]
  | cons first tasks ih =>
    by_cases same : first.id = j
    · simp [stageOf_cons, same]
    · simp [stageOf_cons, same, ih]

end ProcessingTask

namespace ProcessingLoop

open ProcessingTask

section

variable {α : Type} {toUniqueString : α → String} {limit : Nat} {loop next : ProcessingLoop α}

/-- Tasks that may handle a value, or do so. -/
def mayHandle (task : ProcessingTask α) : Bool :=
  match task.stage with
  | .decided => false
  | _ => true

/-- The invariant of the loop. Until the abort is settled every request is that of a task that waits for it; from then
on no task is added that would handle a value, so the handlers that are left behind take the places of tasks. -/
structure Invariant (toUniqueString : α → String) (limit : Nat) (loop : ProcessingLoop α) : Prop where
  bounded : loop.tasks.length ≤ limit
  handlers : (loop.tasks.filter mayHandle).length + loop.leftBehind.length ≤ limit
  taskIds : loop.taskIds.Perm (loop.handledValues.map toUniqueString)
  distinct : loop.taskIds.Nodup
  settled : loop.doneOnAbort = true → loop.aborted = true
  before : loop.doneOnAbort = false → loop.leftBehind = [] ∧
    ∀ i ∈ loop.requests, stageOf i loop.tasks = some .fetching
  fresh : ∀ i stage, stageOf i loop.tasks = some stage → i < loop.started
  requested : loop.requests.Nodup ∧ ∀ i ∈ loop.requests, i < loop.started
  finished : loop.isDone = true ∨ loop.main = .onIdle ∨ loop.main = .complete →
    loop.ended = true ∨ loop.aborted = true
  complete : loop.main = .complete → loop.waiting = 0 ∧ loop.tasks = []
  stopping : loop.stopping ≠ .none → loop.aborted = true
  resolved : loop.stopping = .resolved → loop.main = .complete

theorem handledValues_split {front back : List (ProcessingTask α)} {task : ProcessingTask α}
    (split : loop.tasks = front ++ task :: back) :
    loop.handledValues = front.filterMap handles ++ (task.handles.toList ++ back.filterMap handles) := by
  unfold handledValues
  rw [split, List.filterMap_append, List.filterMap_cons]
  cases task.handles <;> rfl

variable {i : Nat} {stage : LoopTaskStage α}

/-- A loop that is complete has no task. -/
theorem Invariant.not_complete (inv : Invariant toUniqueString limit loop) (at_ : stageOf i loop.tasks = some stage) :
    loop.main ≠ .complete := by
  intro complete
  rw [(inv.complete complete).2] at at_
  cases at_

theorem Invariant.not_requested (inv : Invariant toUniqueString limit loop) (at_ : stageOf i loop.tasks = some stage)
    (other : stage ≠ .fetching) (pending : loop.doneOnAbort = false) : i ∉ loop.requests := by
  intro requested
  have fetching := (inv.before pending).2 i requested
  exact other (Option.some.inj (at_.symm.trans fetching))

theorem Invariant.fresh_removed (inv : Invariant toUniqueString limit loop) (at_ : stageOf i loop.tasks = some stage)
    (j : Nat) (other : LoopTaskStage α) (found : stageOf j (remove i loop.tasks) = some other) : j < loop.started := by
  by_cases same : j = i
  · exact same ▸ inv.fresh i stage at_
  · rw [stageOf_remove_other same] at found
    exact inv.fresh j other found

theorem Invariant.fresh_set (inv : Invariant toUniqueString limit loop) (at_ : stageOf i loop.tasks = some stage)
    (new : LoopTaskStage α) (j : Nat) (other : LoopTaskStage α)
    (found : stageOf j (setStage i new loop.tasks) = some other) : j < loop.started := by
  by_cases same : j = i
  · exact same ▸ inv.fresh i stage at_
  · rw [stageOf_setStage_other same] at found
    exact inv.fresh j other found

/-- A task that handles no value is done. -/
theorem Invariant.removed (inv : Invariant toUniqueString limit loop) (at_ : stageOf i loop.tasks = some stage)
    (idle : handles ⟨i, stage⟩ = none) {requests : List Nat} {isDone ended : Bool}
    (fewer : requests.Sublist loop.requests) (served : loop.doneOnAbort = false → i ∉ requests)
    (stays : loop.ended = true → ended = true)
    (done : isDone = true → loop.isDone = true ∨ ended = true ∨ loop.aborted = true) :
    Invariant toUniqueString limit { loop with tasks := remove i loop.tasks, requests, isDone, ended } := by
  obtain ⟨front, back, split, gone, _⟩ := split_of_stageOf at_
  have handled : (remove i loop.tasks).filterMap handles = loop.handledValues := by
    rw [handledValues_split split, gone, List.filterMap_append, idle]
    rfl
  have overThen : loop.ended = true ∨ loop.aborted = true → ended = true ∨ loop.aborted = true := Or.imp_left stays
  have bounded := inv.bounded
  have handlers := inv.handlers
  rw [split] at bounded handlers
  refine { inv with
    bounded := ?_
    handlers := ?_
    taskIds := ?_
    before := ?_
    fresh := inv.fresh_removed at_
    requested := ⟨inv.requested.1.sublist fewer, fun j member => inv.requested.2 j (fewer.subset member)⟩
    finished := ?_
    complete := fun complete => absurd complete (inv.not_complete at_) }
  · simp only [gone, List.length_append, List.length_cons] at bounded ⊢
    omega
  · simp only [gone, List.filter_append, List.length_append, List.filter_cons] at handlers ⊢
    split at handlers
    all_goals
      try rw [List.length_cons] at handlers
      omega
  · unfold handledValues
    rw [handled]
    exact inv.taskIds
  · intro pending
    obtain ⟨none, fetching⟩ := inv.before pending
    refine ⟨none, fun j member => ?_⟩
    have other : j ≠ i := fun same => served pending (same ▸ member)
    exact (stageOf_remove_other other).trans (fetching j (fewer.subset member))
  · rintro (isDone | main)
    · rcases done isDone with before | ended
      · exact overThen (inv.finished (.inl before))
      · exact ended
    · exact overThen (inv.finished (.inr main))

/-- A task goes on without a handler. -/
theorem Invariant.fetched (inv : Invariant toUniqueString limit loop) {rest : List Nat}
    (requests : loop.requests = i :: rest) (at_ : stageOf i loop.tasks = some .fetching) (value : Option α) :
    Invariant toUniqueString limit { loop with tasks := setStage i (.received value) loop.tasks, requests := rest } := by
  obtain ⟨front, back, split, _, set⟩ := split_of_stageOf at_
  have set := set (.received value)
  have handled : (setStage i (.received value) loop.tasks).filterMap handles = loop.handledValues := by
    rw [handledValues_split split, set, List.filterMap_append]
    rfl
  have bounded := inv.bounded
  have handlers := inv.handlers
  have requested := inv.requested
  rw [split] at bounded handlers
  rw [requests] at requested
  refine { inv with
    bounded := ?_
    handlers := ?_
    taskIds := ?_
    before := ?_
    fresh := inv.fresh_set at_ _
    requested := ⟨requested.1.of_cons, fun j member => requested.2 j (List.mem_cons_of_mem i member)⟩
    complete := fun complete => absurd complete (inv.not_complete at_) }
  · simpa [set] using bounded
  · simpa [set, List.filter_cons, mayHandle] using handlers
  · unfold handledValues
    rw [handled]
    exact inv.taskIds
  · intro pending
    obtain ⟨none, fetching⟩ := inv.before pending
    refine ⟨none, fun j member => ?_⟩
    have other : j ≠ i := fun same => (List.nodup_cons.mp requested.1).1 (same ▸ member)
    exact (stageOf_setStage_other other _).trans (fetching j (requests ▸ List.mem_cons_of_mem i member))

/-- A task begins to handle a value. -/
theorem Invariant.handling (inv : Invariant toUniqueString limit loop) {value : α}
    (at_ : stageOf i loop.tasks = some (.received (some value))) (absent : toUniqueString value ∉ loop.taskIds) :
    Invariant toUniqueString limit { loop with
      isDone := false
      taskIds := toUniqueString value :: loop.taskIds
      tasks := setStage i (.handling value) loop.tasks } := by
  obtain ⟨front, back, split, _, set⟩ := split_of_stageOf at_
  have set := set (.handling value)
  have taskIds := inv.taskIds
  have bounded := inv.bounded
  have handlers := inv.handlers
  rw [handledValues_split split] at taskIds
  rw [split] at bounded handlers
  refine { inv with
    bounded := ?_
    handlers := ?_
    taskIds := ?_
    distinct := List.nodup_cons.mpr ⟨absent, inv.distinct⟩
    before := ?_
    fresh := inv.fresh_set at_ _
    finished := ?_
    complete := fun complete => absurd complete (inv.not_complete at_) }
  · simpa [set] using bounded
  · simpa [set, List.filter_cons, mayHandle] using handlers
  · unfold handledValues
    rw [set, List.filterMap_append, List.map_append]
    refine (taskIds.cons _).trans ?_
    rw [List.map_append]
    exact List.perm_middle.symm
  · intro pending
    obtain ⟨none, fetching⟩ := inv.before pending
    refine ⟨none, fun j member => ?_⟩
    have other : j ≠ i := fun same => inv.not_requested at_ nofun pending (same ▸ member)
    exact (stageOf_setStage_other other _).trans (fetching j member)
  · rintro (isDone | main)
    · cases isDone
    · exact inv.finished (.inr main)

/-- A task has waited for its handler to the end, or up to the abort: then the handler is left behind. -/
theorem Invariant.released (inv : Invariant toUniqueString limit loop) {value : α}
    (at_ : stageOf i loop.tasks = some (.handling value)) {leftBehind : List α} {aborted : Bool}
    (stays : loop.aborted = true → aborted = true)
    (left : leftBehind = loop.leftBehind ∨ loop.doneOnAbort = true ∧ leftBehind = loop.leftBehind ++ [value]) :
    Invariant toUniqueString limit { loop.release toUniqueString i value with leftBehind, aborted } := by
  obtain ⟨front, back, split, gone, _⟩ := split_of_stageOf at_
  have overThen : loop.ended = true ∨ loop.aborted = true → loop.ended = true ∨ aborted = true := Or.imp_right stays
  have taskIds := inv.taskIds
  have bounded := inv.bounded
  have handlers := inv.handlers
  rw [handledValues_split split] at taskIds
  rw [split] at bounded handlers
  have perm : loop.taskIds.Perm (toUniqueString value :: ((remove i loop.tasks).filterMap handles).map toUniqueString) := by
    rw [gone, List.filterMap_append, List.map_append]
    refine taskIds.trans ?_
    rw [List.map_append]
    exact List.perm_middle
  refine { inv with
    bounded := ?_
    handlers := ?_
    taskIds := ?_
    distinct := inv.distinct.erase _
    settled := fun settled => stays (inv.settled settled)
    before := ?_
    fresh := inv.fresh_removed at_
    finished := fun done => overThen (inv.finished done)
    complete := fun complete => absurd complete (inv.not_complete at_)
    stopping := fun stopping => stays (inv.stopping stopping) }
  · simp only [release, gone, List.length_append, List.length_cons] at bounded ⊢
    omega
  · have more : leftBehind.length ≤ loop.leftBehind.length + 1 := by
      rcases left with rfl | ⟨_, rfl⟩
      · exact Nat.le_succ _
      · exact Nat.le_of_eq List.length_append
    simp [gone, release, List.filter_cons, mayHandle] at handlers ⊢
    omega
  · have erased := perm.erase (toUniqueString value)
    rwa [List.erase_cons_head] at erased
  · intro pending
    obtain ⟨none, fetching⟩ := inv.before pending
    refine ⟨?_, fun j member => ?_⟩
    · rcases left with rfl | ⟨settled, _⟩
      · exact none
      · exact absurd (pending.symm.trans settled) Bool.false_ne_true
    · have other : j ≠ i := fun same => inv.not_requested at_ nofun pending (same ▸ member)
      exact (stageOf_remove_other other).trans (fetching j member)

theorem Invariant.added (inv : Invariant toUniqueString limit loop) (more : 0 < loop.waiting)
    (space : loop.tasks.length < limit) :
    Invariant toUniqueString limit { loop with
      waiting := loop.waiting - 1
      tasks := loop.tasks ++ [⟨loop.started, if loop.doneOnAbort then .decided else .fetching⟩]
      started := loop.started + 1
      requests := loop.requests ++ [loop.started] } := by
  have idle : handles ⟨loop.started, if loop.doneOnAbort then .decided else .fetching⟩ = (none : Option α) := by
    cases loop.doneOnAbort <;> rfl
  have isNew : stageOf loop.started loop.tasks = none := by
    cases found : stageOf loop.started loop.tasks with
    | none => rfl
    | some stage => exact absurd (inv.fresh _ _ found) (Nat.lt_irrefl _)
  refine { inv with
    bounded := ?_
    handlers := ?_
    taskIds := ?_
    before := ?_
    fresh := ?_
    requested := ?_
    complete := fun complete => absurd (inv.complete complete).1 (Nat.pos_iff_ne_zero.mp more) }
  · rw [List.length_append]
    exact space
  · rw [List.filter_append, List.length_append]
    cases pending : loop.doneOnAbort with
    | true => simpa [mayHandle, List.filter_cons] using inv.handlers
    | false =>
      rw [(inv.before pending).1]
      exact Nat.lt_of_le_of_lt (List.length_filter_le _ _) space
  · unfold handledValues
    rw [List.filterMap_append, List.filterMap_cons, idle, List.filterMap_nil, List.append_nil]
    exact inv.taskIds
  · intro pending
    obtain ⟨none, fetching⟩ := inv.before pending
    refine ⟨none, fun j member => ?_⟩
    have pending : loop.doneOnAbort = false := pending
    rcases List.mem_append.mp member with old | new
    · rw [stageOf_append, fetching j old]
      rfl
    · obtain rfl := List.mem_singleton.mp new
      rw [stageOf_append, isNew, pending]
      simp
  · intro j stage found
    rw [stageOf_append] at found
    cases old : stageOf j loop.tasks with
    | some stage => exact Nat.lt_succ_of_lt (inv.fresh j stage old)
    | none =>
      rw [old, Option.none_or] at found
      by_cases same : loop.started = j
      · exact Nat.lt_succ_of_le (Nat.le_of_eq same.symm)
      · rw [if_neg same] at found
        cases found
  · have single : [loop.started].Nodup := List.nodup_cons.mpr ⟨List.not_mem_nil, List.nodup_nil⟩
    refine ⟨List.nodup_append.mpr ⟨inv.requested.1, single, ?_⟩, fun j member => ?_⟩
    · intro j old k new
      obtain rfl := List.mem_singleton.mp new
      exact Nat.ne_of_lt (inv.requested.2 j old)
    · rcases List.mem_append.mp member with old | new
      · exact Nat.lt_succ_of_lt (inv.requested.2 j old)
      · obtain rfl := List.mem_singleton.mp new
        exact Nat.lt_succ_self _

theorem Invariant.initial : Invariant toUniqueString limit initial where
  bounded := Nat.zero_le _
  handlers := Nat.zero_le _
  taskIds := .nil
  distinct := List.nodup_nil
  settled := nofun
  before _ := ⟨rfl, nofun⟩
  fresh _ _ := nofun
  requested := ⟨List.nodup_nil, nofun⟩
  finished := by simp [ProcessingLoop.initial]
  complete := nofun
  stopping := by simp [ProcessingLoop.initial]
  resolved := nofun

theorem Invariant.answered (inv : Invariant toUniqueString limit loop) {rest : List Nat}
    (requests : loop.requests = i :: rest) (ended : Bool) (stays : loop.ended = true → ended = true) :
    Invariant toUniqueString limit { loop with requests := rest, ended } := by
  have requested := inv.requested
  rw [requests] at requested
  refine { inv with
    before := fun pending => ?_
    requested := ⟨requested.1.of_cons, fun j member => requested.2 j (List.mem_cons_of_mem i member)⟩
    finished := fun finished => (inv.finished finished).imp_left stays }
  obtain ⟨none, fetching⟩ := inv.before pending
  exact ⟨none, fun j member => fetching j (requests ▸ List.mem_cons_of_mem i member)⟩

theorem afterIteration_ne {isDone : Bool} : afterIteration isDone ≠ .complete := by
  cases isDone <;> nofun

theorem afterIteration_onIdle {isDone : Bool} (idle : afterIteration isDone = .onIdle) : isDone = true := by
  cases isDone with
  | true => rfl
  | false => cases idle

/-- The loop that adds tasks has taken a turn. -/
theorem Invariant.iterated (inv : Invariant toUniqueString limit loop) (before : loop.main ≠ .complete)
    {main : ProcessingStage} (turn : main = .onEmpty ∨ main = afterIteration loop.isDone) (waiting : Nat) :
    Invariant toUniqueString limit { loop with main, waiting } := by
  have incomplete : main ≠ .complete := by
    rcases turn with rfl | rfl
    · nofun
    · exact afterIteration_ne
  refine { inv with
    finished := ?_
    complete := fun complete => absurd complete incomplete
    resolved := fun resolved => absurd (inv.resolved resolved) before }
  rintro (isDone | idle | complete)
  · exact inv.finished (.inl isDone)
  · rcases turn with rfl | rfl
    · cases idle
    · exact inv.finished (.inl (afterIteration_onIdle idle))
  · exact absurd complete incomplete

/-- The answer of a request gets to its task, if that waits for it. -/
theorem answered_cases {rest : List Nat} {answer : ProcessingLoop α → ProcessingLoop α} :
    stageOf i loop.tasks = some .fetching ∧ loop.answered i rest answer = answer { loop with requests := rest } ∨
      stageOf i loop.tasks ≠ some .fetching ∧ loop.answered i rest answer = { loop with requests := rest } := by
  unfold ProcessingLoop.answered
  split
  next fetching => exact .inl ⟨fetching, rfl⟩
  next other => exact .inr ⟨other, rfl⟩

/-- The last answer of the source ends the task that asked for it, if it has not been aborted by then. -/
theorem Invariant.answeredLast (inv : Invariant toUniqueString limit loop) {rest : List Nat} {isDone : Bool}
    (requests : loop.requests = i :: rest) {answer : ProcessingLoop α → ProcessingLoop α}
    (removes : answer { loop with ended := true, requests := rest } =
      { loop with tasks := remove i loop.tasks, requests := rest, isDone, ended := true }) :
    Invariant toUniqueString limit ({ loop with ended := true }.answered i rest answer) := by
  have served : i ∉ rest := (List.nodup_cons.mp (requests ▸ inv.requested.1)).1
  have fewer : rest.Sublist loop.requests := requests ▸ List.sublist_cons_self i rest
  rcases answered_cases with ⟨fetching, answered⟩ | ⟨_, answered⟩
  · rw [answered, removes]
    exact inv.removed fetching rfl fewer (fun _ => served) (fun _ => rfl) fun _ => .inr (.inl rfl)
  · rw [answered]
    exact inv.answered requests true fun _ => rfl

section

attribute [local simp] step

theorem yields_eq_some {value : Option α} : step toUniqueString limit loop (.yields value) = some next ↔
    ∃ i rest, loop.requests = i :: rest ∧ loop.ended = false ∧
      next = loop.answered i rest fun loop => { loop with tasks := setStage i (.received value) loop.tasks } := by
  cases requests : loop.requests with
  | nil => simp [requests]
  | cons i rest => cases ended : loop.ended <;> simp [requests, ended, eq_comm]

theorem ends_eq_some : step toUniqueString limit loop .ends = some next ↔
    ∃ i rest, loop.requests = i :: rest ∧ next = { loop with ended := true }.answered i rest fun loop =>
      { loop with isDone := true, tasks := remove i loop.tasks } := by
  cases requests : loop.requests with
  | nil => simp [requests]
  | cons i rest => simp [requests, eq_comm]

theorem throws_eq_some : step toUniqueString limit loop .throws = some next ↔
    ∃ i rest, loop.requests = i :: rest ∧ loop.ended = false ∧
      next = { loop with ended := true }.answered i rest fun loop => { loop with tasks := remove i loop.tasks } := by
  cases requests : loop.requests with
  | nil => simp [requests]
  | cons i rest => cases ended : loop.ended <;> simp [requests, ended, eq_comm]

theorem fetchAborted_eq_some : step toUniqueString limit loop (.fetchAborted i) = some next ↔
    loop.doneOnAbort = true ∧
      (∃ stage, stageOf i loop.tasks = some stage ∧ (stage = .fetching ∨ stage = .decided)) ∧
      next = { loop with isDone := true, tasks := remove i loop.tasks } := by
  cases settled : loop.doneOnAbort with
  | false => simp [settled]
  | true =>
    cases at_ : stageOf i loop.tasks with
    | none => simp [settled, at_]
    | some stage => cases stage <;> simp [settled, at_, eq_comm]

theorem dispatch_eq_some : step toUniqueString limit loop (.dispatch i) = some next ↔
    ∃ value, stageOf i loop.tasks = some (.received value) ∧ next = loop.dispatch toUniqueString i value := by
  cases at_ : stageOf i loop.tasks with
  | none => simp [at_]
  | some stage => cases stage <;> simp [at_, eq_comm]

theorem handled_eq_some : step toUniqueString limit loop (.handled i) = some next ↔
    ∃ value, stageOf i loop.tasks = some (.handling value) ∧ next = loop.release toUniqueString i value := by
  cases at_ : stageOf i loop.tasks with
  | none => simp [at_]
  | some stage => cases stage <;> simp [at_, eq_comm]

theorem handlerFailed_eq_some : step toUniqueString limit loop (.handlerFailed i) = some next ↔
    ∃ value, stageOf i loop.tasks = some (.handling value) ∧
      next = { loop.release toUniqueString i value with aborted := true } := by
  cases at_ : stageOf i loop.tasks with
  | none => simp [at_]
  | some stage => cases stage <;> simp [at_, eq_comm]

theorem handlingAborted_eq_some : step toUniqueString limit loop (.handlingAborted i) = some next ↔
    loop.doneOnAbort = true ∧ ∃ value, stageOf i loop.tasks = some (.handling value) ∧
      next = { loop.release toUniqueString i value with leftBehind := loop.leftBehind ++ [value] } := by
  cases settled : loop.doneOnAbort with
  | false => simp [settled]
  | true =>
    cases at_ : stageOf i loop.tasks with
    | none => simp [settled, at_]
    | some stage => cases stage <;> simp [settled, at_, eq_comm]

end

theorem Invariant.dispatched (inv : Invariant toUniqueString limit loop) {value : Option α}
    (at_ : stageOf i loop.tasks = some (.received value)) :
    Invariant toUniqueString limit (loop.dispatch toUniqueString i value) := by
  have left : Invariant toUniqueString limit { loop with isDone := false, tasks := remove i loop.tasks } :=
    inv.removed at_ rfl (.refl _) (inv.not_requested at_ nofun) id nofun
  cases value with
  | none => exact left
  | some value =>
    by_cases busy : toUniqueString value ∈ loop.taskIds
    · dsimp only [ProcessingLoop.dispatch]
      rwa [if_pos busy]
    · dsimp only [ProcessingLoop.dispatch]
      rw [if_neg busy]
      exact inv.handling at_ busy

theorem Invariant.step {action : LoopAction α} (inv : Invariant toUniqueString limit loop)
    (stepped : step toUniqueString limit loop action = some next) : Invariant toUniqueString limit next := by
  cases action with
  | add =>
    obtain ⟨adding, rfl⟩ := Option.ite_some_none_eq_some.mp stepped
    refine inv.iterated (by rw [adding]; nofun) ?_ _
    split
    next => exact .inl rfl
    next => exact .inr rfl
  | emptied =>
    obtain ⟨⟨onEmpty, _⟩, rfl⟩ := Option.ite_some_none_eq_some.mp stepped
    exact inv.iterated (by rw [onEmpty]; nofun) (.inr rfl) loop.waiting
  | start =>
    obtain ⟨⟨more, space⟩, rfl⟩ := Option.ite_some_none_eq_some.mp stepped
    exact inv.added more space
  | yields value =>
    obtain ⟨i, rest, requests, _, rfl⟩ := yields_eq_some.mp stepped
    rcases answered_cases with ⟨fetching, answer⟩ | ⟨_, answer⟩
    · rw [answer]
      exact inv.fetched requests fetching value
    · rw [answer]
      exact inv.answered requests loop.ended id
  | ends =>
    obtain ⟨i, rest, requests, rfl⟩ := ends_eq_some.mp stepped
    exact inv.answeredLast requests rfl
  | throws =>
    obtain ⟨i, rest, requests, _, rfl⟩ := throws_eq_some.mp stepped
    exact inv.answeredLast requests rfl
  | fetchAborted i =>
    obtain ⟨settled, ⟨stage, at_, waits⟩, rfl⟩ := fetchAborted_eq_some.mp stepped
    have idle : handles ⟨i, stage⟩ = none := by rcases waits with rfl | rfl <;> rfl
    refine inv.removed at_ idle (.refl _) (fun pending => ?_) id fun _ => .inr (.inr (inv.settled settled))
    exact absurd (pending.symm.trans settled) Bool.false_ne_true
  | dispatch i =>
    obtain ⟨value, at_, rfl⟩ := dispatch_eq_some.mp stepped
    exact inv.dispatched at_
  | handled i =>
    obtain ⟨value, at_, rfl⟩ := handled_eq_some.mp stepped
    exact inv.released at_ id (.inl rfl)
  | handlerFailed i =>
    obtain ⟨value, at_, rfl⟩ := handlerFailed_eq_some.mp stepped
    exact inv.released at_ (fun _ => rfl) (.inl rfl)
  | handlingAborted i =>
    obtain ⟨settled, value, at_, rfl⟩ := handlingAborted_eq_some.mp stepped
    exact inv.released at_ id (.inr ⟨settled, rfl⟩)
  | leftHandled k =>
    obtain rfl := Option.some.inj stepped
    have fewer : (loop.leftBehind.eraseIdx k).length ≤ loop.leftBehind.length :=
      (List.eraseIdx_sublist loop.leftBehind k).length_le
    refine { inv with
      handlers := Nat.le_trans (Nat.add_le_add_left fewer _) inv.handlers
      before := fun pending => ?_ }
    obtain ⟨none, fetching⟩ := inv.before pending
    exact ⟨by rw [none]; rfl, fetching⟩
  | abortSettled =>
    obtain ⟨aborted, rfl⟩ := Option.ite_some_none_eq_some.mp stepped
    exact { inv with settled := fun _ => aborted, before := nofun }
  | idle =>
    obtain ⟨⟨onIdle, waiting, tasks⟩, rfl⟩ := Option.ite_some_none_eq_some.mp stepped
    refine { inv with
      finished := fun _ => inv.finished (.inr (.inl onIdle))
      complete := fun _ => ⟨waiting, tasks⟩
      resolved := fun _ => rfl }
  | stop =>
    obtain ⟨_, rfl⟩ := Option.ite_some_none_eq_some.mp stepped
    exact { inv with
      settled := fun _ => rfl
      finished := fun _ => .inr rfl
      stopping := fun _ => rfl
      resolved := nofun }
  | sourceReturned =>
    obtain ⟨returning, rfl⟩ := Option.ite_some_none_eq_some.mp stepped
    exact { inv with
      finished := fun _ => .inl rfl
      stopping := fun _ => inv.stopping (by rw [returning]; nofun)
      resolved := nofun }
  | stopped =>
    obtain ⟨⟨waiting, complete, _⟩, rfl⟩ := Option.ite_some_none_eq_some.mp stepped
    exact { inv with
      stopping := fun _ => inv.stopping (by rw [waiting]; nofun)
      resolved := fun _ => complete }

/-- Tasks that are not this one change or end. -/
theorem stageOf_kept {j : Nat} {other : LoopTaskStage α} (at_ : stageOf i loop.tasks = some stage)
    (changed : stageOf j loop.tasks = some other) (apart : other ≠ stage) (new : LoopTaskStage α) :
    stageOf i (remove j loop.tasks) = some stage ∧ stageOf i (setStage j new loop.tasks) = some stage := by
  have ne : i ≠ j := by
    rintro rfl
    exact apart (Option.some.inj (changed.symm.trans at_))
  rw [stageOf_remove_other ne, stageOf_setStage_other ne]
  exact ⟨at_, at_⟩

/-- A task keeps the value that it has received until it dispatches it. -/
theorem received_kept {value : Option α} {action : LoopAction α} (at_ : stageOf i loop.tasks = some (.received value))
    (stepped : step toUniqueString limit loop action = some next) :
    stageOf i next.tasks = some (.received value) ∨ action = .dispatch i := by
  cases action with
  | add =>
    obtain ⟨_, rfl⟩ := Option.ite_some_none_eq_some.mp stepped
    exact .inl at_
  | emptied =>
    obtain ⟨_, rfl⟩ := Option.ite_some_none_eq_some.mp stepped
    exact .inl at_
  | start =>
    obtain ⟨_, rfl⟩ := Option.ite_some_none_eq_some.mp stepped
    refine .inl ?_
    rw [stageOf_append, at_]
    rfl
  | yields other =>
    obtain ⟨j, rest, _, _, rfl⟩ := yields_eq_some.mp stepped
    rcases answered_cases with ⟨fetching, answer⟩ | ⟨_, answer⟩
    · rw [answer]
      exact .inl (stageOf_kept at_ fetching nofun _).2
    · rw [answer]
      exact .inl at_
  | ends =>
    obtain ⟨j, rest, _, rfl⟩ := ends_eq_some.mp stepped
    rcases answered_cases with ⟨fetching, answer⟩ | ⟨_, answer⟩
    · rw [answer]
      exact .inl (stageOf_kept at_ fetching nofun .decided).1
    · rw [answer]
      exact .inl at_
  | throws =>
    obtain ⟨j, rest, _, _, rfl⟩ := throws_eq_some.mp stepped
    rcases answered_cases with ⟨fetching, answer⟩ | ⟨_, answer⟩
    · rw [answer]
      exact .inl (stageOf_kept at_ fetching nofun .decided).1
    · rw [answer]
      exact .inl at_
  | fetchAborted j =>
    obtain ⟨_, ⟨stage, waits, isStage⟩, rfl⟩ := fetchAborted_eq_some.mp stepped
    have apart : stage ≠ .received value := by rcases isStage with rfl | rfl <;> nofun
    exact .inl (stageOf_kept at_ waits apart .decided).1
  | dispatch j =>
    obtain ⟨other, received, rfl⟩ := dispatch_eq_some.mp stepped
    by_cases same : j = i
    · exact .inr (congrArg _ same)
    · refine .inl ?_
      have kept : stageOf i (loop.dispatch toUniqueString j other).tasks = stageOf i loop.tasks := by
        unfold ProcessingLoop.dispatch
        split
        next => exact stageOf_remove_other (Ne.symm same)
        next value =>
          split
          next => exact stageOf_remove_other (Ne.symm same)
          next => exact stageOf_setStage_other (Ne.symm same) _
      exact kept.trans at_
  | handled j =>
    obtain ⟨other, handling, rfl⟩ := handled_eq_some.mp stepped
    exact .inl (stageOf_kept at_ handling nofun .decided).1
  | handlerFailed j =>
    obtain ⟨other, handling, rfl⟩ := handlerFailed_eq_some.mp stepped
    exact .inl (stageOf_kept at_ handling nofun .decided).1
  | handlingAborted j =>
    obtain ⟨_, other, handling, rfl⟩ := handlingAborted_eq_some.mp stepped
    exact .inl (stageOf_kept at_ handling nofun .decided).1
  | leftHandled k =>
    obtain rfl := Option.some.inj stepped
    exact .inl at_
  | abortSettled =>
    obtain ⟨_, rfl⟩ := Option.ite_some_none_eq_some.mp stepped
    exact .inl at_
  | idle =>
    obtain ⟨_, rfl⟩ := Option.ite_some_none_eq_some.mp stepped
    exact .inl at_
  | stop =>
    obtain ⟨_, rfl⟩ := Option.ite_some_none_eq_some.mp stepped
    exact .inl at_
  | sourceReturned =>
    obtain ⟨_, rfl⟩ := Option.ite_some_none_eq_some.mp stepped
    exact .inl at_
  | stopped =>
    obtain ⟨_, rfl⟩ := Option.ite_some_none_eq_some.mp stepped
    exact .inl at_

/-- A value that is dispatched is treated: one of the same id is skipped only while that is handled. -/
theorem Invariant.treated (inv : Invariant toUniqueString limit loop) {value : Option α}
    (at_ : stageOf i loop.tasks = some (.received value)) :
    Treated toUniqueString loop (loop.dispatch toUniqueString i value) i value := by
  cases value with
  | none => trivial
  | some value =>
    dsimp only [ProcessingLoop.dispatch, Treated]
    by_cases busy : toUniqueString value ∈ loop.taskIds
    · exact .inl (List.mem_map.mp (inv.taskIds.mem_iff.mp busy))
    · rw [if_neg busy]
      exact .inr (stageOf_setStage_self at_ _)

theorem mayHandle_of_handles {task : ProcessingTask α} (some : task.handles.isSome = true) : mayHandle task = true := by
  unfold handles at some
  unfold mayHandle
  split at some
  next stage => rw [stage]
  next => cases some

theorem handledValues_length : loop.handledValues.length ≤ (loop.tasks.filter mayHandle).length := by
  unfold handledValues
  induction loop.tasks with
  | nil => exact Nat.zero_le _
  | cons task tasks ih =>
    rw [List.filterMap_cons, List.filter_cons]
    cases handled : task.handles with
    | none =>
      dsimp only
      split
      next => exact Nat.le_succ_of_le ih
      next => exact ih
    | some value =>
      rw [if_pos (mayHandle_of_handles (by rw [handled]; rfl))]
      exact Nat.succ_le_succ ih

theorem Invariant.disciplined (inv : Invariant toUniqueString limit loop) : Discipline toUniqueString limit loop where
  limited := by
    unfold running
    rw [List.length_append]
    exact Nat.le_trans (Nat.add_le_add_right handledValues_length _) inv.handlers
  distinct := inv.taskIds.nodup_iff.mp inv.distinct
  leftBehind aborted := by
    refine (inv.before (Bool.eq_false_iff.mpr fun settled => ?_)).1
    exact absurd (aborted.symm.trans (inv.settled settled)) Bool.false_ne_true
  received value next aborted stepped := by
    obtain ⟨i, rest, requests, _, rfl⟩ := yields_eq_some.mp stepped
    have pending : loop.doneOnAbort = false := Bool.eq_false_iff.mpr fun settled =>
      absurd (aborted.symm.trans (inv.settled settled)) Bool.false_ne_true
    have fetching := (inv.before pending).2 i (requests ▸ List.mem_cons_self)
    refine ⟨i, fetching, ?_⟩
    rcases answered_cases with ⟨_, answer⟩ | ⟨other, _⟩
    · rw [answer]
      exact stageOf_setStage_self fetching _
    · exact absurd fetching other
  treated i value at_ := by
    refine ⟨⟨_, dispatch_eq_some.mpr ⟨value, at_, rfl⟩⟩, fun action next stepped => ?_⟩
    rcases received_kept at_ stepped with kept | rfl
    · exact .inl kept
    · obtain ⟨other, at', rfl⟩ := dispatch_eq_some.mp stepped
      obtain rfl : value = other := LoopTaskStage.received.inj (Option.some.inj (at_.symm.trans at'))
      exact .inr ⟨rfl, inv.treated at_⟩
  complete complete := by
    obtain ⟨waiting, tasks⟩ := inv.complete complete
    exact ⟨waiting, tasks, inv.finished (.inr (.inr complete))⟩
  stopped resolved := by
    have tasks := (inv.complete (inv.resolved resolved)).2
    refine ⟨tasks, ?_⟩
    unfold running handledValues
    rw [tasks]
    rfl

/-- The discipline of the loop in every state of every run. -/
theorem discipline (reaches : Transition.Reaches (step toUniqueString limit) (fun _ _ => True) initial loop) :
    Discipline toUniqueString limit loop := by
  have inv : Invariant toUniqueString limit loop :=
    reaches.invariant .initial fun _ _ _ inv _ stepped => inv.step stepped
  exact inv.disciplined

end

/-- A loop of one task at a time is stopped while it handles a value. -/
def stoppedEarly : List (LoopAction String) :=
  [.add, .start, .emptied, .add, .yields (some "a"), .dispatch 0, .stop, .abortSettled, .handlingAborted 0, .start,
    .fetchAborted 1, .emptied, .idle, .sourceReturned, .stopped]

/-- The state that this ends in. -/
def stoppedLoop : ProcessingLoop String :=
  { initial with
    started := 2
    requests := [1]
    ended := true
    isDone := true
    main := .complete
    aborted := true
    doneOnAbort := true
    leftBehind := ["a"]
    stopping := .resolved }

theorem stoppedEarly_reaches :
    Transition.Reaches (step (toString : String → String) 1) (fun _ _ => True) initial stoppedLoop := by
  have ran : Transition.run (step (toString : String → String) 1) initial stoppedEarly = some stoppedLoop := rfl
  exact Transition.reaches_of_run ran (by decide)

theorem discipline_stoppedEarly : Discipline toString 1 stoppedLoop := discipline stoppedEarly_reaches

/-- The handler of the value still runs when the loop has stopped. -/
theorem handler_outlives_stop : ¬∀ loop : ProcessingLoop String,
    Transition.Reaches (step toString 1) (fun _ _ => True) initial loop → loop.stopping = .resolved →
      loop.running = [] := by
  intro all
  have none := all stoppedLoop stoppedEarly_reaches rfl
  cases none

end ProcessingLoop

end Ceramic
