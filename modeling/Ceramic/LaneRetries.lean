import Ceramic.NamedTaskQueue
import Ceramic.Library.Path

/-! Named lanes whose tasks may be retried. The closure that the error handler gets keeps the queue of
the failed task, and adds the task to that queue again, whatever has become of the lane. -/
namespace Ceramic

structure Submission (Task : Type) where
  name : String
  task : Task
  /-- It came by `add`, not by `run`. -/
  added : Bool
  deriving DecidableEq

/-- A task that is done, before the handlers for it were called. -/
structure Finished (Task : Type) where
  submission : Submission Task
  queue : Nat
  /-- `onError` is still to be called. -/
  failed : Bool
  deriving DecidableEq

structure RetriedLanes (Task : Type) where
  lanes : NamedTaskQueue (Submission Task) := {}
  finished : List (Finished Task) := []
  /-- The closures that `onError` has got, with the queue they are bound to. -/
  retries : List (Submission Task × Nat) := []
  submitted : List (Submission Task) := []
  started : List (Submission Task) := []

inductive LaneAction (Task : Type) where
  | submit (submission : Submission Task)
  /-- The queue starts the task that is next. -/
  | start (queue : Nat)
  | settle (queue : Nat) (failed : Bool)
  | onError (index : Nat)
  | onFinally (index : Nat)
  | retry (index : Nat)

namespace RetriedLanes

variable {Task : Type}

def step (state : RetriedLanes Task) : LaneAction Task → Option (RetriedLanes Task)
  | .submit submission => some { state with
      lanes := state.lanes.run submission.name submission
      submitted := state.submitted ++ [submission] }
  | .start queue => do
    let submission ← (state.lanes.queues queue).next
    return { state with
      lanes := state.lanes.update queue ((state.lanes.queues queue).start submission)
      started := state.started ++ [submission] }
  | .settle queue failed => do
    let submission ← (state.lanes.queues queue).pending
    return { state with
      lanes := state.lanes.update queue (state.lanes.queues queue).settle
      finished := state.finished ++ [⟨submission, queue, failed && submission.added⟩] }
  | .onError index => do
    let done ← state.finished[index]?
    guard done.failed
    return { state with
      finished := state.finished.set index { done with failed := false }
      retries := state.retries ++ [(done.submission, done.queue)] }
  | .onFinally index => do
    let done ← state.finished[index]?
    guard !done.failed
    return { state with
      lanes := state.lanes.remove done.submission.name
      finished := state.finished.eraseIdx index }
  | .retry index => do
    let (submission, queue) ← state.retries[index]?
    return { state with
      lanes := state.lanes.update queue ((state.lanes.queues queue).run submission)
      submitted := state.submitted ++ [submission] }

/-- A retry only takes place while its queue is still the lane of that name. -/
def IntoLane (state : RetriedLanes Task) : LaneAction Task → Prop
  | .retry index => ∀ retry ∈ state.retries[index]?, state.lanes.lanes.lookup retry.1.name = some retry.2
  | _ => True

/-- Two tasks of one name that run are one. -/
def Exclusive (state : RetriedLanes Task) : Prop :=
  ∀ i j first second, (state.lanes.queues i).pending = some first → (state.lanes.queues j).pending = some second →
    first.name = second.name → i = j

def named (name : String) (submissions : List (Submission Task)) : List (Submission Task) :=
  submissions.filter fun submission => submission.name = name

/-- The tasks of the name that wait in its lane. -/
def waiting (state : RetriedLanes Task) (name : String) : List (Submission Task) :=
  match state.lanes.lanes.lookup name with
  | some queue => named name (state.lanes.queues queue).waiting
  | none => []

/-- Each name's tasks start in the order in which they are submitted, and those that have not started wait. -/
structure Ordered (state : RetriedLanes Task) : Prop where
  registered : NamedTaskQueue.Registered Submission.name state.lanes
  order : ∀ name, named name state.submitted = named name state.started ++ state.waiting name

@[simp] theorem named_append (name : String) (first second : List (Submission Task)) :
    named name (first ++ second) = named name first ++ named name second := List.filter_append ..

theorem named_cons_self (submission : Submission Task) (rest : List (Submission Task)) :
    named submission.name (submission :: rest) = submission :: named submission.name rest :=
  List.filter_cons_of_pos (by simp)

theorem named_cons_ne {name : String} {submission : Submission Task} (apart : submission.name ≠ name)
    (rest : List (Submission Task)) : named name (submission :: rest) = named name rest :=
  List.filter_cons_of_neg (by simpa using apart)

theorem lookup_run_ne (lanes : NamedTaskQueue (Submission Task)) {name other : String} (apart : other ≠ name)
    (submission : Submission Task) : (lanes.run name submission).lanes.lookup other = lanes.lanes.lookup other := by
  unfold NamedTaskQueue.run NamedTaskQueue.queue
  cases found : lanes.lanes.lookup name with
  | some index => rfl
  | none =>
    have different : (other == name) = false := by simpa using apart
    simp [List.lookup_append, List.lookup_cons, different]

/-- A queue that is the lane of the name is the one that `run` takes. -/
theorem run_of_lookup {lanes : NamedTaskQueue (Submission Task)} {submission : Submission Task} {queue : Nat}
    (lane : lanes.lanes.lookup submission.name = some queue) :
    lanes.run submission.name submission = lanes.update queue ((lanes.queues queue).run submission) := by
  unfold NamedTaskQueue.run NamedTaskQueue.queue
  rw [lane]

variable {state next : RetriedLanes Task}

/-- What waits in a queue under a name waits in the lane of the name. -/
theorem Ordered.named_of_unknown (ordered : state.Ordered) {name : String} (unknown : state.lanes.lanes.lookup name = none)
    (queue : Nat) : named name (state.lanes.queues queue).waiting = [] := by
  apply List.filter_eq_nil_iff.mpr
  intro submission member named
  have lane := ordered.registered queue submission (TaskQueue.mem_tasks.mpr (.inr member))
  rw [of_decide_eq_true named, unknown] at lane
  cases lane

theorem Ordered.waiting_submit (ordered : state.Ordered) (submission : Submission Task) (name : String) :
    { state with lanes := state.lanes.run submission.name submission }.waiting name =
      state.waiting name ++ named name [submission] := by
  by_cases same : submission.name = name
  · subst same
    unfold waiting
    rw [(NamedTaskQueue.run_lanes ..).1]
    dsimp only
    rw [NamedTaskQueue.run_queues, if_pos rfl, TaskQueue.waiting_run, named_append]
    congr 1
    cases lane : state.lanes.lanes.lookup submission.name with
    | some queue =>
      have taken : (state.lanes.queue submission.name).1 = queue := by
        unfold NamedTaskQueue.queue
        rw [lane]
      rw [taken]
    | none => exact ordered.named_of_unknown lane _
  · unfold waiting
    rw [lookup_run_ne state.lanes (Ne.symm same), named_cons_ne same]
    cases lane : state.lanes.lanes.lookup name with
    | none => rfl
    | some queue =>
      dsimp only
      rw [NamedTaskQueue.run_queues]
      split
      · rw [TaskQueue.waiting_run, named_append, named_cons_ne same]
      · exact (List.append_nil _).symm

theorem Ordered.submit (ordered : state.Ordered) (submission : Submission Task) :
    { state with
      lanes := state.lanes.run submission.name submission
      submitted := state.submitted ++ [submission] }.Ordered where
  registered := ordered.registered.run submission
  order := by
    intro name
    have waits := ordered.waiting_submit submission name
    calc named name (state.submitted ++ [submission])
        = named name state.submitted ++ named name [submission] := named_append ..
      _ = named name state.started ++ (state.waiting name ++ named name [submission]) := by
        rw [ordered.order name, List.append_assoc]
      _ = _ := congrArg _ waits.symm

theorem Ordered.start (ordered : state.Ordered) {queue : Nat} {submission : Submission Task}
    (may : (state.lanes.queues queue).next = some submission) :
    { state with
      lanes := state.lanes.update queue ((state.lanes.queues queue).start submission)
      started := state.started ++ [submission] }.Ordered where
  registered := by
    refine ordered.registered.of_subset rfl fun index task member => ?_
    rw [NamedTaskQueue.update_queues] at member
    split at member
    next same => rwa [TaskQueue.tasks_start may, ← same] at member
    next => exact member
  order := by
    intro name
    obtain ⟨-, waits⟩ := TaskQueue.next_eq may
    have lane : state.lanes.lanes.lookup submission.name = some queue :=
      ordered.registered queue submission (TaskQueue.mem_tasks.mpr (.inr (waits ▸ List.mem_cons_self)))
    have order := ordered.order name
    unfold waiting at order ⊢
    rw [order, named_append, List.append_assoc]
    congr 1
    rw [NamedTaskQueue.update_lanes]
    by_cases same : submission.name = name
    · subst same
      rw [lane]
      dsimp only
      rw [NamedTaskQueue.update_queues, if_pos rfl, waits, named_cons_self, named_cons_self]
      rfl
    · rw [named_cons_ne same]
      cases state.lanes.lanes.lookup name with
      | none => rfl
      | some other =>
        dsimp only
        rw [NamedTaskQueue.update_queues]
        split
        next here =>
          rw [here, waits, named_cons_ne same]
          rfl
        next => rfl

theorem Ordered.settle (ordered : state.Ordered) {queue : Nat} {submission : Submission Task}
    (running : (state.lanes.queues queue).pending = some submission) (finished : List (Finished Task)) :
    { state with
      lanes := state.lanes.update queue (state.lanes.queues queue).settle
      finished }.Ordered where
  registered := by
    refine ordered.registered.of_subset rfl fun index task member => ?_
    rw [NamedTaskQueue.update_queues] at member
    split at member
    next same =>
      rw [same, TaskQueue.tasks_settle running]
      exact List.mem_cons_of_mem _ member
    next => exact member
  order := by
    intro name
    have order := ordered.order name
    unfold waiting at order ⊢
    rw [order, NamedTaskQueue.update_lanes]
    cases state.lanes.lanes.lookup name with
    | none => rfl
    | some other =>
      dsimp only
      rw [NamedTaskQueue.update_queues]
      split
      next here => rw [here, TaskQueue.waiting_settle]
      next => rfl

theorem lookup_filter_self (lanes : List (String × Nat)) (name : String) :
    (lanes.filter fun lane => lane.1 != name).lookup name = none := by
  apply List.lookup_eq_none_iff.mpr
  intro lane member
  have apart := (List.mem_filter.mp member).2
  rwa [bne_comm] at apart

/-- A lane is forgotten when nothing waits in it. -/
theorem waiting_remove (state : RetriedLanes Task) (forgotten name : String) :
    { state with lanes := state.lanes.remove forgotten }.waiting name = state.waiting name := by
  unfold waiting
  rw [NamedTaskQueue.remove_queues]
  unfold NamedTaskQueue.remove
  cases lane : state.lanes.lanes.lookup forgotten with
  | none => rfl
  | some found =>
    dsimp only
    by_cases empty : (state.lanes.queues found).size = 0
    · rw [if_pos empty]
      dsimp only
      by_cases same : name = forgotten
      · subst same
        have nothing : (state.lanes.queues found).waiting = [] :=
          (List.append_eq_nil_iff.mp (TaskQueue.size_eq_zero.mp empty)).2
        rw [lookup_filter_self, lane]
        dsimp only
        rw [nothing]
        rfl
      · rw [NamedTaskQueue.lookup_filter_ne same]
    · rw [if_neg empty]

theorem Ordered.step {action : LaneAction Task} (ordered : state.Ordered) (intoLane : state.IntoLane action)
    (stepped : state.step action = some next) : next.Ordered := by
  cases action with
  | submit submission =>
    obtain rfl := Option.some.inj stepped
    exact ordered.submit submission
  | start queue =>
    obtain ⟨submission, may, same⟩ := Option.bind_eq_some_iff.mp stepped
    obtain rfl := Option.some.inj same
    exact ordered.start may
  | settle queue failed =>
    obtain ⟨submission, running, same⟩ := Option.bind_eq_some_iff.mp stepped
    obtain rfl := Option.some.inj same
    exact ordered.settle running _
  | onError index =>
    obtain ⟨done, isDone, rest⟩ := Option.bind_eq_some_iff.mp stepped
    obtain ⟨_, _, same⟩ := Option.bind_eq_some_iff.mp rest
    obtain rfl := Option.some.inj same
    exact ⟨ordered.registered, ordered.order⟩
  | onFinally index =>
    obtain ⟨done, isDone, rest⟩ := Option.bind_eq_some_iff.mp stepped
    obtain ⟨_, _, same⟩ := Option.bind_eq_some_iff.mp rest
    obtain rfl := Option.some.inj same
    refine ⟨ordered.registered.remove _, fun name => (ordered.order name).trans ?_⟩
    exact congrArg _ (waiting_remove state _ name).symm
  | retry index =>
    obtain ⟨⟨submission, queue⟩, isRetry, same⟩ := Option.bind_eq_some_iff.mp stepped
    obtain rfl := Option.some.inj same
    -- The queue is still the lane of the name, so this is a submission like any other.
    have lane := intoLane (submission, queue) (Option.mem_def.mpr isRetry)
    rw [← run_of_lookup lane]
    exact ordered.submit submission

theorem Ordered.exclusive (ordered : state.Ordered) : state.Exclusive := by
  intro i j first second runs alsoRuns same
  exact ordered.registered.same_queue (TaskQueue.mem_tasks.mpr (.inl runs))
    (TaskQueue.mem_tasks.mpr (.inl alsoRuns)) same

/-- A queue goes on: it starts what it may start, and a task that runs is done at some time. -/
structure Fair (path : Transition.Path (@step Task)) : Prop where
  starts : ∀ n queue, ((path.state n).lanes.queues queue).next.isSome →
    ∃ m, n ≤ m ∧ path.action m = some (.start queue)
  settles : ∀ n queue, ((path.state n).lanes.queues queue).pending.isSome →
    ∃ m failed, n ≤ m ∧ path.action m = some (.settle queue failed)

/-- What a step does to a queue, unless it starts a task of it. -/
theorem step_queue {action : LaneAction Task} {queue : Nat} (other : action ≠ .start queue)
    (stepped : state.step action = some next) :
    (∃ more, (next.lanes.queues queue).waiting = (state.lanes.queues queue).waiting ++ more) ∧
      (next.lanes.queues queue).paused = (state.lanes.queues queue).paused := by
  have unchanged : ∃ more, (state.lanes.queues queue).waiting = (state.lanes.queues queue).waiting ++ more :=
    ⟨[], (List.append_nil _).symm⟩
  cases action with
  | submit submission =>
    obtain rfl := Option.some.inj stepped
    dsimp only
    rw [NamedTaskQueue.run_queues]
    split
    · exact ⟨⟨_, rfl⟩, rfl⟩
    · exact ⟨unchanged, rfl⟩
  | start started =>
    obtain ⟨submission, may, same⟩ := Option.bind_eq_some_iff.mp stepped
    obtain rfl := Option.some.inj same
    have apart : queue ≠ started := fun same => other (congrArg _ same.symm)
    dsimp only
    rw [NamedTaskQueue.update_queues, if_neg apart]
    exact ⟨unchanged, rfl⟩
  | settle settled failed =>
    obtain ⟨submission, running, same⟩ := Option.bind_eq_some_iff.mp stepped
    obtain rfl := Option.some.inj same
    dsimp only
    rw [NamedTaskQueue.update_queues]
    split
    next same =>
      subst same
      exact ⟨unchanged, rfl⟩
    next => exact ⟨unchanged, rfl⟩
  | onError index =>
    obtain ⟨done, isDone, rest⟩ := Option.bind_eq_some_iff.mp stepped
    obtain ⟨_, _, same⟩ := Option.bind_eq_some_iff.mp rest
    obtain rfl := Option.some.inj same
    exact ⟨unchanged, rfl⟩
  | onFinally index =>
    obtain ⟨done, isDone, rest⟩ := Option.bind_eq_some_iff.mp stepped
    obtain ⟨_, _, same⟩ := Option.bind_eq_some_iff.mp rest
    obtain rfl := Option.some.inj same
    dsimp only
    rw [NamedTaskQueue.remove_queues]
    exact ⟨unchanged, rfl⟩
  | retry index =>
    obtain ⟨⟨submission, retried⟩, isRetry, same⟩ := Option.bind_eq_some_iff.mp stepped
    obtain rfl := Option.some.inj same
    dsimp only
    rw [NamedTaskQueue.update_queues]
    split
    next same =>
      subst same
      exact ⟨⟨_, rfl⟩, rfl⟩
    next => exact ⟨unchanged, rfl⟩

/-- The submission waits in the queue, which is not paused, behind these. -/
def WaitsBehind (queue : Nat) (submission : Submission Task) (front : List (Submission Task))
    (state : RetriedLanes Task) : Prop :=
  (∃ back, (state.lanes.queues queue).waiting = front ++ submission :: back) ∧
    (state.lanes.queues queue).paused = false

variable {queue : Nat} {submission : Submission Task} {front : List (Submission Task)}

theorem WaitsBehind.step {action : LaneAction Task} (waits : WaitsBehind queue submission front state)
    (other : action ≠ .start queue) (stepped : state.step action = some next) :
    WaitsBehind queue submission front next := by
  obtain ⟨⟨back, waits⟩, going⟩ := waits
  obtain ⟨⟨more, grown⟩, paused⟩ := step_queue other stepped
  refine ⟨⟨back ++ more, ?_⟩, paused.trans going⟩
  rw [grown, waits, List.append_assoc, List.cons_append]

theorem WaitsBehind.mayStart (waits : WaitsBehind queue submission front state)
    (idle : (state.lanes.queues queue).pending = none) : (state.lanes.queues queue).next.isSome := by
  obtain ⟨⟨back, waits⟩, going⟩ := waits
  unfold TaskQueue.next
  rw [going, idle, waits]
  cases front <;> rfl

section

variable {path : Transition.Path (@RetriedLanes.step Task)}

/-- The queue starts a task, with the submission still where it was. -/
theorem WaitsBehind.start (fair : Fair path) {n : Nat} (waits : WaitsBehind queue submission front (path.state n)) :
    ∃ m, n ≤ m ∧ path.action m = some (.start queue) ∧ WaitsBehind queue submission front (path.state m) := by
  have untilStart {n : Nat} (waits : WaitsBehind queue submission front (path.state n)) (m : Nat) (later : n ≤ m) :=
    path.holdsUntil (WaitsBehind queue submission front) (· = .start queue)
      (fun _ _ _ waits other => waits.step other) waits later
  -- A start that comes is the first one, or another one came before it.
  have started {n : Nat} (waits : WaitsBehind queue submission front (path.state n)) (m : Nat) (later : n ≤ m)
      (action : path.action m = some (.start queue)) : ∃ k, n ≤ k ∧ path.action k = some (.start queue) ∧
        WaitsBehind queue submission front (path.state k) := by
    rcases untilStart waits m later with still | ⟨k, a, first, -, taken, rfl, held⟩
    · exact ⟨m, later, action, still⟩
    · exact ⟨k, first, taken, held⟩
  cases running : ((path.state n).lanes.queues queue).pending with
  | none =>
    obtain ⟨m, later, action⟩ := fair.starts n queue (waits.mayStart running)
    exact started waits m later action
  | some task =>
    obtain ⟨m, failed, later, settles⟩ := fair.settles n queue (by rw [running]; rfl)
    rcases untilStart waits m later with still | ⟨k, a, first, -, taken, rfl, held⟩
    · have stepped := path.moves m _ settles
      have after := still.step (fun same => by cases same) stepped
      have idle : ((path.state (m + 1)).lanes.queues queue).pending = none := by
        obtain ⟨settled, _, same⟩ := Option.bind_eq_some_iff.mp stepped
        rw [← Option.some.inj same]
        dsimp only
        rw [NamedTaskQueue.update_queues, if_pos rfl]
        rfl
      obtain ⟨k, behind, action⟩ := fair.starts (m + 1) queue (after.mayStart idle)
      obtain ⟨k, first, found⟩ := started after k behind action
      exact ⟨k, by omega, found⟩
    · exact ⟨k, first, taken, held⟩

/-- Whatever is in front of it is started first, and then the submission is. -/
theorem WaitsBehind.started (fair : Fair path) {n : Nat} (waits : WaitsBehind queue submission front (path.state n)) :
    ∃ m, n ≤ m ∧ (path.state (m + 1)).started = (path.state m).started ++ [submission] := by
  induction front generalizing n with
  | nil =>
    obtain ⟨m, later, action, ⟨back, waits⟩, -⟩ := waits.start fair
    obtain ⟨first, may, same⟩ := Option.bind_eq_some_iff.mp (path.moves m _ action)
    have head := (TaskQueue.next_eq may).2
    rw [waits] at head
    obtain rfl := (List.cons.inj head).1
    exact ⟨m, later, by rw [← Option.some.inj same]⟩
  | cons other front ih =>
    obtain ⟨m, later, action, ⟨back, waits⟩, going⟩ := waits.start fair
    obtain ⟨first, may, same⟩ := Option.bind_eq_some_iff.mp (path.moves m _ action)
    have rest : WaitsBehind queue submission front (path.state (m + 1)) := by
      rw [← Option.some.inj same]
      unfold WaitsBehind
      dsimp only
      rw [NamedTaskQueue.update_queues, if_pos rfl]
      refine ⟨⟨back, ?_⟩, going⟩
      unfold TaskQueue.start
      rw [waits]
      rfl
    obtain ⟨k, behind, found⟩ := ih rest
    exact ⟨k, by omega, found⟩

end

/-- The queues are never paused, and what was submitted or started stays so. -/
theorem step_kept {action : LaneAction Task} (stepped : state.step action = some next) :
    ((∀ queue, (state.lanes.queues queue).paused = false) → ∀ queue, (next.lanes.queues queue).paused = false) ∧
      state.submitted <+: next.submitted ∧ state.started <+: next.started := by
  refine ⟨fun going queue => ?_, ?_⟩
  · by_cases starts : action = .start queue
    · subst starts
      obtain ⟨submission, may, same⟩ := Option.bind_eq_some_iff.mp stepped
      obtain rfl := Option.some.inj same
      dsimp only
      rw [NamedTaskQueue.update_queues, if_pos rfl]
      exact going queue
    · exact (step_queue starts stepped).2.trans (going queue)
  · cases action with
    | submit submission =>
      obtain rfl := Option.some.inj stepped
      exact ⟨List.prefix_append .., List.prefix_rfl⟩
    | start started =>
      obtain ⟨submission, may, same⟩ := Option.bind_eq_some_iff.mp stepped
      obtain rfl := Option.some.inj same
      exact ⟨List.prefix_rfl, List.prefix_append ..⟩
    | settle settled failed =>
      obtain ⟨submission, running, same⟩ := Option.bind_eq_some_iff.mp stepped
      obtain rfl := Option.some.inj same
      exact ⟨List.prefix_rfl, List.prefix_rfl⟩
    | onError index | onFinally index =>
      obtain ⟨done, isDone, rest⟩ := Option.bind_eq_some_iff.mp stepped
      obtain ⟨_, _, same⟩ := Option.bind_eq_some_iff.mp rest
      obtain rfl := Option.some.inj same
      exact ⟨List.prefix_rfl, List.prefix_rfl⟩
    | retry index =>
      obtain ⟨⟨submission, retried⟩, isRetry, same⟩ := Option.bind_eq_some_iff.mp stepped
      obtain rfl := Option.some.inj same
      exact ⟨List.prefix_append .., List.prefix_rfl⟩

section

variable {path : Transition.Path (@RetriedLanes.step Task)}

theorem submitted_stays {n m : Nat} (later : n ≤ m) :
    (path.state n).submitted <+: (path.state m).submitted :=
  path.stays (fun state => (path.state n).submitted <+: state.submitted)
    (fun _ _ _ grown stepped => grown.trans (step_kept stepped).2.1) List.prefix_rfl later

theorem started_stays {n m : Nat} (later : n ≤ m) : (path.state n).started <+: (path.state m).started :=
  path.stays (fun state => (path.state n).started <+: state.started)
    (fun _ _ _ grown stepped => grown.trans (step_kept stepped).2.2) List.prefix_rfl later

theorem length_named_le {name : String} {first second : List (Submission Task)} (grown : first <+: second) :
    (named name first).length ≤ (named name second).length := (grown.filter _).length_le

/-- As long as tasks of the name wait, one more of them is started at some time. -/
theorem more_started (fair : Fair path) (going : ∀ n queue, ((path.state n).lanes.queues queue).paused = false)
    {n : Nat} {name : String} (waits : (path.state n).waiting name ≠ []) :
    ∃ m, n ≤ m ∧ (named name (path.state n).started).length < (named name (path.state m).started).length := by
  unfold waiting at waits
  cases lane : (path.state n).lanes.lanes.lookup name with
  | none => exact absurd (by rw [lane]) waits
  | some queue =>
    rw [lane] at waits
    obtain ⟨submission, member⟩ := List.exists_mem_of_ne_nil _ waits
    obtain ⟨inQueue, ofName⟩ := List.mem_filter.mp member
    obtain rfl := of_decide_eq_true ofName
    obtain ⟨front, back, split⟩ := List.append_of_mem inQueue
    have behind : WaitsBehind queue submission front (path.state n) := ⟨⟨back, split⟩, going n queue⟩
    obtain ⟨m, later, started⟩ := behind.started fair
    refine ⟨m + 1, by omega, ?_⟩
    rw [started, named_append, List.length_append, named_cons_self, List.length_cons]
    have grown := @length_named_le _ submission.name _ _ (@started_stays _ path _ _ later)
    omega

/-- In the end everything that was submitted by a moment has started. -/
theorem all_started (fair : Fair path) (going : ∀ n queue, ((path.state n).lanes.queues queue).paused = false)
    (ordered : ∀ n, (path.state n).Ordered) (n : Nat) (name : String) :
    ∃ m, named name (path.state n).submitted <+: named name (path.state m).started := by
  suffices enough : ∀ missing m, n ≤ m → (named name (path.state n).submitted).length ≤
      (named name (path.state m).started).length + missing → ∃ k, n ≤ k ∧
        (named name (path.state n).submitted).length ≤ (named name (path.state k).started).length by
    obtain ⟨m, later, long⟩ := enough _ n (Nat.le_refl n) (Nat.le_add_left _ _)
    have inOrder : named name (path.state m).started <+: named name (path.state m).submitted :=
      ⟨_, ((ordered m).order name).symm⟩
    exact ⟨m, List.prefix_of_prefix_length_le ((submitted_stays later).filter _) inOrder long⟩
  intro missing
  induction missing with
  | zero => exact fun m later long => ⟨m, later, long⟩
  | succ missing ih =>
    intro m later long
    by_cases done : (named name (path.state n).submitted).length ≤ (named name (path.state m).started).length
    · exact ⟨m, later, done⟩
    · have known := @length_named_le _ name _ _ (@submitted_stays _ path _ _ later)
      have waits : (path.state m).waiting name ≠ [] := by
        intro nothing
        rw [(ordered m).order name, nothing, List.append_nil] at known
        exact done known
      obtain ⟨k, behind, more⟩ := more_started fair going waits
      exact ih k (Nat.le_trans later behind) (by omega)

end

theorem ordered_start : ({} : RetriedLanes Task).Ordered where
  registered := by
    intro index task member
    cases member
  order := fun name => rfl

def oneTask : List (LaneAction Nat) := [.submit ⟨"x", 1, true⟩, .start 0, .settle 0 false, .onFinally 0]

/-- A task is added and done, and nothing more happens. -/
def oneTaskPath : Transition.Path (@step Nat) where
  state n := (Transition.run step {} (oneTask.take n)).getD {}
  action n := oneTask[n]?
  moves
    | 0, _, rfl | 1, _, rfl | 2, _, rfl | 3, _, rfl => rfl
  rests n idle := by
    have spent : oneTask.length ≤ n := List.getElem?_eq_none_iff.mp idle
    rw [List.take_of_length_le spent, List.take_of_length_le (Nat.le_succ_of_le spent)]

theorem oneTaskPath_over (n : Nat) : oneTaskPath.state (n + 4) = oneTaskPath.state 4 := by
  have all : oneTask.take (n + 4) = oneTask := List.take_of_length_le (Nat.le_add_left 4 n)
  exact congrArg (fun actions => (Transition.run step {} actions).getD {}) all

theorem oneTaskPath_fair : Fair oneTaskPath where
  starts
    | 0, _, may | 2, 0, may | 2, _ + 1, may | 3, 0, may | 3, _ + 1, may | 1, _ + 1, may => by cases may
    | 1, 0, _ => ⟨1, Nat.le_refl 1, rfl⟩
    | n + 4, 0, may | n + 4, _ + 1, may => by
      rw [oneTaskPath_over] at may
      cases may
  settles
    | 0, _, runs | 1, 0, runs | 1, _ + 1, runs | 2, _ + 1, runs | 3, 0, runs | 3, _ + 1, runs => by cases runs
    | 2, 0, _ => ⟨2, false, Nat.le_refl 2, rfl⟩
    | n + 4, 0, runs | n + 4, _ + 1, runs => by
      rw [oneTaskPath_over] at runs
      cases runs

end RetriedLanes

end Ceramic
