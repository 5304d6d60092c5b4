import Ceramic.IndexConfiguration
import Ceramic.SyncWorker

/-! The gate of historical syncs: a count for each model of the full and catch-up jobs that list it. The counts are
raised when a job is handed to the queue and lowered by a callback at the end of the worker's run; the queue keeps its
jobs over a restart, the counts are lost. -/
namespace Ceramic

/-- What becomes of a job: `send` is under way, or the queue has stored how far it is. A run of the handler has ended
before the queue stores that the job is completed. -/
inductive JobState where
  | sending
  | created
  | retry
  | active
  | ended
  | completed
  | failed
  deriving DecidableEq, Repr

def JobState.unfinished : JobState → Bool
  | .sending | .created | .retry | .active => true
  | .ended | .completed | .failed => false

structure QueuedJob where
  data : SyncJobData
  state : JobState
  retryCount : Nat
  deriving DecidableEq, Repr

namespace SyncJobData

/-- `jobType !== SyncJobType.Reorg && jobType !== SyncJobType.Continuous` -/
def isHistoric (data : SyncJobData) : Bool := data.jobType != .Reorg && data.jobType != .Continuous

/-- What the worker tells the callback. -/
def completions (data : SyncJobData) : List SyncCompleteData :=
  data.models.map fun modelId => { jobType := data.jobType, modelId }

end SyncJobData

/-- `retryLimit` of the `SYNC_JOB_OPTIONS`. -/
def retryLimit : Nat := 5

/-- A run has failed: the job is tried again, unless that was the last time. -/
def QueuedJob.afterFailure (job : QueuedJob) : QueuedJob :=
  if job.retryCount < retryLimit then { job with state := .retry, retryCount := job.retryCount + 1 }
  else { job with state := .failed }

/-- The counts of a node, which are gone with it, and the jobs of the queue. -/
structure HistorySync where
  modelsToHistoricSync : String → Option Nat
  jobs : List QueuedJob
  /-- The runs of the handler that the queue has given up on and that go on. -/
  late : List SyncJobData

inductive HistorySyncAction where
  /-- `_addSyncJob`, up to the call of the queue: for `startModelSync`, the catch-up of `init` or a block. -/
  | addSyncJob (data : SyncJobData)
  | sent (i : Nat)
  /-- The queue refuses the job, or cannot store it. -/
  | sendFailed (i : Nat)
  /-- The job has waited for longer than `retentionDays`. -/
  | archived (i : Nat)
  /-- A worker gets the job, for the first time or again. -/
  | work (i : Nat)
  /-- The handler has run to its end and called the callback. -/
  | handled (i : Nat)
  | handlerFailed (i : Nat)
  /-- The run has taken too long for the queue; it goes on. -/
  | expired (i : Nat)
  | lateHandled (i : Nat)
  | lateFailed (i : Nat)
  | completed (i : Nat)
  /-- The queue could not store that the job is completed. -/
  | completionFailed (i : Nat)
  /-- The node stops or crashes; `init` resumes the jobs that were active. -/
  | restart
  deriving DecidableEq, Repr

namespace HistorySync

def empty : HistorySync := ⟨fun _ => none, [], []⟩

section

variable (counts : String → Option Nat)

def _upsertModelForHistoricSync (model : String) : String → Option Nat :=
  match counts model with
  | some (existing + 1) => Function.update counts model (some (existing + 2))
  | some 0 | none => Function.update counts model (some 1)

def syncCompletedForModel (data : SyncCompleteData) : String → Option Nat :=
  if data.jobType != .Reorg && data.jobType != .Continuous then
    match counts data.modelId with
    | some (existing + 1) =>
      if existing + 1 ≤ 1 then Function.update counts data.modelId none
      else Function.update counts data.modelId (some existing)
    | some 0 | none => counts
  else counts

end

def syncComplete (sync : HistorySync) (model : String) : Bool :=
  (sync.modelsToHistoricSync model).getD 0 == 0

def _addSyncJob (sync : HistorySync) (data : SyncJobData) : HistorySync :=
  if data.models = [] then sync
  else { sync with
    modelsToHistoricSync :=
      if data.isHistoric then data.models.foldl _upsertModelForHistoricSync sync.modelsToHistoricSync
      else sync.modelsToHistoricSync
    jobs := sync.jobs ++ [⟨data, .sending, 0⟩] }

/-- The callback at the end of a run. -/
def syncCompleted (sync : HistorySync) (data : SyncJobData) : HistorySync :=
  { sync with modelsToHistoricSync := data.completions.foldl syncCompletedForModel sync.modelsToHistoricSync }

/-- A job goes on from one of some states. -/
def advance (sync : HistorySync) (i : Nat) (states : List JobState) (next : QueuedJob → QueuedJob) :
    Option HistorySync :=
  match sync.jobs[i]? with
  | some job => if job.state ∈ states then some { sync with jobs := sync.jobs.set i (next job) } else none
  | none => none

/-- The queue has the jobs that were active created again. -/
def resumed (job : QueuedJob) : QueuedJob :=
  if job.state = .active ∨ job.state = .ended then { job with state := .created } else job

def step (sync : HistorySync) : HistorySyncAction → Option HistorySync
  | .addSyncJob data => some (sync._addSyncJob data)
  | .sent i => sync.advance i [.sending] fun job => { job with state := .created }
  | .sendFailed i => sync.advance i [.sending] fun job => { job with state := .failed }
  | .archived i => sync.advance i [.created, .retry] fun job => { job with state := .failed }
  | .work i => sync.advance i [.created, .retry] fun job => { job with state := .active }
  | .handled i => do
    let job ← sync.jobs[i]?
    (sync.syncCompleted job.data).advance i [.active] fun job => { job with state := .ended }
  | .handlerFailed i => sync.advance i [.active] QueuedJob.afterFailure
  | .expired i => do
    let job ← sync.jobs[i]?
    { sync with late := sync.late ++ [job.data] }.advance i [.active] QueuedJob.afterFailure
  | .lateHandled i => do
    let data ← sync.late[i]?
    return { sync.syncCompleted data with late := sync.late.eraseIdx i }
  | .lateFailed i => some { sync with late := sync.late.eraseIdx i }
  | .completed i => sync.advance i [.ended] fun job => { job with state := .completed }
  | .completionFailed i => sync.advance i [.ended] QueuedJob.afterFailure
  | .restart => some { modelsToHistoricSync := fun _ => none, jobs := sync.jobs.map resumed, late := [] }

/-- There are full or catch-up jobs that list a model and are not finished. -/
def Ongoing (sync : HistorySync) (model : String) : Prop :=
  ∃ job ∈ sync.jobs, job.data.isHistoric = true ∧ job.state.unfinished = true ∧ model ∈ job.data.models

end HistorySync

namespace Indexing

def assertModelIsIndexed (indexedModels : List ModelData) (modelStreamId : StreamID) : Except JsError Unit :=
  if indexedModels.any fun indexedModel => modelStreamId == indexedModel.streamID then .ok ()
  else .error ⟨"Query failed: Model " ++ modelStreamId.toString ++ " is not indexed on this node"⟩

def assertNoOngoingSyncForModel (allowQueriesBeforeHistoricalSync : Bool) (sync : HistorySync)
    (modelStreamId : StreamID) : Except JsError Unit :=
  if !allowQueriesBeforeHistoricalSync && !sync.syncComplete modelStreamId.toString then
    .error ⟨"Queries on Model " ++ modelStreamId.toString ++
      " are not currently available because historical data for that model is still syncing"⟩
  else .ok ()

/-- Ensures that the given model can be queried and throws if not. -/
def assertModelQueryable (indexedModels : List ModelData) (allowQueriesBeforeHistoricalSync : Bool)
    (sync : HistorySync) (modelStreamId : StreamID) : Except JsError Unit := do
  assertModelIsIndexed indexedModels modelStreamId
  assertNoOngoingSyncForModel allowQueriesBeforeHistoricalSync sync modelStreamId

end Indexing

namespace HistorySync

/-- A model can be queried exactly when it is indexed and no such job is left, unless queries do not wait for it. -/
structure Exact (sync : HistorySync) : Prop where
  complete : ∀ model, sync.syncComplete model = true ↔ ¬sync.Ongoing model
  queryable : ∀ indexedModels allowed (model : StreamID),
    Indexing.assertModelQueryable indexedModels allowed sync model = .ok () ↔
      model ∈ indexedModels.map (·.streamID) ∧ (allowed = true ∨ ¬sync.Ongoing model.toString)

/-- What the gate needs of a step: a full or catch-up job is stored once it is handed to the queue, it is not archived
while it waits and does not run out of retries, a run of it that has ended is stored as completed, a run that the queue
gave up on does not end while the gate is closed for its models, and the node is not started again before these jobs are
completed. -/
def Regular (sync : HistorySync) : HistorySyncAction → Prop
  | .sendFailed i | .archived i | .completionFailed i => ∀ job ∈ sync.jobs[i]?, job.data.isHistoric = false
  | .handlerFailed i | .expired i => ∀ job ∈ sync.jobs[i]?, job.data.isHistoric = true → job.retryCount < retryLimit
  | .lateHandled i => ∀ data ∈ sync.late[i]?, data.isHistoric = true →
    ∀ model ∈ data.models, sync.modelsToHistoricSync model = none
  | .restart => ∀ job ∈ sync.jobs, job.data.isHistoric = true → job.state = .completed ∨ job.state = .failed
  | .addSyncJob _ | .sent _ | .work _ | .handled _ | .lateFailed _ | .completed _ => True

/-- How often a job keeps the gate of a model closed. -/
def weight (model : String) (job : QueuedJob) : Nat :=
  if job.data.isHistoric = true ∧ job.state.unfinished = true then job.data.models.count model else 0

/-- The counts are those of the jobs that are not finished, and none of them is 0. -/
structure Counted (sync : HistorySync) : Prop where
  count : ∀ model, (sync.modelsToHistoricSync model).getD 0 = (sync.jobs.map (weight model)).sum
  positive : ∀ model, sync.modelsToHistoricSync model ≠ some 0

section

variable {counts : String → Option Nat} {model : String}

theorem upsert_eq (positive : ∀ other, counts other ≠ some 0) : _upsertModelForHistoricSync counts model =
    Function.update counts model (some ((counts model).getD 0 + 1)) := by
  unfold _upsertModelForHistoricSync
  cases count : counts model with
  | none => rfl
  | some n =>
    cases n with
    | zero => exact absurd count (positive model)
    | succ n => rfl

/-- Raising the counts of a list of models. -/
theorem raised (models : List String) (positive : ∀ other, counts other ≠ some 0) (other : String) :
    ((models.foldl _upsertModelForHistoricSync counts) other).getD 0 = (counts other).getD 0 + models.count other ∧
      models.foldl _upsertModelForHistoricSync counts other ≠ some 0 := by
  induction models generalizing counts with
  | nil => exact ⟨rfl, positive other⟩
  | cons model models ih =>
    rw [List.foldl_cons, upsert_eq positive]
    have stays : ∀ other, Function.update counts model (some ((counts model).getD 0 + 1)) other ≠ some 0 := by
      intro other
      by_cases same : other = model
      · simp [same]
      · rw [Function.update_of_ne same]
        exact positive other
    obtain ⟨count, nonzero⟩ := ih stays
    refine ⟨?_, nonzero⟩
    rw [count, List.count_cons]
    by_cases same : other = model
    · subst same
      simp [Nat.add_assoc, Nat.add_comm]
    · simp [Function.update_of_ne same, Ne.symm same]

theorem completed_eq {data : SyncCompleteData}
    (historic : (data.jobType != .Reorg && data.jobType != .Continuous) = true) (positive : ∀ other, counts other ≠ some 0) (other : String) :
    (syncCompletedForModel counts data other).getD 0 =
        (counts other).getD 0 - (if data.modelId = other then 1 else 0) ∧
      syncCompletedForModel counts data other ≠ some 0 := by
  unfold syncCompletedForModel
  rw [if_pos historic]
  cases count : counts data.modelId with
  | none =>
    refine ⟨?_, positive other⟩
    by_cases same : data.modelId = other
    · simp [← same, count]
    · simp [same]
  | some n =>
    cases n with
    | zero => exact absurd count (positive _)
    | succ n =>
      by_cases last : n + 1 ≤ 1
      · simp only [if_pos last]
        by_cases same : data.modelId = other
        · subst same
          simp [count]
          omega
        · simp only [Function.update_of_ne (Ne.symm same), if_neg same]
          exact ⟨rfl, positive other⟩
      · simp only [if_neg last]
        by_cases same : data.modelId = other
        · subst same
          simp [count]
          omega
        · simp only [Function.update_of_ne (Ne.symm same), if_neg same]
          exact ⟨rfl, positive other⟩

/-- Lowering the counts of the models of a job. -/
theorem lowered {data : SyncJobData} (historic : data.isHistoric = true) (models : List String)
    (positive : ∀ other, counts other ≠ some 0) (other : String) :
    ((models.map (SyncCompleteData.mk data.jobType)).foldl syncCompletedForModel counts other).getD 0 =
        (counts other).getD 0 - models.count other ∧
      (models.map (SyncCompleteData.mk data.jobType)).foldl syncCompletedForModel counts other ≠ some 0 := by
  induction models generalizing counts with
  | nil => exact ⟨rfl, positive other⟩
  | cons model models ih =>
    have one := @completed_eq counts { jobType := data.jobType, modelId := model } historic positive
    obtain ⟨count, nonzero⟩ := ih fun other => (one other).2
    refine ⟨?_, nonzero⟩
    rw [List.map_cons, List.foldl_cons, count, (one other).1, List.count_cons]
    by_cases same : model = other
    · simp [same]
      omega
    · simp [same]

theorem not_lowered {data : SyncJobData} (other : data.isHistoric = false) :
    data.completions.foldl syncCompletedForModel counts = counts := by
  unfold SyncJobData.completions
  induction data.models generalizing counts with
  | nil => rfl
  | cons model models ih =>
    have same : syncCompletedForModel counts { jobType := data.jobType, modelId := model } = counts :=
      if_neg (Bool.eq_false_iff.mp other)
    rw [List.map_cons, List.foldl_cons, same, ih]

theorem lowered_absent {data : SyncJobData} (absent : ∀ model ∈ data.models, counts model = none) :
    data.completions.foldl syncCompletedForModel counts = counts := by
  unfold SyncJobData.completions
  generalize data.models = models at absent
  induction models with
  | nil => rfl
  | cons model models ih =>
    have same : syncCompletedForModel counts { jobType := data.jobType, modelId := model } = counts := by
      have none : counts model = none := absent model List.mem_cons_self
      unfold syncCompletedForModel
      simp [none]
    rw [List.map_cons, List.foldl_cons, same]
    exact ih fun other member => absent other (List.mem_cons_of_mem _ member)

end

section

variable {sync : HistorySync} {i : Nat} {job : QueuedJob} {states : List JobState} {next : QueuedJob → QueuedJob}

theorem advance_eq_some {sync' : HistorySync} : sync.advance i states next = some sync' ↔
    ∃ job, sync.jobs[i]? = some job ∧ job.state ∈ states ∧ sync' = { sync with jobs := sync.jobs.set i (next job) } := by
  unfold advance
  cases at_ : sync.jobs[i]? with
  | none => simp
  | some job =>
    by_cases inState : job.state ∈ states
    · simp [inState, eq_comm]
    · simp [inState]

theorem sum_set {jobs : List QueuedJob} (at_ : jobs[i]? = some job) (job' : QueuedJob) (w : QueuedJob → Nat) :
    ((jobs.set i job').map w).sum + w job = (jobs.map w).sum + w job' := by
  induction jobs generalizing i with
  | nil => cases at_
  | cons first jobs ih =>
    cases i with
    | zero =>
      obtain rfl := Option.some.inj at_
      simp only [List.set_cons_zero, List.map_cons, List.sum_cons]
      omega
    | succ i =>
      have rest := ih at_
      simp only [List.set_cons_succ, List.map_cons, List.sum_cons]
      omega

/-- A job that goes on keeps the counts, if it is unfinished as before. -/
theorem Counted.moved (counted : sync.Counted) (at_ : sync.jobs[i]? = some job) {job' : QueuedJob}
    (kept : ∀ model, weight model job' = weight model job) (late : List SyncJobData) :
    Counted { sync with jobs := sync.jobs.set i job', late } := by
  refine ⟨fun model => ?_, counted.positive⟩
  have moved := sum_set at_ job' (weight model)
  rw [kept model] at moved
  rw [counted.count model]
  exact (Nat.add_right_cancel moved).symm

theorem weight_of_unfinished {other : QueuedJob} (sameData : other.data = job.data)
    (same : job.data.isHistoric = true → other.state.unfinished = job.state.unfinished) (model : String) :
    weight model other = weight model job := by
  unfold weight
  rw [sameData]
  by_cases historic : job.data.isHistoric = true
  · rw [same historic]
  · simp [historic]

theorem Counted.toState (counted : sync.Counted) (at_ : sync.jobs[i]? = some job) (state : JobState)
    (same : job.data.isHistoric = true → state.unfinished = job.state.unfinished) :
    Counted { sync with jobs := sync.jobs.set i { job with state } } :=
  counted.moved at_ (@weight_of_unfinished job { job with state } rfl same) sync.late

theorem afterFailure_data (job : QueuedJob) : job.afterFailure.data = job.data := by
  unfold QueuedJob.afterFailure
  split <;> rfl

theorem afterFailure_unfinished (more : job.retryCount < retryLimit) : job.afterFailure.state.unfinished = true := by
  unfold QueuedJob.afterFailure
  rw [if_pos more]
  rfl

theorem Counted.added (counted : sync.Counted) (data : SyncJobData) : (sync._addSyncJob data).Counted := by
  unfold _addSyncJob
  split
  next => exact counted
  next =>
    have total (model : String) : ((sync.jobs ++ [(⟨data, .sending, 0⟩ : QueuedJob)]).map (weight model)).sum =
        (sync.jobs.map (weight model)).sum + if data.isHistoric = true then data.models.count model else 0 := by
      simp [weight, JobState.unfinished]
    by_cases historic : data.isHistoric = true
    · have raises := @raised sync.modelsToHistoricSync data.models counted.positive
      refine ⟨fun model => ?_, fun model => ?_⟩
      · dsimp only
        rw [if_pos historic, (raises model).1, total, if_pos historic, counted.count]
      · dsimp only
        rw [if_pos historic]
        exact (raises model).2
    · refine ⟨fun model => ?_, fun model => ?_⟩
      · dsimp only
        rw [if_neg historic, total, if_neg historic, counted.count]
        rfl
      · dsimp only
        rw [if_neg historic]
        exact counted.positive model

/-- The run of a job has ended: its models are counted once less, and the job does not count any more. -/
theorem Counted.ended (counted : sync.Counted) (at_ : sync.jobs[i]? = some job) (active : job.state = .active) :
    Counted { sync.syncCompleted job.data with jobs := sync.jobs.set i { job with state := .ended } } := by
  have moved (model : String) := sum_set at_ { job with state := .ended } (weight model)
  have ended (model : String) : weight model { job with state := .ended } = 0 := by
    simp [weight, JobState.unfinished]
  by_cases historic : job.data.isHistoric = true
  · have lowers := @lowered sync.modelsToHistoricSync job.data historic job.data.models counted.positive
    have before (model : String) : weight model job = job.data.models.count model := by
      simp [weight, historic, active, JobState.unfinished]
    refine ⟨fun model => ?_, fun model => (lowers model).2⟩
    have moved := moved model
    rw [ended model, before model] at moved
    refine (lowers model).1.trans ?_
    rw [counted.count model]
    dsimp only
    omega
  · have before (model : String) : weight model job = 0 := by simp [weight, historic]
    have same : (sync.syncCompleted job.data).modelsToHistoricSync = sync.modelsToHistoricSync :=
      not_lowered (Bool.eq_false_iff.mpr historic)
    refine ⟨fun model => ?_, fun model => ?_⟩
    · have moved := moved model
      rw [ended model, before model] at moved
      dsimp only
      rw [same, counted.count model]
      exact moved.symm
    · dsimp only
      rw [same]
      exact counted.positive model

theorem Counted.step {action : HistorySyncAction} {sync' : HistorySync} (counted : sync.Counted)
    (regular : sync.Regular action) (stepped : sync.step action = some sync') : sync'.Counted := by
  cases action with
  | addSyncJob data =>
    obtain rfl := Option.some.inj stepped
    exact counted.added data
  | sent i =>
    obtain ⟨job, at_, inState, rfl⟩ := advance_eq_some.mp stepped
    have sending : job.state = .sending := by simpa using inState
    exact counted.toState at_ .created fun _ => by simp [sending, JobState.unfinished]
  | sendFailed i =>
    obtain ⟨job, at_, _, rfl⟩ := advance_eq_some.mp stepped
    exact counted.toState at_ .failed fun historic => absurd historic (Bool.eq_false_iff.mp (regular job at_))
  | archived i =>
    obtain ⟨job, at_, _, rfl⟩ := advance_eq_some.mp stepped
    exact counted.toState at_ .failed fun historic => absurd historic (Bool.eq_false_iff.mp (regular job at_))
  | work i =>
    obtain ⟨job, at_, inState, rfl⟩ := advance_eq_some.mp stepped
    have waiting : job.state = .created ∨ job.state = .retry := by simpa using inState
    refine counted.toState at_ .active fun _ => ?_
    rcases waiting with created | retry
    · simp [created, JobState.unfinished]
    · simp [retry, JobState.unfinished]
  | handled i =>
    obtain ⟨job, at_, advanced⟩ := Option.bind_eq_some_iff.mp stepped
    obtain ⟨job', at', inState, rfl⟩ := advance_eq_some.mp advanced
    obtain rfl := Option.some.inj (at_.symm.trans at')
    exact counted.ended at_ (by simpa using inState)
  | handlerFailed i =>
    obtain ⟨job, at_, inState, rfl⟩ := advance_eq_some.mp stepped
    have active : job.state = .active := by simpa using inState
    refine counted.moved at_ (weight_of_unfinished (afterFailure_data job) fun historic => ?_) sync.late
    rw [afterFailure_unfinished (regular job at_ historic), active]
    rfl
  | expired i =>
    obtain ⟨job, at_, advanced⟩ := Option.bind_eq_some_iff.mp stepped
    obtain ⟨job', at', inState, rfl⟩ := advance_eq_some.mp advanced
    obtain rfl := Option.some.inj (at_.symm.trans at')
    have active : job.state = .active := by simpa using inState
    refine counted.moved at_ (weight_of_unfinished (afterFailure_data job) fun historic => ?_) _
    rw [afterFailure_unfinished (regular job at_ historic), active]
    rfl
  | lateHandled i =>
    obtain ⟨data, at_, returned⟩ := Option.bind_eq_some_iff.mp stepped
    obtain rfl := Option.some.inj returned
    have same : (sync.syncCompleted data).modelsToHistoricSync = sync.modelsToHistoricSync := by
      by_cases historic : data.isHistoric = true
      · exact lowered_absent (regular data at_ historic)
      · exact not_lowered (Bool.eq_false_iff.mpr historic)
    refine ⟨fun model => ?_, fun model => ?_⟩
    · dsimp only
      rw [same]
      exact counted.count model
    · dsimp only
      rw [same]
      exact counted.positive model
  | lateFailed i =>
    obtain rfl := Option.some.inj stepped
    exact ⟨counted.count, counted.positive⟩
  | completed i =>
    obtain ⟨job, at_, inState, rfl⟩ := advance_eq_some.mp stepped
    have ended : job.state = .ended := by simpa using inState
    exact counted.toState at_ .completed fun _ => by simp [ended, JobState.unfinished]
  | completionFailed i =>
    obtain ⟨job, at_, _, rfl⟩ := advance_eq_some.mp stepped
    exact counted.moved at_ (weight_of_unfinished (afterFailure_data job) fun historic =>
      absurd historic (Bool.eq_false_iff.mp (regular job at_))) sync.late
  | restart =>
    obtain rfl := Option.some.inj stepped
    refine ⟨fun model => ?_, fun model => by simp⟩
    symm
    rw [Option.getD_none, List.sum_eq_zero_iff_forall_eq_nat, List.map_map]
    intro w member
    obtain ⟨job, inJobs, rfl⟩ := List.mem_map.mp member
    by_cases historic : job.data.isHistoric = true
    · rcases regular job inJobs historic with completed | failed
      · simp [resumed, weight, completed, JobState.unfinished]
      · simp [resumed, weight, failed, JobState.unfinished]
    · have same : (resumed job).data = job.data := by
        unfold resumed
        split <;> rfl
      simp [weight, same, historic]

theorem Counted.complete (counted : sync.Counted) (model : String) :
    sync.syncComplete model = true ↔ ¬sync.Ongoing model := by
  unfold syncComplete
  rw [beq_iff_eq, counted.count model, List.sum_eq_zero_iff_forall_eq_nat]
  constructor
  · rintro zero ⟨job, member, historic, unfinished, listed⟩
    have none := zero _ (List.mem_map_of_mem member)
    rw [weight, if_pos ⟨historic, unfinished⟩, List.count_eq_zero] at none
    exact none listed
  · intro none w member
    obtain ⟨job, inJobs, rfl⟩ := List.mem_map.mp member
    unfold weight
    split
    next counts => exact List.count_eq_zero.mpr fun listed => none ⟨job, inJobs, counts.1, counts.2, listed⟩
    next => rfl

theorem Counted.exact (counted : sync.Counted) : sync.Exact := by
  refine ⟨counted.complete, fun indexedModels allowed model => ?_⟩
  unfold Indexing.assertModelQueryable Indexing.assertModelIsIndexed Indexing.assertNoOngoingSyncForModel
  have isIndexed : (indexedModels.any fun indexedModel => model == indexedModel.streamID) = true ↔
      model ∈ indexedModels.map (·.streamID) := by
    rw [List.any_eq_true, List.mem_map]
    exact exists_congr fun data => and_congr_right fun _ => by rw [beq_iff_eq, eq_comm]
  rw [← isIndexed, ← counted.complete]
  by_cases indexed : (indexedModels.any fun indexedModel => model == indexedModel.streamID) = true
  · cases allowed <;> cases sync.syncComplete model.toString <;> simp [indexed, bind, Except.bind]
  · simp [indexed, bind, Except.bind]

/-- A job that the queue does not store, or that has failed for good, keeps the gate closed. -/
theorem blocked_after_failure (counted : sync.Counted) {sync' : HistorySync} (at_ : sync.jobs[i]? = some job)
    (historic : job.data.isHistoric = true) {model : String} (listed : model ∈ job.data.models)
    (failed : sync.step (.sendFailed i) = some sync' ∨
      job.retryCount = retryLimit ∧ sync.step (.handlerFailed i) = some sync')
    (alone : ∀ j other, sync.jobs[j]? = some other → j ≠ i → weight model other = 0) : ¬sync'.Exact := by
  obtain ⟨unfinished, sameCounts, gone⟩ : job.state.unfinished = true ∧
      sync'.modelsToHistoricSync = sync.modelsToHistoricSync ∧
      ∃ job', job'.state = .failed ∧ sync'.jobs = sync.jobs.set i job' := by
    rcases failed with stepped | ⟨last, stepped⟩
    · obtain ⟨job', at', inState, rfl⟩ := advance_eq_some.mp stepped
      obtain rfl := Option.some.inj (at_.symm.trans at')
      have sending : job.state = .sending := by simpa using inState
      exact ⟨by rw [sending]; rfl, rfl, _, rfl, rfl⟩
    · obtain ⟨job', at', inState, rfl⟩ := advance_eq_some.mp stepped
      obtain rfl := Option.some.inj (at_.symm.trans at')
      have active : job.state = .active := by simpa using inState
      refine ⟨by rw [active]; rfl, rfl, _, ?_, rfl⟩
      unfold QueuedJob.afterFailure
      rw [if_neg (by omega)]
  obtain ⟨job', isFailed, jobs⟩ := gone
  intro exact
  have ongoing : sync.Ongoing model := ⟨job, List.mem_of_getElem? at_, historic, unfinished, listed⟩
  have closed : ¬sync'.syncComplete model = true := by
    have before := mt (counted.complete model).mp (not_not.mpr ongoing)
    unfold syncComplete at before ⊢
    rwa [sameCounts]
  refine closed ((exact.complete model).mpr ?_)
  rintro ⟨other, member, otherHistoric, otherUnfinished, otherListed⟩
  obtain ⟨j, here⟩ := List.mem_iff_getElem?.mp member
  rw [jobs] at here
  by_cases same : i = j
  · subst same
    obtain ⟨within, -⟩ := List.getElem?_eq_some_iff.mp at_
    rw [List.getElem?_set_self within] at here
    obtain rfl := Option.some.inj here
    rw [isFailed] at otherUnfinished
    cases otherUnfinished
  · rw [List.getElem?_set_ne same] at here
    have none := alone j other here (Ne.symm same)
    rw [weight, if_pos ⟨otherHistoric, otherUnfinished⟩, List.count_eq_zero] at none
    exact none otherListed

/-- A restart opens the gate while the jobs go on. -/
theorem served_after_restart {sync' : HistorySync} {model : String} (ongoing : sync.Ongoing model)
    (stepped : sync.step .restart = some sync') : ¬sync'.Exact := by
  obtain rfl := Option.some.inj stepped
  obtain ⟨job, member, historic, unfinished, listed⟩ := ongoing
  have resumes : (resumed job).data = job.data ∧ (resumed job).state.unfinished = true := by
    unfold resumed
    split
    next => exact ⟨rfl, rfl⟩
    next => exact ⟨rfl, unfinished⟩
  intro exact
  refine (exact.complete model).mp rfl ⟨resumed job, List.mem_map_of_mem member, ?_, resumes.2, ?_⟩
  · rw [resumes.1]
    exact historic
  · rw [resumes.1]
    exact listed

end

/-- In every run whose steps are regular, the gate is exact. -/
theorem gate_exact {sync : HistorySync} (reaches : Transition.Reaches step Regular empty sync) : sync.Exact := by
  have counted : sync.Counted :=
    reaches.invariant ⟨fun _ => rfl, fun _ => by simp [empty]⟩
      fun _ _ _ counted regular stepped => counted.step regular stepped
  exact counted.exact

def fullJob : SyncJobData := { jobType := .Full, fromBlock := 0, toBlock := 5, models := ["m"] }

/-- A job that fails once and is completed when it is tried again, while another sync of the model is started. -/
def retried : List HistorySyncAction :=
  [.addSyncJob fullJob, .sent 0, .work 0, .handlerFailed 0, .addSyncJob fullJob, .work 0, .handled 0, .completed 0]

theorem retried_regular : Transition.AllAllowed step Regular empty retried := by
  refine ⟨trivial, trivial, trivial, ?_, trivial, trivial, trivial, trivial, trivial⟩
  intro job given _
  obtain rfl := Option.some.inj given
  decide

theorem gate_exact_retried : ∃ sync, Transition.run step empty retried = some sync ∧ sync.Exact :=
  ⟨_, rfl, gate_exact (Transition.reaches_of_run rfl retried_regular)⟩

/-- A sync whose job could not be stored keeps its model from being queried. -/
theorem gate_not_exact : ¬∀ sync, Transition.Reaches step (fun _ _ => True) empty sync → sync.Exact := by
  intro all
  have added : empty.step (.addSyncJob fullJob) = some (empty._addSyncJob fullJob) := rfl
  have refused : (empty._addSyncJob fullJob).step (.sendFailed 0) =
      some { empty._addSyncJob fullJob with jobs := [⟨fullJob, .failed, 0⟩] } := rfl
  have exact := all _ (.next (.next .start trivial added) trivial refused)
  have closed : { empty._addSyncJob fullJob with jobs := [⟨fullJob, .failed, 0⟩] }.syncComplete "m" = false := rfl
  refine Bool.false_ne_true (closed.symm.trans ((exact.complete "m").mpr ?_))
  rintro ⟨job, member, _, unfinished, _⟩
  obtain rfl := List.mem_singleton.mp member
  cases unfinished

end HistorySync

end Ceramic
