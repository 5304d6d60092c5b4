import Ceramic.BlockProofsLoader
import Ceramic.Library.Transition

/-! The worker of a sync job: it goes through the proofs of a range of blocks, enqueues a rebuild
job for each, and stores how far it came after each block. The enqueued jobs and the stored
progress outlive a crash. -/
namespace Ceramic

structure RebuildAnchorJobData where
  models : List String
  chainId : String
  txHash : String
  root : String
  txType : Option String
  deriving DecidableEq, Repr

structure SyncCompleteData where
  jobType : SyncJobType
  modelId : String
  deriving DecidableEq, Repr

def createRebuildAnchorJob (proof : AnchorProof) (models : List String) : RebuildAnchorJobData :=
  { models
    chainId := proof.chainId
    txHash := proof.txHash.toString
    root := proof.root.toString
    txType := proof.txType }

namespace AnchorListener

def GET_LOGS_BATCH_SIZE : Nat := 1000

/-- The ranges of as many blocks as are buffered; the last one may be shorter. -/
def batches (fromBlock toBlock : Int) : List BlockRangeFilter :=
  let count := (toBlock - fromBlock + 1).toNat
  (List.range ((count + (GET_LOGS_BATCH_SIZE - 1)) / GET_LOGS_BATCH_SIZE)).map fun i : Nat =>
    { fromBlock := fromBlock + GET_LOGS_BATCH_SIZE * i
      toBlock := min (fromBlock + GET_LOGS_BATCH_SIZE * i + (GET_LOGS_BATCH_SIZE - 1)) toBlock }

def createBlocksProofsLoader (chain : Chain) (chainId : String) (fromBlock toBlock : Int) :
    List BlockProofs :=
  (batches fromBlock toBlock).flatMap (chain.load chainId)

end AnchorListener

open AnchorListener

/-- A run of `handler`. -/
structure SyncRun where
  /-- The blocks whose proofs are still to be processed. -/
  pending : List BlockProofs
  /-- The rebuild jobs of the first of them are enqueued. -/
  added : Bool
  /-- A block was processed, so `lastValueFrom` has a value. -/
  emitted : Bool
  deriving DecidableEq, Repr

structure SyncWorker where
  /-- The stored `currentBlock`. -/
  currentBlock : Option Int
  /-- The enqueued rebuild jobs. -/
  rebuildJobs : List RebuildAnchorJobData
  run : Option SyncRun
  /-- What the callback was told, once the job is completed. -/
  completed : Option (List SyncCompleteData)
  deriving DecidableEq, Repr

inductive SyncWorkerAction where
  /-- The queue gives the job to the worker, for the first time or again. -/
  | handle
  | addJobs
  | updateJob
  | complete
  /-- The process crashes, or the handler throws. -/
  | crash
  deriving DecidableEq, Repr

namespace SyncWorker

def initial : SyncWorker := ⟨none, [], none, none⟩

/-- `jobData.currentBlock || fromBlock`. -/
def resumeBlock (job : SyncJobData) (worker : SyncWorker) : Int :=
  match worker.currentBlock with
  | some currentBlock => if currentBlock = 0 then job.fromBlock else currentBlock
  | none => job.fromBlock

def runStep (job : SyncJobData) (worker : SyncWorker) (run : SyncRun) : SyncWorkerAction → Option SyncWorker
  | .handle => none
  | .addJobs =>
    match run.pending with
    | [] => none
    | blockProofs :: _ =>
      if blockProofs.proofs ≠ [] ∧ run.added = false then
        some { worker with
          rebuildJobs := worker.rebuildJobs ++
            blockProofs.proofs.map fun proof => createRebuildAnchorJob proof job.models
          run := some { run with added := true } }
      else none
  | .updateJob =>
    match run.pending with
    | [] => none
    | blockProofs :: pending =>
      if blockProofs.proofs = [] ∨ run.added = true then
        some { worker with
          currentBlock := some (blockProofs.blockNumber + 1)
          run := some { pending, added := false, emitted := true } }
      else none
  | .complete =>
    -- `lastValueFrom` rejects if there was no block
    if run.pending = [] ∧ run.emitted = true then
      some { worker with
        run := none
        completed := some (job.models.map fun modelId => ⟨job.jobType, modelId⟩) }
    else none
  | .crash => some { worker with run := none }

def step (chain : Chain) (chainId : String) (job : SyncJobData) (worker : SyncWorker)
    (action : SyncWorkerAction) : Option SyncWorker :=
  match worker.completed, worker.run with
  | some _, _ => none
  | none, some run => worker.runStep job run action
  | none, none =>
    match action with
    | .handle => some { worker with
        run := some
          { pending := createBlocksProofsLoader chain chainId (worker.resumeBlock job) job.toBlock
            added := false
            emitted := false } }
    | _ => none

end SyncWorker

namespace AnchorListener

theorem mem_batches {fromBlock toBlock : Int} {range : BlockRangeFilter}
    (member : range ∈ batches fromBlock toBlock) : fromBlock ≤ range.fromBlock ∧
      range.fromBlock ≤ range.toBlock ∧ range.toBlock ≤ toBlock := by
  obtain ⟨i, inside, rfl⟩ := List.mem_map.mp member
  have inside := List.mem_range.mp inside
  simp only [GET_LOGS_BATCH_SIZE] at inside ⊢
  omega

theorem exists_batch {fromBlock toBlock n : Int} (after : fromBlock ≤ n) (before : n ≤ toBlock) :
    ∃ range ∈ batches fromBlock toBlock, range.fromBlock ≤ n ∧ n ≤ range.toBlock := by
  refine ⟨_, List.mem_map.mpr ⟨((n - fromBlock) / 1000).toNat, List.mem_range.mpr ?_, rfl⟩, ?_⟩
  · simp only [GET_LOGS_BATCH_SIZE]
    omega
  · simp only [GET_LOGS_BATCH_SIZE]
    omega

section

variable (chain : Chain) (chainId : String) {fromBlock toBlock : Int}

theorem mem_load {range : BlockRangeFilter} (nonneg : 0 ≤ range.fromBlock)
    (nonempty : range.fromBlock ≤ range.toBlock) {blockProofs : BlockProofs}
    (member : blockProofs ∈ chain.load chainId range) :
    ∃ n, range.fromBlock ≤ n ∧ n ≤ range.toBlock ∧ blockProofs = chain.blockProofs chainId n := by
  rw [chain.load_eq chainId nonneg nonempty] at member
  obtain ⟨n, inLoad, rfl⟩ := List.mem_map.mp member
  have inside := mem_blocks.mp (mem_of_mem_loaded inLoad)
  exact ⟨n, inside.1, inside.2, rfl⟩

/-- Every block that is loaded is in the range, with all of its proofs. -/
theorem mem_blocksProofs (nonneg : 0 ≤ fromBlock) {blockProofs : BlockProofs}
    (member : blockProofs ∈ createBlocksProofsLoader chain chainId fromBlock toBlock) :
    ∃ n, fromBlock ≤ n ∧ n ≤ toBlock ∧ blockProofs = chain.blockProofs chainId n := by
  obtain ⟨range, inBatches, loaded⟩ := List.mem_flatMap.mp member
  obtain ⟨low, nonempty, high⟩ := mem_batches inBatches
  obtain ⟨n, after, before, rfl⟩ := mem_load chain chainId (by omega) nonempty loaded
  exact ⟨n, by omega, by omega, rfl⟩

/-- Every block with anchors is loaded. -/
theorem blocksProofs_of_anchored (nonneg : 0 ≤ fromBlock) {n : Int} (after : fromBlock ≤ n)
    (before : n ≤ toBlock) (anchored : chain.anchored n = true) :
    chain.blockProofs chainId n ∈ createBlocksProofsLoader chain chainId fromBlock toBlock := by
  obtain ⟨range, inBatches, low, high⟩ := exists_batch after before
  have bounds := mem_batches inBatches
  refine List.mem_flatMap.mpr ⟨range, inBatches, ?_⟩
  rw [chain.load_eq chainId (by omega) (by omega)]
  exact List.mem_map_of_mem (mem_loaded_of_anchored (mem_blocks.mpr ⟨low, high⟩) anchored)

theorem blocksProofs_ne_nil (nonneg : 0 ≤ fromBlock) (nonempty : fromBlock ≤ toBlock) :
    createBlocksProofsLoader chain chainId fromBlock toBlock ≠ [] := by
  obtain ⟨range, inBatches, low, high⟩ := exists_batch (le_refl fromBlock) nonempty
  have first : range.fromBlock ∈ Ceramic.createBlockProofsLoaderForRange chain.anchored range.blocks :=
    (List.mem_insertionSort _).mpr ((mem_candidates (by omega)).mpr
      ⟨mem_blocks.mpr ⟨le_refl _, by omega⟩, .inr (.inl rfl)⟩)
  have bounds := mem_batches inBatches
  have loaded : chain.blockProofs chainId range.fromBlock ∈ chain.load chainId range := by
    rw [chain.load_eq chainId (by omega) (by omega)]
    exact List.mem_map_of_mem first
  exact List.ne_nil_of_mem (List.mem_flatMap.mpr ⟨range, inBatches, loaded⟩)

theorem batches_empty (empty : toBlock < fromBlock) : batches fromBlock toBlock = [] := by
  have none : (toBlock - fromBlock + 1).toNat = 0 := by omega
  unfold batches
  rw [none]
  rfl

end

end AnchorListener

namespace SyncWorker

section

variable (chain : Chain) (chainId : String) (job : SyncJobData)

/-- Every proof of the block was turned into a rebuild job. -/
def Rebuilt (rebuildJobs : List RebuildAnchorJobData) (n : Int) : Prop :=
  ∀ log ∈ chain.logs, log.blockNumber = n →
    createRebuildAnchorJob (createAnchorProof chainId log) job.models ∈ rebuildJobs

/-- Some further run completes the job. -/
def CanFinish (worker : SyncWorker) : Prop :=
  ∃ final, Transition.Reaches (step chain chainId job) (fun _ _ => True) worker final ∧
    final.completed ≠ none

/-- A crash comes while the stored block is one of the range, and no block with anchors that is
still to be processed is below it. -/
def keepsProgress (worker : SyncWorker) : SyncWorkerAction → Bool
  | .crash =>
    match worker.run with
    | some run => worker.resumeBlock job ≤ job.toBlock && run.pending.all fun blockProofs =>
        blockProofs.proofs.isEmpty || worker.resumeBlock job ≤ blockProofs.blockNumber
    | none => true
  | _ => true

/-- What a run of the handler keeps. -/
structure RunSpec (rebuildJobs : List RebuildAnchorJobData) (run : SyncRun) : Prop where
  blocks : ∀ blockProofs ∈ run.pending, ∃ n, job.fromBlock ≤ n ∧ n ≤ job.toBlock ∧
    blockProofs = chain.blockProofs chainId n
  finishes : run.pending ≠ [] ∨ run.emitted = true
  remaining : ∀ n, job.fromBlock ≤ n → n ≤ job.toBlock →
    Rebuilt chain chainId job rebuildJobs n ∨ chain.blockProofs chainId n ∈ run.pending
  added : run.added = true → ∀ blockProofs ∈ run.pending.head?, ∀ proof ∈ blockProofs.proofs,
    createRebuildAnchorJob proof job.models ∈ rebuildJobs

/-- What the job keeps. -/
structure Spec (worker : SyncWorker) : Prop where
  low : job.fromBlock ≤ worker.resumeBlock job
  waiting : worker.run = none → worker.completed = none → worker.resumeBlock job ≤ job.toBlock ∧
    ∀ n, job.fromBlock ≤ n → n < worker.resumeBlock job → Rebuilt chain chainId job worker.rebuildJobs n
  running : ∀ run ∈ worker.run, RunSpec chain chainId job worker.rebuildJobs run
  completed : worker.completed ≠ none → ∀ n, job.fromBlock ≤ n → n ≤ job.toBlock →
    Rebuilt chain chainId job worker.rebuildJobs n

variable {chain} {chainId} {job} {worker : SyncWorker} {rebuildJobs : List RebuildAnchorJobData}

theorem rebuilt_iff {n : Int} : Rebuilt chain chainId job rebuildJobs n ↔
    ∀ proof ∈ (chain.blockProofs chainId n).proofs,
      createRebuildAnchorJob proof job.models ∈ rebuildJobs := by
  unfold Rebuilt Chain.blockProofs
  rw [List.forall_mem_map]
  simp [List.mem_filter]

theorem Rebuilt.of_unanchored {n : Int} (unanchored : ¬chain.anchored n = true) :
    Rebuilt chain chainId job rebuildJobs n := by
  intro log member same
  exact absurd (chain.anchored_iff.mpr ⟨log, member, same⟩) unanchored

theorem initial_spec (nonempty : job.fromBlock ≤ job.toBlock) : initial.Spec chain chainId job where
  low := le_refl _
  waiting _ _ := ⟨nonempty, fun n after before => absurd after (Int.not_le.mpr before)⟩
  running := by simp [initial]
  completed done := absurd rfl done

theorem resumeBlock_updated {next : Int} (low : job.fromBlock ≤ next) (worker : SyncWorker) :
    job.fromBlock ≤ ({ worker with currentBlock := some next } : SyncWorker).resumeBlock job := by
  simp only [resumeBlock]
  split
  · exact le_refl _
  · exact low

theorem handle_spec (nonneg : 0 ≤ job.fromBlock) (spec : worker.Spec chain chainId job)
    (idle : worker.run = none) (uncompleted : worker.completed = none) :
    RunSpec chain chainId job worker.rebuildJobs
      ⟨createBlocksProofsLoader chain chainId (worker.resumeBlock job) job.toBlock, false, false⟩ := by
  obtain ⟨within, before⟩ := spec.waiting idle uncompleted
  have low := spec.low
  refine ⟨fun blockProofs member => ?_, .inl (blocksProofs_ne_nil chain chainId (by omega) within), ?_, nofun⟩
  · obtain ⟨n, after, upTo, rfl⟩ := mem_blocksProofs chain chainId (by omega) member
    exact ⟨n, by omega, upTo, rfl⟩
  · intro n after upTo
    by_cases anchored : chain.anchored n = true
    · by_cases processed : n < worker.resumeBlock job
      · exact .inl (before n after processed)
      · exact .inr (blocksProofs_of_anchored chain chainId (by omega) (by omega) upTo anchored)
    · exact .inl (.of_unanchored anchored)

/-- What the processing of the first pending block leaves to do. -/
theorem RunSpec.processed {run : SyncRun} {blockProofs : BlockProofs} {pending : List BlockProofs}
    (spec : RunSpec chain chainId job rebuildJobs run) (isPending : run.pending = blockProofs :: pending)
    (done : blockProofs.proofs = [] ∨ run.added = true) :
    RunSpec chain chainId job rebuildJobs ⟨pending, false, true⟩ := by
  have rebuilt : ∀ proof ∈ blockProofs.proofs, createRebuildAnchorJob proof job.models ∈ rebuildJobs := by
    rcases done with none | added
    · simp [none]
    · exact spec.added added blockProofs (by simp [isPending])
  refine ⟨fun other member => spec.blocks other (by simp [isPending, member]), .inr rfl, ?_, nofun⟩
  intro n after upTo
  rcases spec.remaining n after upTo with already | remains
  · exact .inl already
  · rw [isPending] at remains
    rcases List.mem_cons.mp remains with rfl | later
    · exact .inl (rebuilt_iff.mpr rebuilt)
    · exact .inr later

theorem runStep_spec {run : SyncRun} {action : SyncWorkerAction} {worker' : SyncWorker}
    (spec : worker.Spec chain chainId job) (running : worker.run = some run)
    (uncompleted : worker.completed = none) (keeps : worker.keepsProgress job action = true)
    (stepped : worker.runStep job run action = some worker') : worker'.Spec chain chainId job := by
  have runSpec := spec.running run running
  cases action with
  | handle => cases stepped
  | addJobs =>
    simp only [runStep] at stepped
    split at stepped
    · cases stepped
    next blockProofs pending isPending =>
      split at stepped
      · obtain rfl := Option.some.inj stepped
        refine ⟨spec.low, nofun, fun run' isRun => ?_, fun done => absurd uncompleted done⟩
        obtain rfl := Option.some.inj isRun
        refine ⟨runSpec.blocks, runSpec.finishes, fun n after upTo => ?_, fun _ block isBlock proof member => ?_⟩
        · refine (runSpec.remaining n after upTo).imp_left fun rebuilt log inLogs same => ?_
          exact List.mem_append_left _ (rebuilt log inLogs same)
        · rw [isPending] at isBlock
          obtain rfl := Option.some.inj isBlock
          exact List.mem_append_right _ (List.mem_map_of_mem member)
      · cases stepped
  | updateJob =>
    simp only [runStep] at stepped
    split at stepped
    · cases stepped
    next blockProofs pending isPending =>
      split at stepped
      next done =>
        obtain rfl := Option.some.inj stepped
        obtain ⟨n, after, upTo, rfl⟩ := runSpec.blocks blockProofs (by simp [isPending])
        refine ⟨?_, nofun, fun run' isRun => ?_, fun done => absurd uncompleted done⟩
        · exact resumeBlock_updated (by simp only [Chain.blockProofs]; omega) worker
        · obtain rfl := Option.some.inj isRun
          exact runSpec.processed isPending done
      · cases stepped
  | complete =>
    simp only [runStep] at stepped
    split at stepped
    next ended =>
      obtain rfl := Option.some.inj stepped
      refine ⟨spec.low, nofun, nofun, fun _ n after upTo => ?_⟩
      rcases runSpec.remaining n after upTo with rebuilt | remains
      · exact rebuilt
      · rw [ended.1] at remains
        cases remains
    · cases stepped
  | crash =>
    obtain rfl := Option.some.inj stepped
    simp only [keepsProgress, running, Bool.and_eq_true, decide_eq_true_eq, List.all_eq_true,
      Bool.or_eq_true, List.isEmpty_iff] at keeps
    obtain ⟨within, above⟩ := keeps
    refine ⟨spec.low, fun _ _ => ⟨within, fun n after before => ?_⟩, nofun, fun done => absurd uncompleted done⟩
    have before : n < worker.resumeBlock job := before
    rcases runSpec.remaining n after (by omega) with rebuilt | remains
    · exact rebuilt
    · rcases above _ remains with none | ahead
      · exact rebuilt_iff.mpr (by simp [none])
      · simp only [Chain.blockProofs] at ahead
        omega

theorem step_spec {action : SyncWorkerAction} {worker' : SyncWorker} (nonneg : 0 ≤ job.fromBlock)
    (spec : worker.Spec chain chainId job) (keeps : worker.keepsProgress job action = true)
    (stepped : worker.step chain chainId job action = some worker') : worker'.Spec chain chainId job := by
  unfold step at stepped
  split at stepped
  · cases stepped
  next uncompleted running => exact runStep_spec spec running uncompleted keeps stepped
  next uncompleted idle =>
    split at stepped
    · have handled := handle_spec nonneg spec idle uncompleted
      obtain rfl := Option.some.inj stepped
      refine ⟨spec.low, nofun, fun run isRun => ?_, fun done => absurd uncompleted done⟩
      obtain rfl := Option.some.inj isRun
      exact handled
    · cases stepped

theorem spec_of_reaches (nonneg : 0 ≤ job.fromBlock) (nonempty : job.fromBlock ≤ job.toBlock)
    (run : Transition.Reaches (step chain chainId job) (fun worker action =>
      worker.keepsProgress job action = true) initial worker) : worker.Spec chain chainId job :=
  run.invariant (initial_spec nonempty) fun _ _ _ spec keeps stepped => step_spec nonneg spec keeps stepped

theorem CanFinish.of_step {action : SyncWorkerAction} {worker' : SyncWorker}
    (stepped : worker.step chain chainId job action = some worker')
    (finishes : CanFinish chain chainId job worker') : CanFinish chain chainId job worker := by
  obtain ⟨final, reached, completed⟩ := finishes
  exact ⟨final, (Transition.Reaches.start.next trivial stepped).trans reached, completed⟩

theorem step_running {run : SyncRun} {action : SyncWorkerAction} (running : worker.run = some run)
    (uncompleted : worker.completed = none) :
    worker.step chain chainId job action = worker.runStep job run action := by
  unfold step
  rw [uncompleted, running]

theorem step_complete {added : Bool} (running : worker.run = some ⟨[], added, true⟩)
    (uncompleted : worker.completed = none) : worker.step chain chainId job .complete =
      some { worker with
        run := none
        completed := some (job.models.map fun modelId => ⟨job.jobType, modelId⟩) } := by
  rw [step_running running uncompleted]
  rfl

theorem step_addJobs {blockProofs : BlockProofs} {pending : List BlockProofs} {emitted : Bool}
    (running : worker.run = some ⟨blockProofs :: pending, false, emitted⟩)
    (uncompleted : worker.completed = none) (proofs : blockProofs.proofs ≠ []) :
    worker.step chain chainId job .addJobs = some { worker with
      rebuildJobs := worker.rebuildJobs ++
        blockProofs.proofs.map fun proof => createRebuildAnchorJob proof job.models
      run := some ⟨blockProofs :: pending, true, emitted⟩ } := by
  rw [step_running running uncompleted]
  exact if_pos ⟨proofs, rfl⟩

theorem step_updateJob {blockProofs : BlockProofs} {pending : List BlockProofs} {added emitted : Bool}
    (running : worker.run = some ⟨blockProofs :: pending, added, emitted⟩)
    (uncompleted : worker.completed = none) (done : blockProofs.proofs = [] ∨ added = true) :
    worker.step chain chainId job .updateJob = some { worker with
      currentBlock := some (blockProofs.blockNumber + 1)
      run := some ⟨pending, false, true⟩ } := by
  rw [step_running running uncompleted]
  exact if_pos done

/-- A run goes through its pending blocks and completes the job. -/
theorem canFinish_running {pending : List BlockProofs} {added emitted : Bool}
    (running : worker.run = some ⟨pending, added, emitted⟩) (uncompleted : worker.completed = none)
    (finishes : pending ≠ [] ∨ emitted = true) : CanFinish chain chainId job worker := by
  induction pending generalizing worker added emitted with
  | nil =>
    obtain rfl : emitted = true := by simpa using finishes
    exact .of_step (step_complete running uncompleted) ⟨_, .start, nofun⟩
  | cons blockProofs pending ih =>
    have processed {worker : SyncWorker} {added : Bool}
        (running : worker.run = some ⟨blockProofs :: pending, added, emitted⟩)
        (uncompleted : worker.completed = none) (done : blockProofs.proofs = [] ∨ added = true) :
        CanFinish chain chainId job worker :=
      .of_step (step_updateJob running uncompleted done) (ih rfl uncompleted (.inr rfl))
    by_cases done : blockProofs.proofs = [] ∨ added = true
    · exact processed running uncompleted done
    · obtain ⟨proofs, notAdded⟩ := not_or.mp done
      obtain rfl := Bool.eq_false_of_not_eq_true notAdded
      exact .of_step (step_addJobs running uncompleted proofs) (processed rfl uncompleted (.inr rfl))

/-- Nothing is left to load, so the handler throws whenever the job is taken up. -/
def Stuck (job : SyncJobData) (worker : SyncWorker) : Prop :=
  worker.completed = none ∧ job.toBlock < worker.resumeBlock job ∧
    ∀ run ∈ worker.run, run.pending = [] ∧ run.emitted = false

theorem Stuck.step {action : SyncWorkerAction} {worker' : SyncWorker} (stuck : Stuck job worker)
    (stepped : worker.step chain chainId job action = some worker') : Stuck job worker' := by
  obtain ⟨uncompleted, past, empty⟩ := stuck
  cases running : worker.run with
  | none =>
    unfold SyncWorker.step at stepped
    rw [uncompleted, running] at stepped
    cases action with
    | handle =>
      obtain rfl := Option.some.inj stepped
      refine ⟨rfl, past, fun run isRun => ?_⟩
      obtain rfl := Option.some.inj isRun
      refine ⟨?_, rfl⟩
      unfold createBlocksProofsLoader
      rw [batches_empty past, List.flatMap_nil]
    | _ => cases stepped
  | some run =>
    obtain ⟨nothing, unemitted⟩ := empty run running
    rw [step_running running uncompleted] at stepped
    cases action with
    | crash =>
      obtain rfl := Option.some.inj stepped
      exact ⟨uncompleted, past, nofun⟩
    | _ => simp [runStep, nothing, unemitted] at stepped

/-- A job that no run processes can be finished exactly if its stored block is one of the range. -/
theorem canFinish_iff (nonneg : 0 ≤ job.fromBlock) (low : job.fromBlock ≤ worker.resumeBlock job)
    (idle : worker.run = none) (uncompleted : worker.completed = none) :
    CanFinish chain chainId job worker ↔ worker.resumeBlock job ≤ job.toBlock := by
  constructor
  · rintro ⟨final, reached, completed⟩
    by_contra past
    have stuck : Stuck job final :=
      reached.invariant (⟨uncompleted, by omega, by simp [idle]⟩ : Stuck job worker)
        fun _ _ _ stuck _ stepped => stuck.step stepped
    exact completed stuck.1
  · intro within
    have taken : worker.step chain chainId job .handle = some { worker with
        run := some ⟨createBlocksProofsLoader chain chainId (worker.resumeBlock job) job.toBlock,
          false, false⟩ } := by
      unfold step
      rw [uncompleted, idle]
    exact .of_step taken (canFinish_running rfl uncompleted
      (.inl (blocksProofs_ne_nil chain chainId (by omega) within)))

/-- As long as crashes keep the progress, a completed job has rebuilt every block, a job that is
not completed can still be finished, and after the next crash it can be exactly if the stored
block is one of the range. -/
theorem sync_completes (nonneg : 0 ≤ job.fromBlock) (nonempty : job.fromBlock ≤ job.toBlock)
    (run : Transition.Reaches (step chain chainId job) (fun worker action =>
      worker.keepsProgress job action = true) initial worker) :
    (worker.completed ≠ none → ∀ n, job.fromBlock ≤ n → n ≤ job.toBlock →
      Rebuilt chain chainId job worker.rebuildJobs n) ∧
    CanFinish chain chainId job worker ∧
    ∀ crashed, worker.step chain chainId job .crash = some crashed →
      (CanFinish chain chainId job crashed ↔ worker.resumeBlock job ≤ job.toBlock) := by
  have spec := spec_of_reaches nonneg nonempty run
  refine ⟨spec.completed, ?_, fun crashed stepped => ?_⟩
  · by_cases completed : worker.completed = none
    · cases running : worker.run with
      | none =>
        exact (canFinish_iff nonneg spec.low running completed).mpr (spec.waiting running completed).1
      | some run => exact canFinish_running running completed (spec.running run running).finishes
    · exact ⟨worker, .start, completed⟩
  · unfold step at stepped
    split at stepped
    · cases stepped
    next uncompleted running =>
      obtain rfl := Option.some.inj stepped
      exact canFinish_iff nonneg spec.low rfl uncompleted
    next => cases stepped

/-- The blocks of a range are loaded in ascending order if its ends have equally many digits. -/
theorem blocksProofs_ascending {fromBlock toBlock first : Int} (nonneg : 0 ≤ first)
    (digits : (toString first).length = (toString toBlock).length) (low : first ≤ fromBlock) :
    (createBlocksProofsLoader chain chainId fromBlock toBlock).Pairwise
      fun a b => a.blockNumber < b.blockNumber := by
  unfold createBlocksProofsLoader
  rw [List.pairwise_flatMap]
  constructor
  · intro range member
    obtain ⟨after, nonempty, before⟩ := mem_batches member
    rw [chain.load_eq chainId (by omega) nonempty, List.pairwise_map]
    have sorted := sorted_by_text (range.blocks.filter fun b => chain.anchored b ||
      range.blocks.head? = some b || range.blocks.getLast? = some b)
    have unique := (List.perm_insertionSort (fun a b : Int => toString a ≤ toString b) _).nodup_iff.mpr
      ((blocks_nodup range).filter fun b => chain.anchored b ||
        range.blocks.head? = some b || range.blocks.getLast? = some b)
    refine (sorted.and unique).imp_of_mem fun {a b} memberA memberB ordered => ?_
    have insideA := mem_blocks.mp (mem_of_mem_loaded memberA)
    have insideB := mem_blocks.mp (mem_of_mem_loaded memberB)
    simp only [Chain.blockProofs]
    by_contra notLess
    have less : b < a := by
      have := ordered.2
      omega
    have back : toString b ≤ toString a :=
      @toString_le_of_lt ⟨first, toBlock⟩ nonneg digits b a (by dsimp only; omega) less
        (by dsimp only; omega)
    exact ordered.2 (eq_of_toString (by omega) (by omega) (String.le_antisymm ordered.1 back))
  · unfold batches
    rw [List.pairwise_map]
    refine List.pairwise_lt_range.imp_of_mem fun {i j} memberI memberJ less a memberA b memberB => ?_
    have boundsI := mem_batches (List.mem_map_of_mem memberI)
    have boundsJ := mem_batches (List.mem_map_of_mem memberJ)
    obtain ⟨m, _, beforeM, rfl⟩ := mem_load chain chainId (Int.le_trans (by omega) boundsI.1) boundsI.2.1 memberA
    obtain ⟨n, afterN, _, rfl⟩ := mem_load chain chainId (Int.le_trans (by omega) boundsJ.1) boundsJ.2.1 memberB
    simp only [GET_LOGS_BATCH_SIZE, Chain.blockProofs] at beforeM afterN ⊢
    omega

/-- The blocks to process go up from the stored one. -/
def Ascending (job : SyncJobData) (worker : SyncWorker) : Prop :=
  ∀ run ∈ worker.run, (run.pending.Pairwise fun a b => a.blockNumber < b.blockNumber) ∧
    ∀ blockProofs ∈ run.pending, worker.resumeBlock job ≤ blockProofs.blockNumber

theorem ascending_step (nonneg : 0 ≤ job.fromBlock)
    (digits : (toString job.fromBlock).length = (toString job.toBlock).length)
    (spec : worker.Spec chain chainId job) (ascending : Ascending job worker) {action : SyncWorkerAction}
    {worker' : SyncWorker} (stepped : worker.step chain chainId job action = some worker') :
    Ascending job worker' := by
  unfold step at stepped
  split at stepped
  · cases stepped
  next run _ running =>
    obtain ⟨sorted, above⟩ := ascending run running
    cases action with
    | handle => cases stepped
    | addJobs =>
      simp only [runStep] at stepped
      split at stepped
      · cases stepped
      · split at stepped
        · obtain rfl := Option.some.inj stepped
          intro run' isRun
          obtain rfl := Option.some.inj isRun
          exact ⟨sorted, above⟩
        · cases stepped
    | updateJob =>
      simp only [runStep] at stepped
      split at stepped
      · cases stepped
      next blockProofs pending isPending =>
        split at stepped
        · obtain rfl := Option.some.inj stepped
          intro run' isRun
          obtain rfl := Option.some.inj isRun
          obtain ⟨first, rest⟩ := List.pairwise_cons.mp (isPending ▸ sorted)
          refine ⟨rest, fun other member => ?_⟩
          have less := first other member
          have low := (spec.running run running).blocks other (by simp [isPending, member])
          obtain ⟨n, after, _, rfl⟩ := low
          simp only [resumeBlock, Chain.blockProofs] at less ⊢
          split
          · exact after
          · omega
        · cases stepped
    | complete =>
      simp only [runStep] at stepped
      split at stepped
      · obtain rfl := Option.some.inj stepped
        exact nofun
      · cases stepped
    | crash =>
      obtain rfl := Option.some.inj stepped
      exact nofun
  next =>
    split at stepped
    · obtain rfl := Option.some.inj stepped
      intro run isRun
      obtain rfl := Option.some.inj isRun
      have low := spec.low
      refine ⟨blocksProofs_ascending nonneg digits low, fun blockProofs member => ?_⟩
      obtain ⟨n, after, _, rfl⟩ := mem_blocksProofs chain chainId (by omega) member
      exact after
    · cases stepped

/-- In a range whose ends have equally many digits a crash keeps the progress as long as the stored
block is one of the range. -/
theorem keepsProgress_of_digits (nonneg : 0 ≤ job.fromBlock) (nonempty : job.fromBlock ≤ job.toBlock)
    (digits : (toString job.fromBlock).length = (toString job.toBlock).length)
    (run : Transition.Reaches (step chain chainId job) (fun worker action =>
      worker.keepsProgress job action = true) initial worker) (action : SyncWorkerAction)
    (within : worker.resumeBlock job ≤ job.toBlock) : worker.keepsProgress job action = true := by
  have both : worker.Spec chain chainId job ∧ Ascending job worker :=
    @Transition.Reaches.invariant _ _ _ _ _ _ (fun worker => worker.Spec chain chainId job ∧
      Ascending job worker) ⟨initial_spec nonempty, by simp [Ascending, initial]⟩
      (fun _ _ _ ⟨spec, ascending⟩ keeps stepped =>
        ⟨step_spec nonneg spec keeps stepped, ascending_step nonneg digits spec ascending stepped⟩) run
  cases action with
  | crash =>
    cases running : worker.run with
    | none => simp only [keepsProgress, running]
    | some run =>
      simp only [keepsProgress, running, Bool.and_eq_true, decide_eq_true_eq, List.all_eq_true,
        Bool.or_eq_true]
      exact ⟨within, fun blockProofs member => .inr ((both.2 run running).2 blockProofs member)⟩
  | _ => rfl

end

/-- The job for a range of the chain whose blocks 5, 8, 9 and 10 have anchors. -/
def catchUp (fromBlock toBlock : Int) : SyncJobData := ⟨.Catchup, fromBlock, toBlock, ["k2t6wyfsu4pg"]⟩

def anchoredChain : Chain := unaryChain [5, 8, 9, 10]

def afterActions (job : SyncJobData) (actions : List SyncWorkerAction) : SyncWorker :=
  (Transition.run (step anchoredChain "eip155:1" job) initial actions).getD initial

/-- The worker crashes after the first block, and then finishes. -/
def crashedOnce : List SyncWorkerAction :=
  [.handle, .updateJob, .crash, .handle, .addJobs, .updateJob, .updateJob, .complete]

theorem sync_completes_crashedOnce :
    (afterActions (catchUp 4 6) crashedOnce).completed ≠ none ∧ ∀ n, 4 ≤ n → n ≤ 6 →
      Rebuilt anchoredChain "eip155:1" (catchUp 4 6) (afterActions (catchUp 4 6) crashedOnce).rebuildJobs n := by
  have completed : (afterActions (catchUp 4 6) crashedOnce).completed ≠ none := by decide
  have ran : Transition.run (step anchoredChain "eip155:1" (catchUp 4 6)) initial crashedOnce =
      some (afterActions (catchUp 4 6) crashedOnce) := rfl
  exact ⟨completed, (sync_completes (by decide) (by decide) (Transition.reaches_of_run ran (by decide))).1 completed⟩

/-- The worker crashes after block 10, which comes before 8 and 9. -/
def crashedEarly : List SyncWorkerAction :=
  [.handle, .addJobs, .updateJob, .crash, .handle, .updateJob, .complete]

/-- The worker crashes before it completes the job, once the last block is stored. -/
def crashedLate : List SyncWorkerAction :=
  [.handle, .updateJob, .addJobs, .updateJob, .updateJob, .crash]

/-- After a crash a completed job may have left out blocks, and a job may be stuck. -/
theorem crash_loses_blocks :
    (¬∀ worker : SyncWorker,
      Transition.Reaches (step anchoredChain "eip155:1" (catchUp 8 11)) (fun _ _ => True) initial worker →
        worker.completed ≠ none → ∀ n, 8 ≤ n → n ≤ 11 →
          Rebuilt anchoredChain "eip155:1" (catchUp 8 11) worker.rebuildJobs n) ∧
    ¬∀ worker : SyncWorker,
      Transition.Reaches (step anchoredChain "eip155:1" (catchUp 4 6)) (fun _ _ => True) initial worker →
        CanFinish anchoredChain "eip155:1" (catchUp 4 6) worker := by
  constructor
  · intro rebuilt
    have ran : Transition.run (step anchoredChain "eip155:1" (catchUp 8 11)) initial crashedEarly =
        some (afterActions (catchUp 8 11) crashedEarly) := rfl
    have missing := rebuilt _ (Transition.reaches_of_run ran (by decide)) (by decide) 8 (by decide)
      (by decide) (unaryLog 8) (by decide) rfl
    revert missing
    decide
  · intro finishes
    have ran : Transition.run (step anchoredChain "eip155:1" (catchUp 4 6)) initial crashedLate =
        some (afterActions (catchUp 4 6) crashedLate) := rfl
    have within := (canFinish_iff (by decide) (by decide) (by decide) (by decide)).mp
      (finishes _ (Transition.reaches_of_run ran (by decide)))
    revert within
    decide

end SyncWorker

end Ceramic
