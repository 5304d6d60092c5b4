import Ceramic.Library.Transition
import Mathlib.Data.List.Sort

/-! Continuous sync: a job for the blocks of the time the node was down, and one for each block
that the listener is told of. The number of the last processed block and the jobs outlive a
crash, the rest is gone. -/
namespace Ceramic

def BLOCK_CONFIRMATIONS : Int := 20

structure Block where
  number : Int
  hash : String
  parentHash : String
  deriving DecidableEq, Repr

inductive SyncJobType where
  | Catchup
  | Reorg
  | Full
  | Continuous
  deriving DecidableEq, Repr

structure SyncJobData where
  jobType : SyncJobType
  fromBlock : Int
  toBlock : Int
  models : List String
  deriving DecidableEq, Repr

structure StoredState where
  processedBlockHash : Option String
  processedBlockNumber : Option Int
  deriving DecidableEq, Repr

/-- The network and the blocks of it that contain anchors, and the models of the node. -/
structure SyncConfig where
  defaultStartBlock : Int
  modelsToSync : List String
  anchored : Int → Bool

inductive HandlerStage where
  /-- `_addSyncJob` is under way. -/
  | adding
  /-- The job is in the queue, and `_updateStoredState` is under way. -/
  | updating
  deriving DecidableEq, Repr

/-- A run of `_handleBlockProofs`. -/
structure BlockHandler where
  block : Block
  job : SyncJobData
  stage : HandlerStage
  deriving DecidableEq, Repr

/-- The job of `init`. -/
inductive CatchUp where
  | adding (job : SyncJobData)
  | done
  | failed
  deriving DecidableEq, Repr

/-- What a node knows from its start to its end. -/
structure SyncSession where
  startBlock : Block
  catchUp : CatchUp
  subscribed : Bool
  /-- The highest block that the listener was told of. -/
  highest : Option Int
  /-- The blocks whose proofs are loaded and that are not handled yet. -/
  loaded : List Int
  /-- The block handled last. -/
  previous : Option Block
  handlers : List BlockHandler
  deriving DecidableEq, Repr

structure SyncApi where
  state : StoredState
  /-- The jobs that have been enqueued. -/
  jobs : List SyncJobData
  session : Option SyncSession
  deriving DecidableEq, Repr

inductive SyncAction where
  | init (latestBlock : Block)
  | catchUpAdded
  | catchUpFailed
  | block (blockNumber : Int)
  | emit (hash parentHash : String)
  | added (i : Nat)
  | updated (i : Nat)
  | failed (i : Nat)
  | listenerFailed
  | crash
  deriving DecidableEq, Repr

/-- The blocks after one up to another. -/
def blocksAfter (last blockNumber : Int) : List Int :=
  (List.range (blockNumber - last).toNat).map fun i : Nat => last + 1 + i

/-- The blocks to load, and the highest block then. -/
def createContinuousBlocksListener (highest : Option Int) (blockNumber : Int) :
    List Int × Option Int :=
  match highest with
  | none => ([blockNumber], some blockNumber)
  | some highest =>
    if blockNumber ≤ highest then ([], some highest)
    else (blocksAfter highest blockNumber, some blockNumber)

/-- The first block, the last one and those with anchors, in the order of their numbers' texts. -/
def createBlockProofsLoaderForRange (anchored : Int → Bool) (blocks : List Int) : List Int :=
  (blocks.filter fun b => anchored b || blocks.head? = some b || blocks.getLast? = some b).insertionSort
    fun a b => toString a ≤ toString b

namespace SyncSession

/-- `reorganized`: the block is not the child of the one before. -/
def reorganized (session : SyncSession) (block : Block) : Bool :=
  match session.previous with
  | none => block.parentHash != session.startBlock.hash
  | some previous => block.parentHash != previous.hash

end SyncSession

/-- The job of `_handleBlockProofs`. -/
def blockJob (models : List String) (block : Block) (reorganized : Bool) : SyncJobData :=
  if reorganized then
    { jobType := .Reorg
      fromBlock := block.number - BLOCK_CONFIRMATIONS
      toBlock := block.number
      models }
  else
    { jobType := .Continuous
      fromBlock := block.number
      toBlock := block.number
      models }

/-- The job of `init`, from what had been processed to the latest block. -/
def catchUpJob (config : SyncConfig) (processedBlockNumber : Option Int) (latestBlock : Int) :
    CatchUp :=
  match processedBlockNumber with
  | none => .adding
    { jobType := .Catchup
      fromBlock := config.defaultStartBlock
      toBlock := latestBlock
      models := config.modelsToSync }
  | some processedBlockNumber =>
    if processedBlockNumber < latestBlock then .adding
      { jobType := .Catchup
        fromBlock := processedBlockNumber
        toBlock := latestBlock
        models := config.modelsToSync }
    else .done

def _addSyncJob (jobs : List SyncJobData) (data : SyncJobData) : List SyncJobData :=
  if data.models = [] then jobs else jobs ++ [data]

namespace SyncApi

/-- A node whose state table is new. -/
def fresh : SyncApi := ⟨⟨none, none⟩, [], none⟩

/-- The subscription starts before the catch-up job is added. -/
def init (config : SyncConfig) (sync : SyncApi) (latestBlock : Block) : SyncApi :=
  let session : SyncSession :=
    { startBlock := latestBlock
      catchUp := catchUpJob config sync.state.processedBlockNumber latestBlock.number
      subscribed := true
      highest := none
      loaded := []
      previous := none
      handlers := [] }
  { sync with session }

/-- The subscription ends, and the handlers that run go on. -/
def unsubscribed (session : SyncSession) : SyncSession :=
  { session with subscribed := false, loaded := [] }

/-- A step of the node while it is up. -/
def sessionStep (config : SyncConfig) (sync : SyncApi) (session : SyncSession) :
    SyncAction → Option SyncApi
  | .init _ => none
  | .catchUpAdded =>
    match session.catchUp with
    | .adding job => some { sync with
        jobs := _addSyncJob sync.jobs job, session := some { session with catchUp := .done } }
    | _ => none
  | .catchUpFailed =>
    match session.catchUp with
    | .adding _ => some { sync with session := some { session with catchUp := .failed } }
    | _ => none
  | .block blockNumber =>
    if session.subscribed then
      let (load, highest) :=
        createContinuousBlocksListener session.highest (blockNumber - BLOCK_CONFIRMATIONS)
      some { sync with session := some { session with
        highest, loaded := session.loaded ++ createBlockProofsLoaderForRange config.anchored load } }
    else none
  | .emit hash parentHash =>
    match session.loaded with
    | [] => none
    | number :: loaded =>
      let block : Block := { number, hash, parentHash }
      let job := blockJob config.modelsToSync block (session.reorganized block)
      some { sync with session := some { session with
        loaded, previous := some block, handlers := session.handlers ++ [⟨block, job, .adding⟩] } }
  | .added i =>
    match session.handlers[i]? with
    | some ⟨block, job, .adding⟩ => some { sync with
        jobs := _addSyncJob sync.jobs job
        session := some { session with handlers := session.handlers.set i ⟨block, job, .updating⟩ } }
    | _ => none
  | .updated i =>
    match session.handlers[i]? with
    | some ⟨block, _, .updating⟩ => some { sync with
        state := ⟨some block.hash, some block.number⟩
        session := some { session with handlers := session.handlers.eraseIdx i } }
    | _ => none
  | .failed i =>
    match session.handlers[i]? with
    | some _ => some { sync with
        session := some { unsubscribed session with handlers := session.handlers.eraseIdx i } }
    | none => none
  | .listenerFailed => some { sync with session := some (unsubscribed session) }
  | .crash => some { sync with session := none }

def step (config : SyncConfig) (sync : SyncApi) (action : SyncAction) : Option SyncApi :=
  match sync.session with
  | some session => sync.sessionStep config session action
  | none =>
    match action with
    | .init latestBlock => some (sync.init config latestBlock)
    | _ => none

end SyncApi

theorem mem_blocksAfter {last blockNumber b : Int} :
    b ∈ blocksAfter last blockNumber ↔ last < b ∧ b ≤ blockNumber := by
  unfold blocksAfter
  rw [List.mem_map]
  constructor
  · rintro ⟨i, inside, rfl⟩
    have := List.mem_range.mp inside
    omega
  · rintro ⟨after, upTo⟩
    exact ⟨(b - last - 1).toNat, List.mem_range.mpr (by omega), by omega⟩

section

variable {anchored : Int → Bool} {blocks : List Int} {b : Int}

theorem mem_of_mem_loaded (member : b ∈ createBlockProofsLoaderForRange anchored blocks) :
    b ∈ blocks :=
  List.mem_of_mem_filter ((List.mem_insertionSort _).mp member)

theorem mem_loaded_of_anchored (member : b ∈ blocks) (anchor : anchored b) :
    b ∈ createBlockProofsLoaderForRange anchored blocks :=
  (List.mem_insertionSort _).mpr (List.mem_filter.mpr ⟨member, by simp [anchor]⟩)

end

end Ceramic
