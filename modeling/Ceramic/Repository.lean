import Ceramic.CommitChain
import Ceramic.Library.Transition

/-! The running states of one stream, and the operations on it that a node interleaves. An
operation goes on from one `await` to the next in one turn; in between the others take
theirs. A lane of a queue is held by one operation at a time. -/
namespace Ceramic

open StreamUtils

inductive SyncOptions where
  | PREFER_CACHE | SYNC_ALWAYS | NEVER_SYNC | SYNC_ON_ERROR
  deriving DecidableEq, Repr

inductive SyncStatus where
  | NOT_SYNCED | ALREADY_SYNCED | DID_SYNC
  deriving DecidableEq, Repr

inductive AnchorRequestStatusName where
  | PENDING | PROCESSING | COMPLETED | FAILED | READY | REPLACED
  deriving DecidableEq, Repr

structure AnchorEvent where
  status : AnchorRequestStatusName
  cid : Cid
  /-- `witnessCar.roots[0]`. -/
  witnessRoot : Option Cid := none
  deriving DecidableEq, Repr

structure RunningState where
  value : StreamState
  pinnedCommits : Option (List Cid) := none
  deriving DecidableEq, Repr

namespace RunningState

def tip (state : RunningState) : Cid := tipFromState state.value

def isPinned (state : RunningState) : Bool :=
  match state.pinnedCommits with
  | some commits => !commits.isEmpty
  | none => false

def markAsPinned (state : RunningState) : RunningState :=
  { state with pinnedCommits := some (cids state.value) }

def make (initial : StreamState) (pinned : Bool) : RunningState :=
  if pinned then markAsPinned { value := initial } else { value := initial }

/-- The commits that `PinStore.add` has not pinned before. -/
def newCommits (state : RunningState) : List Cid :=
  match state.pinnedCommits with
  | some commits => (cids state.value).filter fun cid => cid ∉ commits
  | none => cids state.value

@[simp] theorem make_value (initial : StreamState) (pinned : Bool) :
    (make initial pinned).value = initial := by
  cases pinned <;> rfl

end RunningState

/-- What is called on the stream. A running state is given by its place in the heap. -/
inductive Call where
  | load (sync : SyncOptions)
  | applyCommit (commit : Cid)
  /-- Whether the update came with a model that is indexed. -/
  | handleUpdateFromNetwork (tip : Cid) (shouldIndex : Bool)
  | loadAtCommit (commitId : CommitID) (sync : SyncOptions)
  /-- The anchor loop's handler. -/
  | handle (event : AnchorEvent)
  | handleAnchorEvent (state : Nat) (event : AnchorEvent)
  deriving DecidableEq, Repr

/-- Where a running state is looked for: by `load`, in the loading lane, or outside of it. -/
inductive Lookup where
  | load
  | fromMemoryOrStore
  | fromMemoryOrStore_UNSAFE
  deriving DecidableEq, Repr

/-- An attempt of `_handleAnchorCommit`. -/
structure AnchorAttempt where
  tip : Cid
  anchorCommit : Cid
  remainingRetries : Nat
  deriving DecidableEq, Repr

def APPLY_ANCHOR_COMMIT_ATTEMPTS : Nat := 3

/-- What is left to do after `_updateStateIfPinned`. -/
inductive After where
  | loaded (status : SyncStatus)
  | applied (tip : Cid)
  | tipHandled (attempt : Option AnchorAttempt)
  | finished
  deriving DecidableEq, Repr

/-- The progress of `_updateStateIfPinned`. -/
inductive Update where
  | loadingState
  | deciding (isPinned : Bool)
  | pinning
  | saving (value : StreamState)
  | returning
  deriving DecidableEq, Repr

/-- What an operation waits for. -/
inductive Stage where
  | queuedLookup (lookup : Lookup)
  | readingStore (lookup : Lookup)
  | storeRead (lookup : Lookup) (found : Option StreamState)
  | syncing (state : Nat) (snapshot : StreamState)
  /-- `_resyncStreamFromNetwork` if there is a known tip, else `_loadStreamFromNetwork`. -/
  | resyncing (knownTip : Option Cid)
  | loadingGenesis (status : SyncStatus)
  | loaded (state : Nat) (status : SyncStatus)
  | queuedUpdate (state : Nat) (after : After)
  | updating (lane : String) (state : Nat) (progress : Update) (after : After)
  | queuedApply (state : Nat)
  | applying (state : Nat) (snapshot : StreamState)
  | anchoring (state : Nat) (event : AnchorEvent)
  | importing (state : Nat) (attempt : AnchorAttempt)
  | queuedTip (state : Nat) (tip : Cid) (attempt : Option AnchorAttempt)
  | handlingTip (state : Nat) (tip : Cid) (attempt : Option AnchorAttempt) (snapshot : StreamState)
  | queuedCommit (state : Option Nat)
  | resetting (existing : Option (Nat × StreamState))
  | done
  deriving DecidableEq, Repr

structure Operation where
  call : Call
  stage : Stage
  deriving DecidableEq, Repr

/-- The node as far as it does not change. -/
structure Node (stream : StreamID) where
  net : Network stream
  /-- `index.shouldIndexStream` of the state's model. -/
  shouldIndex : StreamState → Bool

structure Repository where
  heap : List RunningState := []
  /-- The running state in `inmemory`; the stream alone does not fill the cache. -/
  inmemory : Option Nat := none
  /-- The stream's entry in the state store. -/
  stored : Option StreamState := none
  /-- Whether the stream is in `#syncedPinnedStreams`. -/
  synced : Bool := false
  operations : List Operation := []
  /-- The tips with which `applyCommit` has resolved. -/
  resolved : List Cid := []
  /-- The commits whose log has lost in `_pickLogToAccept` since they were applied. -/
  outcompeted : List Cid := []
  deriving DecidableEq

/-- The commit was applied by a call of `applyCommit` that has not resolved yet. -/
def Stage.applied : Stage → Option Cid
  | .queuedUpdate _ (.applied tip) | .updating _ _ _ (.applied tip) => some tip
  | _ => none

inductive Lane where
  | loading
  | execution (name : String)
  deriving DecidableEq, Repr

/-- The lane that an operation holds. -/
def Operation.lane (stream : StreamID) (operation : Operation) : Option Lane :=
  match operation.stage with
  | .readingStore .fromMemoryOrStore_UNSAFE | .storeRead .fromMemoryOrStore_UNSAFE _ => none
  | .readingStore _ | .storeRead _ _ | .syncing _ _ | .resyncing _ | .loadingGenesis _ => some .loading
  | .updating lane _ _ _ => some (.execution lane)
  | .applying _ _ | .handlingTip _ _ _ _ => some (.execution stream.toString)
  | .resetting _ =>
    match operation.call with
    | .loadAtCommit commitId _ => some (.execution commitId.toString)
    | _ => none
  | _ => none

/-- What an operation writes in a turn. -/
inductive Write where
  | nothing
  /-- `state$.next(value)`. -/
  | next (state : Nat) (value : StreamState)
  /-- `_registerRunningState` of a new running state. -/
  | register (state : RunningState)
  /-- The state store has the value, and the running state is marked as pinned. -/
  | save (state : Nat) (value : StreamState)
  | markPinnedAndSynced
  deriving DecidableEq

structure Turn where
  write : Write := .nothing
  stage : Stage
  /-- A tip that `applyCommit` made the running state's, or with which it resolved. -/
  applied : Option Cid := none
  resolved : Option Cid := none
  outcompeted : List Cid := []
  deriving DecidableEq

namespace Repository

def next (repository : Repository) (state : Nat) (value : StreamState) : Repository :=
  { repository with heap := repository.heap.modify state fun old => { old with value } }

def registerRunningState (repository : Repository) (state : RunningState) : Repository :=
  { repository with
    heap := repository.heap ++ [state]
    inmemory := some repository.heap.length }

def save (repository : Repository) (state : Nat) (value : StreamState) : Repository :=
  { repository with
    heap := repository.heap.modify state RunningState.markAsPinned
    stored := some value }

def write (repository : Repository) : Write → Repository
  | .nothing => repository
  | .next state value => repository.next state value
  | .register state => repository.registerRunningState state
  | .save state value => repository.save state value
  | .markPinnedAndSynced => { repository with synced := true }

/-- The repository after a turn of an operation. -/
def take (repository : Repository) (index : Nat) (operation : Operation) (turn : Turn) : Repository :=
  let written := repository.write turn.write
  { written with
    operations := repository.operations.set index { operation with stage := turn.stage }
    resolved := repository.resolved ++ turn.resolved.toList
    outcompeted := (repository.outcompeted ++ turn.outcompeted).filter (some · ≠ turn.applied) }

/-- The running state that the cache has for the stream. -/
def registered (repository : Repository) : Option RunningState := do
  let state ← repository.inmemory
  repository.heap[state]?

def registeredLog (repository : Repository) : List Cid :=
  match repository.registered with
  | some state => cids state.value
  | none => []

end Repository

namespace Node

variable {stream : StreamID} (node : Node stream)

def isFree (_ : Node stream) (repository : Repository) (lane : Lane) : Bool :=
  repository.operations.all fun operation => operation.lane stream ≠ some lane

/-- The lane of the stream in the execution queue. -/
def lane (_ : Node stream) : String := stream.toString

def syncOf : Call → SyncOptions
  | .load sync | .loadAtCommit _ sync => sync
  | _ => .PREFER_CACHE

def isLoadAtCommit : Call → Bool
  | .loadAtCommit _ _ => true
  | _ => false

/-- The caller goes on with the running state that it loaded. -/
def returnLoaded (call : Call) (state : Nat) : Stage :=
  match call with
  | .applyCommit _ => .queuedApply state
  | .handleUpdateFromNetwork tip _ => .queuedTip state tip none
  | .loadAtCommit _ _ => .queuedCommit (some state)
  | _ => .done

/-- What is done with the running state that was found in memory or in the state store. -/
def lookedUp (repository : Repository) (useRustCeramic : Bool) (call : Call) (lookup : Lookup)
    (existing : Option Nat) (status : SyncStatus) : Option Stage :=
  match lookup, call with
  | .fromMemoryOrStore_UNSAFE, .handleUpdateFromNetwork tip shouldIndex =>
    match existing with
    | some state => some (.queuedTip state tip none)
    | none => if shouldIndex then some (.queuedLookup .load) else some .done
  | .fromMemoryOrStore, .handle event =>
    match existing with
    | some state => some (.anchoring state event)
    | none => some .done
  | .load, call =>
    if useRustCeramic then
      match existing with
      | some state => some (.loaded state .ALREADY_SYNCED)
      | none => some (.loadingGenesis .ALREADY_SYNCED)
    else match syncOf call with
    | .PREFER_CACHE | .SYNC_ON_ERROR =>
      match existing with
      | none => some (.resyncing none)
      | some state =>
        if status = .ALREADY_SYNCED then some (.loaded state .ALREADY_SYNCED)
        else do
          let found ← repository.heap[state]?
          return .syncing state found.value
    | .NEVER_SYNC =>
      match existing with
      | some state => some (.loaded state status)
      | none => some (.loadingGenesis .NOT_SYNCED)
    | .SYNC_ALWAYS =>
      match existing with
      | none => some (.resyncing none)
      | some state => do
        let found ← repository.heap[state]?
        return .resyncing (some found.tip)
  | _, _ => none

/-- The lookup begins with the memory. -/
def lookUp (repository : Repository) (moment : Nat) (call : Call) (lookup : Lookup) : Option Turn := do
  guard (lookup = .fromMemoryOrStore_UNSAFE || node.isFree repository .loading)
  match repository.inmemory with
  | some state =>
    let stage ← lookedUp repository (node.net.env moment).useRustCeramic call lookup (some state)
      .ALREADY_SYNCED
    return { stage }
  | none => return { stage := .readingStore lookup }

/-- The rest of the lookup, after `stateStore.load`. -/
def lookUpStored (repository : Repository) (moment : Nat) (call : Call) (lookup : Lookup)
    (found : Option StreamState) : Option Turn := do
  match found with
  | some value =>
    let state := RunningState.make value true
    let status := if repository.synced then SyncStatus.ALREADY_SYNCED else .NOT_SYNCED
    let stage ← lookedUp (repository.registerRunningState state) (node.net.env moment).useRustCeramic
      call lookup (some repository.heap.length) status
    return { write := .register state, stage }
  | none =>
    let stage ← lookedUp repository (node.net.env moment).useRustCeramic call lookup none .NOT_SYNCED
    return { stage }

/-- The end of what an operation does after it updated the state store. -/
def finishUpdate (state : RunningState) (index : Nat) (call : Call) : After → Turn
  | .loaded status =>
    { write := if status = .DID_SYNC ∧ state.isPinned then .markPinnedAndSynced else .nothing
      stage := returnLoaded call index }
  | .applied tip => { stage := .done, resolved := some tip }
  | .tipHandled _ | .finished => { stage := .done }

/-- The next turn of `_updateStateIfPinned`. -/
def update (repository : Repository) (call : Call) (lane : String) (index : Nat) (after : After) :
    Update → Option Turn
  | .loadingState => some { stage := .updating lane index (.deciding repository.stored.isSome) after }
  | .deciding isPinned => do
    let state ← repository.heap[index]?
    if (isPinned || node.shouldIndex state.value) && !state.newCommits.isEmpty then
      return { stage := .updating lane index .pinning after }
    else return { stage := .updating lane index .returning after }
  | .pinning => do
    let state ← repository.heap[index]?
    return { stage := .updating lane index (.saving state.value) after }
  | .saving value => some { write := .save index value, stage := .updating lane index .returning after }
  | .returning => do
    let state ← repository.heap[index]?
    return finishUpdate state index call after

/-- Sets the anchor status of the current value. -/
def withAnchorStatus (state : RunningState) (anchorStatus : AnchorStatus) : StreamState :=
  { state.value with anchorStatus }

/-- What `handleAnchorEvent` does before it first waits. -/
def handleAnchorEvent (state : RunningState) (index : Nat) (event : AnchorEvent) : Option Turn :=
  match event.status with
  | .READY | .PENDING =>
    if event.cid ≠ state.tip ∨ state.value.anchorStatus = .PENDING then some { stage := .done }
    else some { write := .next index (withAnchorStatus state .PENDING)
                stage := .queuedUpdate index .finished }
  | .PROCESSING =>
    if event.cid ≠ state.tip ∨ state.value.anchorStatus = .PROCESSING then some { stage := .done }
    else some { write := .next index (withAnchorStatus state .PROCESSING)
                stage := .queuedUpdate index .finished }
  | .COMPLETED => do
    let anchorCommit ← event.witnessRoot
    return { stage := .importing index ⟨event.cid, anchorCommit, APPLY_ANCHOR_COMMIT_ATTEMPTS - 1⟩ }
  | .FAILED =>
    if event.cid = state.tip then
      some { write := .next index (withAnchorStatus state .FAILED), stage := .done }
    else some { stage := .done }
  | .REPLACED => some { stage := .done }

/-- The first turn of a call. -/
def start (_ : Node stream) (repository : Repository) : Call → Option Stage
  | .load _ | .applyCommit _ => some (.queuedLookup .load)
  | .handleUpdateFromNetwork _ _ => some (.queuedLookup .fromMemoryOrStore_UNSAFE)
  | .loadAtCommit commitId _ => if commitId.baseID = stream then some (.queuedLookup .load) else none
  | .handle _ => some (.queuedLookup .fromMemoryOrStore)
  | .handleAnchorEvent state event =>
    if state < repository.heap.length then some (.anchoring state event) else none

/-- The tips that a resync goes through: the known one comes first. -/
def resyncTips (knownTip : Option Cid) (moment : Nat) (tips : List TipResponse) : List TipResponse :=
  match knownTip with
  | some tip => ⟨moment, tip⟩ :: tips
  | none => tips

/-- The next turn of an operation that goes well, with the tips that a query found. -/
def advance (repository : Repository) (operation : Operation) (moment : Nat)
    (tips : List TipResponse) : Option Turn :=
  let env := node.net.env moment
  let store := node.net.store moment
  match operation.stage with
  | .queuedLookup lookup => node.lookUp repository moment operation.call lookup
  | .readingStore lookup => some { stage := .storeRead lookup repository.stored }
  | .storeRead lookup found => node.lookUpStored repository moment operation.call lookup found
  | .syncing state snapshot =>
    some { write := .next state (StreamLoader.syncStream node.net.world snapshot tips)
           stage := .loaded state .DID_SYNC
           outcompeted := outcompetedInSync node.net.world snapshot tips }
  | .resyncing knownTip =>
    let tips := resyncTips knownTip moment tips
    match StreamLoader.loadStream node.net.world moment stream tips with
    | .ok (some value) =>
      some { write := .register (.make value false)
             stage := .loaded repository.heap.length .DID_SYNC
             outcompeted := outcompetedInLoad node.net.world stream tips }
    | _ => none
  | .loadingGenesis status =>
    match StreamLoader.loadGenesisState env store stream with
    | .ok (some value) =>
      some { write := .register (.make value false), stage := .loaded repository.heap.length status }
    | _ => none
  | .loaded state status => do
    let found ← repository.heap[state]?
    -- `loadAtCommit` skips the check here
    guard (isLoadAtCommit operation.call ∨
      SignatureUtils.checkForCacaoExpiration env found.value = .ok ())
    if status = .ALREADY_SYNCED then return { stage := returnLoaded operation.call state }
    else return { stage := .queuedUpdate state (.loaded status) }
  | .queuedUpdate state after => do
    guard (node.isFree repository (.execution node.lane))
    return { stage := .updating node.lane state .loadingState after }
  | .updating lane state progress after => node.update repository operation.call lane state after progress
  | .queuedApply state => do
    guard (node.isFree repository (.execution node.lane))
    let found ← repository.heap[state]?
    return { stage := .applying state found.value }
  | .applying state originalState =>
    match operation.call with
    | .applyCommit commit =>
      match StreamUpdater.applyCommitFromUser env store originalState commit with
      | .ok updatedState => do
        if tipFromState updatedState = tipFromState originalState then
          -- nothing changed
          let found ← repository.heap[state]?
          return { stage := .done, applied := some found.tip, resolved := some found.tip }
        else
          let tip := tipFromState updatedState
          return { write := .next state updatedState
                   stage := .updating node.lane state .loadingState (.applied tip)
                   applied := some tip
                   outcompeted := outcompetedBy store originalState commit }
      | .error _ => none
    | _ => none
  | .anchoring state event => do
    let found ← repository.heap[state]?
    handleAnchorEvent found state event
  | .importing state attempt => some { stage := .queuedTip state attempt.anchorCommit (some attempt) }
  | .queuedTip state tip attempt => do
    guard (node.isFree repository (.execution node.lane))
    let found ← repository.heap[state]?
    return { stage := .handlingTip state tip attempt found.value }
  | .handlingTip state tip attempt snapshot =>
    match StreamUpdater.applyTipFromNetwork env store snapshot tip with
    | .ok next =>
      some { write := .next state next
             stage := .updating node.lane state .loadingState (.tipHandled attempt)
             outcompeted := outcompetedBy store snapshot tip }
    | .error _ => none
  | .queuedCommit state =>
    match operation.call with
    | .loadAtCommit commitId _ => do
      guard (node.isFree repository (.execution commitId.toString))
      match state with
      | some state =>
        let found ← repository.heap[state]?
        return { stage := .resetting (some (state, found.value)) }
      | none => return { stage := .resetting none }
    | _ => none
  | .resetting (some (state, snapshot)) =>
    match operation.call with
    | .loadAtCommit commitId _ =>
      match StreamLoader.resetStateToCommit env store snapshot commitId with
      | .ok stateAtCommit => do
        guard (SignatureUtils.checkForCacaoExpiration env stateAtCommit = .ok ())
        let found ← repository.heap[state]?
        if isStateSupersetOf stateAtCommit found.value then
          return { write := .next state stateAtCommit
                   stage := .updating commitId.toString state .loadingState .finished }
        else return { stage := .done }
      | .error _ => none
    | _ => none
  | .resetting none =>
    match operation.call with
    | .loadAtCommit commitId _ =>
      match StreamLoader.stateAtCommit env store commitId with
      | .ok (some stateAtCommit) => do
        guard (SignatureUtils.checkForCacaoExpiration env stateAtCommit = .ok ())
        return { write := .register (.make stateAtCommit false)
                 stage := .updating commitId.toString repository.heap.length .loadingState .finished }
      | _ => none
    | _ => none
  | .done => none

/-- The attempt that an operation makes to apply an anchor commit to a running state. -/
def attemptOf : Stage → Option (Nat × AnchorAttempt)
  | .importing state attempt | .queuedTip state _ (some attempt)
  | .handlingTip state _ (some attempt) _
  | .updating _ state _ (.tipHandled (some attempt)) => some (state, attempt)
  | _ => none

/-- Whether an operation is inside of `load`. -/
def inLoad : Stage → Bool
  | .queuedLookup .load | .readingStore .load | .storeRead .load _ | .syncing _ _ | .resyncing _
  | .loadingGenesis _ | .loaded _ _ | .queuedUpdate _ (.loaded _) | .updating _ _ _ (.loaded _) => true
  | _ => false

/-- The next turn of an operation for which something fails. -/
def rejected (repository : Repository) (operation : Operation) : Option Turn :=
  match attemptOf operation.stage with
  | some (state, attempt) =>
    match attempt.remainingRetries with
    | remaining + 1 => some { stage := .importing state { attempt with remainingRetries := remaining } }
    | 0 => do
      let found ← repository.heap[state]?
      if attempt.tip = found.tip then
        return { write := .next state (withAnchorStatus found .FAILED), stage := .done }
      else return { stage := .done }
  | none =>
    if operation.stage = .done then none
    else if isLoadAtCommit operation.call && inLoad operation.stage then
      some { stage := .queuedCommit none }
    else some { stage := .done }

end Node

inductive RepositoryAction where
  | call (call : Call)
  | proceed (index : Nat) (moment : Nat) (tips : List TipResponse)
  | fail (index : Nat)
  deriving DecidableEq, Repr

def Repository.step {stream : StreamID} (node : Node stream) (repository : Repository) :
    RepositoryAction → Option Repository
  | .call call => do
    let stage ← node.start repository call
    return { repository with operations := repository.operations ++ [⟨call, stage⟩] }
  | .proceed index moment tips => do
    let operation ← repository.operations[index]?
    let turn ← node.advance repository operation moment tips
    return repository.take index operation turn
  | .fail index => do
    let operation ← repository.operations[index]?
    let turn ← Node.rejected repository operation
    return repository.take index operation turn

/-- A node that has started with what its state store holds. -/
def Repository.boot (stored : Option StreamState) : Repository := { stored }

end Ceramic
