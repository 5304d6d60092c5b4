import Ceramic.StateManipulator
import Ceramic.AnchorTimestampExtractor

/-! Loading a stream from a tip, and applying tips to a state already held. What can be
read, and whether it can be verified, may change from one tip to the next. -/
namespace Ceramic

open StateManipulator AnchorTimestampExtractor

def applyTipToState (env : Environment) (store : CommitStore) (state : StreamState) (tip : Cid)
    (opts : ApplyLogToStateOpts) : Except JsError StreamState := do
  let logWithoutTimestamps ← LogSyncer.syncLogUntilMatch store tip
    (state.log.toList.map (·.cid))
  let logWithTimestamps := verifyAnchorAndApplyTimestamps store.toDispatcher logWithoutTimestamps
  applyLogToState env store state logWithTimestamps opts

/-- What a node finds around it while it handles one tip. -/
structure World where
  env : Environment
  store : CommitStore

/-- A tip that a query found, and when it is handled. -/
structure TipResponse where
  moment : Nat
  tip : Cid
  deriving DecidableEq, Repr

namespace StreamUpdater

/-- What a tip learned from the network, or from other nodes' responses, is applied with. -/
def networkOpts : ApplyLogToStateOpts :=
  { throwOnInvalidCommit := false, throwIfStale := false, throwOnConflict := false }

def applyTipFromNetwork (env : Environment) (store : CommitStore) (state : StreamState) (tip : Cid) :
    Except JsError StreamState :=
  applyTipToState env store state tip networkOpts

/-- The commit has been stored under its CID. -/
def applyCommitFromUser (env : Environment) (store : CommitStore) (state : StreamState)
    (commitCid : Cid) : Except JsError StreamState :=
  applyTipToState env store state commitCid
    { throwOnInvalidCommit := true, throwIfStale := true, throwOnConflict := true }

end StreamUpdater

namespace StreamLoader

/-- `null` stands for a log that could not be fetched. -/
def loadStateFromTip (env : Environment) (store : CommitStore) (streamID : StreamID) (tip : Cid)
    (allowSyncErrors throwOnInvalidCommit : Bool) : Except JsError (Option StreamState) :=
  match LogSyncer.syncFullLog store streamID (some tip) with
  | .error e => if allowSyncErrors then .ok none else .error e
  | .ok logWithoutTimestamps =>
    let logWithTimestamps := verifyAnchorAndApplyTimestamps store.toDispatcher logWithoutTimestamps
    (applyFullLog env streamID.type logWithTimestamps throwOnInvalidCommit).map some

def loadGenesisState (env : Environment) (store : CommitStore) (streamID : StreamID) :
    Except JsError (Option StreamState) := do
  let _ ← HandlersMap.get env streamID.type
  loadStateFromTip env store streamID streamID.cid false false

/-- Goes through the tips of a query. The first one that can be fetched gives a state, to
which the others are applied. -/
def applyTips (world : Nat → World) (streamID : StreamID) :
    Option StreamState → List TipResponse → Except JsError (Option StreamState)
  | state, [] => .ok state
  | none, response :: tips => do
    let state ← loadStateFromTip (world response.moment).env (world response.moment).store streamID
      response.tip true false
    applyTips world streamID state tips
  | some state, response :: tips => do
    let state ← applyTipToState (world response.moment).env (world response.moment).store state
      response.tip StreamUpdater.networkOpts
    applyTips world streamID (some state) tips

def loadStream (world : Nat → World) (moment : Nat) (streamID : StreamID) (tips : List TipResponse) :
    Except JsError (Option StreamState) := do
  let _ ← HandlersMap.get (world moment).env streamID.type
  match ← applyTips world streamID none tips with
  | some state => return some state
  | none => loadGenesisState (world moment).env (world moment).store streamID

/-- The known tip is handled before those of the query. -/
def resyncStream (world : Nat → World) (moment : Nat) (streamID : StreamID) (knownTip : TipResponse)
    (tips : List TipResponse) : Except JsError (Option StreamState) := do
  let _ ← HandlersMap.get (world moment).env streamID.type
  match ← applyTips world streamID none (knownTip :: tips) with
  | some state => return some state
  | none => loadGenesisState (world moment).env (world moment).store streamID

/-- A tip that cannot be applied is passed over. -/
def syncStream (world : Nat → World) : StreamState → List TipResponse → StreamState
  | state, [] => state
  | state, response :: tips =>
    match applyTipToState (world response.moment).env (world response.moment).store state
      response.tip StreamUpdater.networkOpts with
    | .ok next => syncStream world next tips
    | .error _ => syncStream world state tips

def resetStateToCommit (env : Environment) (store : CommitStore) (initialState : StreamState)
    (commitId : CommitID) : Except JsError StreamState := do
  let baseState ← applyTipToState env store initialState commitId.commitCid
    { throwOnInvalidCommit := true, throwOnConflict := true, throwIfStale := false }
  StateManipulator.resetStateToCommit env store baseState commitId.commitCid true

def stateAtCommit (env : Environment) (store : CommitStore) (commitId : CommitID) :
    Except JsError (Option StreamState) :=
  loadStateFromTip env store commitId.baseID commitId.commitCid false true

end StreamLoader

end Ceramic
