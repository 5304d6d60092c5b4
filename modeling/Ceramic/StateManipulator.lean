import Ceramic.HandlersMap
import Ceramic.LogSyncer

/-! Applying logs to states, with conflict resolution between the local history and
a fetched one. -/
namespace Ceramic

structure ApplyLogToStateOpts where
  throwOnInvalidCommit : Bool
  throwIfStale : Bool
  throwOnConflict : Bool
  deriving DecidableEq, Repr

/-- Which of the two logs given to `_pickLogToAccept` is returned. -/
inductive SelectedLog where
  | log1
  | log2
  deriving DecidableEq, Repr

namespace StateManipulator

/-- The loop of `_applyLog` once there is a state. -/
def applyLogFrom (handler : StreamHandler) (throwOnInvalidCommit : Bool) :
    StreamState → List CommitData → Except JsError StreamState
  | state, [] => .ok state
  | state, commit :: commits =>
    match handler.applyCommit commit (some state) with
    | .applied next => applyLogFrom handler throwOnInvalidCommit next commits
    | .threw e left => if throwOnInvalidCommit then .error e else .ok (left.getD state)

/-- `_applyLog`. No caller passes an empty log without a state. -/
def applyLog (handler : StreamHandler) (state : Option StreamState) (commits : List CommitData)
    (throwOnInvalidCommit : Bool) : Except JsError StreamState :=
  match state, commits with
  | some state, commits => applyLogFrom handler throwOnInvalidCommit state commits
  | none, [] => .error ⟨"Log must contain at least one commit to apply"⟩
  | none, commit :: commits =>
    match handler.applyCommit commit none with
    | .applied state => applyLogFrom handler throwOnInvalidCommit state commits
    | .threw e _ => .error e

/-- Accepted commits can be applied first and the rest from the state they give. -/
theorem applyLogFrom_append (handler : StreamHandler) (throwing : Bool) (s accepted : StreamState)
    (pre rest : List CommitData) (h : applyLogFrom handler true s pre = .ok accepted) :
    applyLogFrom handler throwing s (pre ++ rest) = applyLogFrom handler throwing accepted rest := by
  induction pre generalizing s with
  | nil =>
    obtain rfl : s = accepted := by simpa [applyLogFrom] using h
    rfl
  | cons c pre ih =>
    cases outcome : handler.applyCommit c (some s) with
    | applied next =>
      simp only [applyLogFrom, List.cons_append, outcome] at h ⊢
      exact ih next h
    | threw e left => simp [applyLogFrom, outcome] at h

theorem applyLog_append (handler : StreamHandler) (throwing : Bool) (initial : Option StreamState)
    (accepted : StreamState) (pre rest : List CommitData)
    (h : applyLog handler initial pre true = .ok accepted) :
    applyLog handler initial (pre ++ rest) throwing = applyLogFrom handler throwing accepted rest := by
  cases initial with
  | some s => exact applyLogFrom_append handler throwing s accepted pre rest h
  | none =>
    cases pre with
    | nil => simp [applyLog] at h
    | cons c pre =>
      cases outcome : handler.applyCommit c none with
      | applied s =>
        simp only [applyLog, List.cons_append, outcome] at h ⊢
        exact applyLogFrom_append handler throwing s accepted pre rest h
      | threw e left => simp [applyLog, outcome] at h

/-- A log that is accepted as a whole is accepted in two parts. -/
theorem applyLogFrom_split {handler : StreamHandler} {s result : StreamState}
    {pre rest : List CommitData} (h : applyLogFrom handler true s (pre ++ rest) = .ok result) :
    ∃ accepted, applyLogFrom handler true s pre = .ok accepted ∧
      applyLogFrom handler true accepted rest = .ok result := by
  induction pre generalizing s with
  | nil => exact ⟨s, rfl, h⟩
  | cons c pre ih =>
    cases outcome : handler.applyCommit c (some s) with
    | applied next =>
      simp only [applyLogFrom, List.cons_append, outcome] at h ⊢
      exact ih h
    | threw e left => simp [applyLogFrom, outcome] at h

/-- Nothing is refused, so it does not matter what happens then. -/
theorem applyLogFrom_throwing {handler : StreamHandler} {s result : StreamState}
    {cs : List CommitData} (h : applyLogFrom handler true s cs = .ok result) (throwing : Bool) :
    applyLogFrom handler throwing s cs = .ok result := by
  have := applyLogFrom_append handler throwing s result cs [] h
  simpa [applyLogFrom] using this

/-- A refused commit ends the log with what the handler left behind. -/
theorem applyLogFrom_threw {handler : StreamHandler} {s : StreamState} {c : CommitData}
    {e : JsError} {left : Option StreamState} (rest : List CommitData)
    (h : handler.applyCommit c (some s) = .threw e left) :
    applyLogFrom handler false s (c :: rest) = .ok (left.getD s) := by
  simp [applyLogFrom, h]

def applyFullLog (env : Environment) (streamType : Nat) (commits : List CommitData)
    (throwOnInvalidCommit : Bool) : Except JsError StreamState := do
  if commits.isEmpty then throw ⟨"Log must contain at least one commit to apply"⟩
  let handler ← HandlersMap.get env streamType
  applyLog handler none commits throwOnInvalidCommit

/-- Goes backwards over both logs; `timestamp` is what the commits after this one left. -/
def copyFrom (copyTimestampsFromRemovedAnchors : Bool) :
    List LogEntry → List CommitData → Except JsError (List CommitData × Timestamp)
  | _, [] => .ok ([], .null)
  | [], _ :: _ => .error ⟨"Cannot read properties of undefined (reading 'type')"⟩
  | entry :: source, commit :: dest => do
    let (copied, timestamp) ← copyFrom copyTimestampsFromRemovedAnchors source dest
    let timestamp := if copyTimestampsFromRemovedAnchors || entry.type = .TIME
      then entry.timestamp else timestamp
    if entry.cid ≠ commit.cid then throw ⟨"Source and dest logs don't correspond!"⟩
    return ({ commit with expirationTime := entry.expirationTime, timestamp } :: copied, timestamp)

def copyTrustedTimestamps (source : List LogEntry) (dest : List CommitData)
    (copyTimestampsFromRemovedAnchors : Bool) : Except JsError (List CommitData) := do
  let (commits, _) ← copyFrom copyTimestampsFromRemovedAnchors source dest
  return commits

def findAnchorIndex (log : List LogEntry) : Option Nat :=
  log.findIdx? fun logEntry => logEntry.type = .TIME

/-- The timestamp read at an anchor index. -/
def timestampAt (log : List LogEntry) (index : Nat) : Timestamp :=
  match log[index]? with
  | some entry => entry.timestamp
  | none => .undefined

def relevantLength (log : List LogEntry) : Nat :=
  match findAnchorIndex log with
  | some index => index + 1
  | none => log.length

/-- The last resort: the log whose last entry has the lowest CID. Two empty logs
never meet here. -/
def pickByCid (log1 log2 : List LogEntry) : SelectedLog :=
  match log1.getLast?, log2.getLast? with
  | some entry1, some entry2 => if entry1.cid.bytesLt entry2.cid then .log1 else .log2
  | _, _ => .log2

def pickByLength (log1 log2 : List LogEntry) : SelectedLog :=
  if relevantLength log1 > relevantLength log2 then .log1
  else if relevantLength log1 < relevantLength log2 then .log2
  else pickByCid log1 log2

def pickLogToAccept (log1 log2 : List LogEntry) : SelectedLog :=
  match findAnchorIndex log1, findAnchorIndex log2 with
  | some _, none => .log1
  | none, some _ => .log2
  | some index1, some index2 =>
    let anchorTimestamp1 := timestampAt log1 index1
    let anchorTimestamp2 := timestampAt log2 index2
    if anchorTimestamp1.lt anchorTimestamp2 then .log1
    else if anchorTimestamp2.lt anchorTimestamp1 then .log2
    else pickByLength log1 log2
  | none, none => pickByLength log1 log2

def resetStateToCommit (env : Environment) (store : CommitStore) (initialState : StreamState)
    (commitCid : Cid) (copyTimestampsFromRemovedAnchors : Bool) : Except JsError StreamState := do
  let streamId := StreamUtils.streamIdFromState initialState
  if !StreamUtils.stateContainsCommit initialState commitCid then
    throw ⟨"Requested commit CID " ++ commitCid.toString ++ " not found in the log for stream " ++
      streamId.toString⟩
  let sharedLogWithoutTimestamps ← LogSyncer.syncFullLog store streamId (some commitCid)
  let sharedLogWithTimestamps ← copyTrustedTimestamps initialState.log.toList
    sharedLogWithoutTimestamps copyTimestampsFromRemovedAnchors
  let handler ← HandlersMap.get env initialState.type
  applyLog handler none sharedLogWithTimestamps true

/-- The part after the divergence point has been found: pick a log, and build the
state of the remote one if it is picked. -/
def resolveConflict (env : Environment) (store : CommitStore) (handler : StreamHandler)
    (initialState : StreamState) (prev : Cid) (logToApply : List CommitData)
    (opts : ApplyLogToStateOpts) : Except JsError StreamState := do
  let streamId := StreamUtils.streamIdFromState initialState
  let initialTip := StreamUtils.tipFromState initialState
  let conflictingTip := ((logToApply.getLast?.map (·.cid)).getD prev).toString
  if opts.throwIfStale then
    throw ⟨"Commit to stream " ++ streamId.toString ++ " rejected because it builds on stale state. Calling 'sync()' on the stream handle will synchronize the stream state in the client with that on the Ceramic node.  Rejected commit CID: " ++
      conflictingTip ++ ". Current tip: " ++ initialTip.toString⟩
  let log := initialState.log.toList
  let conflictIdx := log.findIdx? fun entry => entry.cid = prev
  let localConflictingLog := match conflictIdx with
    | some index => log.drop (index + 1)
    | none => log
  match pickLogToAccept localConflictingLog (logToApply.map (·.toLogEntry)) with
  | .log1 =>
    if opts.throwOnConflict then
      throw ⟨"Commit to stream " ++ streamId.toString ++ " rejected by conflict resolution. Rejected commit CID: " ++
        conflictingTip ++ ". Current tip: " ++ initialTip.toString⟩
    return initialState
  | .log2 =>
    if conflictIdx.isNone then throw ⟨"Cannot read properties of undefined (reading 'cid')"⟩
    let sharedState ← resetStateToCommit env store initialState prev false
    applyLog handler (some sharedState) logToApply opts.throwOnInvalidCommit

def applyLogToStateWithoutCacaoVerification (env : Environment) (store : CommitStore)
    (initialState : StreamState) (logToApply : List CommitData) (opts : ApplyLogToStateOpts) :
    Except JsError StreamState :=
  match logToApply with
  | [] => .ok initialState
  | firstNewCommit :: _ => do
    let handler ← HandlersMap.get env initialState.type
    match firstNewCommit.commit.prev with
    | none => throw ⟨"Cannot read properties of undefined (reading 'equals')"⟩
    | some prev =>
      if prev = StreamUtils.tipFromState initialState then
        applyLog handler (some initialState) logToApply opts.throwOnInvalidCommit
      else resolveConflict env store handler initialState prev logToApply opts

def applyLogToState (env : Environment) (store : CommitStore) (initialState : StreamState)
    (logToApply : List CommitData) (opts : ApplyLogToStateOpts) : Except JsError StreamState := do
  let state ← applyLogToStateWithoutCacaoVerification env store initialState logToApply opts
  SignatureUtils.checkForCacaoExpiration env state
  return state

end StateManipulator

end Ceramic
