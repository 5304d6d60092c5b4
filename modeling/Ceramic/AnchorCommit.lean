import Ceramic.RepositoryTurns

/-! What `handleAnchorEvent` does to a running state. The commit of a completed anchor is
applied like a tip from the network, up to three times if that throws. What can be loaded and
validated may change from one time to the next. -/
namespace Ceramic

open StreamUtils

/-- One pass of the loop of `_handleAnchorCommit`: when it is made, and whether the witness CAR
can be imported and the state store updated. -/
structure AnchorTry where
  moment : Nat
  imported : Except JsError Unit
  updated : Except JsError Unit

namespace Repository

variable {stream : StreamID} (net : Network stream)

/-- The value of the running state, and whether the tip was applied to it. -/
def _handleTip (pass : AnchorTry) (state : StreamState) (cid : Cid) :
    StreamState × Except JsError Bool :=
  match StreamUpdater.applyTipFromNetwork (net.env pass.moment) (net.store pass.moment) state cid with
  | .error e => (state, .error e)
  | .ok next => (next, pass.updated.map fun _ => true)

def tryAnchorCommit (pass : AnchorTry) (state : StreamState) (anchorCommit : Cid) :
    StreamState × Except JsError Bool :=
  match pass.imported with
  | .error e => (state, .error e)
  | .ok () => _handleTip net pass state anchorCommit

/-- The loop of `_handleAnchorCommit`. -/
def _handleAnchorCommit (passes : Nat → AnchorTry) (tip anchorCommit : Cid) :
    (remainingRetries : Nat) → StreamState → StreamState × Except JsError Unit
  | remainingRetries, state =>
    match tryAnchorCommit net (passes remainingRetries) state anchorCommit, remainingRetries with
    | (next, .ok _), _ => (next, .ok ())
    | (next, .error e), 0 =>
      (if tip = tipFromState next then { next with anchorStatus := .FAILED } else next, .error e)
    | (next, .error _), remainingRetries + 1 =>
      _handleAnchorCommit passes tip anchorCommit remainingRetries next

/-- The pass that ends the loop without an error, and the state before it. -/
def lastTry (passes : Nat → AnchorTry) (anchorCommit : Cid) :
    (remainingRetries : Nat) → StreamState → Option (AnchorTry × StreamState)
  | remainingRetries, state =>
    match tryAnchorCommit net (passes remainingRetries) state anchorCommit, remainingRetries with
    | (_, .ok _), _ => some (passes remainingRetries, state)
    | (_, .error _), 0 => none
    | (next, .error _), remainingRetries + 1 => lastTry passes anchorCommit remainingRetries next

/-- The value of the running state, and whether polling should stop. -/
def handleAnchorEvent (passes : Nat → AnchorTry) (state : StreamState) (event : AnchorEvent) :
    StreamState × Except JsError Bool :=
  match event.status with
  | .READY | .PENDING =>
    if event.cid ≠ tipFromState state ∨ state.anchorStatus = .PENDING then (state, .ok false)
    else ({ state with anchorStatus := .PENDING }, .ok false)
  | .PROCESSING =>
    if event.cid ≠ tipFromState state ∨ state.anchorStatus = .PROCESSING then (state, .ok false)
    else ({ state with anchorStatus := .PROCESSING }, .ok false)
  | .COMPLETED =>
    match event.witnessRoot with
    | none => (state, .error ⟨"No anchor commit CID as root"⟩)
    | some anchorCommit =>
      let (after, handled) := _handleAnchorCommit net passes event.cid anchorCommit
        (APPLY_ANCHOR_COMMIT_ATTEMPTS - 1) state
      (after, handled.map fun _ => true)
  | .FAILED =>
    (if event.cid = tipFromState state then { state with anchorStatus := .FAILED } else state, .ok true)
  | .REPLACED => (state, .ok true)

variable {net}

/-- A pass that does not throw has applied the anchor commit as a tip. -/
theorem tryAnchorCommit_ok {pass : AnchorTry} {state after : StreamState} {anchorCommit : Cid}
    {applied : Bool} (h : tryAnchorCommit net pass state anchorCommit = (after, .ok applied)) :
    StreamUpdater.applyTipFromNetwork (net.env pass.moment) (net.store pass.moment) state anchorCommit =
      .ok after := by
  unfold tryAnchorCommit _handleTip at h
  split at h
  next => cases h
  next =>
    split at h
    next => cases h
    next next result =>
      obtain ⟨rfl, _⟩ := Prod.mk.inj h
      exact result

/-- A pass leaves a chain also when it throws. -/
theorem tryAnchorCommit_chain {pass : AnchorTry} {state after : StreamState} {anchorCommit : Cid}
    {result : Except JsError Bool} (chain : net.Chain (cids state))
    (h : tryAnchorCommit net pass state anchorCommit = (after, result)) : net.Chain (cids after) := by
  unfold tryAnchorCommit _handleTip at h
  split at h
  next =>
    obtain ⟨rfl, _⟩ := Prod.mk.inj h
    exact chain
  next =>
    split at h
    next =>
      obtain ⟨rfl, _⟩ := Prod.mk.inj h
      exact chain
    next next applied =>
      obtain ⟨rfl, _⟩ := Prod.mk.inj h
      exact (applyTip_keeps chain applied).1

/-- The loop ends without an error in a pass that has applied the anchor commit as a tip. -/
theorem handleAnchorCommit_ok {passes : Nat → AnchorTry} {tip anchorCommit : Cid}
    {remainingRetries : Nat} {state after : StreamState} (chain : net.Chain (cids state))
    (h : _handleAnchorCommit net passes tip anchorCommit remainingRetries state = (after, .ok ())) :
    ∃ last before, lastTry net passes anchorCommit remainingRetries state = some (last, before) ∧
      net.Chain (cids before) ∧ StreamUpdater.applyTipFromNetwork (net.env last.moment)
        (net.store last.moment) before anchorCommit = .ok after := by
  induction remainingRetries generalizing state with
  | zero =>
    unfold _handleAnchorCommit at h
    unfold lastTry
    cases tried : tryAnchorCommit net (passes 0) state anchorCommit with
    | mk next result =>
      rw [tried] at h
      cases result with
      | ok applied =>
        obtain ⟨rfl, _⟩ := Prod.mk.inj h
        exact ⟨passes 0, state, rfl, chain, tryAnchorCommit_ok tried⟩
      | error e => cases (Prod.mk.inj h).2
  | succ remainingRetries ih =>
    unfold _handleAnchorCommit at h
    unfold lastTry
    cases tried : tryAnchorCommit net (passes (remainingRetries + 1)) state anchorCommit with
    | mk next result =>
      rw [tried] at h
      cases result with
      | ok applied =>
        obtain ⟨rfl, _⟩ := Prod.mk.inj h
        exact ⟨passes (remainingRetries + 1), state, rfl, chain, tryAnchorCommit_ok tried⟩
      | error e => exact ih (tryAnchorCommit_chain chain tried) h

end Repository

end Ceramic
