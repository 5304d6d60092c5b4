import Ceramic.RepositoryTurns

/-! Where what an operation writes in a turn comes from. Only a load registers a running state,
and only a few stages write a value. -/
namespace Ceramic

open StreamUtils

def Write.registers : Write → Bool
  | .register _ => true
  | _ => false

/-- The write neither registers a running state nor changes a value. -/
def Write.isQuiet : Write → Bool
  | .register _ | .next _ _ => false
  | _ => true

/-- An operation registers a running state next. -/
def Stage.registers : Stage → Bool
  | .storeRead _ (some _) | .resyncing _ | .loadingGenesis _ | .resetting none => true
  | _ => false

/-- The snapshot that an operation goes by, whose result it writes in any case. -/
def Stage.writesBack : Stage → Option (Nat × StreamState)
  | .syncing state snapshot | .handlingTip state _ _ snapshot => some (state, snapshot)
  | _ => none

section

variable {stream : StreamID} (node : Node stream) (repository : Repository)

inductive WriteOrigin (stage : Stage) (moment : Nat) (tips : List TipResponse) : Write → Prop where
  | quiet (write : Write) : stage.registers = false → stage.writesBack = none → write.isQuiet = true →
      WriteOrigin stage moment tips write
  | registered (state : RunningState) : stage.registers = true →
      WriteOrigin stage moment tips (.register state)
  | synced (state : Nat) (snapshot : StreamState) : stage = .syncing state snapshot →
      WriteOrigin stage moment tips (.next state (StreamLoader.syncStream node.net.world snapshot tips))
  | handled (state : Nat) (tip : Cid) (attempt : Option AnchorAttempt) (snapshot value : StreamState) :
      stage = .handlingTip state tip attempt snapshot →
      StreamUpdater.applyTipFromNetwork (node.net.env moment) (node.net.store moment) snapshot tip = .ok value →
      WriteOrigin stage moment tips (.next state value)
  | applied (state : Nat) (snapshot value : StreamState) : stage = .applying state snapshot →
      WriteOrigin stage moment tips (.next state value)
  | anchored (state : Nat) (event : AnchorEvent) (found : RunningState) (anchorStatus : AnchorStatus) :
      stage = .anchoring state event → repository.heap[state]? = some found → anchorStatus ≠ .NOT_REQUESTED →
      WriteOrigin stage moment tips (.next state (Node.withAnchorStatus found anchorStatus))
  | reset (state : Nat) (snapshot value : StreamState) (found : RunningState) :
      stage = .resetting (some (state, snapshot)) → repository.heap[state]? = some found →
      isStateSupersetOf value found.value = true → WriteOrigin stage moment tips (.next state value)

variable {node repository} {operation : Operation} {moment : Nat} {tips : List TipResponse} {turn : Turn}

theorem lookUp_write {call : Call} {lookup : Lookup}
    (h : node.lookUp repository moment call lookup = some turn) : turn.write.isQuiet = true := by
  obtain ⟨_, h⟩ := guard_bind_eq_some.mp h
  cases inmemory : repository.inmemory with
  | none =>
    simp only [inmemory] at h
    obtain rfl := Option.some.inj h
    rfl
  | some state =>
    simp only [inmemory] at h
    obtain ⟨stage, _, returned⟩ := Option.bind_eq_some_iff.mp h
    obtain rfl := Option.some.inj returned
    rfl

theorem lookUpStored_write {call : Call} {lookup : Lookup} {found : Option StreamState}
    (h : node.lookUpStored repository moment call lookup found = some turn) :
    WriteOrigin node repository (.storeRead lookup found) moment tips turn.write := by
  cases found with
  | none =>
    obtain ⟨stage, _, returned⟩ := Option.bind_eq_some_iff.mp h
    obtain rfl := Option.some.inj returned
    exact .quiet _ rfl rfl rfl
  | some value =>
    obtain ⟨stage, _, returned⟩ := Option.bind_eq_some_iff.mp h
    obtain rfl := Option.some.inj returned
    exact .registered _ rfl

theorem finishUpdate_write (state : RunningState) (index : Nat) (call : Call) (after : After) :
    (Node.finishUpdate state index call after).write.isQuiet = true := by
  cases after with
  | loaded status =>
    unfold Node.finishUpdate
    dsimp only
    split <;> rfl
  | _ => rfl

theorem update_write {call : Call} {lane : String} {index : Nat} {after : After} {progress : Update}
    (h : node.update repository call lane index after progress = some turn) :
    turn.write.isQuiet = true := by
  cases progress with
  | loadingState | saving _ =>
    obtain rfl := Option.some.inj h
    rfl
  | deciding isPinned =>
    obtain ⟨state, _, h⟩ := Option.bind_eq_some_iff.mp h
    split at h
    all_goals
      obtain rfl := Option.some.inj h
      rfl
  | pinning =>
    obtain ⟨state, _, h⟩ := Option.bind_eq_some_iff.mp h
    obtain rfl := Option.some.inj h
    rfl
  | returning =>
    obtain ⟨state, _, h⟩ := Option.bind_eq_some_iff.mp h
    obtain rfl := Option.some.inj h
    exact finishUpdate_write ..

theorem handleAnchorEvent_write {found : RunningState} {state : Nat} {event : AnchorEvent}
    (at_state : repository.heap[state]? = some found)
    (h : Node.handleAnchorEvent found state event = some turn) :
    WriteOrigin node repository (.anchoring state event) moment tips turn.write := by
  unfold Node.handleAnchorEvent at h
  cases status : event.status with
  | COMPLETED =>
    simp only [status] at h
    obtain ⟨_, _, h⟩ := Option.bind_eq_some_iff.mp h
    obtain rfl := Option.some.inj h
    exact .quiet _ rfl rfl rfl
  | REPLACED =>
    simp only [status] at h
    obtain rfl := Option.some.inj h
    exact .quiet _ rfl rfl rfl
  | READY | PENDING | PROCESSING =>
    simp only [status] at h
    split at h
    · obtain rfl := Option.some.inj h
      exact .quiet _ rfl rfl rfl
    · obtain rfl := Option.some.inj h
      exact .anchored state event found _ rfl at_state (by decide)
  | FAILED =>
    simp only [status] at h
    split at h
    · obtain rfl := Option.some.inj h
      exact .anchored state event found _ rfl at_state (by decide)
    · obtain rfl := Option.some.inj h
      exact .quiet _ rfl rfl rfl

theorem advance_write (h : node.advance repository operation moment tips = some turn) :
    WriteOrigin node repository operation.stage moment tips turn.write := by
  unfold Node.advance at h
  dsimp only at h
  cases stage : operation.stage with
  | queuedLookup lookup =>
    rw [stage] at h
    exact .quiet _ rfl rfl (lookUp_write h)
  | storeRead lookup found =>
    rw [stage] at h
    exact lookUpStored_write h
  | updating lane state progress after =>
    rw [stage] at h
    exact .quiet _ rfl rfl (update_write h)
  | anchoring state event =>
    rw [stage] at h
    obtain ⟨found, at_state, h⟩ := Option.bind_eq_some_iff.mp h
    exact handleAnchorEvent_write at_state h
  | syncing state snapshot =>
    rw [stage] at h
    obtain rfl := Option.some.inj h
    exact .synced state snapshot rfl
  | readingStore _ | importing _ _ =>
    rw [stage] at h
    obtain rfl := Option.some.inj h
    exact .quiet _ rfl rfl rfl
  | done =>
    rw [stage] at h
    cases h
  | resyncing _ | loadingGenesis _ =>
    rw [stage] at h
    dsimp only at h
    split at h
    · obtain rfl := Option.some.inj h
      exact .registered _ rfl
    · cases h
  | loaded state status =>
    rw [stage] at h
    obtain ⟨found, _, h⟩ := Option.bind_eq_some_iff.mp h
    obtain ⟨_, h⟩ := guard_bind_eq_some.mp h
    split at h
    all_goals
      obtain rfl := Option.some.inj h
      exact .quiet _ rfl rfl rfl
  | queuedUpdate state after =>
    rw [stage] at h
    obtain ⟨_, h⟩ := guard_bind_eq_some.mp h
    obtain rfl := Option.some.inj h
    exact .quiet _ rfl rfl rfl
  | queuedApply _ | queuedTip _ _ _ =>
    rw [stage] at h
    obtain ⟨_, h⟩ := guard_bind_eq_some.mp h
    obtain ⟨found, _, h⟩ := Option.bind_eq_some_iff.mp h
    obtain rfl := Option.some.inj h
    exact .quiet _ rfl rfl rfl
  | applying state originalState =>
    rw [stage] at h
    dsimp only at h
    split at h
    · split at h
      · split at h
        · obtain ⟨found, _, h⟩ := Option.bind_eq_some_iff.mp h
          obtain rfl := Option.some.inj h
          exact .quiet _ rfl rfl rfl
        · obtain rfl := Option.some.inj h
          exact .applied state originalState _ rfl
      · cases h
    · cases h
  | handlingTip state tip attempt snapshot =>
    rw [stage] at h
    dsimp only at h
    split at h
    next value applied =>
      obtain rfl := Option.some.inj h
      exact .handled state tip attempt snapshot value rfl applied
    next => cases h
  | queuedCommit state =>
    rw [stage] at h
    dsimp only at h
    split at h
    · obtain ⟨_, h⟩ := guard_bind_eq_some.mp h
      split at h
      · obtain ⟨found, _, h⟩ := Option.bind_eq_some_iff.mp h
        obtain rfl := Option.some.inj h
        exact .quiet _ rfl rfl rfl
      · obtain rfl := Option.some.inj h
        exact .quiet _ rfl rfl rfl
    · cases h
  | resetting existing =>
    rw [stage] at h
    cases existing with
    | none =>
      dsimp only at h
      split at h
      · split at h
        · obtain ⟨_, h⟩ := guard_bind_eq_some.mp h
          obtain rfl := Option.some.inj h
          exact .registered _ rfl
        · cases h
      · cases h
    | some existing =>
      obtain ⟨state, snapshot⟩ := existing
      dsimp only at h
      split at h
      · split at h
        · obtain ⟨_, h⟩ := guard_bind_eq_some.mp h
          obtain ⟨found, at_state, h⟩ := Option.bind_eq_some_iff.mp h
          split at h
          next superset =>
            obtain rfl := Option.some.inj h
            exact .reset state snapshot _ found rfl at_state superset
          next =>
            obtain rfl := Option.some.inj h
            exact .quiet _ rfl rfl rfl
        · cases h
      · cases h

/-- Where something fails, at most the status of a failed anchor is written. -/
theorem rejected_write (h : Node.rejected repository operation = some turn) :
    turn.write.isQuiet = true ∨ ∃ state found, repository.heap[state]? = some found ∧
      turn.write = .next state (Node.withAnchorStatus found .FAILED) := by
  unfold Node.rejected at h
  cases attempted : Node.attemptOf operation.stage with
  | none =>
    simp only [attempted] at h
    split at h
    · cases h
    · split at h
      all_goals
        obtain rfl := Option.some.inj h
        exact .inl rfl
  | some attempted' =>
    obtain ⟨state, attempt⟩ := attempted'
    simp only [attempted] at h
    cases retries : attempt.remainingRetries with
    | succ remaining =>
      simp only [retries] at h
      obtain rfl := Option.some.inj h
      exact .inl rfl
    | zero =>
      simp only [retries] at h
      obtain ⟨found, at_state, h⟩ := Option.bind_eq_some_iff.mp h
      split at h
      · obtain rfl := Option.some.inj h
        exact .inr ⟨state, found, at_state, rfl⟩
      · obtain rfl := Option.some.inj h
        exact .inl rfl

theorem registers_of_isQuiet {write : Write} (quiet : write.isQuiet = true) : write.registers = false := by
  cases write <;> first | rfl | cases quiet

theorem advance_registers (h : node.advance repository operation moment tips = some turn) :
    turn.write.registers = operation.stage.registers := by
  have origin := advance_write h
  generalize operation.stage = stage at origin ⊢
  generalize turn.write = write at origin ⊢
  cases origin with
  | quiet _ unregistered _ quiet => rw [unregistered, registers_of_isQuiet quiet]
  | registered state registers => rw [registers]; rfl
  | synced | handled | applied | anchored | reset => subst_vars; rfl

theorem rejected_registers (h : Node.rejected repository operation = some turn) :
    turn.write.registers = false := by
  rcases rejected_write h with quiet | ⟨state, found, _, written⟩
  · exact registers_of_isQuiet quiet
  · rw [written]
    rfl

end

end Ceramic
