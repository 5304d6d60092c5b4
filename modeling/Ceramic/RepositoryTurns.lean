import Ceramic.Repository

/-! What the operations on a stream do in one turn: the states they keep and write are
chains of commits, what they write comes from what they have read, and they enter a lane
only if it is free. -/
namespace Ceramic

open StreamUtils

/-- The stream states that an operation has in hand. -/
def Stage.states : Stage → List StreamState
  | .storeRead _ found => found.toList
  | .syncing _ snapshot | .applying _ snapshot | .handlingTip _ _ _ snapshot
  | .resetting (some (_, snapshot)) | .updating _ _ (.saving snapshot) _ => [snapshot]
  | _ => []

/-- The running states that an operation has in hand. -/
def Stage.runningStates : Stage → List Nat
  | .syncing state _ | .loaded state _ | .queuedUpdate state _ | .updating _ state _ _
  | .queuedApply state | .applying state _ | .anchoring state _ | .importing state _
  | .queuedTip state _ _ | .handlingTip state _ _ _ | .queuedCommit (some state)
  | .resetting (some (state, _)) => [state]
  | _ => []

/-- What an operation in the lane of the stream has read there, to write its result. -/
def Stage.held : Stage → Option (Nat × StreamState)
  | .applying state snapshot | .handlingTip state _ _ snapshot => some (state, snapshot)
  | _ => none

def Write.states : Write → List StreamState
  | .next _ value | .save _ value => [value]
  | .register state => [state.value]
  | _ => []

/-- The log that a load is sure to have, unless something in it loses: that of what it has read,
or of what the known tip loads to. -/
def Node.basis {stream : StreamID} (node : Node stream) (moment : Nat) : Stage → Option (List Cid)
  | .storeRead _ (some value) => some (cids value)
  | .resyncing (some knownTip) =>
    match StreamLoader.loadStateFromTip (node.net.env moment) (node.net.store moment) stream knownTip
      true false with
    | .ok (some value) => some (cids value)
    | _ => some [stream.cid]
  | .resyncing none | .loadingGenesis _ | .resetting none => some [stream.cid]
  | _ => none

theorem guard_bind_eq_some {α : Type} {p : Prop} [Decidable p] {rest : Option α} {a : α} :
    (do guard p; rest) = some a ↔ p ∧ rest = some a := by
  by_cases holds : p <;> simp [guard, holds]

section

variable {stream : StreamID} (node : Node stream) (repository : Repository)

/-- The values of the running states stay, or one of them gets more commits. -/
inductive Keeps (turn : Turn) : Prop where
  | unwritten : (∀ state value, turn.write ≠ .next state value) → (∀ state, turn.write ≠ .register state) →
      Keeps turn
  | grown (state : Nat) (value : StreamState) (found : RunningState) :
      turn.write = .next state value → repository.heap[state]? = some found →
      (∀ c ∈ cids found.value, c ∈ cids value) → Keeps turn

/-- Where what a turn writes comes from. -/
inductive Origin (operation : Operation) (moment : Nat) (turn : Turn) : Prop where
  | current : Keeps repository turn → Origin operation moment turn
  | snapshot (state : Nat) (snapshot value : StreamState) : turn.write = .next state value →
      (operation.stage = .syncing state snapshot ∨ operation.stage.held = some (state, snapshot)) →
      (∀ c ∈ cids snapshot, c ∈ cids value ∨ c ∈ turn.outcompeted) → Origin operation moment turn
  | registered (state : RunningState) (log : List Cid) : turn.write = .register state →
      node.basis moment operation.stage = some log →
      (∀ c ∈ log, c ∈ cids state.value ∨ c ∈ turn.outcompeted) → Origin operation moment turn

structure TurnSpec (operation : Operation) (moment : Nat) (turn : Turn) : Prop where
  written : ∀ value ∈ turn.write.states, node.net.Chain (cids value)
  states : ∀ value ∈ turn.stage.states, node.net.Chain (cids value)
  runningStates : ∀ state ∈ turn.stage.runningStates, state < (repository.write turn.write).heap.length
  origin : Origin node repository operation moment turn
  applied : ∀ tip ∈ turn.applied, ∃ state snapshot found, operation.stage = .applying state snapshot ∧
    (repository.write turn.write).inmemory = repository.inmemory ∧
    (repository.write turn.write).heap[state]? = some found ∧ tip ∈ cids found.value
  carried : ∀ tip, turn.resolved = some tip ∨ turn.stage.applied = some tip →
    operation.stage.applied = some tip ∨ turn.applied = some tip
  held : ∀ state value, turn.stage.held = some (state, value) → turn.write = .nothing ∧
    turn.applied = none ∧ ∃ found, repository.heap[state]? = some found ∧ found.value = value
  lane : ∀ lane, Operation.lane stream ⟨operation.call, turn.stage⟩ = some lane →
    operation.lane stream = some lane ∨ node.isFree repository lane = true

/-- Every state is a chain, and every running state in hand exists. -/
structure Sound : Prop where
  heap : ∀ state ∈ repository.heap, node.net.Chain (cids state.value)
  stored : ∀ value ∈ repository.stored, node.net.Chain (cids value)
  inmemory : ∀ state ∈ repository.inmemory, state < repository.heap.length
  states : ∀ operation ∈ repository.operations, ∀ value ∈ operation.stage.states,
    node.net.Chain (cids value)
  runningStates : ∀ operation ∈ repository.operations, ∀ state ∈ operation.stage.runningStates,
    state < repository.heap.length
  commits : ∀ operation ∈ repository.operations, ∀ commitId sync,
    operation.call = .loadAtCommit commitId sync → commitId.baseID = stream

variable {node} {repository} {operation : Operation} {moment : Nat}

/-- A turn in which an operation only goes on to wait. -/
theorem TurnSpec.wait {stage : Stage} (states : ∀ value ∈ stage.states, node.net.Chain (cids value))
    (runningStates : ∀ state ∈ stage.runningStates, state < repository.heap.length)
    (applied : stage.applied = none ∨ stage.applied = operation.stage.applied)
    (held : ∀ state value, stage.held = some (state, value) →
      ∃ found, repository.heap[state]? = some found ∧ found.value = value)
    (lane : ∀ lane, Operation.lane stream ⟨operation.call, stage⟩ = some lane →
      operation.lane stream = some lane ∨ node.isFree repository lane = true) :
    TurnSpec node repository operation moment { stage } where
  written := by simp [Write.states]
  states := states
  runningStates := runningStates
  origin := .current (.unwritten (by simp) (by simp))
  applied := by simp
  carried tip carries := by
    rcases carries with none | still
    · cases none
    · rcases applied with none | same
      · simp [none] at still
      · exact .inl (same ▸ still)
  held state value holds := ⟨rfl, rfl, held state value holds⟩
  lane := lane

/-- What a lookup hands on: the running state that was found and its value. -/
structure LookedUp (node : Node stream) (repository : Repository) (call : Call) (lookup : Lookup)
    (stage : Stage) : Prop where
  states : ∀ value ∈ stage.states, node.net.Chain (cids value)
  runningStates : ∀ state ∈ stage.runningStates, state < repository.heap.length
  applied : stage.applied = none
  held : stage.held = none
  lane : ∀ lane, Operation.lane stream ⟨call, stage⟩ = some lane → lane = .loading ∧ lookup = .load

theorem lookedUp_spec {call : Call} {lookup : Lookup} {existing : Option Nat} {status : SyncStatus}
    {useRustCeramic : Bool} {stage : Stage}
    (chains : ∀ state ∈ repository.heap, node.net.Chain (cids state.value))
    (known : ∀ state ∈ existing, state < repository.heap.length)
    (h : Node.lookedUp repository useRustCeramic call lookup existing status = some stage) :
    LookedUp node repository call lookup stage := by
  -- the stages that have no value in hand
  have waits (next : Stage) (values : next.states = []) (applied : next.applied = none)
      (held : next.held = none) (states : ∀ state ∈ next.runningStates, state ∈ existing)
      (lane : ∀ lane, Operation.lane stream ⟨call, next⟩ = some lane → lane = .loading ∧ lookup = .load)
      (returned : some next = some stage) : LookedUp node repository call lookup stage := by
    obtain rfl := Option.some.inj returned
    exact ⟨by simp [values], fun state member => known state (states state member), applied, held, lane⟩
  unfold Node.lookedUp at h
  split at h
  next =>
    cases existing with
    | some state => exact waits _ rfl rfl rfl (by simp [Stage.runningStates]) (by simp [Operation.lane]) h
    | none =>
      dsimp only at h
      split at h
      · exact waits _ rfl rfl rfl (by simp [Stage.runningStates]) (by simp [Operation.lane]) h
      · exact waits _ rfl rfl rfl (by simp [Stage.runningStates]) (by simp [Operation.lane]) h
  next =>
    cases existing with
    | some state => exact waits _ rfl rfl rfl (by simp [Stage.runningStates]) (by simp [Operation.lane]) h
    | none => exact waits _ rfl rfl rfl (by simp [Stage.runningStates]) (by simp [Operation.lane]) h
  next =>
    have loading (next : Stage) (lane : Operation.lane stream ⟨call, next⟩ = none ∨
        Operation.lane stream ⟨call, next⟩ = some .loading) :
        ∀ lane, Operation.lane stream ⟨call, next⟩ = some lane →
          lane = .loading ∧ (Lookup.load : Lookup) = .load := by
      intro held holds
      rcases lane with none | loading
      · rw [none] at holds
        cases holds
      · exact ⟨Option.some.inj (holds.symm.trans loading), rfl⟩
    split at h
    next =>
      cases existing with
      | some state => exact waits _ rfl rfl rfl (by simp [Stage.runningStates]) (loading _ (.inl rfl)) h
      | none => exact waits _ rfl rfl rfl (by simp [Stage.runningStates]) (loading _ (.inr rfl)) h
    next =>
      cases existing with
      | none =>
        cases sync : Node.syncOf call <;> simp only [sync] at h <;>
          exact waits _ rfl rfl rfl (by simp [Stage.runningStates]) (loading _ (.inr rfl)) h
      | some state =>
        obtain ⟨found, at_state⟩ : ∃ found, repository.heap[state]? = some found :=
          ⟨_, List.getElem?_eq_getElem (known state rfl)⟩
        have chain := chains _ (List.mem_of_getElem? at_state)
        have cached : (if status = .ALREADY_SYNCED then some (Stage.loaded state .ALREADY_SYNCED)
            else do
              let found ← repository.heap[state]?
              return .syncing state found.value) = some stage →
            LookedUp node repository call .load stage := by
          intro h
          split at h
          · exact waits _ rfl rfl rfl (by simp [Stage.runningStates]) (loading _ (.inl rfl)) h
          · rw [at_state] at h
            obtain rfl := Option.some.inj h
            exact ⟨by simpa [Stage.states] using chain, by simpa [Stage.runningStates] using known state rfl,
              rfl, rfl, loading _ (.inr rfl)⟩
        cases sync : Node.syncOf call with
        | PREFER_CACHE => exact cached (by simpa only [sync] using h)
        | SYNC_ON_ERROR => exact cached (by simpa only [sync] using h)
        | NEVER_SYNC =>
          simp only [sync] at h
          exact waits _ rfl rfl rfl (by simp [Stage.runningStates]) (loading _ (.inl rfl)) h
        | SYNC_ALWAYS =>
          simp only [sync] at h
          rw [at_state] at h
          exact waits _ rfl rfl rfl (by simp [Stage.runningStates]) (loading _ (.inr rfl)) h
  next => cases h

theorem heap_write (write : Write) : repository.heap.length ≤ (repository.write write).heap.length := by
  cases write <;> simp [Repository.write, Repository.next, Repository.registerRunningState, Repository.save]

theorem TurnSpec.of_lookedUp {lookup : Lookup} {stage : Stage}
    (looked : LookedUp node repository operation.call lookup stage)
    (entry : lookup = .load → operation.lane stream = some .loading ∨
      node.isFree repository .loading = true) :
    TurnSpec node repository operation moment { stage } := by
  refine .wait looked.states looked.runningStates (.inl looked.applied) ?_ fun lane holds => ?_
  · simp [looked.held]
  · obtain ⟨rfl, isLoad⟩ := looked.lane lane holds
    exact entry isLoad

theorem lookUp_spec {lookup : Lookup} {turn : Turn} (sound : Sound node repository)
    (h : node.lookUp repository moment operation.call lookup = some turn)
    (stage : operation.stage = .queuedLookup lookup) :
    TurnSpec node repository operation moment turn := by
  obtain ⟨entry, h⟩ := guard_bind_eq_some.mp h
  have free : lookup ≠ .fromMemoryOrStore_UNSAFE → node.isFree repository .loading = true := by
    intro safe
    simpa [safe] using entry
  cases inmemory : repository.inmemory with
  | none =>
    simp only [inmemory] at h
    obtain rfl := Option.some.inj h
    refine .wait (by simp [Stage.states]) (by simp [Stage.runningStates]) (.inl rfl)
      (by simp [Stage.held]) fun lane holds => .inr ?_
    cases lookup with
    | fromMemoryOrStore_UNSAFE => cases holds
    | load =>
      obtain rfl := Option.some.inj holds
      exact free (by simp)
    | fromMemoryOrStore =>
      obtain rfl := Option.some.inj holds
      exact free (by simp)
  | some state =>
    simp only [inmemory] at h
    obtain ⟨next, looked, returned⟩ := Option.bind_eq_some_iff.mp h
    obtain rfl := Option.some.inj returned
    have known : ∀ found ∈ some state, found < repository.heap.length := by
      intro found same
      exact sound.inmemory found (by rw [inmemory]; exact same)
    refine .of_lookedUp (lookedUp_spec sound.heap known looked) fun isLoad => .inr (free (by simp [isLoad]))

theorem lookUpStored_spec {lookup : Lookup} {found : Option StreamState} {turn : Turn}
    (sound : Sound node repository) (member : operation ∈ repository.operations)
    (h : node.lookUpStored repository moment operation.call lookup found = some turn)
    (stage : operation.stage = .storeRead lookup found) :
    TurnSpec node repository operation moment turn := by
  have entry : lookup = .load → operation.lane stream = some .loading := by
    rintro rfl
    simp [Operation.lane, stage]
  cases found with
  | none =>
    obtain ⟨next, looked, returned⟩ := Option.bind_eq_some_iff.mp h
    obtain rfl := Option.some.inj returned
    exact .of_lookedUp (lookedUp_spec sound.heap (by simp) looked) fun isLoad => .inl (entry isLoad)
  | some value =>
    have chain : node.net.Chain (cids value) :=
      sound.states operation member value (by simp [stage, Stage.states])
    obtain ⟨next, looked, returned⟩ := Option.bind_eq_some_iff.mp h
    obtain rfl := Option.some.inj returned
    have chains : ∀ state ∈ (repository.registerRunningState (.make value true)).heap,
        node.net.Chain (cids state.value) := by
      intro state member
      rcases List.mem_append.mp member with old | new
      · exact sound.heap state old
      · obtain rfl := List.mem_singleton.mp new
        simpa using chain
    have spec := lookedUp_spec chains (by simp [Repository.registerRunningState]) looked
    exact {
      written := by simpa [Write.states] using chain
      states := spec.states
      runningStates := spec.runningStates
      origin := .registered (.make value true) (cids value) rfl (by simp [stage, Node.basis])
        fun c member => .inl (by simpa using member)
      applied := by simp
      carried := by simp [spec.applied]
      held := by simp [spec.held]
      lane := fun lane holds => by
        obtain ⟨rfl, isLoad⟩ := spec.lane lane holds
        exact .inl (entry isLoad) }

/-- A caller that has loaded a running state has nothing else in hand, and no lane. -/
theorem returnLoaded_spec (stream : StreamID) (call : Call) (state : Nat) :
    (Node.returnLoaded call state).states = [] ∧
    (∀ other ∈ (Node.returnLoaded call state).runningStates, other = state) ∧
    (Node.returnLoaded call state).applied = none ∧ (Node.returnLoaded call state).held = none ∧
    Operation.lane stream ⟨call, Node.returnLoaded call state⟩ = none := by
  cases call <;> simp [Node.returnLoaded, Stage.states, Stage.runningStates, Stage.applied, Stage.held,
    Operation.lane]

theorem TurnSpec.returned {state : Nat} (within : state < repository.heap.length) :
    TurnSpec node repository operation moment { stage := Node.returnLoaded operation.call state } := by
  obtain ⟨states, runningStates, applied, held, lane⟩ := returnLoaded_spec stream operation.call state
  refine .wait (by simp [states]) (fun other member => ?_) (.inl applied) (by simp [held])
    (by simp [lane])
  rw [runningStates other member]
  exact within

theorem finishUpdate_spec {state : RunningState} {lane : String} {index : Nat} {after : After}
    (within : index < repository.heap.length)
    (stage : operation.stage = .updating lane index .returning after) :
    TurnSpec node repository operation moment
      (Node.finishUpdate state index operation.call after) := by
  cases after with
  | loaded status =>
    have returned : TurnSpec node repository operation moment
        { stage := Node.returnLoaded operation.call index } := .returned within
    unfold Node.finishUpdate
    dsimp only
    split
    · exact { returned with
        written := by simp [Write.states]
        origin := .current (.unwritten (by simp) (by simp))
        applied := by simp
        held := by simp [(returnLoaded_spec stream operation.call index).2.2.2.1] }
    · exact returned
  | applied tip =>
    have done : TurnSpec node repository operation moment { stage := .done } :=
      .wait (by simp [Stage.states]) (by simp [Stage.runningStates]) (.inl rfl) (by simp [Stage.held])
        (by simp [Operation.lane])
    exact { done with
      applied := by simp [Node.finishUpdate]
      origin := .current (.unwritten (by simp [Node.finishUpdate]) (by simp [Node.finishUpdate]))
      carried := by simp [Node.finishUpdate, stage, Stage.applied] }
  | tipHandled attempt =>
    exact .wait (by simp [Stage.states]) (by simp [Stage.runningStates]) (.inl rfl) (by simp [Stage.held])
      (by simp [Operation.lane])
  | finished =>
    exact .wait (by simp [Stage.states]) (by simp [Stage.runningStates]) (.inl rfl) (by simp [Stage.held])
      (by simp [Operation.lane])

theorem update_spec {lane : String} {index : Nat} {progress : Update} {after : After} {turn : Turn}
    (sound : Sound node repository) (member : operation ∈ repository.operations)
    (h : node.update repository operation.call lane index after progress = some turn)
    (stage : operation.stage = .updating lane index progress after) :
    TurnSpec node repository operation moment turn := by
  have within : index < repository.heap.length :=
    sound.runningStates operation member index (by simp [stage, Stage.runningStates])
  obtain ⟨found, at_index⟩ : ∃ found, repository.heap[index]? = some found :=
    ⟨_, List.getElem?_eq_getElem within⟩
  have chain := sound.heap found (List.mem_of_getElem? at_index)
  have held : operation.lane stream = some (.execution lane) := by simp [Operation.lane, stage]
  -- the same update, a step further
  have further (next : Update) (values : ∀ value, next = .saving value → node.net.Chain (cids value)) :
      TurnSpec node repository operation moment { stage := .updating lane index next after } := by
    refine .wait (fun value member => ?_) (by simpa [Stage.runningStates] using within) (.inr ?_)
      (by simp [Stage.held]) fun lane' holds => .inl (by rw [held]; exact holds)
    · cases next with
      | saving saved =>
        obtain rfl := List.mem_singleton.mp member
        exact values value rfl
      | _ => cases member
    · rw [stage]
      cases after <;> rfl
  cases progress with
  | loadingState =>
    obtain rfl := Option.some.inj h
    exact further _ (by simp)
  | deciding isPinned =>
    simp only [Node.update, at_index, Option.bind_eq_bind, Option.bind_some] at h
    split at h
    · obtain rfl := Option.some.inj h
      exact further _ (by simp)
    · obtain rfl := Option.some.inj h
      exact further _ (by simp)
  | pinning =>
    simp only [Node.update, at_index, Option.bind_eq_bind, Option.bind_some] at h
    obtain rfl := Option.some.inj h
    refine further _ fun value same => ?_
    obtain rfl := Update.saving.inj same
    exact chain
  | saving value =>
    obtain rfl := Option.some.inj h
    have saved : node.net.Chain (cids value) :=
      sound.states operation member value (by simp [stage, Stage.states])
    have next := further .returning (by simp)
    exact { next with
      written := by simpa [Write.states] using saved
      runningStates := fun state inHand => Nat.lt_of_lt_of_le (next.runningStates state inHand)
        (heap_write (.save index value))
      origin := .current (.unwritten (by simp) (by simp))
      applied := by simp
      held := by simp [Stage.held] }
  | returning =>
    simp only [Node.update, at_index, Option.bind_eq_bind, Option.bind_some] at h
    obtain rfl := Option.some.inj h
    exact finishUpdate_spec within stage

@[simp] theorem cids_withAnchorStatus (state : RunningState) (anchorStatus : AnchorStatus) :
    cids (Node.withAnchorStatus state anchorStatus) = cids state.value := rfl

/-- An anchor status is written into the current value. -/
theorem TurnSpec.anchorStatus {index : Nat} {found : RunningState} {anchorStatus : AnchorStatus}
    {stage : Stage} (sound : Sound node repository) (at_index : repository.heap[index]? = some found)
    (waits : stage = .done ∨ stage = .queuedUpdate index .finished) :
    TurnSpec node repository operation moment
      { write := .next index (Node.withAnchorStatus found anchorStatus), stage } := by
  have chain := sound.heap found (List.mem_of_getElem? at_index)
  have within := (List.getElem?_eq_some_iff.mp at_index).1
  have idle : stage.states = [] ∧ (∀ state ∈ stage.runningStates, state = index) ∧
      stage.applied = none ∧ stage.held = none ∧ Operation.lane stream ⟨operation.call, stage⟩ = none := by
    rcases waits with rfl | rfl <;>
      simp [Stage.states, Stage.runningStates, Stage.applied, Stage.held, Operation.lane]
  obtain ⟨states, runningStates, applied, held, lane⟩ := idle
  exact {
    written := by simpa [Write.states] using chain
    states := by simp [states]
    runningStates := fun state member => by
      rw [runningStates state member]
      exact Nat.lt_of_lt_of_le within (heap_write _)
    origin := .current (.grown index _ found rfl at_index fun c member => member)
    applied := by simp
    carried := by simp [applied]
    held := by simp [held]
    lane := by simp [lane] }

theorem handleAnchorEvent_spec {index : Nat} {found : RunningState} {event : AnchorEvent} {turn : Turn}
    (sound : Sound node repository) (at_index : repository.heap[index]? = some found)
    (h : Node.handleAnchorEvent found index event = some turn) :
    TurnSpec node repository operation moment turn := by
  have within := (List.getElem?_eq_some_iff.mp at_index).1
  have done : TurnSpec node repository operation moment { stage := .done } :=
    .wait (by simp [Stage.states]) (by simp [Stage.runningStates]) (.inl rfl) (by simp [Stage.held])
      (by simp [Operation.lane])
  unfold Node.handleAnchorEvent at h
  split at h
  all_goals try split at h
  all_goals first
    | (obtain rfl := Option.some.inj h; exact done)
    | (obtain rfl := Option.some.inj h; exact .anchorStatus sound at_index (.inl rfl))
    | (obtain rfl := Option.some.inj h; exact .anchorStatus sound at_index (.inr rfl))
    | skip
  next =>
    obtain ⟨anchorCommit, _, returned⟩ := Option.bind_eq_some_iff.mp h
    obtain rfl := Option.some.inj returned
    exact .wait (by simp [Stage.states]) (by simpa [Stage.runningStates] using within) (.inl rfl)
      (by simp [Stage.held]) (by simp [Operation.lane])

/-- A value from the network or the user is written over the one it was computed from. -/
theorem TurnSpec.next {state : Nat} {value : StreamState} {stage : Stage} {applied : Option Cid}
    {outcompeted : List Cid} (within : state < repository.heap.length)
    (chain : node.net.Chain (cids value))
    (origin : Origin node repository operation moment
      { write := .next state value, stage, applied, outcompeted })
    (waits : stage.states = [] ∧ (∀ other ∈ stage.runningStates, other = state) ∧ stage.held = none)
    (tip : ∀ c ∈ applied, (∃ snapshot, operation.stage = .applying state snapshot) ∧ c ∈ cids value)
    (carried : ∀ c, stage.applied = some c → applied = some c)
    (lane : ∀ lane, Operation.lane stream ⟨operation.call, stage⟩ = some lane →
      operation.lane stream = some lane) :
    TurnSpec node repository operation moment
      { write := .next state value, stage, applied, outcompeted } where
  written := by simpa [Write.states] using chain
  states := by simp [waits.1]
  runningStates other member := by
    rw [waits.2.1 other member]
    exact Nat.lt_of_lt_of_le within (heap_write _)
  origin := origin
  applied c isTip := by
    obtain ⟨⟨snapshot, stage⟩, member⟩ := tip c isTip
    refine ⟨state, snapshot, { repository.heap[state] with value }, stage, rfl, ?_, member⟩
    simp [Repository.write, Repository.next, List.getElem?_eq_getElem within]
  carried c carries := by
    rcases carries with none | still
    · cases none
    · exact .inr (carried c still)
  held := by simp [waits.2.2]
  lane l holds := .inl (lane l holds)

/-- A new running state is registered. -/
theorem TurnSpec.register {value : StreamState} {stage : Stage} {log outcompeted : List Cid}
    (chain : node.net.Chain (cids value)) (basis : node.basis moment operation.stage = some log)
    (kept : ∀ c ∈ log, c ∈ cids value ∨ c ∈ outcompeted)
    (waits : stage.states = [] ∧ (∀ state ∈ stage.runningStates, state = repository.heap.length) ∧
      stage.applied = none ∧ stage.held = none)
    (lane : ∀ lane, Operation.lane stream ⟨operation.call, stage⟩ = some lane →
      operation.lane stream = some lane) :
    TurnSpec node repository operation moment
      { write := .register (.make value false), stage, outcompeted } where
  written := by simpa [Write.states] using chain
  states := by simp [waits.1]
  runningStates state member := by
    rw [waits.2.1 state member]
    simp [Repository.write, Repository.registerRunningState]
  origin := .registered _ log rfl basis (by simpa using kept)
  applied := by simp
  carried := by simp [waits.2.2.1]
  held := by simp [waits.2.2.2]
  lane l holds := .inl (lane l holds)

/-- What a resync is sure to keep. -/
theorem resync_basis {knownTip : Option Cid} {tips : List TipResponse} {value : StreamState}
    (loaded : StreamLoader.loadStream node.net.world moment stream
      (Node.resyncTips knownTip moment tips) = .ok (some value)) :
    ∃ log, node.basis moment (.resyncing knownTip) = some log ∧ ∀ c ∈ log, c ∈ cids value ∨
      c ∈ outcompetedInLoad node.net.world stream (Node.resyncTips knownTip moment tips) := by
  obtain ⟨chain, kept⟩ := loadStream_keeps loaded
  have genesis : ∀ c ∈ [stream.cid], c ∈ cids value ∨
      c ∈ outcompetedInLoad node.net.world stream (Node.resyncTips knownTip moment tips) :=
    fun c isGenesis => .inl (chain.genesis_mem isGenesis)
  cases knownTip with
  | none => exact ⟨_, rfl, genesis⟩
  | some tip =>
    unfold Node.basis
    dsimp only
    split
    next reloaded known => exact ⟨_, rfl, kept ⟨moment, tip⟩ tips reloaded rfl known⟩
    next => exact ⟨_, rfl, genesis⟩

/-- An operation enters the lane of the stream and reads the running state's value. -/
theorem TurnSpec.enter {state : Nat} {found : RunningState} {stage : Stage}
    (at_state : repository.heap[state]? = some found) (sound : Sound node repository)
    (free : node.isFree repository (.execution node.lane) = true)
    (values : ∀ value ∈ stage.states, value = found.value)
    (states : ∀ other ∈ stage.runningStates, other = state) (applied : stage.applied = none)
    (held : ∀ other value, stage.held = some (other, value) → other = state ∧ value = found.value)
    (lane : ∀ lane, Operation.lane stream ⟨operation.call, stage⟩ = some lane →
      lane = .execution node.lane) :
    TurnSpec node repository operation moment { stage } := by
  have within := (List.getElem?_eq_some_iff.mp at_state).1
  refine .wait (fun value member => ?_) (fun other member => ?_) (.inl applied)
    (fun other value holds => ?_) fun l holds => .inr ?_
  · rw [values value member]
    exact sound.heap found (List.mem_of_getElem? at_state)
  · rw [states other member]
    exact within
  · obtain ⟨rfl, rfl⟩ := held other value holds
    exact ⟨found, at_state, rfl⟩
  · rw [lane l holds]
    exact free

theorem advance_spec {tips : List TipResponse} {turn : Turn} (sound : Sound node repository)
    (member : operation ∈ repository.operations)
    (h : node.advance repository operation moment tips = some turn) :
    TurnSpec node repository operation moment turn := by
  have known : ∀ state ∈ operation.stage.runningStates, state < repository.heap.length :=
    sound.runningStates operation member
  have chains : ∀ value ∈ operation.stage.states, node.net.Chain (cids value) :=
    sound.states operation member
  have found_of {state : Nat} (within : state < repository.heap.length) :
      ∃ found, repository.heap[state]? = some found ∧ node.net.Chain (cids found.value) :=
    ⟨_, List.getElem?_eq_getElem within, sound.heap _ (List.getElem_mem within)⟩
  unfold Node.advance at h
  dsimp only at h
  cases stage : operation.stage with
  | queuedLookup lookup =>
    rw [stage] at h
    exact lookUp_spec sound h stage
  | readingStore lookup =>
    rw [stage] at h
    obtain rfl := Option.some.inj h
    refine .wait (by simpa [Stage.states] using sound.stored) (by simp [Stage.runningStates]) (.inl rfl) (by simp [Stage.held])
      fun lane holds => .inl ?_
    rw [Operation.lane, stage]
    cases lookup <;> exact holds
  | storeRead lookup found =>
    rw [stage] at h
    exact lookUpStored_spec sound member h stage
  | syncing state snapshot =>
    rw [stage] at h known chains
    obtain rfl := Option.some.inj h
    obtain ⟨chain, kept⟩ : node.net.Chain (cids (StreamLoader.syncStream node.net.world snapshot tips)) ∧ _ :=
      sync_keeps (chains snapshot (by simp [Stage.states]))
    exact .next (known state (by simp [Stage.runningStates])) chain
      (.snapshot state snapshot _ rfl (.inl stage) kept)
      (by simp [Stage.states, Stage.runningStates, Stage.held]) (by simp) (by simp [Stage.applied])
      (by simp [Operation.lane])
  | resyncing knownTip =>
    rw [stage] at h
    dsimp only at h
    split at h
    next value loaded =>
      obtain rfl := Option.some.inj h
      obtain ⟨log, basis, kept⟩ := resync_basis loaded
      rw [← stage] at basis
      exact .register (loadStream_keeps loaded).1 basis kept
        (by simp [Stage.states, Stage.runningStates, Stage.applied, Stage.held]) (by simp [Operation.lane])
    next => cases h
  | loadingGenesis status =>
    rw [stage] at h
    dsimp only at h
    split at h
    next value loaded =>
      obtain rfl := Option.some.inj h
      obtain ⟨_, _, loaded⟩ := bind_eq_ok.mp loaded
      have chain := load_chain loaded
      exact .register chain (by rw [stage]; rfl) (fun c isGenesis => .inl (chain.genesis_mem isGenesis))
        (by simp [Stage.states, Stage.runningStates, Stage.applied, Stage.held]) (by simp [Operation.lane])
    next => cases h
  | loaded state status =>
    rw [stage] at h known
    obtain ⟨found, at_state, h⟩ := Option.bind_eq_some_iff.mp h
    obtain ⟨_, h⟩ := guard_bind_eq_some.mp h
    have within := known state (by simp [Stage.runningStates])
    split at h
    · obtain rfl := Option.some.inj h
      exact .returned within
    · obtain rfl := Option.some.inj h
      exact .wait (by simp [Stage.states]) (by simpa [Stage.runningStates] using within) (.inl rfl)
        (by simp [Stage.held]) (by simp [Operation.lane])
  | queuedUpdate state after =>
    rw [stage] at h known
    obtain ⟨free, h⟩ := guard_bind_eq_some.mp h
    obtain rfl := Option.some.inj h
    refine .wait (by simp [Stage.states]) (by simpa [Stage.runningStates] using known) (.inr ?_)
      (by simp [Stage.held]) fun lane holds => .inr ?_
    · rw [stage]
      cases after <;> rfl
    · obtain rfl := Option.some.inj holds
      exact free
  | updating lane state progress after =>
    rw [stage] at h
    exact update_spec sound member h stage
  | queuedApply state =>
    rw [stage] at h
    obtain ⟨free, h⟩ := guard_bind_eq_some.mp h
    obtain ⟨found, at_state, h⟩ := Option.bind_eq_some_iff.mp h
    obtain rfl := Option.some.inj h
    exact .enter at_state sound free (by simp [Stage.states]) (by simp [Stage.runningStates]) rfl
      (by simp [Stage.held]) (by simp [Operation.lane, Node.lane])
  | applying state originalState =>
    rw [stage] at h known chains
    have within := known state (by simp [Stage.runningStates])
    obtain ⟨found, at_state, _⟩ := found_of within
    dsimp only at h
    split at h
    next commit isCommit =>
      split at h
      next updatedState applied =>
        obtain ⟨chain, kept⟩ := applyTip_keeps (chains originalState (by simp [Stage.states])) applied
        split at h
        · rw [at_state] at h
          obtain rfl := Option.some.inj h
          have done : TurnSpec node repository operation moment { stage := .done } :=
            .wait (by simp [Stage.states]) (by simp [Stage.runningStates]) (.inl rfl)
              (by simp [Stage.held]) (by simp [Operation.lane])
          exact { done with
            origin := .current (.unwritten (by simp) (by simp))
            applied := fun tip isTip => by
              obtain rfl := Option.some.inj isTip
              refine ⟨state, originalState, found, stage, rfl, at_state, ?_⟩
              exact List.mem_of_getLast? (cids_getLast? found.value)
            carried := by simp [Stage.applied]
            held := by simp [Stage.held] }
        · obtain rfl := Option.some.inj h
          refine .next within chain (.snapshot state originalState _ rfl (.inr (by simp [stage, Stage.held]))
            kept) (by simp [Stage.states, Stage.runningStates, Stage.held]) (fun c isTip => ?_)
            (by simp [Stage.applied]) (by simp [Operation.lane, stage, Node.lane])
          obtain rfl := Option.some.inj isTip
          exact ⟨⟨originalState, stage⟩, List.mem_of_getLast? (cids_getLast? updatedState)⟩
      next => cases h
    next => cases h
  | anchoring state event =>
    rw [stage] at h
    obtain ⟨found, at_state, h⟩ := Option.bind_eq_some_iff.mp h
    exact handleAnchorEvent_spec sound at_state h
  | importing state attempt =>
    rw [stage] at h known
    obtain rfl := Option.some.inj h
    exact .wait (by simp [Stage.states]) (by simpa [Stage.runningStates] using known) (.inl rfl)
      (by simp [Stage.held]) (by simp [Operation.lane])
  | queuedTip state tip attempt =>
    rw [stage] at h
    obtain ⟨free, h⟩ := guard_bind_eq_some.mp h
    obtain ⟨found, at_state, h⟩ := Option.bind_eq_some_iff.mp h
    obtain rfl := Option.some.inj h
    exact .enter at_state sound free (by simp [Stage.states]) (by simp [Stage.runningStates]) rfl
      (by simp [Stage.held]) (by simp [Operation.lane, Node.lane])
  | handlingTip state tip attempt snapshot =>
    rw [stage] at h known chains
    dsimp only at h
    split at h
    next value applied =>
      obtain rfl := Option.some.inj h
      obtain ⟨chain, kept⟩ := applyTip_keeps (chains snapshot (by simp [Stage.states])) applied
      exact .next (known state (by simp [Stage.runningStates])) chain
        (.snapshot state snapshot _ rfl (.inr (by simp [stage, Stage.held])) kept)
        (by simp [Stage.states, Stage.runningStates, Stage.held]) (by simp) (by simp [Stage.applied])
        (by simp [Operation.lane, stage, Node.lane])
    next => cases h
  | queuedCommit state =>
    rw [stage] at h known
    dsimp only at h
    split at h
    next commitId sync call =>
      obtain ⟨free, h⟩ := guard_bind_eq_some.mp h
      have entered (existing : Option (Nat × StreamState)) : ∀ lane,
          Operation.lane stream ⟨operation.call, .resetting existing⟩ = some lane →
          operation.lane stream = some lane ∨ node.isFree repository lane = true := by
        intro lane holds
        rw [call] at holds
        obtain rfl := Option.some.inj holds
        exact .inr free
      cases state with
      | none =>
        obtain rfl := Option.some.inj h
        exact .wait (by simp [Stage.states]) (by simp [Stage.runningStates]) (.inl rfl)
          (by simp [Stage.held]) (entered none)
      | some state =>
        have within := known state (by simp [Stage.runningStates])
        obtain ⟨found, at_state, chain⟩ := found_of within
        simp only [at_state] at h
        obtain rfl := Option.some.inj h
        exact .wait (by simpa [Stage.states] using chain) (by simpa [Stage.runningStates] using within)
          (.inl rfl) (by simp [Stage.held]) (entered _)
    next => cases h
  | resetting existing =>
    rw [stage] at h known chains
    cases existing with
    | none =>
      dsimp only at h
      split at h
      next commitId sync call =>
        split at h
        next stateAtCommit loaded =>
          obtain ⟨_, h⟩ := guard_bind_eq_some.mp h
          obtain rfl := Option.some.inj h
          rw [StreamLoader.stateAtCommit, sound.commits operation member commitId sync call] at loaded
          have chain := load_chain loaded
          exact .register chain (by rw [stage]; rfl)
            (fun c isGenesis => .inl (chain.genesis_mem isGenesis))
            (by simp [Stage.states, Stage.runningStates, Stage.applied, Stage.held])
            (by simp [Operation.lane, stage, call])
        next => cases h
      next => cases h
    | some pair =>
      obtain ⟨state, snapshot⟩ := pair
      dsimp only at h
      split at h
      next commitId sync call =>
        split at h
        next stateAtCommit reset =>
          have within := known state (by simp [Stage.runningStates])
          obtain ⟨found, at_state, _⟩ := found_of within
          obtain ⟨_, h⟩ := guard_bind_eq_some.mp h
          simp only [at_state] at h
          have chain := resetStateToCommit_chain (chains snapshot (by simp [Stage.states])) reset
          rw [Option.bind_eq_bind, Option.bind_some] at h
          split at h
          next superset =>
            obtain rfl := Option.some.inj h
            exact .next within chain (.current (.grown state _ found rfl at_state
              fun c member => (prefix_of_superset superset).subset member))
              (by simp [Stage.states, Stage.runningStates, Stage.held]) (by simp) (by simp [Stage.applied])
              (by simp [Operation.lane, stage, call])
          next =>
            obtain rfl := Option.some.inj h
            exact .wait (by simp [Stage.states]) (by simp [Stage.runningStates]) (.inl rfl)
              (by simp [Stage.held]) (by simp [Operation.lane])
        next => cases h
      next => cases h
  | done =>
    rw [stage] at h
    cases h

theorem attemptOf_runningStates {stage : Stage} {state : Nat} {attempt : AnchorAttempt}
    (trying : Node.attemptOf stage = some (state, attempt)) : stage.runningStates = [state] := by
  unfold Node.attemptOf at trying
  split at trying
  all_goals first
    | cases trying; rfl
    | cases trying

theorem rejected_spec {turn : Turn} (sound : Sound node repository)
    (member : operation ∈ repository.operations)
    (h : Node.rejected repository operation = some turn) :
    TurnSpec node repository operation moment turn ∧ turn.applied = none ∧ Keeps repository turn := by
  have idle (stage : Stage) (waits : stage.states = [] ∧ stage.applied = none ∧ stage.held = none ∧
      Operation.lane stream ⟨operation.call, stage⟩ = none)
      (known : ∀ state ∈ stage.runningStates, state < repository.heap.length)
      (returned : some ({ stage } : Turn) = some turn) :
      TurnSpec node repository operation moment turn ∧ turn.applied = none ∧ Keeps repository turn := by
    obtain rfl := Option.some.inj returned
    obtain ⟨states, applied, held, lane⟩ := waits
    exact ⟨.wait (by simp [states]) known (.inl applied) (by simp [held]) (by simp [lane]), rfl,
      .unwritten (by simp) (by simp)⟩
  unfold Node.rejected at h
  split at h
  next state attempt trying =>
    have within : state < repository.heap.length := by
      refine sound.runningStates operation member state ?_
      exact attemptOf_runningStates trying ▸ List.mem_singleton_self state
    split at h
    next remaining retries =>
      exact idle _ ⟨rfl, rfl, rfl, rfl⟩
        (by simpa [Stage.runningStates] using within) h
    next =>
      obtain ⟨found, at_state, h⟩ := Option.bind_eq_some_iff.mp h
      split at h
      · obtain rfl := Option.some.inj h
        exact ⟨.anchorStatus sound at_state (.inl rfl), rfl,
          .grown state _ found rfl at_state fun c member => member⟩
      · exact idle _ ⟨rfl, rfl, rfl, rfl⟩
          (by simp [Stage.runningStates]) h
  next =>
    split at h
    · cases h
    · split at h
      · exact idle _ ⟨rfl, rfl, rfl, rfl⟩
          (by simp [Stage.runningStates]) h
      · exact idle _ ⟨rfl, rfl, rfl, rfl⟩
          (by simp [Stage.runningStates]) h

end

section

variable {stream : StreamID} {node : Node stream} {repository : Repository}

/-- A property of an operation's stage that holds of the new stage and of the others. -/
theorem forall_set {operations : List Operation} {index : Nat} {new : Operation}
    {Holds : Operation → Prop} (old : ∀ operation ∈ operations, Holds operation) (fresh : Holds new) :
    ∀ operation ∈ operations.set index new, Holds operation := by
  intro operation member
  rcases List.mem_or_eq_of_mem_set member with before | rfl
  · exact old operation before
  · exact fresh

theorem write_sound (sound : Sound node repository) {write : Write}
    (written : ∀ value ∈ write.states, node.net.Chain (cids value)) :
    Sound node (repository.write write) := by
  have longer : ∀ {state : Nat}, state < repository.heap.length →
      state < (repository.write write).heap.length :=
    fun within => Nat.lt_of_lt_of_le within (heap_write write)
  cases write with
  | nothing => exact sound
  | markPinnedAndSynced => exact { sound with }
  | next state value =>
    have modified : ∀ found ∈ (repository.next state value).heap, node.net.Chain (cids found.value) := by
      intro found member
      obtain ⟨i, at_i⟩ := List.mem_iff_getElem?.mp member
      simp only [Repository.next, List.getElem?_modify] at at_i
      obtain ⟨old, at_old, rfl⟩ := Option.map_eq_some_iff.mp at_i
      split
      · exact written value (by simp [Write.states])
      · exact sound.heap old (List.mem_of_getElem? at_old)
    exact { sound with
      heap := modified
      inmemory := fun found isFound => longer (sound.inmemory found isFound)
      runningStates := fun operation member found inHand =>
        longer (sound.runningStates operation member found inHand) }
  | register state =>
    have registered : ∀ found ∈ (repository.registerRunningState state).heap,
        node.net.Chain (cids found.value) := by
      intro found member
      rcases List.mem_append.mp member with old | new
      · exact sound.heap found old
      · obtain rfl := List.mem_singleton.mp new
        exact written found.value (by simp [Write.states])
    exact { sound with
      heap := registered
      inmemory := by simp [Repository.write, Repository.registerRunningState]
      runningStates := fun operation member found inHand =>
        longer (sound.runningStates operation member found inHand) }
  | save state value =>
    have modified : ∀ found ∈ (repository.save state value).heap, node.net.Chain (cids found.value) := by
      intro found member
      obtain ⟨i, at_i⟩ := List.mem_iff_getElem?.mp member
      simp only [Repository.save, List.getElem?_modify] at at_i
      obtain ⟨old, at_old, rfl⟩ := Option.map_eq_some_iff.mp at_i
      have chain := sound.heap old (List.mem_of_getElem? at_old)
      split <;> exact chain
    exact { sound with
      heap := modified
      stored := fun found isFound => by
        obtain rfl := Option.some.inj isFound
        exact written value (by simp [Write.states])
      inmemory := fun found isFound => longer (sound.inmemory found isFound)
      runningStates := fun operation member found inHand =>
        longer (sound.runningStates operation member found inHand) }

@[simp] theorem write_operations (write : Write) :
    (repository.write write).operations = repository.operations := by
  cases write <;> rfl

theorem take_sound {operation : Operation} {index moment : Nat} {turn : Turn}
    (sound : Sound node repository) (member : operation ∈ repository.operations)
    (spec : TurnSpec node repository operation moment turn) :
    Sound node (repository.take index operation turn) := by
  obtain ⟨heap, stored, inmemory, states, runningStates, commits⟩ := write_sound sound spec.written
  simp only [write_operations] at states runningStates commits
  exact {
    heap, stored, inmemory
    states := forall_set states spec.states
    runningStates := forall_set runningStates spec.runningStates
    commits := forall_set commits (commits operation member) }

theorem call_sound {call : Call} {stage : Stage} (sound : Sound node repository)
    (started : node.start repository call = some stage) :
    Sound node { repository with operations := repository.operations ++ [⟨call, stage⟩] } := by
  have fresh : (∀ value ∈ stage.states, node.net.Chain (cids value)) ∧
      (∀ state ∈ stage.runningStates, state < repository.heap.length) ∧
      ∀ commitId sync, call = .loadAtCommit commitId sync → commitId.baseID = stream := by
    cases call with
    | loadAtCommit commitId sync =>
      unfold Node.start at started
      dsimp only at started
      split at started
      next same =>
        obtain rfl := Option.some.inj started
        refine ⟨by simp [Stage.states], by simp [Stage.runningStates], fun other sync' eq => ?_⟩
        obtain ⟨rfl, _⟩ := Call.loadAtCommit.inj eq
        exact same
      next => cases started
    | handleAnchorEvent state event =>
      unfold Node.start at started
      dsimp only at started
      split at started
      next within =>
        obtain rfl := Option.some.inj started
        exact ⟨by simp [Stage.states], by simpa [Stage.runningStates] using within, by simp⟩
      next => cases started
    | _ =>
      obtain rfl := Option.some.inj started
      exact ⟨by simp [Stage.states], by simp [Stage.runningStates], by simp⟩
  obtain ⟨states, runningStates, commits⟩ := fresh
  have added {Holds : Operation → Prop} (old : ∀ operation ∈ repository.operations, Holds operation)
      (new : Holds ⟨call, stage⟩) : ∀ operation ∈ repository.operations ++ [⟨call, stage⟩],
      Holds operation := by
    intro operation member
    rcases List.mem_append.mp member with before | isNew
    · exact old operation before
    · obtain rfl := List.mem_singleton.mp isNew
      exact new
  exact { sound with
    states := added sound.states states
    runningStates := added sound.runningStates runningStates
    commits := added sound.commits commits }

/-- A step is a call, or a turn of an operation, which only keeps what there is if it fails. -/
inductive Stepped (node : Node stream) (repository : Repository) :
    RepositoryAction → Repository → Prop where
  | called (call : Call) (stage : Stage) : node.start repository call = some stage →
      Stepped node repository (.call call)
        { repository with operations := repository.operations ++ [⟨call, stage⟩] }
  | proceeded (index moment : Nat) (tips : List TipResponse) (operation : Operation) (turn : Turn) :
      repository.operations[index]? = some operation →
      TurnSpec node repository operation moment turn →
      Stepped node repository (.proceed index moment tips) (repository.take index operation turn)
  | failed (index : Nat) (operation : Operation) (turn : Turn) :
      repository.operations[index]? = some operation →
      TurnSpec node repository operation 0 turn → turn.applied = none → Keeps repository turn →
      Stepped node repository (.fail index) (repository.take index operation turn)

theorem step_cases {action : RepositoryAction} {repository' : Repository}
    (sound : Sound node repository) (stepped : repository.step node action = some repository') :
    Stepped node repository action repository' := by
  cases action with
  | call call =>
    obtain ⟨stage, started, returned⟩ := Option.bind_eq_some_iff.mp stepped
    obtain rfl := Option.some.inj returned
    exact .called call stage started
  | proceed index moment tips =>
    obtain ⟨operation, at_index, rest⟩ := Option.bind_eq_some_iff.mp stepped
    obtain ⟨turn, advanced, returned⟩ := Option.bind_eq_some_iff.mp rest
    obtain rfl := Option.some.inj returned
    exact .proceeded index moment tips operation turn at_index
      (advance_spec sound (List.mem_of_getElem? at_index) advanced)
  | fail index =>
    obtain ⟨operation, at_index, rest⟩ := Option.bind_eq_some_iff.mp stepped
    obtain ⟨turn, rejected, returned⟩ := Option.bind_eq_some_iff.mp rest
    obtain rfl := Option.some.inj returned
    obtain ⟨spec, unapplied, keeps⟩ := rejected_spec sound (List.mem_of_getElem? at_index) rejected
    exact .failed index operation turn at_index spec unapplied keeps

theorem step_sound {action : RepositoryAction} {repository' : Repository}
    (sound : Sound node repository) (stepped : repository.step node action = some repository') :
    Sound node repository' := by
  cases step_cases sound stepped with
  | called call stage started => exact call_sound sound started
  | proceeded index moment tips operation turn at_index spec =>
    exact take_sound sound (List.mem_of_getElem? at_index) spec
  | failed index operation turn at_index spec _ _ =>
    exact take_sound sound (List.mem_of_getElem? at_index) spec

/-- A node that was started for the first time, or again after some run. -/
inductive Booted (node : Node stream) : Repository → Prop where
  | first : Booted node (.boot none)
  | again {booted stopped : Repository} : Booted node booted →
      Transition.Reaches (Repository.step node) (fun _ _ => True) booted stopped →
      Booted node (.boot stopped.stored)

theorem boot_sound {stored : Option StreamState} (chain : ∀ value ∈ stored, node.net.Chain (cids value)) :
    Sound node (.boot stored) where
  heap := by simp [Repository.boot]
  stored := chain
  inmemory := by simp [Repository.boot]
  states := by simp [Repository.boot]
  runningStates := by simp [Repository.boot]
  commits := by simp [Repository.boot]

theorem reaches_sound {allowed : Repository → RepositoryAction → Prop} {start : Repository}
    (sound : Sound node start)
    (reached : Transition.Reaches (Repository.step node) allowed start repository) :
    Sound node repository :=
  reached.invariant sound fun _ _ _ holds _ stepped => step_sound holds stepped

theorem Booted.sound (booted : Booted node repository) : Sound node repository := by
  induction booted with
  | first => exact boot_sound (by simp)
  | again _ reached ih => exact boot_sound (reaches_sound ih reached).stored

end

end Ceramic
