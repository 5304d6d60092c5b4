import Ceramic.PinStore
import Mathlib.Logic.Function.Basic

/-! The states that a node runs and those that its state store has. -/
namespace Ceramic

/-- What a node's streams are loaded, pinned and indexed with. -/
structure StreamsEnv where
  pinStore : PinStore
  MODEL : StreamID
  shouldIndexStream : StreamID → Bool
  useRustCeramic : Bool
  syncStream : StreamState → Except JsError StreamState
  loadStream : StreamID → Except JsError StreamState
  loadGenesisState : StreamID → Except JsError StreamState
  checkForCacaoExpiration : StreamState → Except JsError Unit
  /-- `feedAggregationStore.put`. -/
  putFeed : StreamID → Except JsError Unit
  indexStreamIfNeeded : StreamState → Except JsError Unit

structure NodeStreams where
  inmemory : StreamID → Option RunningState
  stateStore : StreamID → Option StreamState
  /-- `#syncedPinnedStreams`. -/
  synced : StreamID → Bool

/-- The streams as they are when an operation has returned or thrown. -/
abbrev StreamsResult := NodeStreams × Except JsError Unit

namespace StreamsResult

def done (node : NodeStreams) : StreamsResult := (node, .ok ())

/-- What comes next is not done after an error. -/
def andThen (result : StreamsResult) (next : NodeStreams → StreamsResult) : StreamsResult :=
  match result.2 with
  | .ok () => next result.1
  | .error e => (result.1, .error e)

end StreamsResult

namespace NodeStreams

open StreamUtils StreamsResult

def register (node : NodeStreams) (id : StreamID) (state : RunningState) : NodeStreams :=
  { node with inmemory := Function.update node.inmemory id (some state) }

/-- `state$.next(value)`. -/
def next (node : NodeStreams) (id : StreamID) (value : StreamState) : NodeStreams :=
  match node.inmemory id with
  | some state => node.register id { state with value }
  | none => node

/-- `saveFromStreamStateHolder`, and `markAsPinned`. -/
def save (node : NodeStreams) (id : StreamID) (state : RunningState) : NodeStreams :=
  { node.register id state.markAsPinned with
    stateStore := Function.update node.stateStore id (some state.value) }

/-- `metadata.model`. -/
def modelOf (state : StreamState) : Option StreamID :=
  match JsObject.get state.metadata "model" with
  | .streamID model => some model
  | _ => none

variable (env : StreamsEnv)

def shouldIndex (state : StreamState) : Bool :=
  match modelOf state with
  | some model => env.shouldIndexStream model
  | none => false

/-- `_updateStateIfPinned`, with the pin store's `add`. -/
def updateStateIfPinned (add : NodeStreams → StreamID → StreamsResult) (node : NodeStreams) (id : StreamID) :
    StreamsResult :=
  match node.inmemory id with
  | none => done node
  | some state =>
    let pinned :=
      if (node.stateStore id).isSome || shouldIndex env state.value then
        (add node id).andThen fun node => (node, env.putFeed id)
      else done node
    pinned.andThen fun node => (node, env.indexStreamIfNeeded state.value)

/-- `_updateStateIfPinned_safe`, and what `load` notes after a sync. -/
def updateLoaded (add : NodeStreams → StreamID → StreamsResult) (node : NodeStreams) (id : StreamID)
    (value : StreamState) : StreamsResult :=
  match env.checkForCacaoExpiration value with
  | .error e => (node, .error e)
  | .ok () => (updateStateIfPinned env add node id).andThen fun node =>
    match node.inmemory id with
    | some state =>
      done (if state.isPinned then { node with synced := Function.update node.synced id true } else node)
    | none => done node

/-- `load` of a stream that is in the cache or in the state store, or that the network knows. -/
def load (add : NodeStreams → StreamID → StreamsResult) (node : NodeStreams) (id : StreamID) : StreamsResult :=
  match node.inmemory id, node.stateStore id with
  | some state, _ => (node, env.checkForCacaoExpiration state.value)
  | none, some value =>
    let found := node.register id (.make value true)
    if env.useRustCeramic || node.synced id then (found, env.checkForCacaoExpiration value)
    else match env.syncStream value with
      | .ok synced => updateLoaded env add (found.next id synced) id synced
      | .error e => (found, .error e)
  | none, none =>
    if env.useRustCeramic then
      match env.loadGenesisState id with
      | .ok value => (node.register id (.make value false), env.checkForCacaoExpiration value)
      | .error e => (node, .error e)
    else match env.loadStream id with
      | .ok value => updateLoaded env add (node.register id (.make value false)) id value
      | .error e => (node, .error e)

/-- `PinStore.add`. A model is pinned along with a stream, and so are the models of models, as
many as `depth`. -/
def add : (depth : Nat) → NodeStreams → StreamID → StreamsResult
  | depth, node, id =>
    match node.inmemory id with
    | none => done node
    | some state =>
      if state.newCommits = [] then done node
      else match env.pinStore.pinCommits state.newCommits with
        | .error e => (node, .error e)
        | .ok () =>
          let saved := node.save id state
          match depth, modelOf state.value with
          | depth + 1, some model =>
            if model = env.MODEL then done saved
            else (load env (add depth) saved model).andThen fun node => add depth node model
          | _, _ => done saved

/-- The running state of the stream is what the state store has for it. -/
def Persisted (node : NodeStreams) (id : StreamID) : Prop :=
  ∃ state, node.inmemory id = some state ∧ node.stateStore id = some state.value

/-- It is, and there is nothing of it left to pin. -/
def Settled (node : NodeStreams) (id : StreamID) : Prop :=
  ∃ state, node.inmemory id = some state ∧ state.newCommits = [] ∧ node.stateStore id = some state.value

theorem newCommits_markAsPinned (state : RunningState) : state.markAsPinned.newCommits = [] := by
  apply List.filter_eq_nil_iff.mpr
  intro cid member
  simpa [RunningState.markAsPinned] using member

section

variable {env : StreamsEnv} {node : NodeStreams} {id other : StreamID}

theorem save_settled (node : NodeStreams) (id : StreamID) (state : RunningState) : (node.save id state).Settled id :=
  ⟨state.markAsPinned, Function.update_self .., newCommits_markAsPinned state, Function.update_self ..⟩

namespace Settled

theorem persisted (settled : node.Settled id) : node.Persisted id := by
  obtain ⟨state, running, -, stored⟩ := settled
  exact ⟨state, running, stored⟩

theorem apart (settled : node.Settled id) (absent : node.inmemory other = none) : id ≠ other := by
  rintro rfl
  obtain ⟨state, running, -⟩ := settled
  rw [absent] at running
  cases running

theorem register (settled : node.Settled id) (apart : id ≠ other) (state : RunningState) :
    (node.register other state).Settled id := by
  obtain ⟨found, running, nothingNew, stored⟩ := settled
  exact ⟨found, (Function.update_of_ne apart ..).trans running, nothingNew, stored⟩

theorem next (settled : node.Settled id) (apart : id ≠ other) (value : StreamState) :
    (node.next other value).Settled id := by
  unfold NodeStreams.next
  split
  · exact settled.register apart _
  · exact settled

theorem save (settled : node.Settled id) (state : RunningState) : (node.save other state).Settled id := by
  by_cases same : id = other
  · subst same
    exact save_settled node id state
  · obtain ⟨found, running, nothingNew, stored⟩ := settled
    exact ⟨found, (Function.update_of_ne same ..).trans running, nothingNew,
      (Function.update_of_ne same ..).trans stored⟩

/-- What becomes of the other streams' sync does not matter. -/
theorem noted (settled : node.Settled id) (synced : StreamID → Bool) : { node with synced }.Settled id := settled

theorem andThen {result : StreamsResult} {next : NodeStreams → StreamsResult} (settled : result.1.Settled id)
    (kept : ∀ node, node.Settled id → (next node).1.Settled id) : (result.andThen next).1.Settled id := by
  unfold StreamsResult.andThen
  split
  · exact kept _ settled
  · exact settled

variable {pin : NodeStreams → StreamID → StreamsResult}

theorem updateStateIfPinned (kept : ∀ node other, node.Settled id → (pin node other).1.Settled id)
    (settled : node.Settled id) (other : StreamID) :
    (NodeStreams.updateStateIfPinned env pin node other).1.Settled id := by
  unfold NodeStreams.updateStateIfPinned
  split
  · exact settled
  · refine andThen ?_ fun node settled => settled
    split
    · exact andThen (kept node other settled) fun node settled => settled
    · exact settled

theorem updateLoaded (kept : ∀ node other, node.Settled id → (pin node other).1.Settled id)
    (settled : node.Settled id) (other : StreamID) (value : StreamState) :
    (NodeStreams.updateLoaded env pin node other value).1.Settled id := by
  unfold NodeStreams.updateLoaded
  split
  · exact settled
  · refine andThen (updateStateIfPinned kept settled other) fun node settled => ?_
    split
    · unfold StreamsResult.done
      split
      · exact settled.noted _
      · exact settled
    · exact settled

theorem load (kept : ∀ node other, node.Settled id → (pin node other).1.Settled id)
    (settled : node.Settled id) (other : StreamID) : (NodeStreams.load env pin node other).1.Settled id := by
  unfold NodeStreams.load
  split
  next => exact settled
  next absent _ =>
    -- The stream itself is in memory, so another one is loaded.
    have found := settled.register (settled.apart absent)
    dsimp only
    split
    · exact found _
    · split
      · exact updateLoaded kept ((found _).next (settled.apart absent) _) other _
      · exact found _
  next absent _ =>
    have found := settled.register (settled.apart absent)
    split
    · split
      · exact found _
      · exact settled
    · split
      · exact updateLoaded kept (found _) other _
      · exact settled

/-- Whatever is pinned along with the stream, its own state is not touched any more. -/
theorem add (settled : node.Settled id) (depth : Nat) (other : StreamID) :
    (NodeStreams.add env depth node other).1.Settled id := by
  induction depth generalizing node other with
  | zero =>
    unfold NodeStreams.add
    split
    · exact settled
    · split
      · exact settled
      · split
        · exact settled
        · exact settled.save _
  | succ depth ih =>
    unfold NodeStreams.add
    split
    · exact settled
    · split
      · exact settled
      · split
        · exact settled
        · dsimp only
          split
          · split
            · exact settled.save _
            · next followed _ _ =>
              cases followed
              exact andThen (load (fun _ other settled => ih settled other) (settled.save _) _)
                fun node settled => ih settled _
          · exact settled.save _

end Settled

/-- A running state with new commits that can be pinned gets into the state store. -/
theorem add_settled {state : RunningState} (running : node.inmemory id = some state)
    (new : state.newCommits ≠ []) (pinned : env.pinStore.pinCommits state.newCommits = .ok ()) (depth : Nat) :
    (add env depth node id).1.Settled id := by
  have saved := save_settled node id state
  unfold add
  rw [running]
  dsimp only
  rw [if_neg new, pinned]
  dsimp only
  split
  next model _ =>
    split
    · exact saved
    · exact Settled.andThen (Settled.load (fun _ other settled => settled.add _ other) saved model)
        fun node settled => settled.add _ model
  next => exact saved

/-- Otherwise nothing happens to the streams. -/
theorem add_unchanged {state : RunningState} (running : node.inmemory id = some state)
    (idle : ¬(state.newCommits ≠ [] ∧ env.pinStore.pinCommits state.newCommits = .ok ())) (depth : Nat) :
    (add env depth node id).1 = node := by
  unfold add
  rw [running]
  dsimp only
  by_cases new : state.newCommits = []
  · rw [if_pos new]
    rfl
  · rw [if_neg new]
    cases pinned : env.pinStore.pinCommits state.newCommits with
    | error e => rfl
    | ok => exact absurd ⟨new, pinned⟩ idle

theorem next_inmemory {state : RunningState} (running : node.inmemory id = some state) (value : StreamState) :
    (node.next id value).inmemory id = some { state with value } := by
  unfold next
  rw [running]
  exact Function.update_self ..

theorem next_stateStore (node : NodeStreams) (id : StreamID) (value : StreamState) :
    (node.next id value).stateStore = node.stateStore := by
  unfold next
  split <;> rfl

/-- What follows the update of a pinned stream leaves the streams as they are. -/
theorem updateStateIfPinned_node {add : NodeStreams → StreamID → StreamsResult} {state : RunningState}
    (running : node.inmemory id = some state)
    (kept : (node.stateStore id).isSome ∨ shouldIndex env state.value = true) :
    (updateStateIfPinned env add node id).1 = (add node id).1 := by
  unfold updateStateIfPinned
  rw [running]
  dsimp only
  rw [if_pos (by simpa using kept)]
  unfold StreamsResult.andThen
  cases (add node id).2 with
  | error e => rfl
  | ok => cases env.putFeed id <;> rfl

end

/-- After a change of a pinned stream, or of one that is indexed, the state store has what runs just when
it had the new value before, or when the new log has commits that were not pinned before. -/
theorem updateStateIfPinned_persists_iff (env : StreamsEnv) (depth : Nat) (node : NodeStreams) (id : StreamID)
    (state : RunningState) (running : node.inmemory id = some state) (value : StreamState)
    (kept : (node.stateStore id).isSome ∨ shouldIndex env value = true) :
    (updateStateIfPinned env (add env depth) (node.next id value) id).1.Persisted id ↔
      node.stateStore id = some value ∨
        (({ state with value } : RunningState).newCommits ≠ [] ∧
          env.pinStore.pinCommits ({ state with value } : RunningState).newCommits = .ok ()) := by
  have changed := next_inmemory running value
  have stored := next_stateStore node id value
  rw [updateStateIfPinned_node changed (by rwa [stored])]
  by_cases new : ({ state with value } : RunningState).newCommits ≠ [] ∧
      env.pinStore.pinCommits ({ state with value } : RunningState).newCommits = .ok ()
  · exact iff_of_true (add_settled changed new.1 new.2 depth).persisted (Or.inr new)
  · rw [add_unchanged changed new depth, or_iff_left new, Persisted, stored]
    constructor
    · rintro ⟨found, isFound, same⟩
      obtain rfl := Option.some.inj (isFound.symm.trans changed)
      exact same
    · intro same
      exact ⟨_, changed, same⟩

def pinnedGenesis : StreamState where
  type := 0
  content := .obj []
  metadata := [("controllers", .arr [.str "did:key:z6Mk"])]
  signature := .SIGNED
  anchorStatus := .NOT_REQUESTED
  log := .singleton ⟨⟨[1]⟩, .INIT, .undefined, none⟩

/-- A node with one stream that it has pinned. -/
def pinnedNode : NodeStreams where
  inmemory := Function.update (fun _ => none) ⟨0, ⟨[1]⟩⟩ (some (.make pinnedGenesis true))
  stateStore := Function.update (fun _ => none) ⟨0, ⟨[1]⟩⟩ (some pinnedGenesis)
  synced := fun _ => false

/-- Every commit is unsigned, and its block can be pinned. -/
def unsignedCommits : StreamsEnv where
  pinStore := {
    retrieve := fun _ => .ok (.obj [("data", .obj [])])
    resolve := fun cid _ => .ok cid
    pin := fun _ => .ok ()
    base64urlToJSON := fun _ => .error ⟨"not supported"⟩
    parse := fun _ => .error ⟨"not supported"⟩
    stringOf := fun _ => "" }
  MODEL := ⟨2, ⟨[9]⟩⟩
  shouldIndexStream := fun _ => false
  useRustCeramic := false
  syncStream := .ok
  loadStream := fun _ => .error ⟨"not supported"⟩
  loadGenesisState := fun _ => .error ⟨"not supported"⟩
  checkForCacaoExpiration := fun _ => .ok ()
  putFeed := fun _ => .ok ()
  indexStreamIfNeeded := fun _ => .ok ()

def updatedGenesis : StreamState :=
  { pinnedGenesis with log := pinnedGenesis.log.push ⟨⟨[2]⟩, .DATA, .undefined, none⟩ }

theorem updateStateIfPinned_persists_iff_updated :
    (updateStateIfPinned unsignedCommits (add unsignedCommits 1) (pinnedNode.next ⟨0, ⟨[1]⟩⟩ updatedGenesis)
      ⟨0, ⟨[1]⟩⟩).1.Persisted ⟨0, ⟨[1]⟩⟩ :=
  (updateStateIfPinned_persists_iff unsignedCommits 1 pinnedNode ⟨0, ⟨[1]⟩⟩ (.make pinnedGenesis true) rfl
    updatedGenesis (Or.inl rfl)).mpr (Or.inr ⟨by decide, rfl⟩)

/-- The anchor service has the request: the new status is not saved. -/
theorem anchorStatus_not_persisted : ¬ ∀ (env : StreamsEnv) (depth : Nat) (node : NodeStreams) (id : StreamID)
    (value : StreamState), (node.inmemory id).isSome → (node.stateStore id).isSome →
      (updateStateIfPinned env (add env depth) (node.next id value) id).1.Persisted id := by
  intro claim
  obtain ⟨state, running, stored⟩ := claim unsignedCommits 1 pinnedNode ⟨0, ⟨[1]⟩⟩
    { pinnedGenesis with anchorStatus := .PENDING } rfl rfl
  have changed := @next_inmemory pinnedNode ⟨0, ⟨[1]⟩⟩ _ rfl { pinnedGenesis with anchorStatus := .PENDING }
  rw [updateStateIfPinned_node changed (Or.inl rfl),
    add_unchanged changed (fun new => new.1 (by decide))] at running stored
  rw [next_stateStore] at stored
  obtain rfl := Option.some.inj (changed.symm.trans running)
  have same : AnchorStatus.NOT_REQUESTED = .PENDING := congrArg StreamState.anchorStatus (Option.some.inj stored)
  cases same

end NodeStreams

end Ceramic
