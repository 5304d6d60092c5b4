import Ceramic.LogSyncer
import Ceramic.ModelHandler
import Ceramic.ModelInstanceDocumentHandler
import Ceramic.IdText

/-! What a node does with the events of the Recon feed. From the shape of the commit alone it is
told to which stream an event belongs: a commit with a header is taken for a genesis. -/
namespace Ceramic

open StreamUtils

inductive Handled where
  | applied
  /-- The stream is neither indexed nor stored. -/
  | untracked
  deriving DecidableEq, Repr

/-- A node as it is when it handles an event. What loading a stream or applying a tip to it comes
to may change from one moment to the next. -/
structure ReconNode where
  env : Environment
  dispatcher : (moment : Nat) → Dispatcher
  /-- Whether a running state is found. -/
  fromMemoryOrStore_UNSAFE : (moment : Nat) → StreamID → Except JsError Bool
  shouldIndexStream : (moment : Nat) → StreamID → Bool
  load : (moment : Nat) → StreamID → Except JsError Unit
  _handleTip : (moment : Nat) → StreamID → Cid → Except JsError Unit

/-- A call of `handleUpdateFromNetwork`. -/
structure NetworkUpdate where
  streamId : StreamID
  tip : Cid
  model : Option StreamID
  deriving DecidableEq, Repr

/-- A feed event with the moment at which it is handled. -/
structure ReconEvent where
  moment : Nat
  cid : Cid
  deriving DecidableEq, Repr

/-- The call that was made for an event, and how it ended. -/
structure EventResult where
  update : Option NetworkUpdate
  outcome : Except JsError Handled
  deriving DecidableEq

namespace ReconNode

variable (node : ReconNode)

def handleUpdateFromNetwork (moment : Nat) (update : NetworkUpdate) : Except JsError Handled := do
  let found ← node.fromMemoryOrStore_UNSAFE moment update.streamId
  let shouldIndex := update.model.any (node.shouldIndexStream moment)
  if !shouldIndex && !found then return .untracked
  if !found then node.load moment update.streamId
  node._handleTip moment update.streamId update.tip
  return .applied

/-- `genesisCid` and `genesisCommitData`. -/
def genesisOf (event : ReconEvent) (commitData : CommitData) : Cid × Except JsError CommitData :=
  let genesisCid := commitData.commit.id.getD event.cid
  (genesisCid,
    if commitData.commit.header.isSome then .ok commitData
    else Utils.getCommitData (node.dispatcher event.moment) genesisCid)

/-- What an event's commit is taken to be an update of. -/
def updateOf (event : ReconEvent) : Except JsError NetworkUpdate := do
  let commitData ← Utils.getCommitData (node.dispatcher event.moment) event.cid
  let (genesisCid, loaded) := node.genesisOf event commitData
  let genesisCommitData ← loaded
  match genesisCommitData.commit.header with
  | none => throw ⟨"Cannot read properties of undefined (reading 'model')"⟩
  | some header =>
    if !(JsObject.get header "model").truthy then
      throw ⟨"Model not found in genesis commit header " ++ genesisCid.toString ++
        " for event for cid " ++ event.cid.toString⟩
    let model ← node.env.streamIDFromBytes (JsObject.get header "model")
    let type := if model.toString = node.env.MODEL.toString then MODEL_TYPE_ID else MODEL_INSTANCE_TYPE_ID
    return ⟨⟨type, genesisCid⟩, event.cid, some model⟩

/-- The body of the loop; an error is only logged. -/
def handleReconEvent (event : ReconEvent) : EventResult :=
  match node.updateOf event with
  | .error e => ⟨none, .error e⟩
  | .ok update => ⟨some update, node.handleUpdateFromNetwork event.moment update⟩

/-- The loop of `handleReconEvents`. -/
def handleReconEvents : List ReconEvent → List EventResult
  | [] => []
  | event :: events => node.handleReconEvent event :: handleReconEvents events

end ReconNode

/-- The genesis of a Model or of a ModelInstanceDocument stream carries the model in its header. -/
structure IsGenesisOf (env : Environment) (stream model : StreamID) (genesis : CommitData) : Prop where
  id : genesis.commit.id = none
  prev : genesis.commit.prev = none
  header : ∃ header, genesis.commit.header = some header ∧ (JsObject.get header "model").truthy = true ∧
    env.streamIDFromBytes (JsObject.get header "model") = .ok model
  type : stream.type = MODEL_TYPE_ID ∧ model = env.MODEL ∨
    stream.type = MODEL_INSTANCE_TYPE_ID ∧ model ≠ env.MODEL

/-- The shapes of the commits in a stream's log. The header of a data commit has no other field
than `shouldIndex`. -/
inductive IsEventOf (stream : StreamID) (genesis : CommitData) (cid : Cid) : CommitData → Prop where
  | genesis : cid = stream.cid → IsEventOf stream genesis cid genesis
  | data (c : CommitData) : c.envelope.isSome = true → c.commit.id = some stream.cid →
      c.commit.prev.isSome = true →
      (∀ header ∈ c.commit.header, (JsObject.delete header "shouldIndex").isEmpty = true) →
      IsEventOf stream genesis cid c
  | time (c : CommitData) : c.commit.proof.isSome = true → c.commit.id = some stream.cid →
      c.commit.prev.isSome = true → c.commit.header = none → IsEventOf stream genesis cid c

/-- The handlers only accept such headers. -/
theorem shouldIndex_of_checkSigned {env : Environment} {c : CommitData} {state : StreamState}
    {shouldIndex : JsValue}
    (accepted : ModelInstanceDocumentHandler.checkSigned env c state = .ok shouldIndex) :
    ∀ header ∈ c.commit.header, (JsObject.delete header "shouldIndex").isEmpty = true := by
  intro header isHeader
  obtain ⟨_, _, accepted⟩ := bind_eq_ok.mp accepted
  obtain ⟨_, _, accepted⟩ := bind_eq_ok.mp accepted
  obtain ⟨_, _, accepted⟩ := bind_eq_ok.mp accepted
  rw [Option.mem_def.mp isHeader] at accepted
  by_cases only : (JsObject.delete header "shouldIndex").isEmpty = true
  · exact only
  · simp [only, throw, throwThe, MonadExceptOf.throw, bind, Except.bind] at accepted

/-- The model of a ModelInstanceDocument is a Model. -/
theorem modelType_of_checkGenesis {env : Environment} {c : CommitData} {metadata : StreamMetadata}
    (accepted : ModelInstanceDocumentHandler.checkGenesis env c = .ok metadata) :
    ∃ header model, c.commit.header = some header ∧
      env.streamIDFromBytes (JsObject.get header "model") = .ok model ∧ model.type = MODEL_TYPE_ID := by
  obtain ⟨header, isHeader, accepted⟩ := bind_eq_ok.mp accepted
  obtain ⟨⟨controller, model, metadata'⟩, read, accepted⟩ := bind_eq_ok.mp accepted
  obtain ⟨_, checked, _⟩ := bind_eq_ok.mp accepted
  obtain ⟨_, _, read⟩ := bind_eq_ok.mp read
  obtain ⟨model', parsed, read⟩ := bind_eq_ok.mp read
  have same : model' = model := by
    dsimp only at read
    split at read
    · obtain ⟨_, _, read⟩ := bind_eq_ok.mp read
      exact (Prod.mk.inj (Prod.mk.inj (Except.ok.inj read)).2).1
    · exact (Prod.mk.inj (Prod.mk.inj (Except.ok.inj read)).2).1
  subst same
  refine ⟨header, model', headerOf_ok isHeader, parsed, ?_⟩
  obtain ⟨_, _, checked⟩ := bind_eq_ok.mp checked
  dsimp only at checked
  by_contra other
  rw [if_pos other] at checked
  split at checked <;> cases checked

theorem isModel_of_checkGenesis {env : Environment} {c : CommitData} {metadata : StreamMetadata}
    (accepted : ModelHandler.checkGenesis env c = .ok metadata) :
    ∃ header, c.commit.header = some header ∧
      env.streamIDFromBytes (JsObject.get header "model") = .ok env.MODEL := by
  unfold ModelHandler.checkGenesis at accepted
  dsimp only at accepted
  split at accepted
  · cases accepted
  obtain ⟨header, isHeader, accepted⟩ := bind_eq_ok.mp accepted
  obtain ⟨_, _, accepted⟩ := bind_eq_ok.mp accepted
  obtain ⟨_, _, accepted⟩ := bind_eq_ok.mp accepted
  obtain ⟨model, parsed, accepted⟩ := bind_eq_ok.mp accepted
  obtain ⟨_, _, accepted⟩ := bind_eq_ok.mp accepted
  obtain ⟨_, _, accepted⟩ := bind_eq_ok.mp accepted
  obtain ⟨_, _, accepted⟩ := bind_eq_ok.mp accepted
  refine ⟨header, headerOf_ok isHeader, ?_⟩
  by_cases same : model = env.MODEL
  · rw [parsed, same]
  · rw [if_pos same] at accepted
    cases accepted

end Ceramic
