import Ceramic.Stream

/-! What the stream code asks of its surroundings, and the helpers every handler
shares. The clock, signature verification, JSON-patch, schema validation and
loading of other streams are supplied by the caller. -/
namespace Ceramic

structure VerifyJWSOptions where
  atTime : Option Nat
  issuer : JsValue
  capability : Option Cacao
  revocationPhaseOutSecs : Nat
  deriving DecidableEq, Repr

/-- `jsonpatch.applyPatch` edits the document it is given: `document` is what that
object holds when the call returns or throws. -/
structure PatchOutcome where
  document : JsValue
  newDocument : Except JsError JsValue

structure LinkProof where
  timestamp : Option Rat
  account : String
  did : JsValue
  deriving DecidableEq, Repr

inductive AccountRelation where
  | list | single | none
  | set (fields : List String)
  deriving DecidableEq, Repr

inductive RelationDefinition where
  | account
  | document (model : Option String)
  deriving DecidableEq, Repr

/-- A model's content, in either version of the definition. -/
structure ModelDefinition where
  version : String
  name : String
  schema : JsValue
  accountRelation : AccountRelation
  interface : Bool := false
  implements : List String := []
  immutableFields : Option (List String) := .none
  relations : Option (List (String × RelationDefinition)) := .none
  deriving DecidableEq, Repr

structure Model where
  id : StreamID
  commitId : CommitID
  content : ModelDefinition
  deriving DecidableEq, Repr

structure Environment where
  useRustCeramic : Bool
  /-- Seconds since the epoch. -/
  now : Nat
  /-- `Date.parse`, in milliseconds; `none` for `NaN`. -/
  dateParse : String → Option Int
  verifyJWS : Option DagJWS → VerifyJWSOptions → Except JsError Unit
  applyPatch : JsValue → JsValue → PatchOutcome
  loadTileSchema : JsValue → Except JsError JsValue
  /-- Validity of a content value under a schema, or the validator's error text. -/
  ajvValidate : JsValue → JsValue → Except String Unit
  sizeof : JsValue → Nat
  /-- `String(value)` for truthy values. -/
  stringOf : JsValue → String
  jsonStringify : JsValue → String
  /-- `uint8arrays.toString`. -/
  bytesToString : JsValue → String
  streamIDFromBytes : JsValue → Except JsError StreamID
  streamIDFromString : JsValue → Except JsError StreamID
  loadModel : JsValue → Except JsError Model
  /-- The model a model instance document belongs to. -/
  loadModelOfInstance : StreamID → Except JsError StreamID
  validateLink : JsValue → Except JsError (Option LinkProof)
  toLowerCase : String → String
  /-- `Model.assertComplete`, `assertVersionValid` and `assertRelationsValid`. -/
  assertModelDefinition : JsValue → Except JsError Unit
  /-- The schema, set field, view and interface checks of a model's content. -/
  validateModelContent : JsValue → Except JsError Unit
  MODEL : StreamID

/-- Surroundings in which every check succeeds and every patch changes nothing. -/
def Environment.permissive : Environment where
  useRustCeramic := false
  now := 0
  dateParse := fun _ => none
  verifyJWS := fun _ _ => .ok ()
  applyPatch := fun document _ => ⟨document, .ok document⟩
  loadTileSchema := fun _ => .ok .null
  ajvValidate := fun _ _ => .ok ()
  sizeof := fun _ => 0
  stringOf := fun _ => ""
  jsonStringify := fun _ => ""
  bytesToString := fun _ => ""
  streamIDFromBytes := fun _ => .ok ⟨MODEL_TYPE_ID, ⟨[]⟩⟩
  streamIDFromString := fun _ => .ok ⟨MODEL_INSTANCE_TYPE_ID, ⟨[]⟩⟩
  loadModel := fun _ => .ok ⟨⟨MODEL_TYPE_ID, ⟨[]⟩⟩, ⟨MODEL_TYPE_ID, ⟨[]⟩, none⟩,
    { version := "1.0", name := "", schema := .obj [], accountRelation := .list }⟩
  loadModelOfInstance := fun _ => .ok ⟨MODEL_TYPE_ID, ⟨[]⟩⟩
  validateLink := fun _ => .ok none
  toLowerCase := id
  assertModelDefinition := fun _ => .ok ()
  validateModelContent := fun _ => .ok ()
  MODEL := ⟨MODEL_TYPE_ID, ⟨[]⟩⟩

namespace StreamUtils

def streamIdFromState (state : StreamState) : StreamID := ⟨state.type, state.log.first.cid⟩

def tipFromState (state : StreamState) : Cid := state.log.last.cid

/-- Reading `equals` of an absent CID throws. -/
def assertCommitLinksToState (state : StreamState) (commit : Commit) : Except JsError Unit := do
  let streamId := streamIdFromState state
  match commit.id with
  | some id =>
    if id ≠ state.log.first.cid then
      throw ⟨"Invalid genesis CID in commit for StreamID " ++ streamId.toString ++ ". Found: " ++
        id.toString ++ ", expected " ++ state.log.first.cid.toString⟩
  | none => pure ()
  let expectedPrev := state.log.last.cid
  match commit.prev with
  | some prev =>
    if prev ≠ expectedPrev then
      throw ⟨"Commit doesn't properly point to previous commit in log. Expected " ++
        expectedPrev.toString ++ ", found 'prev' " ++ prev.toString⟩
  | none => throw ⟨"Cannot read properties of undefined (reading 'equals')"⟩

def isSignedCommitData (commitData : CommitData) : Bool := commitData.envelope.isSome

def isAnchorCommitData (commitData : CommitData) : Bool := commitData.proof.isSome

/-- The expiration of the commit's capability in seconds; an unreadable date is
`NaN`, which every reader of the field treats as absent. -/
def capabilityExpiration (env : Environment) (commitData : CommitData) : Option Int :=
  match commitData.capability with
  | some ⟨_, some exp⟩ => if exp = "" then none else (env.dateParse exp).map fun ms => ms.fdiv 1000
  | _ => none

def commitDataToLogEntry (env : Environment) (commitData : CommitData) (eventType : EventType) :
    LogEntry :=
  { cid := commitData.cid
    type := eventType
    timestamp := if commitData.timestamp.truthy then commitData.timestamp else .undefined
    expirationTime := capabilityExpiration env commitData }

/-- The timestamp of the last entry that has one. -/
def anchorTimestampFromState (state : StreamState) : Timestamp :=
  match state.log.toList.reverse.find? (fun entry => entry.timestamp.truthy) with
  | some entry => entry.timestamp
  | none => .null

def validDIDString (did : JsValue) : Bool :=
  match did with
  | .str s => "did:".toList.isPrefixOf s.toList
  | _ => false

def stateContainsCommit (state : StreamState) (commit : Cid) : Bool :=
  state.log.toList.any fun entry => entry.cid == commit

/-- Two states of the same commits can still differ in what they know of an anchor request. -/
def isStateSupersetOf (state base : StreamState) : Bool :=
  let log := state.log.toList
  let baseLog := base.log.toList
  if log.length < baseLog.length then false
  else if !(List.zipWith (fun entry baseEntry => entry.cid == baseEntry.cid) log baseLog).all id then
    false
  else !(log.length == baseLog.length && state.anchorStatus != base.anchorStatus)

theorem links_iff (state : StreamState) (commit : Commit) :
    assertCommitLinksToState state commit = .ok () ↔
      (∀ id, commit.id = some id → id = state.log.first.cid) ∧
      commit.prev = some state.log.last.cid := by
  unfold assertCommitLinksToState
  cases commit.id <;> cases commit.prev <;>
    simp [bind, Except.bind, pure, Except.pure, throw, throwThe, MonadExceptOf.throw]
  all_goals repeat' split
  all_goals simp_all

end StreamUtils

end Ceramic
