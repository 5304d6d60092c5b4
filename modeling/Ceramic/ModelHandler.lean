import Ceramic.StreamHandlerCommon

/-! The Model handler. A model is final: only anchors follow its genesis. -/
namespace Ceramic.ModelHandler

open StreamUtils SignatureUtils

def ALLOWED_CONTENT_KEYS : List String :=
  ["version", "name", "description", "schema", "accountRelation", "relations", "views",
    "interface", "implements", "immutableFields"]

def assertNoExtraKeys (content : JsValue) : Except JsError Unit :=
  match content with
  | .obj fields => match fields.find? fun field => !ALLOWED_CONTENT_KEYS.contains field.1 with
    | some field =>
      .error ⟨"Unexpected key '" ++ field.1 ++ "' found in content for Model Stream"⟩
    | none => .ok ()
  | .undefined | .null => .error ⟨"Cannot convert undefined or null to object"⟩
  | _ => .ok ()

def checkGenesis (env : Environment) (commitData : CommitData) : Except JsError StreamMetadata := do
  let payload := commitData.commit
  if !isSignedCommitData commitData then throw ⟨"Model genesis commit must be signed"⟩
  let header ← headerOf payload
  let controllers := JsObject.get header "controllers"
  assertOneController controllers
  let controller ← controllers.prop "0"
  let modelStreamID ← env.streamIDFromBytes (JsObject.get header "model")
  verifyCommitSignature env commitData controller (some modelStreamID) ⟨MODEL_TYPE_ID, commitData.cid⟩
  assertNoExtraKeys payload.data
  env.assertModelDefinition payload.data
  if modelStreamID ≠ env.MODEL then
    throw ⟨"Invalid 'model' metadata property in Model stream: " ++ modelStreamID.toString⟩
  env.validateModelContent payload.data
  return [("controllers", .arr [controller]), ("model", .streamID modelStreamID)]

def genesisState (env : Environment) (commitData : CommitData) (metadata : StreamMetadata) :
    StreamState :=
  { type := MODEL_TYPE_ID, content := commitData.commit.data, metadata
    signature := .SIGNED, anchorStatus := .NOT_REQUESTED
    log := .singleton (commitDataToLogEntry env commitData .INIT) }

def applyGenesis (env : Environment) (commitData : CommitData) : Except JsError StreamState :=
  (checkGenesis env commitData).map (genesisState env commitData)

def applySigned (_ : CommitData) (state : StreamState) : Outcome :=
  .threw ⟨"Cannot update a finalized Model"⟩ (some state)

def applyCommit (env : Environment) (commitData : CommitData) (state : Option StreamState) :
    Outcome :=
  dispatch (applyGenesis env) applySigned commitData state

def handler (env : Environment) : StreamHandler := ⟨MODEL_TYPE_ID, applyCommit env⟩

theorem lawful (env : Environment) : (handler env).Lawful env := by
  apply StreamHandler.lawful_of_dispatch (applyGenesis env) applySigned
  · exact fun c given => .inl rfl
  · intro c s h
    obtain ⟨metadata, _, rfl⟩ := map_eq_ok.mp h
    exact ⟨rfl, rfl⟩
  · intro c s s' h
    cases h
  · intro c s e left h
    cases h
    exact ⟨s, rfl, rfl, .inl rfl⟩

end Ceramic.ModelHandler
