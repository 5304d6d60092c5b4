import Ceramic.StreamHandlerCommon

/-! The ModelInstanceDocument handler. Content is patched in place before the
patched content is validated, and `shouldIndex` is written before that. -/
namespace Ceramic.ModelInstanceDocumentHandler

open StreamUtils SignatureUtils

def MAX_DOCUMENT_SIZE : Nat := 16000000

def isDeterministic : AccountRelation → Bool
  | .set _ | .single => true
  | .list | .none => false

def validateModel (model : Model) : Except JsError Unit :=
  if model.content.version ≠ "1.0" && model.content.interface then
    .error ⟨"ModelInstanceDocument Streams cannot be created on interface Models. Use a different model than " ++
      model.id.toString ++ " to create the ModelInstanceDocument."⟩
  else .ok ()

def validateContentLength (env : Environment) (content : JsValue) : Except JsError Unit :=
  if content.truthy && decide (env.sizeof content > MAX_DOCUMENT_SIZE) then
    .error ⟨"Content has length of " ++ toString (env.sizeof content) ++
      "B which exceeds maximum size of " ++ toString MAX_DOCUMENT_SIZE ++ "B"⟩
  else .ok ()

def validateSchema (env : Environment) (content schema : JsValue) : Except JsError Unit :=
  match env.ajvValidate schema content with
  | .ok () => .ok ()
  | .error errorMessages => .error ⟨"Validation Error: " ++ errorMessages⟩

/-- One field of the relations: a linked document has to use the expected model
or a model that implements it. -/
def validateRelation (env : Environment) (model : Model) (content : JsValue) (fieldName : String) :
    RelationDefinition → Except JsError Unit
  | .account => .ok ()
  | .document expected => do
    let value ← content.prop fieldName
    if value.isNullish then return ()
    let midStreamId ← match env.streamIDFromString value with
      | .ok id => pure id
      | .error e => throw ⟨"Error while parsing relation from field " ++ fieldName ++
          ": Invalid StreamID: Error: " ++ e.message⟩
    if midStreamId.type ≠ MODEL_INSTANCE_TYPE_ID then
      throw ⟨"StreamID " ++ midStreamId.toString ++ " does not refer to a 'MID' stream"⟩
    let foundModel ← env.loadModelOfInstance midStreamId
    match expected with
    | none => return ()
    | some expectedModelStreamId =>
      let foundModelStreamId := foundModel.toString
      if foundModelStreamId = expectedModelStreamId then return ()
      if foundModel.type ≠ MODEL_TYPE_ID then
        throw ⟨"StreamID " ++ foundModelStreamId ++ " does not refer to a 'model' stream"⟩
      let linkedModel ← env.loadModel (.streamID foundModel)
      if linkedModel.content.version ≠ "1.0" &&
          linkedModel.content.implements.contains expectedModelStreamId then
        return ()
      throw ⟨"Relation on field " ++ fieldName ++ " points to Stream " ++ midStreamId.toString ++
        ", which belongs to Model " ++ foundModelStreamId ++ ", but this Stream's Model (" ++
        model.id.toString ++ ") specifies that this relation must be to a Stream in the Model " ++
        expectedModelStreamId⟩

def validateRelationsContent (env : Environment) (model : Model) (content : JsValue) :
    Except JsError Unit :=
  match model.content.relations with
  | none => .ok ()
  | some relations => relations.forM fun relation =>
      validateRelation env model content relation.1 relation.2

/-- `entry.path.slice(1).split('/').shift()`. A first character of two code units is cut in half,
and what is left of it is part of no field's name. -/
def topLevelField (path : String) : Option String :=
  match path.toList with
  | [] => some ""
  | first :: rest =>
    if first.val.toNat < 0x10000 then some (String.ofList (rest.takeWhile (· != '/'))) else none

/-- `payload.data`, where its method `some` is called. -/
def patchEntries : JsValue → Except JsError (List JsValue)
  | .arr entries => .ok entries
  | .bytes b => .ok (b.map fun byte => .num byte.toNat)
  | .undefined => .error ⟨"Cannot read properties of undefined (reading 'some')"⟩
  | .null => .error ⟨"Cannot read properties of null (reading 'some')"⟩
  | _ => .error ⟨"payload.data.some is not a function"⟩

/-- The text of an entry's path. -/
def entryPath (entry : JsValue) : Except JsError String := do
  match ← entry.prop "path" with
  | .str path => return path
  | .undefined => throw ⟨"Cannot read properties of undefined (reading 'slice')"⟩
  | .null => throw ⟨"Cannot read properties of null (reading 'slice')"⟩
  | .arr _ | .bytes _ => throw ⟨"entry.path.slice(...).split is not a function"⟩
  | _ => throw ⟨"entry.path.slice is not a function"⟩

/-- The first entry that writes to the field ends the search. -/
def mutated (lockedField : String) : List JsValue → Except JsError Bool
  | [] => .ok false
  | entry :: entries => do
    if topLevelField (← entryPath entry) = some lockedField then return true
    mutated lockedField entries

def validateLockedField (payload : Commit) (lockedField : String) : Except JsError Unit := do
  if ← mutated lockedField (← patchEntries payload.data) then
    throw ⟨"Immutable field \"" ++ lockedField ++ "\" cannot be updated"⟩

def validateLockedFieldsUpdate (model : Model) (payload : Commit) : Except JsError Unit :=
  if model.content.version ≠ "2.0" then .ok ()
  else match model.content.immutableFields with
    | none => .ok ()
    | some immutableFields => immutableFields.forM (validateLockedField payload)

def validateContent (env : Environment) (model : Model) (content : JsValue) (genesis : Bool)
    (payload : Option Commit) (skipImmutableFieldsCheck : Bool) : Except JsError Unit := do
  if genesis && isDeterministic model.content.accountRelation then
    if content.truthy then
      throw ⟨"Deterministic genesis commits for ModelInstanceDocuments must not have content"⟩
    return ()
  validateContentLength env content
  validateSchema env content model.content.schema
  validateRelationsContent env model content
  match payload with
  | some payload =>
    if !genesis && !skipImmutableFieldsCheck then validateLockedFieldsUpdate model payload
  | none => return ()

def validateHeader (model : Model) (header : JsObject) : Except JsError Unit :=
  let unique := (JsObject.get header "unique").truthy
  match model.content.accountRelation with
  | .single => if unique then
      .error ⟨"ModelInstanceDocuments for models with SINGLE accountRelations must be created deterministically"⟩
    else .ok ()
  | .set _ => if !unique then
      .error ⟨"ModelInstanceDocuments for models with SET accountRelations must be created with a unique field containing data from the fields providing the set semantics"⟩
    else .ok ()
  | .list => if !unique then
      .error ⟨"ModelInstanceDocuments for models with LIST accountRelations must be created with a unique field"⟩
    else .ok ()
  | .none => .ok ()

/-- The values of the set fields, joined by bars; falsy values count as empty. -/
def uniqueText (env : Environment) (content : JsValue) (fields : List String) :
    Except JsError String := do
  let values ← fields.mapM fun field => do
    let value ← content.prop field
    return if value.truthy then env.stringOf value else ""
  return "|".intercalate values

def validateUnique (env : Environment) (model : Model) (metadata : StreamMetadata)
    (content : JsValue) : Except JsError Unit :=
  match model.content.accountRelation with
  | .set fields => do
    let unique := JsObject.get metadata "unique"
    if unique.isNullish then throw ⟨"Missing unique metadata value"⟩
    if content.isNullish then throw ⟨"Missing content"⟩
    if (← uniqueText env content fields) ≠ env.bytesToString unique then
      throw ⟨"Unique content fields value does not match metadata. If you are trying to change the value of these fields, this is causing this error: these fields values are not mutable."⟩
  | _ => .ok ()

/-- What `_applyGenesis` reads from the header: the controller, the model and the
metadata of the stream. -/
def readMetadata (env : Environment) (header : JsObject) :
    Except JsError (JsValue × StreamID × StreamMetadata) := do
  let controller ← (JsObject.get header "controllers").prop "0"
  let modelStreamID ← env.streamIDFromBytes (JsObject.get header "model")
  let ctx := JsObject.get header "context"
  let context ← if ctx.truthy then
      (env.streamIDFromBytes ctx).map fun id => [("context", JsValue.streamID id)]
    else pure []
  return (controller, modelStreamID, [("controllers", .arr [controller]),
    ("model", .streamID modelStreamID), ("unique", JsObject.get header "unique")] ++ context)

def checkMetadata (env : Environment) (header : JsObject) (controller : JsValue)
    (modelStreamID : StreamID) : Except JsError Unit := do
  assertOneController (JsObject.get header "controllers")
  if !validDIDString controller then
    throw ⟨"Attempting to create a ModelInstanceDocument with an invalid DID string: " ++
      env.stringOf controller⟩
  if modelStreamID.type ≠ MODEL_TYPE_ID then
    throw ⟨"Model for ModelInstanceDocument must refer to a StreamID of a Model stream"⟩

def checkGenesis (env : Environment) (commitData : CommitData) : Except JsError StreamMetadata := do
  let payload := commitData.commit
  let header ← headerOf payload
  let (controller, modelStreamID, metadata) ← readMetadata env header
  checkMetadata env header controller modelStreamID
  if isSignedCommitData commitData then
    verifyCommitSignature env commitData controller (some modelStreamID)
      ⟨MODEL_INSTANCE_TYPE_ID, commitData.cid⟩
  else if payload.data.truthy then
    throw ⟨"ModelInstanceDocument genesis commit with content must be signed"⟩
  let modelStream ← env.loadModel (.streamID modelStreamID)
  validateModel modelStream
  validateContent env modelStream payload.data true none false
  validateHeader modelStream header
  return metadata

def genesisState (env : Environment) (commitData : CommitData) (metadata : StreamMetadata) :
    StreamState :=
  { type := MODEL_INSTANCE_TYPE_ID
    content := if commitData.commit.data.truthy then commitData.commit.data else .null
    metadata, signature := .SIGNED, anchorStatus := .NOT_REQUESTED
    log := .singleton (commitDataToLogEntry env commitData .INIT) }

def applyGenesis (env : Environment) (commitData : CommitData) : Except JsError StreamState :=
  (checkGenesis env commitData).map (genesisState env commitData)

/-- The `model` property as the signature check reads it. -/
def modelOf (state : StreamState) : Option StreamID :=
  match JsObject.get state.metadata "model" with
  | .streamID id => some id
  | _ => none

/-- What `_applySigned` checks before its first write; the result is the value of
`shouldIndex` in the header. -/
def checkSigned (env : Environment) (commitData : CommitData) (state : StreamState) :
    Except JsError JsValue := do
  let payload := commitData.commit
  assertCommitLinksToState state payload
  let controller ← (JsObject.get state.metadata "controllers").prop "0"
  let streamId := streamIdFromState state
  verifyCommitSignature env commitData controller (modelOf state) streamId
  match payload.header with
  | none => return .undefined
  | some header =>
    if !(JsObject.delete header "shouldIndex").isEmpty then
      throw ⟨"Updating metadata for ModelInstanceDocument Streams is not allowed.  Tried to change metadata for Stream " ++
        streamId.toString ++ " from " ++ env.jsonStringify (.obj state.metadata) ++ " to " ++
        env.jsonStringify (.obj header) ++ "`"⟩
    return JsObject.get header "shouldIndex"

/-- The first write of `_applySigned`. -/
def writeShouldIndex (state : StreamState) (shouldIndex : JsValue) : StreamState :=
  if shouldIndex.isNullish then state
  else { state with metadata := JsObject.set state.metadata "shouldIndex" shouldIndex }

/-- `state.content ?? {}`. -/
def oldContent (state : StreamState) : JsValue :=
  if state.content.isNullish then .obj [] else state.content

/-- The patch edits the state's own content, unless that is `null`. -/
def patchContent (state : StreamState) (document : JsValue) : StreamState :=
  if state.content.isNullish then state else { state with content := document }

def validateSigned (env : Environment) (payload : Commit) (state : StreamState)
    (newContent : JsValue) : Except JsError Unit := do
  let modelStream ← env.loadModel (JsObject.get state.metadata "model")
  let isDetType := isDeterministic modelStream.content.accountRelation
  let isFirstDataCommit := !state.log.toList.any fun c => c.type = .DATA
  validateContent env modelStream newContent false (some payload) (isDetType && isFirstDataCommit)
  validateUnique env modelStream state.metadata newContent

def applySigned (env : Environment) (commitData : CommitData) (state : StreamState) : Outcome :=
  match checkSigned env commitData state with
  | .error e => .threw e (some state)
  | .ok shouldIndex =>
    let indexed := writeShouldIndex state shouldIndex
    let patch := env.applyPatch (oldContent state) commitData.commit.data
    let patched := patchContent indexed patch.document
    match patch.newDocument with
    | .error e => .threw e (some patched)
    | .ok newContent =>
      match validateSigned env commitData.commit indexed newContent with
      | .error e => .threw e (some patched)
      | .ok () => .applied { indexed with
          signature := .SIGNED, anchorStatus := .NOT_REQUESTED, content := newContent
          log := state.log.push (commitDataToLogEntry env commitData .DATA) }

def applyCommit (env : Environment) (commitData : CommitData) (state : Option StreamState) :
    Outcome :=
  dispatch (applyGenesis env) (applySigned env) commitData state

def handler (env : Environment) : StreamHandler := ⟨MODEL_INSTANCE_TYPE_ID, applyCommit env⟩

theorem checkSigned_links {env : Environment} {c : CommitData} {s : StreamState} {index : JsValue}
    (h : checkSigned env c s = .ok index) : assertCommitLinksToState s c.commit = .ok () := by
  obtain ⟨_, links, _⟩ := bind_eq_ok.mp h
  exact links

theorem writeShouldIndex_log (s : StreamState) (index : JsValue) :
    (writeShouldIndex s index).log = s.log ∧ (writeShouldIndex s index).type = s.type := by
  unfold writeShouldIndex
  split <;> exact ⟨rfl, rfl⟩

theorem patchContent_log (s : StreamState) (document : JsValue) :
    (patchContent s document).log = s.log ∧ (patchContent s document).type = s.type := by
  unfold patchContent
  split <;> exact ⟨rfl, rfl⟩

/-- What a refused commit leaves once its own checks have passed. -/
def leftover (env : Environment) (c : CommitData) (s : StreamState) (index : JsValue) : StreamState :=
  patchContent (writeShouldIndex s index) (env.applyPatch (oldContent s) c.commit.data).document

/-- An accepted signed commit, or a refused one and how far it came. -/
theorem applySigned_cases (env : Environment) (c : CommitData) (s : StreamState) :
    (∃ e, checkSigned env c s = .error e ∧ applySigned env c s = .threw e (some s)) ∨
    (∃ index e, checkSigned env c s = .ok index ∧
      applySigned env c s = .threw e (some (leftover env c s index))) ∨
    (∃ index newContent, checkSigned env c s = .ok index ∧
      applySigned env c s = .applied { writeShouldIndex s index with
        signature := .SIGNED, anchorStatus := .NOT_REQUESTED, content := newContent
        log := s.log.push (commitDataToLogEntry env c .DATA) }) := by
  unfold applySigned
  cases checked : checkSigned env c s with
  | error e => exact .inl ⟨e, rfl, rfl⟩
  | ok index =>
    right
    dsimp only
    split
    · exact .inl ⟨index, _, rfl, rfl⟩
    · split
      · exact .inl ⟨index, _, rfl, rfl⟩
      · exact .inr ⟨index, _, rfl, rfl⟩

/-- Exactly when a signed commit is accepted, and what it makes of the state. -/
theorem applySigned_applied {env : Environment} {c : CommitData} {s s' : StreamState} :
    applySigned env c s = .applied s' ↔ ∃ index newContent,
      checkSigned env c s = .ok index ∧
      (env.applyPatch (oldContent s) c.commit.data).newDocument = .ok newContent ∧
      validateSigned env c.commit (writeShouldIndex s index) newContent = .ok () ∧
      s' = { writeShouldIndex s index with
        signature := .SIGNED, anchorStatus := .NOT_REQUESTED, content := newContent
        log := s.log.push (commitDataToLogEntry env c .DATA) } := by
  unfold applySigned
  cases checked : checkSigned env c s with
  | error e => simp
  | ok index =>
    dsimp only
    cases patched : (env.applyPatch (oldContent s) c.commit.data).newDocument with
    | error e => simp
    | ok newContent =>
      simp only [Except.ok.injEq]
      split
      next e invalid => simp_all
      next valid =>
        simp only [Outcome.applied.injEq]
        constructor
        · rintro rfl
          exact ⟨index, newContent, rfl, rfl, valid, rfl⟩
        · rintro ⟨_, _, rfl, rfl, _, rfl⟩
          rfl

theorem lawful (env : Environment) : (handler env).Lawful env := by
  apply StreamHandler.lawful_of_dispatch (applyGenesis env) (applySigned env)
  · exact fun c given => .inl rfl
  · intro c s h
    obtain ⟨metadata, _, rfl⟩ := map_eq_ok.mp h
    exact ⟨rfl, rfl⟩
  · intro c s s' h
    rcases applySigned_cases env c s with ⟨e, _, threw⟩ | ⟨index, e, _, threw⟩ |
      ⟨index, newContent, checked, ok⟩
    · rw [threw] at h
      cases h
    · rw [threw] at h
      cases h
    · rw [ok] at h
      cases h
      exact ⟨checkSigned_links checked, (writeShouldIndex_log s index).2, rfl⟩
  · intro c s e left h
    rcases applySigned_cases env c s with ⟨e', _, threw⟩ | ⟨index, e', _, threw⟩ |
      ⟨index, newContent, _, ok⟩
    · rw [threw] at h
      cases h
      exact ⟨s, rfl, rfl, .inl rfl⟩
    · rw [threw] at h
      cases h
      refine ⟨_, rfl, ?_, .inl ?_⟩
      · exact (patchContent_log _ _).2.trans (writeShouldIndex_log s index).2
      · exact (patchContent_log _ _).1.trans (writeShouldIndex_log s index).1
    · rw [ok] at h
      cases h

end Ceramic.ModelInstanceDocumentHandler
