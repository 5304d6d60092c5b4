import Ceramic.StreamHandlerCommon

/-! The TileDocument handler. A signed commit is checked, then entered in the log,
and only then is its patch applied and the patched content validated. -/
namespace Ceramic.TileDocumentHandler

open StreamUtils SignatureUtils

/-- Only called where the first array has the length 1. -/
def stringArraysEqual (arr1 arr2 : JsValue) : Except JsError Bool := do
  if (← arr1.prop "length") != (← arr2.prop "length") then return false
  return (← arr1.prop "0").strictEq (← arr2.prop "0")

def validateSchema (env : Environment) (content schemaStreamId : JsValue) : Except JsError Unit := do
  let schema ← env.loadTileSchema schemaStreamId
  match env.ajvValidate schema content with
  | .ok () => return ()
  | .error errorMessages => throw ⟨"Validation Error: " ++ errorMessages⟩

/-- What `_applyGenesis` checks before it builds the state. -/
def checkGenesis (env : Environment) (commitData : CommitData) : Except JsError JsObject := do
  let payload := commitData.commit
  if isSignedCommitData commitData then
    let header ← headerOf payload
    verifyCommitSignature env commitData (← (JsObject.get header "controllers").prop "0") none
      ⟨TILE_TYPE_ID, commitData.cid⟩
  else if payload.data.truthy then
    throw ⟨"Genesis commit with contents should always be signed"⟩
  let header ← headerOf payload
  let controllers := JsObject.get header "controllers"
  assertOneController controllers
  let controller ← controllers.prop "0"
  if !validDIDString controller then
    throw ⟨"Attempting to create a TileDocument with an invalid DID string: " ++
      env.stringOf controller⟩
  return header

def genesisState (env : Environment) (commitData : CommitData) (header : JsObject) : StreamState :=
  { type := TILE_TYPE_ID
    content := if commitData.commit.data.truthy then commitData.commit.data else .obj []
    metadata := header
    signature := if isSignedCommitData commitData then .SIGNED else .GENESIS
    anchorStatus := .NOT_REQUESTED
    log := .singleton (commitDataToLogEntry env commitData .INIT) }

def validateMetadataSchema (env : Environment) (content : JsValue) (metadata : StreamMetadata) :
    Except JsError Unit :=
  let schema := JsObject.get metadata "schema"
  if schema.truthy then validateSchema env content schema else .ok ()

def applyGenesis (env : Environment) (commitData : CommitData) : Except JsError StreamState := do
  let state ← (checkGenesis env commitData).map (genesisState env commitData)
  validateMetadataSchema env state.content state.metadata
  return state

/-- The controller whose signature a commit needs: a pending change already counts. -/
def currentController (state : StreamState) : Except JsError JsValue :=
  let pending := match state.next.bind (·.metadata) with
    | some metadata => match (JsObject.get metadata "controllers").prop "0" with
      | .ok controller => controller
      | .error _ => .undefined
    | none => .undefined
  if pending.truthy then .ok pending else (JsObject.get state.metadata "controllers").prop "0"

/-- Everything `_applySigned` checks before its first write to the state. -/
def checkSigned (env : Environment) (commitData : CommitData) (state : StreamState) :
    Except JsError JsObject := do
  let payload := commitData.commit
  assertCommitLinksToState state payload
  let controller ← currentController state
  if !controller.truthy then throw ⟨"Controller is not set"⟩
  let streamId := streamIdFromState state
  verifyCommitSignature env commitData controller none streamId
  let header ← headerOf payload
  let controllers := JsObject.get header "controllers"
  if controllers.truthy then
    if (← controllers.prop "length") != .num 1 then
      throw ⟨"Exactly one controller must be specified"⟩
    if !(← controllers.prop "0").truthy then
      throw ⟨"Controller cannot be updated to an undefined value."⟩
  let forbidControllerChange := JsObject.get state.metadata "forbidControllerChange"
  if forbidControllerChange.truthy && controllers.truthy then
    if !(← stringArraysEqual controllers (JsObject.get state.metadata "controllers")) then
      throw ⟨"Cannot change controllers since 'forbidControllerChange' is set. Tried to change controllers for Stream " ++
        streamId.toString ++ " from " ++ env.jsonStringify (JsObject.get state.metadata "controllers") ++
        " to " ++ env.stringOf controllers⟩
  let forbidInHeader := JsObject.get header "forbidControllerChange"
  if forbidInHeader != .undefined && !forbidInHeader.strictEq forbidControllerChange then
    throw ⟨"Changing 'forbidControllerChange' metadata property is not allowed"⟩
  return header

/-- The first writes of `_applySigned`. -/
def recordSigned (env : Environment) (commitData : CommitData) (state : StreamState) : StreamState :=
  { state with
    signature := .SIGNED, anchorStatus := .NOT_REQUESTED
    log := state.log.push (commitDataToLogEntry env commitData .DATA) }

/-- `state.next?.content`, when it is there to be edited in place. -/
def pendingContent (state : StreamState) : Option JsValue :=
  (state.next.bind (·.content)).filter fun content => !content.isNullish

/-- The patch edits pending content in place and otherwise works on a clone. -/
def patchPending (state : StreamState) (document : JsValue) : StreamState :=
  match pendingContent state with
  | some _ => { state with next := state.next.map fun next => { next with content := some document } }
  | none => state

def applySigned (env : Environment) (commitData : CommitData) (state : StreamState) : Outcome :=
  match checkSigned env commitData state with
  | .error e => .threw e (some state)
  | .ok header =>
    let recorded := recordSigned env commitData state
    let oldContent := (pendingContent state).getD state.content
    let oldMetadata := (state.next.bind (·.metadata)).getD state.metadata
    let patch := env.applyPatch oldContent commitData.commit.data
    let patched := patchPending recorded patch.document
    let newMetadata := JsObject.spread oldMetadata header
    match patch.newDocument with
    | .error e => .threw e (some patched)
    | .ok newContent =>
      match validateMetadataSchema env newContent newMetadata with
      | .error e => .threw e (some patched)
      | .ok () => .applied
          { recorded with next := some { content := some newContent, metadata := some newMetadata } }

def applyCommit (env : Environment) (commitData : CommitData) (state : Option StreamState) :
    Outcome :=
  if env.useRustCeramic then .threw ⟨"TileDocument is not supported in Ceramic v4 mode"⟩ state
  else dispatch (applyGenesis env) (applySigned env) commitData state

def handler (env : Environment) : StreamHandler := ⟨TILE_TYPE_ID, applyCommit env⟩

theorem checkSigned_links {env : Environment} {c : CommitData} {s : StreamState} {header : JsObject}
    (h : checkSigned env c s = .ok header) :
    StreamUtils.assertCommitLinksToState s c.commit = .ok () := by
  unfold checkSigned at h
  cases links : StreamUtils.assertCommitLinksToState s c.commit with
  | ok _ => rfl
  | error e => simp [links, bind, Except.bind] at h

theorem patchPending_log (s : StreamState) (document : JsValue) :
    (patchPending s document).log = s.log ∧ (patchPending s document).type = s.type := by
  unfold patchPending
  split <;> exact ⟨rfl, rfl⟩

/-- An accepted signed commit, or a refused one and how far it came. -/
theorem applySigned_cases (env : Environment) (c : CommitData) (s : StreamState) :
    (∃ e, checkSigned env c s = .error e ∧ applySigned env c s = .threw e (some s)) ∨
    (∃ header e, checkSigned env c s = .ok header ∧ applySigned env c s = .threw e
      (some (patchPending (recordSigned env c s)
        (env.applyPatch ((pendingContent s).getD s.content) c.commit.data).document))) ∨
    (∃ header next, checkSigned env c s = .ok header ∧
      applySigned env c s = .applied { recordSigned env c s with next := some next }) := by
  unfold applySigned
  cases checked : checkSigned env c s with
  | error e => exact .inl ⟨e, rfl, rfl⟩
  | ok header =>
    right
    dsimp only
    split
    · exact .inl ⟨header, _, rfl, rfl⟩
    · split
      · exact .inl ⟨header, _, rfl, rfl⟩
      · exact .inr ⟨header, _, rfl, rfl⟩

/-- Exactly when a signed commit is accepted, and what it makes of the state. -/
theorem applySigned_applied {env : Environment} {c : CommitData} {s s' : StreamState} :
    applySigned env c s = .applied s' ↔ ∃ header newContent,
      checkSigned env c s = .ok header ∧
      (env.applyPatch ((pendingContent s).getD s.content) c.commit.data).newDocument =
        .ok newContent ∧
      validateMetadataSchema env newContent
        (JsObject.spread ((s.next.bind (·.metadata)).getD s.metadata) header) = .ok () ∧
      s' = { recordSigned env c s with
        next := some { content := some newContent
                       metadata := some (JsObject.spread
                         ((s.next.bind (·.metadata)).getD s.metadata) header) } } := by
  unfold applySigned
  cases checked : checkSigned env c s with
  | error e => simp
  | ok header =>
    dsimp only
    cases patched : (env.applyPatch ((pendingContent s).getD s.content) c.commit.data).newDocument with
    | error e => simp
    | ok newContent =>
      simp only [Except.ok.injEq]
      split
      next e invalid => simp_all
      next valid =>
        simp only [Outcome.applied.injEq]
        constructor
        · rintro rfl
          exact ⟨header, newContent, rfl, rfl, valid, rfl⟩
        · rintro ⟨_, _, rfl, rfl, _, rfl⟩
          rfl

theorem lawful (env : Environment) : (handler env).Lawful env := by
  apply StreamHandler.lawful_of_dispatch (applyGenesis env) (applySigned env)
  · intro c given
    simp only [handler, applyCommit]
    split
    · exact .inr ⟨_, rfl⟩
    · exact .inl rfl
  · intro c s h
    obtain ⟨state, built, rest⟩ := bind_eq_ok.mp h
    obtain ⟨_, _, returned⟩ := bind_eq_ok.mp rest
    obtain ⟨header, _, rfl⟩ := map_eq_ok.mp built
    obtain rfl : genesisState env c header = s := by simpa [pure, Except.pure] using returned
    exact ⟨rfl, rfl⟩
  · intro c s s' h
    rcases applySigned_cases env c s with ⟨e, _, threw⟩ | ⟨header, e, _, threw⟩ |
      ⟨header, next, checked, ok⟩
    · rw [threw] at h
      cases h
    · rw [threw] at h
      cases h
    · rw [ok] at h
      cases h
      exact ⟨checkSigned_links checked, rfl, rfl⟩
  · intro c s e left h
    rcases applySigned_cases env c s with ⟨e', _, threw⟩ | ⟨header, e', _, threw⟩ |
      ⟨header, next, _, ok⟩
    · rw [threw] at h
      cases h
      exact ⟨s, rfl, rfl, .inl rfl⟩
    · rw [threw] at h
      cases h
      obtain ⟨sameLog, sameType⟩ := patchPending_log (recordSigned env c s)
        (env.applyPatch ((pendingContent s).getD s.content) c.commit.data).document
      exact ⟨_, rfl, sameType, .inr (by rw [sameLog]; rfl)⟩
    · rw [ok] at h
      cases h

end Ceramic.TileDocumentHandler
