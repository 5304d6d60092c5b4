import Ceramic.StreamHandlerCommon

/-! The Caip10Link handler. Its log entries carry no timestamp until an anchor
commit is applied, and its proofs have to follow one another in time. -/
namespace Ceramic.Caip10LinkHandler

open StreamUtils

/-- `accountId.split(':')` on characters. -/
def splitColon (accountId : List Char) : List (List Char) := accountId.splitOn ':'

/-- `address@chainId`, unless the account is already in that form. -/
def toLegacyAccountId (accountId : String) : String :=
  if accountId.toList.contains '@' then accountId
  else
    let accountSplit := splitColon accountId.toList
    let address := accountSplit.getLastD []
    let chainId := [':'].intercalate accountSplit.dropLast
    String.ofList (address ++ '@' :: chainId)

def checkGenesis (commitData : CommitData) : Except JsError StreamMetadata := do
  let commit := commitData.commit
  if commit.data.truthy then throw ⟨"Caip10Link genesis commit cannot have data"⟩
  let metadata ← headerOf commit
  let controllers := JsObject.get metadata "controllers"
  assertOneController controllers
  return metadata

def genesisState (commitData : CommitData) (metadata : StreamMetadata) : StreamState :=
  { type := CAIP10_LINK_TYPE_ID, content := .null
    next := some { content := some .null }
    metadata, signature := .GENESIS, anchorStatus := .NOT_REQUESTED
    log := .singleton { cid := commitData.cid, type := .INIT } }

def applyGenesis (commitData : CommitData) : Except JsError StreamState :=
  (checkGenesis commitData).map (genesisState commitData)

/-- The operator `<`: a missing timestamp compares false. -/
def before (timestamp other : Option Rat) : Bool :=
  match timestamp, other with
  | some timestamp, some other => decide (timestamp < other)
  | _, _ => false

/-- `lastUpdate` in the metadata. -/
def lastUpdateOf (metadata : StreamMetadata) : Option Rat :=
  match JsObject.get metadata "lastUpdate" with
  | .num lastUpdate => some lastUpdate
  | _ => none

/-- Whether a proof is older than what the stream last accepted. -/
def proofTooOld (proof : LinkProof) (state : StreamState) : Except JsError Bool :=
  if state.signature = .GENESIS then .ok false
  else if state.anchorStatus = .ANCHORED then
    .ok (before proof.timestamp ((anchorTimestampFromState state).toNumber.map fun seconds => (seconds : Rat)))
  else match state.next.bind (·.metadata) with
    | some metadata => .ok (before proof.timestamp (lastUpdateOf metadata))
    | none => .error ⟨"Cannot read properties of undefined (reading 'metadata')"⟩

def checkProof (env : Environment) (commitData : CommitData) (state : StreamState) :
    Except JsError LinkProof := do
  assertCommitLinksToState state commitData.commit
  let validProof ← match env.validateLink commitData.commit.data with
    | .ok (some proof) => pure proof
    | .ok none => throw ⟨"Invalid proof for signed commit"⟩
    | .error e => throw ⟨"Error while validating link proof for caip10-link signed commit: " ++ e.message⟩
  if ← proofTooOld validProof state then throw ⟨"Invalid commit, proof timestamp too old"⟩
  let legacyAccountCaip10 := toLegacyAccountId validProof.account
  let legacyControllerCaip10 ← match ← (JsObject.get state.metadata "controllers").prop "0" with
    | .str controller => pure controller
    | _ => throw ⟨"legacyControllerCaip10.includes is not a function"⟩
  if !legacyControllerCaip10.toList.contains '@' then
    throw ⟨"Controller is not following the legacy CAIP10 format. Unexpected error."⟩
  if env.toLowerCase legacyAccountCaip10 ≠ env.toLowerCase legacyControllerCaip10 then
    throw ⟨"Address '" ++ env.toLowerCase legacyAccountCaip10 ++
      "' used to sign update to Caip10Link doesn't match stream controller '" ++
      env.toLowerCase legacyControllerCaip10 ++ "'"⟩
  return validProof

def signedState (commitData : CommitData) (state : StreamState) (validProof : LinkProof) :
    StreamState :=
  { state with
    log := state.log.push { cid := commitData.cid, type := .DATA }
    signature := .SIGNED, anchorStatus := .NOT_REQUESTED
    next := some {
      content := some validProof.did
      metadata := some (JsObject.set state.metadata "lastUpdate" ((validProof.timestamp.map .num).getD .undefined)) } }

def applySigned (env : Environment) (commitData : CommitData) (state : StreamState) : Outcome :=
  .ofExcept (some state) ((checkProof env commitData state).map (signedState commitData state))

def applyCommit (env : Environment) (commitData : CommitData) (state : Option StreamState) :
    Outcome :=
  if env.useRustCeramic then .threw ⟨"Caip10Link is not supported in Ceramic v4 mode"⟩ state
  else dispatch applyGenesis (applySigned env) commitData state

def handler (env : Environment) : StreamHandler := ⟨CAIP10_LINK_TYPE_ID, applyCommit env⟩

theorem checkProof_links {env : Environment} {c : CommitData} {s : StreamState} {proof : LinkProof}
    (h : checkProof env c s = .ok proof) : assertCommitLinksToState s c.commit = .ok () := by
  obtain ⟨_, links, _⟩ := bind_eq_ok.mp h
  exact links

theorem lawful (env : Environment) : (handler env).Lawful env := by
  apply StreamHandler.lawful_of_dispatch applyGenesis (applySigned env)
  · intro c given
    simp only [handler, applyCommit]
    split
    · exact .inr ⟨_, rfl⟩
    · exact .inl rfl
  · intro c s h
    obtain ⟨metadata, _, rfl⟩ := map_eq_ok.mp h
    exact ⟨rfl, rfl⟩
  · intro c s s' h
    obtain ⟨proof, checked, rfl⟩ := map_eq_ok.mp (outcome_of_except h)
    exact ⟨checkProof_links checked, rfl, rfl⟩
  · intro c s e left h
    exact ⟨s, left_of_except h, rfl, .inl rfl⟩

end Ceramic.Caip10LinkHandler
