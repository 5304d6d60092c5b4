import Ceramic.IpldRecordsCache

/-! How the dispatcher stores commits and retrieves records, as far as its cache is concerned. A
client's blocks are put in the cache when their CAR file is made, before it is imported, under
the CIDs that the client gives them. -/
namespace Ceramic

structure JWSSignature where
  protectedHeader : String
  signature : String
  deriving DecidableEq, Repr

/-- A JWS as a client sends it. -/
structure ClientJWS where
  payload : String
  signatures : List JWSSignature
  link : Option Cid := none
  deriving DecidableEq, Repr

def ClientJWS.toJs (jws : ClientJWS) : JsValue :=
  .obj ([("payload", .str jws.payload),
    ("signatures", .arr (jws.signatures.map fun signature =>
      .obj [("protected", .str signature.protectedHeader), ("signature", .str signature.signature)]))] ++
    (jws.link.map fun link => ("link", .cid link)).toList)

/-- `commit && commit.jws !== undefined`. -/
def isSignedCommitContainer (commit : JsValue) : Bool :=
  commit.truthy &&
    match commit.prop "jws" with
    | .ok jws => jws ≠ .undefined
    | .error _ => false

/-- What is given to be stored. -/
inductive CeramicCommit where
  | container (jws : ClientJWS) (linkedBlock : List UInt8) (cacaoBlock : Option (List UInt8))
  | other (commit : JsValue) (single : isSignedCommitContainer commit = false)

def IPFS_MAX_COMMIT_SIZE : Nat := 256000

def IPFS_GET_RETRIES : Nat := 3

def restrictBlockSize (block : List UInt8) (cid : Cid) : Except JsError Unit :=
  if IPFS_MAX_COMMIT_SIZE < block.length then
    .error ⟨cid.toString ++ " commit size " ++ toString block.length ++
      " exceeds the maximum block size of " ++ toString IPFS_MAX_COMMIT_SIZE⟩
  else .ok ()

/-- Blocks as they were put, the last one first. -/
structure CAR where
  roots : List Cid := []
  blocks : List (Cid × List UInt8) := []

/-- `text.replace(pattern, '')`. -/
def replaceFirst (pattern : List Char) : List Char → List Char
  | [] => []
  | c :: text =>
    if pattern.isPrefixOf (c :: text) then (c :: text).drop pattern.length
    else c :: replaceFirst pattern text

/-- What the IPFS node throws, and whether it is one of the errors for a timeout. -/
structure IpfsError where
  message : String
  timeout : Bool := false

/-- What the IPFS node answers: only bytes that hash to the CID that is asked for. -/
structure IpfsAnswer (ipld : Ipld) where
  resolve : Except IpfsError Cid
  get : (cid : Cid) → Except IpfsError { bytes : List UInt8 // ipld.hashes cid bytes = true }

namespace ContentDispatcher

variable (ipld : Ipld)

def capabilityCid (jws : ClientJWS) : Except JsError Cid := do
  match jws.signatures with
  | [] => throw ⟨"Cannot read properties of undefined (reading 'protected')"⟩
  | signature :: _ =>
    let decodedProtectedHeader ← ipld.base64urlToJSON signature.protectedHeader
    match ← decodedProtectedHeader.prop "cap" with
    | .str cap => ipld.parse (String.ofList (replaceFirst "ipfs://".toList cap.toList))
    | cap => do
      let _ ← cap.prop "replace"
      throw ⟨"decodedProtectedHeader.cap.replace is not a function"⟩

/-- `carFile.get(cid)`. -/
def getRecord (car : CAR) (cid : Cid) : Except JsError JsValue :=
  match car.blocks.find? fun block => block.1 = cid with
  | some (_, bytes) => ipld.decode cid.code bytes
  | none => .ok .undefined

/-- A step of `_createCAR`: one more block in the CAR file and in the cache, or an error. -/
abbrev CarStep := CAR × IPLDRecordsCache → Except JsError (CAR × IPLDRecordsCache)

def cacheBlock (cid : Cid) (block : List UInt8) : CarStep := fun (car, cache) => do
  let car := { car with blocks := (cid, block) :: car.blocks }
  restrictBlockSize block cid
  let record ← getRecord ipld car cid
  return (car, cache.set cid { record, block })

def cacheCacao (jws : ClientJWS) : Option (List UInt8) → CarStep
  | none => fun opened => .ok opened
  | some cacaoBlock => fun opened => do
    let capCID ← capabilityCid ipld jws
    cacheBlock ipld capCID cacaoBlock opened

def cacheLinked (jws : ClientJWS) (linkedBlock : List UInt8) : CarStep := fun opened =>
  match jws.link with
  | some payloadCID => cacheBlock ipld payloadCID linkedBlock opened
  | none => .error ⟨"Cannot read properties of undefined (reading 'toString')"⟩

/-- `carFile.put(value, { codec, isRoot: true })`, and what is cached for it. -/
def cacheRoot (codec : Nat) (value : JsValue) : CarStep := fun (car, cache) => do
  let cidBlock ← ipld.encode codec value
  let cid := ipld.cidOf codec cidBlock
  cacheBlock ipld cid cidBlock ({ car with roots := car.roots ++ [cid] }, cache)

/-- What the steps have cached stays when a later one throws. -/
def runSteps : List CarStep → CAR × IPLDRecordsCache → IPLDRecordsCache × Except JsError CAR
  | [], (car, cache) => (cache, .ok car)
  | step :: steps, opened =>
    match step opened with
    | .ok next => runSteps steps next
    | .error e => (opened.2, .error e)

def _createCAR (cache : IPLDRecordsCache) : CeramicCommit → IPLDRecordsCache × Except JsError CAR
  | .container jws linkedBlock cacaoBlock =>
    runSteps [cacheCacao ipld jws cacaoBlock, cacheLinked ipld jws linkedBlock,
      cacheRoot ipld dagJose jws.toJs] ({}, cache)
  | .other commit _ => runSteps [cacheRoot ipld dagCbor commit] ({}, cache)

def importCAR (useRustCeramic : Bool) (streamId : StreamID) (answer : Except JsError Unit) :
    Except JsError Unit :=
  let store := if useRustCeramic && (streamId.type == 2 || streamId.type == 3) then "Recon" else "IPFS"
  answer.mapError fun e =>
    ⟨"Error while storing car to " ++ store ++ " for stream " ++ streamId.toString ++ ": Error: " ++ e.message⟩

/-- `car.roots[0]`. -/
def firstRoot (car : CAR) : Except JsError Cid :=
  match car.roots with
  | root :: _ => .ok root
  | [] => .error ⟨"Cannot read properties of undefined"⟩

def storeInitEvent (useRustCeramic : Bool) (cache : IPLDRecordsCache) (data : CeramicCommit)
    (streamType : Nat) (answer : Except JsError Unit) : IPLDRecordsCache × Except JsError Cid :=
  let (cache, created) := _createCAR ipld cache data
  (cache, do
    let root ← firstRoot (← created)
    importCAR useRustCeramic ⟨streamType, root⟩ answer
    return root)

def storeEvent (useRustCeramic : Bool) (cache : IPLDRecordsCache) (data : CeramicCommit)
    (streamId : StreamID) (answer : Except JsError Unit) : IPLDRecordsCache × Except JsError Cid :=
  let (cache, created) := _createCAR ipld cache data
  (cache, do
    let car ← created
    importCAR useRustCeramic streamId answer
    firstRoot car)

/-- The IPFS node stores the record under the CID of its encoding. -/
def storeRecord (cache : IPLDRecordsCache) (record : JsValue) (answer : Except JsError Unit) :
    Except JsError (IPLDRecordsCache × Cid) := do
  let block ← ipld.encode dagCbor record
  answer
  let cid := ipld.cidOf dagCbor block
  return (← IPLDRecordsCache.setRecord ipld cache cid record, cid)

/-- The answer of a query is kept by CID and path. -/
def resolutionPath (cid : Cid) (path : String) : String := cid.toString ++ path

def attempt (cid : Cid) (path : String) (answer : IpfsAnswer ipld) : Except IpfsError CacheEntry := do
  let blockCid ← if path = "" then pure cid else answer.resolve
  let block ← answer.get blockCid
  (restrictBlockSize block.val blockCid).mapError fun e => ⟨e.message, false⟩
  let record ← (ipld.decode blockCid.code block.val).mapError fun e => ⟨e.message, false⟩
  return { record, block := block.val }

/-- The loop of `getFromIpfs`, with an answer for each number of retries that are left. -/
def getWithRetries (cid : Cid) (path : String) (answers : Nat → IpfsAnswer ipld) :
    (retries : Nat) → Except JsError CacheEntry
  | 0 => (attempt ipld cid path (answers 0)).mapError fun err =>
    ⟨if err.timeout then
      "Timeout error while loading CID " ++ cid.toString ++ " from IPFS: Error: " ++ err.message
    else err.message⟩
  | retries + 1 =>
    match attempt ipld cid path (answers (retries + 1)) with
    | .ok entry => .ok entry
    | .error err =>
      if err.timeout then getWithRetries cid path answers retries else .error ⟨err.message⟩

end ContentDispatcher

/-- The dispatcher's cache, the calls of `getFromIpfs` that wait for the IPFS node, and the values
that calls of `retrieveCommit` and of `retrieveFromIPFS` have returned for a CID. -/
structure ContentDispatcher where
  ipldCache : IPLDRecordsCache
  loading : List (Cid × String) := []
  returned : List (Cid × JsValue) := []

inductive DispatcherAction (ipld : Ipld) where
  | storeInitEvent (data : CeramicCommit) (streamType : Nat) (answer : Except JsError Unit)
  | storeEvent (data : CeramicCommit) (streamId : StreamID) (answer : Except JsError Unit)
  | storeRecord (record : JsValue) (answer : Except JsError Unit)
  | importCAR (streamId : StreamID) (answer : Except JsError Unit)
  | getIpfsBlock (cid : Cid) (answer : IpfsAnswer ipld)
  /-- `retrieveCommit(cid)`, or `retrieveFromIPFS(cid, path)`. -/
  | retrieve (cid : Cid) (path : String)
  | loaded (index : Nat) (answers : Nat → IpfsAnswer ipld)

namespace ContentDispatcher

variable (ipld : Ipld) (useRustCeramic : Bool)

def start (capacity : Nat) : ContentDispatcher := { ipldCache := .empty String CacheEntry capacity }

/-- `getFromIpfs` returns a record. -/
def finish (dispatcher : ContentDispatcher) (cid : Cid) (path : String) (record : JsValue) :
    ContentDispatcher :=
  if path = "" then { dispatcher with returned := dispatcher.returned ++ [(cid, record)] } else dispatcher

/-- `getFromIpfs` until it waits for the IPFS node. -/
def retrieve (dispatcher : ContentDispatcher) (cid : Cid) (path : String) : ContentDispatcher :=
  let query := resolutionPath cid path
  match dispatcher.ipldCache.getWithResolutionPath query with
  | some fromCache =>
    { dispatcher with ipldCache := dispatcher.ipldCache.touch query }.finish cid path fromCache.record
  | none => { dispatcher with loading := dispatcher.loading ++ [(cid, path)] }

/-- `getFromIpfs` from there on. -/
def loaded (dispatcher : ContentDispatcher) (index : Nat) (cid : Cid) (path : String)
    (answers : Nat → IpfsAnswer ipld) : ContentDispatcher :=
  let waiting := { dispatcher with loading := dispatcher.loading.eraseIdx index }
  match getWithRetries ipld cid path answers (IPFS_GET_RETRIES - 1) with
  | .ok entry =>
    { waiting with
      ipldCache := waiting.ipldCache.setWithResolutionPath (resolutionPath cid path) entry }.finish
        cid path entry.record
  | .error _ => waiting

def getIpfsBlock (dispatcher : ContentDispatcher) (cid : Cid) (answer : IpfsAnswer ipld) :
    ContentDispatcher :=
  match dispatcher.ipldCache.find? cid.toString, answer.get cid with
  | some _, _ => { dispatcher with ipldCache := dispatcher.ipldCache.touch cid.toString }
  | none, .error _ => dispatcher
  | none, .ok bytes =>
    match IPLDRecordsCache.setBlock ipld dispatcher.ipldCache cid bytes.val with
    | .ok ipldCache => { dispatcher with ipldCache }
    | .error _ => dispatcher

def step (dispatcher : ContentDispatcher) : DispatcherAction ipld → Option ContentDispatcher
  | .storeInitEvent data streamType answer => some { dispatcher with
      ipldCache := (storeInitEvent ipld useRustCeramic dispatcher.ipldCache data streamType answer).1 }
  | .storeEvent data streamId answer => some { dispatcher with
      ipldCache := (storeEvent ipld useRustCeramic dispatcher.ipldCache data streamId answer).1 }
  | .storeRecord record answer =>
    match storeRecord ipld dispatcher.ipldCache record answer with
    | .ok (ipldCache, _) => some { dispatcher with ipldCache }
    | .error _ => some dispatcher
  | .importCAR _ _ => some dispatcher
  | .getIpfsBlock cid answer => some (dispatcher.getIpfsBlock ipld cid answer)
  | .retrieve cid path => some (dispatcher.retrieve cid path)
  | .loaded index answers => do
    let (cid, path) ← dispatcher.loading[index]?
    return dispatcher.loaded ipld index cid path answers

end ContentDispatcher

end Ceramic
