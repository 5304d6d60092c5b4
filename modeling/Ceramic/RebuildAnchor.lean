import Ceramic.AnchorRequestStore
import Ceramic.JsonPatch
import Ceramic.MerkleAnchor
import Ceramic.MerkleShape
import Ceramic.StateSerialization
import Ceramic.SyncWorker

/-! The worker that rebuilds the anchor commits of a tree: it stores the proof, reads from the metadata of
the tree which streams were anchored, and for each that has a model to sync it makes the anchor commit again.
The streams are tasks that run at the same time. -/
namespace Ceramic

namespace MerkleTreeLoader

def METADATA_PATH : String := "2"

def getMetadata (stored : IpfsRecords) (rootCid : Cid) : Except JsError JsValue :=
  Ipfs.retrieve stored rootCid METADATA_PATH

/-- `metadata.numEntries`, where it is a count. -/
def numEntries (metadata : JsValue) : Except JsError Nat :=
  match metadata.fieldOf "numEntries" with
  | .num count => if count.den = 1 ∧ 0 ≤ count.num then .ok count.num.toNat else .error ⟨"Invalid array length"⟩
  | _ => .error ⟨"Maximum call stack size exceeded"⟩

/-- The property of the parent's record that leads to the leaf. -/
def leafOf (parent : JsValue) (path : List PathDirection) : JsValue :=
  match path.getLast? with
  | some direction => (Ipfs.ownProperty parent (toString direction.number)).getD .undefined
  | none => .undefined

def getLeafData (stored : IpfsRecords) (rootCid : Cid) (metadata : JsValue) (index : Nat) :
    Except JsError (JsValue × List PathDirection) := do
  let leavesCount ← numEntries metadata
  let path ← MerkleTree.pathByIndex index leavesCount
  let parent ← Ipfs.retrieve stored rootCid (pathString path.dropLast)
  return (leafOf parent path, path)

end MerkleTreeLoader

namespace RebuildAnchorWorker

structure HandledCommit where
  streamId : StreamID
  cid : Cid
  model : StreamID
  deriving DecidableEq, Repr

/-- What the tasks of a job have in common. -/
structure RebuiltTree where
  proof : Cid
  root : Cid
  metadata : JsValue
  streamIds : List JsValue

/-- Where the task of a stream is between two awaits. -/
inductive Stage where
  | waiting
  | retrieved (streamId : StreamID) (signedCommit : JsValue)
  | indexed (streamId model : StreamID)
  | located (streamId model : StreamID) (anchorCommit : JsValue)
  | stored (streamId model : StreamID) (anchorCommitCid : Cid)
  | settled

structure Run where
  records : IpfsRecords
  stage : Nat → Stage
  /-- The calls of `handleCommit`, each with the position of the stream whose task made it. -/
  calls : List (Nat × HandledCommit)

/-- The CID a commit is retrieved by. -/
def commitCid : JsValue → Except JsError Cid
  | .cid cid => .ok cid
  | .str text => Cid.parse text
  | _ => .error ⟨"cid.toString is not a function"⟩

/-- Behind a signed commit the payload is retrieved. -/
def genesisOf (stored : IpfsRecords) (signedCommit : JsValue) : Except JsError JsValue :=
  if (signedCommit.fieldOf "link").truthy then do
    let link ← commitCid (signedCommit.fieldOf "link")
    Ipfs.load stored link
  else .ok signedCommit

def modelOf (genesisCommit : JsValue) : Except JsError (Option StreamID) :=
  match (genesisCommit.fieldOf "header").fieldOf "model" with
  | .bytes bytes => (StreamID.fromBytes bytes).map some
  | model => if model.truthy then .error ⟨"Invalid StreamID bytes"⟩ else .ok none

def getModelForStream (stored : IpfsRecords) (streamId : StreamID) : Except JsError (Option StreamID) := do
  let signedCommit ← Ipfs.load stored streamId.cid
  let genesisCommit ← genesisOf stored signedCommit
  modelOf genesisCommit

/-- The text of a model is only made where there is one to compare it with. -/
def shouldIndex (models : List String) : Option StreamID → Except JsError Bool
  | none => .ok false
  | some model => if models = [] then .ok false else do
    let text ← model.toText
    return models.contains text

def streamIdOf : JsValue → Except JsError StreamID
  | .str text => readStreamID text
  | _ => .error ⟨"Malformed StreamID string"⟩

def anchorCommit (id : Cid) (prev : JsValue) (proof : Cid) (path : List PathDirection) : JsValue :=
  .obj [("id", .cid id), ("prev", prev), ("proof", .cid proof), ("path", .str (pathString path))]

/-- What becomes of a task once its stream's model is known. -/
def indexedStage (models : List String) (streamId : StreamID) (model : Option StreamID) : Except JsError Stage := do
  let index ← shouldIndex models model
  return match model with
    | some model => if index then .indexed streamId model else .settled
    | none => .settled

variable (put : JsValue → Except JsError Cid) (job : RebuildAnchorJobData) (tree : RebuiltTree)

/-- A task goes on to its next await. -/
def advance (index : Nat) (stream : JsValue) (records : IpfsRecords) : Stage → Except JsError (Stage × IpfsRecords)
  | .waiting => do
    let streamId ← streamIdOf stream
    let signedCommit ← Ipfs.load records streamId.cid
    return (.retrieved streamId signedCommit, records)
  | .retrieved streamId signedCommit => do
    let genesisCommit ← genesisOf records signedCommit
    let model ← modelOf genesisCommit
    let stage ← indexedStage job.models streamId model
    return (stage, records)
  | .indexed streamId model => do
    let (cid, path) ← MerkleTreeLoader.getLeafData records tree.root tree.metadata index
    return (.located streamId model (anchorCommit streamId.cid cid tree.proof path), records)
  | .located streamId model event => do
    let (cid, records) ← Ipfs.storeRecord put event records
    return (.stored streamId model cid, records)
  | .stored _ _ _ | .settled => .ok (.settled, records)

/-- What a task has handled when it goes on. -/
def handled (index : Nat) : Stage → List (Nat × HandledCommit)
  | .stored streamId model cid => [(index, ⟨streamId, cid, model⟩)]
  | _ => []

/-- The task at an index goes on; what it throws is logged, and the task is over. -/
def step (run : Run) (index : Nat) : Option Run :=
  match tree.streamIds[index]? with
  | none => none
  | some stream =>
    match run.stage index with
    | .settled => none
    | stage => match advance put job tree index stream run.records stage with
      | .ok (next, records) => some
        { records, stage := Function.update run.stage index next, calls := run.calls ++ handled index stage }
      | .error _ => some { run with stage := Function.update run.stage index .settled }

def listOf : JsValue → Except JsError (List JsValue)
  | .arr items => .ok items
  | _ => .error ⟨"metadata.streamIds.map is not a function"⟩

/-- Everything before the tasks. Where it fails or finds no metadata, there are none. -/
def start (records : IpfsRecords) : Except JsError (Option (RebuiltTree × IpfsRecords)) := do
  let txHash ← Cid.parse job.txHash
  let root ← Cid.parse job.root
  let proof : AnchorProof := { chainId := job.chainId, txHash, root, txType := job.txType }
  let (proofCid, records) ← Ipfs.storeRecord put proof.value records
  let metadata ← MerkleTreeLoader.getMetadata records root
  if !metadata.truthy then return none
  let streamIds ← listOf (metadata.fieldOf "streamIds")
  return some (⟨proofCid, root, metadata, streamIds⟩, records)

/-- The tasks of a job that was started, none of which has begun. -/
def Run.initial (records : IpfsRecords) : Run := ⟨records, fun _ => .waiting, []⟩

/-- What a job may come to: the records there are then, and the calls it has made. -/
inductive Handles (records : IpfsRecords) : IpfsRecords → List (Nat × HandledCommit) → Prop where
  | unstarted (none : ∀ tree stored, start put job records ≠ .ok (some (tree, stored))) : Handles records records []
  | finished {tree : RebuiltTree} {stored : IpfsRecords} {run : Run}
      (started : start put job records = .ok (some (tree, stored)))
      (reaches : Transition.Reaches (step put job tree) (fun _ _ => True) (.initial stored) run)
      (finished : ∀ index < tree.streamIds.length, run.stage index = .settled) : Handles records run.records run.calls

end RebuildAnchorWorker

end Ceramic
