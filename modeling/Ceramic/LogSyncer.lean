import Ceramic.StreamUtils

/-! Fetching a stream's log. Commits are found by following `prev` from a tip until
a known commit or a genesis is reached. The store is content addressed, so `prev`
always leads to a commit of smaller height and the walk ends. -/
namespace Ceramic

inductive StoredCommit where
  | signed (envelope : DagJWS)
  | plain (commit : Commit)
  deriving DecidableEq, Repr

/-- The dispatcher's view of the network, with the chain against which anchor
proofs are validated. -/
structure Dispatcher where
  retrieveCommit : Cid → Except JsError (Option StoredCommit)
  retrieveProof : Cid → Except JsError AnchorProof
  getCacaoCidFromCommit : DagJWS → Except JsError (Option Cid)
  retrieveCacao : Cid → Except JsError Cacao
  /-- The links of the Merkle node at a path below a proof. -/
  retrieveMerkleNode : Cid → String → Except JsError (String → Option Cid)
  validateChainInclusion : AnchorProof → Except JsError Nat

namespace Utils

/-- A signed block read as a payload has none of a payload's properties. -/
def asPayload : StoredCommit → Commit
  | .plain commit => commit
  | .signed _ => {}

def extractCapability (dispatcher : Dispatcher) (commit : DagJWS) : Except JsError (Option Cacao) := do
  match ← dispatcher.getCacaoCidFromCommit commit with
  | none => return none
  | some capCID => match dispatcher.retrieveCacao capCID with
    | .ok cacao => return some cacao
    | .error e => throw ⟨"Error while loading capability from IPFS with CID " ++ capCID.toString ++
        ": " ++ e.message⟩

def initType (type : EventType) (commit : Commit) : EventType :=
  if commit.prev.isNone then .INIT else type

def getCommitData (dispatcher : Dispatcher) (cid : Cid) : Except JsError CommitData := do
  match ← dispatcher.retrieveCommit cid with
  | none => throw ⟨"No commit found for CID " ++ cid.toString⟩
  | some (.signed envelope) =>
    match ← dispatcher.retrieveCommit envelope.link with
    | none => throw ⟨"No commit found for CID " ++ envelope.link.toString⟩
    | some linkedCommit =>
      let commit := asPayload linkedCommit
      let capability ← extractCapability dispatcher envelope
      return { cid, type := initType .DATA commit, commit, envelope := some envelope, capability }
  | some (.plain commit) =>
    match commit.proof with
    | some proofCid =>
      let proof ← dispatcher.retrieveProof proofCid
      return { cid, type := initType .TIME commit, commit, proof := some proof }
    | none => return { cid, type := initType .DATA commit, commit }

end Utils

structure CommitStore extends Dispatcher where
  height : Cid → Nat
  acyclic : ∀ cid data prev, Utils.getCommitData toDispatcher cid = .ok data →
    data.commit.prev = some prev → height prev < height cid

namespace LogSyncer

def logIncludes (cid : Cid) (log : Option (List Cid)) : Bool :=
  match log with
  | none => false
  | some log => log.contains cid

/-- The loop of `_syncLogHelper`; `syncedLog` is kept oldest first. -/
def walk (store : CommitStore) (existingCommits : Option (List Cid)) :
    Nat → Cid → List CommitData → Except JsError (List CommitData)
  | 0, _, syncedLog => .ok syncedLog
  | fuel + 1, curCid, syncedLog =>
    if logIncludes curCid existingCommits then .ok syncedLog
    else do
      let commitData ← Utils.getCommitData store.toDispatcher curCid
      match commitData.commit.prev with
      | none =>
        if existingCommits.isSome then return []
        else return commitData :: syncedLog
      | some prevCid => walk store existingCommits fuel prevCid (commitData :: syncedLog)

def syncLogHelper (store : CommitStore) (tip : Cid) (existingCommits : Option (List Cid)) :
    Except JsError (List CommitData) :=
  walk store existingCommits (store.height tip + 1) tip []

def syncGenesisLog (store : CommitStore) (streamID : StreamID) :
    Except JsError (List CommitData) := do
  let genesisCommitData ← Utils.getCommitData store.toDispatcher streamID.cid
  return [genesisCommitData]

def syncFullLog (store : CommitStore) (streamID : StreamID) (tip : Option Cid) :
    Except JsError (List CommitData) := do
  match tip with
  | none => syncGenesisLog store streamID
  | some tip =>
    let log ← syncLogHelper store tip none
    match log.head? with
    | some first => if first.cid = streamID.cid then return log else syncGenesisLog store streamID
    | none => syncGenesisLog store streamID

def syncLogUntilMatch (store : CommitStore) (tip : Cid) (existingCommits : List Cid) :
    Except JsError (List CommitData) :=
  syncLogHelper store tip (some existingCommits)

end LogSyncer

end Ceramic
