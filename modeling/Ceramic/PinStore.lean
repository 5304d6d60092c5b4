import Ceramic.ContentDispatcher
import Ceramic.MerkleAnchor
import Ceramic.Repository

/-! The pin store: the CIDs that are pinned for the commits of a log, and how a running state gets
into the state store. -/
namespace Ceramic

/-- What the pin store reads records with, and the pinning backend. -/
structure PinStore where
  retrieve : Cid → Except JsError JsValue
  /-- `resolve(cid.toString() + path)`. -/
  resolve : Cid → String → Except JsError Cid
  pin : Cid → Except JsError Unit
  base64urlToJSON : String → Except JsError JsValue
  /-- `CID.parse`. -/
  parse : String → Except JsError Cid
  /-- `String(value)`. -/
  stringOf : JsValue → String

namespace PinStore

variable (store : PinStore)

/-- `commit && commit[key] !== undefined`. -/
def has (commit : JsValue) (key : String) : Bool :=
  commit.truthy &&
    match commit.prop key with
    | .ok value => value ≠ .undefined
    | .error _ => false

def isAnchorCommit (commit : JsValue) : Bool := has commit "proof"

def isSignedCommit (commit : JsValue) : Bool := has commit "link"

def getCacaoCidFromCommit (commit : JsValue) : Except JsError (Option Cid) := do
  if isSignedCommit commit then
    let signature ← (← commit.prop "signatures").prop "0"
    let decodedProtectedHeader ← match ← signature.prop "protected" with
      | .str protectedHeader => store.base64urlToJSON protectedHeader
      | _ => throw ⟨"Expected String"⟩
    match ← decodedProtectedHeader.prop "cap" with
    | .str cap =>
      if cap = "" then return none
      else some <$> store.parse (String.ofList (replaceFirst "ipfs://".toList cap.toList))
    | cap =>
      if cap.truthy then throw ⟨"decodedProtectedHeader.cap.replace is not a function"⟩
      else return none
  else return none

/-- `commit[key]`, where a CID is expected. -/
def linkOf (commit : JsValue) (key : String) : Except JsError Cid := do
  match ← commit.prop key with
  | .cid link => return link
  | _ => throw ⟨"invalid CID"⟩

def pathOf (path : JsValue) : String :=
  if path.truthy then
    "root/" ++ match path with
      | .str path => path
      | path => store.stringOf path
  else "root"

/-- The loop over `subPaths`. -/
def resolveSubPaths (proof : Cid) : (currentPath : String) → List String → Except JsError (List Cid)
  | _, [] => .ok []
  | currentPath, subPath :: subPaths => do
    let subPathResolved ← store.resolve proof (currentPath ++ "/" ++ subPath)
    return subPathResolved :: (← resolveSubPaths proof (currentPath ++ "/" ++ subPath) subPaths)

/-- What is pinned besides an anchor commit. -/
def anchorPoints (commit : JsValue) (includeAnchorAndCACAO : Bool) : Except JsError (List Cid) :=
  if isAnchorCommit commit && includeAnchorAndCACAO then do
    let proof ← linkOf commit "proof"
    let path ← commit.prop "path"
    let nodes ← store.resolveSubPaths proof "" (Ipfs.segments (store.pathOf path))
    return proof :: nodes
  else .ok []

/-- What is pinned besides a signed commit. -/
def signedPoints (commit : JsValue) (includeAnchorAndCACAO : Bool) : Except JsError (List Cid) :=
  if isSignedCommit commit then do
    let capCID ← if includeAnchorAndCACAO then store.getCacaoCidFromCommit commit else .ok none
    let link ← linkOf commit "link"
    return capCID.toList ++ [link]
  else .ok []

def getComponentCIDsOfCommit (cid : Cid) (includeAnchorAndCACAO : Bool) : Except JsError (List Cid) := do
  let commit ← store.retrieve cid
  let anchored ← store.anchorPoints commit includeAnchorAndCACAO
  let signed ← store.signedPoints commit includeAnchorAndCACAO
  return cid :: (anchored ++ signed)

def getComponentCIDsOfCommits (commits : List Cid) (includeAnchorAndCACAO : Bool) :
    Except JsError (List Cid) :=
  (commits.mapM fun cid => store.getComponentCIDsOfCommit cid includeAnchorAndCACAO).map List.flatten

/-- The part of `add` before the state is saved. -/
def pinCommits (commits : List Cid) : Except JsError Unit := do
  let points ← store.getComponentCIDsOfCommits commits true
  points.forM store.pin

end PinStore

end Ceramic
