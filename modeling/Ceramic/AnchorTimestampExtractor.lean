import Ceramic.LogSyncer

/-! Validating the anchors of a fetched log and spreading their timestamps backwards
over the commits they anchor. A failed anchor is only remembered: it keeps the
timestamp of the anchor after it. -/
namespace Ceramic.AnchorTimestampExtractor

/-- `path.substr(0, path.lastIndexOf('/'))` and what follows the last slash. -/
def splitPath (path : String) : String × String :=
  let reversed := path.toList.reverse
  let last := (reversed.takeWhile (· != '/')).reverse
  let parent := (reversed.dropWhile (· != '/')).drop 1
  (String.ofList parent.reverse, String.ofList last)

def verifyAnchorCommit (dispatcher : Dispatcher) (commitData : CommitData) :
    Except JsError Nat := do
  let proof ← match commitData.proof with
    | some proof => pure proof
    | none => throw ⟨"Cannot read properties of undefined (reading 'root')"⟩
  let prevCIDViaMerkleTree ←
    if commitData.commit.path = "" then pure (some proof.root)
    else do
      let (parent, last) := splitPath commitData.commit.path
      match commitData.commit.proof with
      | none => throw ⟨"The anchor commit couldn't be verified."⟩
      | some proofCid => match dispatcher.retrieveMerkleNode proofCid ("/root/" ++ parent) with
        | .ok links => pure (links last)
        | .error e => throw ⟨"The anchor commit couldn't be verified. Reason " ++ e.message⟩
  match commitData.commit.prev, prevCIDViaMerkleTree with
  | some prev, some viaTree =>
    if prev.toString ≠ viaTree.toString then
      throw ⟨"The anchor commit proof [object Object] with path " ++ commitData.commit.path ++
        " points to invalid 'prev' commit"⟩
    else dispatcher.validateChainInclusion proof
  | _, _ => throw ⟨"Cannot read properties of undefined (reading 'toString')"⟩

/-- One turn of the loop, going from the newest commit to the oldest. -/
def stamp (dispatcher : Dispatcher) (commitData : CommitData)
    (acc : List CommitData × Timestamp) : List CommitData × Timestamp :=
  if commitData.type = .TIME then
    match verifyAnchorCommit dispatcher commitData with
    | .ok timestamp =>
      ({ commitData with timestamp := .seconds timestamp } :: acc.1, .seconds timestamp)
    | .error e =>
      ({ commitData with timestamp := acc.2, anchorValidationError := some e } :: acc.1, acc.2)
  else ({ commitData with timestamp := acc.2 } :: acc.1, acc.2)

def verifyAnchorAndApplyTimestamps (dispatcher : Dispatcher) (commits : List CommitData) :
    List CommitData :=
  (commits.foldr (stamp dispatcher) ([], .null)).1

end Ceramic.AnchorTimestampExtractor
