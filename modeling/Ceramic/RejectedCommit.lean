import Ceramic.StateManipulator

/-! What a refused commit leaves in the state that `_applyLog` returns. The state
object is shared with the handler, so everything the handler wrote before it threw
stays. For each stream type the commits that leave nothing are characterised. -/
namespace Ceramic

open StateManipulator StreamUtils

/-- The run up to a refused commit returns what its handler left. -/
theorem refused_result {handler : StreamHandler} {initial : Option StreamState}
    {pre : List CommitData} {bad : CommitData} {s : StreamState} {e : JsError}
    {left : Option StreamState} (rest : List CommitData)
    (accepted : applyLog handler initial pre true = .ok s)
    (refused : handler.applyCommit bad (some s) = .threw e left) :
    applyLog handler initial (pre ++ bad :: rest) false = .ok (left.getD s) := by
  rw [applyLog_append handler false initial s pre (bad :: rest) accepted]
  exact applyLogFrom_threw rest refused

/-- A refused commit of a handler that was not blocked went through its dispatch. -/
theorem dispatch_threw {genesis : CommitData → Except JsError StreamState}
    {signed : CommitData → StreamState → Outcome} {c : CommitData} {s : StreamState} {e : JsError}
    {left : Option StreamState} (h : dispatch genesis signed c (some s) = .threw e left) :
    (isAnchorCommitData c = true ∧ left = some s) ∨
    (isAnchorCommitData c = false ∧ signed c s = .threw e left) := by
  cases anchor : isAnchorCommitData c with
  | true => exact .inl ⟨rfl, left_of_except (by simpa [dispatch, anchor] using h)⟩
  | false => exact .inr ⟨rfl, by simpa [dispatch, anchor] using h⟩

namespace TileDocumentHandler

/-- The commit is an anchor, or it fails its link, signature or controller checks:
those come before the first write. -/
def RefusedBeforeWriting (env : Environment) (bad : CommitData) (s : StreamState) : Prop :=
  isAnchorCommitData bad = true ∨ ∃ e, checkSigned env bad s = .error e

theorem patchPending_recorded_log (env : Environment) (c : CommitData) (s : StreamState)
    (document : JsValue) :
    (patchPending (recordSigned env c s) document).log =
      s.log.push (commitDataToLogEntry env c .DATA) :=
  (patchPending_log _ document).1

/-- A refused commit leaves the state alone, or its own entry at the end of the log. -/
theorem refused_left {env : Environment} {bad : CommitData} {s : StreamState} {e : JsError}
    {left : Option StreamState} (refused : applyCommit env bad (some s) = .threw e left)
    (running : env.useRustCeramic = false) :
    (RefusedBeforeWriting env bad s ∧ left = some s) ∨
    (¬RefusedBeforeWriting env bad s ∧ ∃ s', left = some s' ∧
      s'.log = s.log.push (commitDataToLogEntry env bad .DATA)) := by
  simp only [applyCommit, running, Bool.false_eq_true, if_false] at refused
  rcases dispatch_threw refused with ⟨anchor, same⟩ | ⟨other, threw⟩
  · exact .inl ⟨.inl anchor, same⟩
  · rcases applySigned_cases env bad s with ⟨e', failed, eq⟩ | ⟨header, e', checked, eq⟩ |
      ⟨header, next, checked, eq⟩
    · rw [eq] at threw
      cases threw
      exact .inl ⟨.inr ⟨e, failed⟩, rfl⟩
    · rw [eq] at threw
      cases threw
      refine .inr ⟨?_, _, rfl, patchPending_recorded_log env bad s _⟩
      rintro (anchor | ⟨e'', failed⟩)
      · simp [anchor] at other
      · simp [checked] at failed
    · rw [eq] at threw
      cases threw

/-- Accepting a commit shows that the handler is not blocked. -/
theorem running_of_accepted {env : Environment} {initial : Option StreamState}
    {pre : List CommitData} {s : StreamState}
    (accepted : applyLog (handler env) initial pre true = .ok s)
    (nonempty : pre ≠ []) : env.useRustCeramic = false := by
  cases blocked : env.useRustCeramic with
  | false => rfl
  | true =>
    cases pre with
    | nil => exact absurd rfl nonempty
    | cons c pre =>
      cases initial <;> simp [applyLog, applyLogFrom, handler, applyCommit, blocked] at accepted

/-- The run keeps exactly the accepted commits when the refused one had not been
written; otherwise the refused commit becomes the tip. -/
theorem invalid_commit_discarded_iff {env : Environment} {initial : Option StreamState}
    {pre rest : List CommitData} {bad : CommitData} {s : StreamState} {e : JsError}
    {left : Option StreamState} (nonempty : pre ≠ [])
    (accepted : applyLog (handler env) initial pre true = .ok s)
    (refused : applyCommit env bad (some s) = .threw e left) :
    (applyLog (handler env) initial (pre ++ bad :: rest) false = .ok s ↔
      RefusedBeforeWriting env bad s) ∧
    (¬RefusedBeforeWriting env bad s →
      ∃ s', applyLog (handler env) initial (pre ++ bad :: rest) false = .ok s' ∧
        tipFromState s' = bad.cid) := by
  have result := refused_result rest accepted refused
  rw [result]
  rcases refused_left refused (running_of_accepted accepted nonempty) with
    ⟨early, rfl⟩ | ⟨late, s', rfl, log⟩
  · exact ⟨by simp [early], fun late => absurd early late⟩
  · have longer : s' ≠ s := by
      rintro rfl
      have := congrArg (fun l => l.toList.length) log
      simp at this
    refine ⟨by simp [late, longer], fun _ => ⟨s', rfl, ?_⟩⟩
    simp [tipFromState, log, commitDataToLogEntry]

/-- Surroundings in which a JSON-patch `test` operation fails. -/
def testFails : Environment :=
  { Environment.permissive with
    applyPatch := fun document _ => ⟨document, .error ⟨"Test operation failed"⟩⟩ }

def tileGenesis : CommitData where
  cid := ⟨[1]⟩
  type := .INIT
  commit := { header := some [("controllers", .arr [.str "did:key:z6Mk"])] }

/-- A well signed commit whose patch does not apply. -/
def failingTest : CommitData where
  cid := ⟨[2]⟩
  type := .DATA
  envelope := some ⟨⟨[3]⟩, "", ""⟩
  commit :=
    { id := some ⟨[1]⟩, prev := some ⟨[1]⟩, header := some []
      data := .arr [.obj [("op", .str "test"), ("path", .str "/a"), ("value", .num 1)]] }

theorem invalid_commit_discarded_iff_failingTest :
    applyLog (handler testFails) none ([tileGenesis] ++ failingTest :: []) false =
        .ok (genesisState testFails tileGenesis [("controllers", .arr [.str "did:key:z6Mk"])]) ↔
      RefusedBeforeWriting testFails failingTest
        (genesisState testFails tileGenesis [("controllers", .arr [.str "did:key:z6Mk"])]) :=
  (invalid_commit_discarded_iff (by decide) (by decide) (by rfl)).1

/-- A commit whose patch fails becomes the tip of the document. -/
theorem failingTest_becomes_tip :
    (∃ s e left, applyLog (handler testFails) none [tileGenesis] true = .ok s ∧
      applyCommit testFails failingTest (some s) = .threw e left ∧
      applyLog (handler testFails) none [tileGenesis, failingTest] false ≠ .ok s) ∧
    (applyLog (handler testFails) none [tileGenesis, failingTest] false).map tipFromState =
      .ok failingTest.cid := by
  refine ⟨?_, by decide⟩
  exact ⟨genesisState testFails tileGenesis [("controllers", .arr [.str "did:key:z6Mk"])],
    _, _, by decide, rfl, by decide⟩

end TileDocumentHandler

namespace ModelInstanceDocumentHandler

/-- The commit is an anchor, or fails its link, signature or header checks, or what
is written before the later checks changes nothing: no new `shouldIndex`, and a
patch that left the content it was given as it was. -/
def LeavesNoTrace (env : Environment) (bad : CommitData) (s : StreamState) : Prop :=
  isAnchorCommitData bad = true ∨ (∃ e, checkSigned env bad s = .error e) ∨
  ∃ index, checkSigned env bad s = .ok index ∧
    (index.isNullish = true ∨ JsObject.set s.metadata "shouldIndex" index = s.metadata) ∧
    (s.content.isNullish = true ∨
      (env.applyPatch (oldContent s) bad.commit.data).document = s.content)

theorem writeShouldIndex_eq_iff (s : StreamState) (index : JsValue) :
    writeShouldIndex s index = s ↔
      index.isNullish = true ∨ JsObject.set s.metadata "shouldIndex" index = s.metadata := by
  unfold writeShouldIndex
  split
  next nullish => simp [nullish]
  next given =>
    constructor
    · intro same
      exact .inr (congrArg StreamState.metadata same)
    · rintro (nullish | same)
      · exact absurd nullish given
      · rw [same]

/-- The metadata and the content are written apart, so both have to stay. -/
theorem leftover_eq_iff (env : Environment) (c : CommitData) (s : StreamState) (index : JsValue) :
    leftover env c s index = s ↔
      (index.isNullish = true ∨ JsObject.set s.metadata "shouldIndex" index = s.metadata) ∧
      (s.content.isNullish = true ∨
        (env.applyPatch (oldContent s) c.commit.data).document = s.content) := by
  rw [← writeShouldIndex_eq_iff]
  have content : (writeShouldIndex s index).content = s.content := by
    unfold writeShouldIndex
    split <;> rfl
  unfold leftover patchContent
  rw [content]
  split
  next nullish => simp [nullish]
  next given =>
    constructor
    · intro same
      have patched := congrArg StreamState.content same
      refine ⟨?_, .inr patched⟩
      calc writeShouldIndex s index
          = { { writeShouldIndex s index with
                content := (env.applyPatch (oldContent s) c.commit.data).document } with
              content := (writeShouldIndex s index).content } := rfl
        _ = s := by rw [same, content]
    · rintro ⟨same, nullish | patched⟩
      · exact absurd nullish given
      · rw [same, patched]

theorem refused_left {env : Environment} {bad : CommitData} {s : StreamState} {e : JsError}
    {left : Option StreamState} (refused : applyCommit env bad (some s) = .threw e left) :
    left.getD s = s ↔ LeavesNoTrace env bad s := by
  rcases dispatch_threw refused with ⟨anchor, rfl⟩ | ⟨other, threw⟩
  · simp [LeavesNoTrace, anchor]
  · rcases applySigned_cases env bad s with ⟨e', failed, eq⟩ | ⟨index, e', checked, eq⟩ |
      ⟨index, content, checked, eq⟩
    · rw [eq] at threw
      cases threw
      simp [LeavesNoTrace, failed]
    · rw [eq] at threw
      cases threw
      simp [LeavesNoTrace, other, checked, leftover_eq_iff]
    · rw [eq] at threw
      cases threw

/-- The run keeps exactly the accepted commits when the refused one wrote nothing
that differs from what the state held. -/
theorem invalid_instance_commit_discarded_iff {env : Environment} {initial : Option StreamState}
    {pre : List CommitData} {bad : CommitData} {s : StreamState} {e : JsError}
    {left : Option StreamState} (rest : List CommitData)
    (accepted : applyLog (handler env) initial pre true = .ok s)
    (refused : applyCommit env bad (some s) = .threw e left) :
    applyLog (handler env) initial (pre ++ bad :: rest) false = .ok s ↔
      LeavesNoTrace env bad s := by
  rw [refused_result rest accepted refused, ← refused_left refused]
  simp

/-- A patch whose first operation adds a field and whose second, a `test`, fails. -/
def secondOperationFails : Environment :=
  { Environment.permissive with
    applyPatch := fun document _ => match document with
      | .obj fields => ⟨.obj (JsObject.set fields "x" (.num 1)), .error ⟨"Test operation failed"⟩⟩
      | document => ⟨document, .error ⟨"Test operation failed"⟩⟩ }

def instanceGenesis : CommitData where
  cid := ⟨[1]⟩
  type := .INIT
  envelope := some ⟨⟨[4]⟩, "", ""⟩
  commit :=
    { header := some [("controllers", .arr [.str "did:key:z6Mk"]), ("model", .bytes [1]),
        ("unique", .bytes [2])]
      data := .obj [("a", .num 2)] }

def failingUpdate : CommitData where
  cid := ⟨[2]⟩
  type := .DATA
  envelope := some ⟨⟨[3]⟩, "", ""⟩
  commit :=
    { id := some ⟨[1]⟩, prev := some ⟨[1]⟩
      data := .arr [.obj [("op", .str "add"), ("path", .str "/x"), ("value", .num 1)],
        .obj [("op", .str "test"), ("path", .str "/a"), ("value", .num 1)]] }

def instanceMetadata : StreamMetadata :=
  [("controllers", .arr [.str "did:key:z6Mk"]), ("model", .streamID ⟨MODEL_TYPE_ID, ⟨[]⟩⟩),
    ("unique", .bytes [2])]

theorem invalid_instance_commit_discarded_iff_failingUpdate :
    applyLog (handler secondOperationFails) none ([instanceGenesis] ++ failingUpdate :: []) false =
        .ok (genesisState secondOperationFails instanceGenesis instanceMetadata) ↔
      LeavesNoTrace secondOperationFails failingUpdate
        (genesisState secondOperationFails instanceGenesis instanceMetadata) :=
  invalid_instance_commit_discarded_iff [] (by decide) (by rfl)

/-- The field added by the refused commit stays in the content. -/
theorem failingUpdate_edits_content :
    (∃ s e left, applyLog (handler secondOperationFails) none [instanceGenesis] true = .ok s ∧
      applyCommit secondOperationFails failingUpdate (some s) = .threw e left ∧
      applyLog (handler secondOperationFails) none [instanceGenesis, failingUpdate] false ≠ .ok s) ∧
    (applyLog (handler secondOperationFails) none [instanceGenesis, failingUpdate] false).map
      (·.content) = .ok (.obj [("a", .num 2), ("x", .num 1)]) := by
  refine ⟨?_, by decide⟩
  exact ⟨genesisState secondOperationFails instanceGenesis instanceMetadata, _, _,
    by decide, rfl, by decide⟩

end ModelInstanceDocumentHandler

end Ceramic
