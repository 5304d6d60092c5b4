import Ceramic.NoLostUpdate
import Ceramic.RejectedCommit
import Ceramic.RepositoryWrites

/-! Whether a running state keeps what it knows of an anchor request. A tip that changes no
commit gives back the state that was read, with the anchor status it had then, and that is
written over what an anchor event wrote meanwhile. -/
namespace Ceramic

open StreamUtils StateManipulator AnchorTimestampExtractor

/-- A refused commit that got no entry in the log did not touch the anchor status. -/
theorem HandlersMap.left_anchorStatus {env : Environment} {type : Nat} {handler : StreamHandler}
    (registered : HandlersMap.get env type = .ok handler) {c : CommitData} {s left : StreamState}
    {e : JsError} (threw : handler.applyCommit c (some s) = .threw e (some left))
    (sameLog : left.log = s.log) : left.anchorStatus = s.anchorStatus := by
  have unpushed (entry : LogEntry) : s.log.push entry ≠ s.log := by
    intro same
    have lengths := congrArg (List.length ∘ NonEmptyArray.toList) same
    simp at lengths
  obtain ⟨member, _⟩ := HandlersMap.get_mem registered
  simp only [HandlersMap.defaultHandlers, List.mem_cons, List.not_mem_nil, or_false] at member
  rcases member with rfl | rfl | rfl | rfl
  · cases running : env.useRustCeramic with
    | true =>
      simp only [TileDocumentHandler.handler, TileDocumentHandler.applyCommit, running, if_true,
        Outcome.threw.injEq, Option.some.injEq] at threw
      rw [threw.2]
    | false =>
      rcases TileDocumentHandler.refused_left threw running with ⟨_, same⟩ | ⟨_, s', same, pushed⟩
      · rw [Option.some.inj same]
      · obtain rfl := Option.some.inj same
        exact absurd (pushed.symm.trans sameLog) (unpushed _)
  · cases running : env.useRustCeramic with
    | true =>
      simp only [Caip10LinkHandler.handler, Caip10LinkHandler.applyCommit, running, if_true,
        Outcome.threw.injEq, Option.some.injEq] at threw
      rw [threw.2]
    | false =>
      simp only [Caip10LinkHandler.handler, Caip10LinkHandler.applyCommit, running,
        Bool.false_eq_true, if_false] at threw
      rcases dispatch_threw threw with ⟨_, same⟩ | ⟨_, threw⟩
      · rw [Option.some.inj same]
      · rw [Option.some.inj (left_of_except threw)]
  · simp only [ModelHandler.handler, ModelHandler.applyCommit] at threw
    rcases dispatch_threw threw with ⟨_, same⟩ | ⟨_, threw⟩
    · rw [Option.some.inj same]
    · cases threw
      rfl
  · simp only [ModelInstanceDocumentHandler.handler, ModelInstanceDocumentHandler.applyCommit] at threw
    rcases dispatch_threw threw with ⟨_, same⟩ | ⟨_, threw⟩
    · rw [Option.some.inj same]
    · rcases ModelInstanceDocumentHandler.applySigned_cases env c s with ⟨_, _, eq⟩ | ⟨index, _, _, eq⟩ |
        ⟨_, _, _, eq⟩
      · rw [eq] at threw
        cases threw
        rfl
      · rw [eq] at threw
        cases threw
        unfold ModelInstanceDocumentHandler.leftover ModelInstanceDocumentHandler.patchContent
          ModelInstanceDocumentHandler.writeShouldIndex
        split <;> split <;> rfl
      · rw [eq] at threw
        cases threw

/-- A log that leaves the commits of a state leaves its anchor status. -/
theorem applyLogFrom_anchorStatus {env : Environment} {type : Nat} {handler : StreamHandler}
    (registered : HandlersMap.get env type = .ok handler) {throwing : Bool} {s result : StreamState}
    {cs : List CommitData} (applied : applyLogFrom handler throwing s cs = .ok result)
    (same : cids result = cids s) : result.anchorStatus = s.anchorStatus := by
  obtain ⟨lawful, _⟩ := HandlersMap.get_lawful registered
  have added := applyLogFrom_cids lawful applied
  cases cs with
  | nil => rw [← Except.ok.inj applied]
  | cons c cs =>
    cases outcome : handler.applyCommit c (some s) with
    | applied next =>
      rw [same] at added
      have lengths := congrArg List.length added
      simp [commitCids, entered, outcome] at lengths
    | threw e left =>
      obtain ⟨left, rfl, _, logs⟩ := lawful.left outcome
      simp only [applyLogFrom, outcome, Option.getD_some] at applied
      split at applied
      · cases applied
      · obtain rfl := Except.ok.inj applied
        rcases logs with sameLog | ⟨_, pushed⟩
        · exact HandlersMap.left_anchorStatus registered outcome sameLog
        · have lengths := congrArg List.length same
          simp [cids, pushed] at lengths

/-- A tip that leaves the commits of a state leaves its anchor status. -/
theorem applyTip_anchorStatus {env : Environment} {store : CommitStore} {s result : StreamState}
    {tip : Cid} {opts : ApplyLogToStateOpts} (applied : applyTipToState env store s tip opts = .ok result)
    (same : cids result = cids s) : result.anchorStatus = s.anchorStatus := by
  obtain ⟨fetched, found, applied⟩ := bind_eq_ok.mp applied
  rcases applyLogToState_ok applied with ⟨rfl, _⟩ | ⟨handler, base, registered, applies, applied⟩
  · rfl
  · cases applies with
    | appended first head link => exact applyLogFrom_anchorStatus registered applied same
    | replaced first prev _ head link conflict wins reset =>
      have unknown : ∀ cid ∈ commitCids (verifyAnchorAndApplyTimestamps store.toDispatcher fetched),
          cid ∉ cids s := by
        rw [commitCids, extracted_map store.toDispatcher _ fun _ _ _ => rfl]
        rcases LogSyncer.syncLogUntilMatch_ok found with rfl | ⟨_, _, _, _, unknown⟩
        · simp
        · intro cid member
          obtain ⟨c, inLog, rfl⟩ := List.mem_map.mp member
          exact unknown c inLog
      obtain ⟨lawful, _⟩ := HandlersMap.get_lawful registered
      exact absurd (same ▸ List.prefix_rfl) (replaced_cids lawful unknown conflict reset applied)

/-- Each tip leaves the commits of the state that it is applied to. -/
def leaveLog (world : Nat → World) : StreamState → List TipResponse → Bool
  | _, [] => true
  | state, response :: tips =>
    match applyTipToState (world response.moment).env (world response.moment).store state response.tip
      StreamUpdater.networkOpts with
    | .ok next => cids next = cids state && leaveLog world next tips
    | .error _ => leaveLog world state tips

theorem sync_leaves {world : Nat → World} {s : StreamState} {tips : List TipResponse}
    (leave : leaveLog world s tips = true) : cids (StreamLoader.syncStream world s tips) = cids s ∧
      (StreamLoader.syncStream world s tips).anchorStatus = s.anchorStatus := by
  induction tips generalizing s with
  | nil => exact ⟨rfl, rfl⟩
  | cons response tips ih =>
    unfold leaveLog at leave
    rw [StreamLoader.syncStream]
    cases applied : applyTipToState (world response.moment).env (world response.moment).store s
        response.tip StreamUpdater.networkOpts with
    | error e =>
      rw [applied] at leave
      exact ih leave
    | ok next =>
      rw [applied] at leave
      obtain ⟨same, leave⟩ := Bool.and_eq_true_iff.mp leave
      have same := of_decide_eq_true same
      obtain ⟨sameCids, sameStatus⟩ := ih leave
      exact ⟨sameCids.trans same, sameStatus.trans (applyTip_anchorStatus applied same)⟩

/-- A superset that is no longer than its base has the same anchor status. -/
theorem anchorStatus_of_superset {state base : StreamState} (superset : isStateSupersetOf state base = true)
    (same : state.log.toList.length = base.log.toList.length) : state.anchorStatus = base.anchorStatus := by
  unfold isStateSupersetOf at superset
  dsimp only at superset
  split at superset
  · cases superset
  · split at superset
    · cases superset
    · simpa [same] using superset

namespace Node

variable {stream : StreamID} (node : Node stream)

/-- A tip that is handled, or found by a sync, leaves the log as it is. No commit of a user is
applied. -/
def leavesLog (repository : Repository) : RepositoryAction → Bool
  | .proceed index moment tips =>
    match repository.operations[index]? with
    | some operation =>
      match operation.stage with
      | .handlingTip _ tip _ snapshot =>
        match StreamUpdater.applyTipFromNetwork (node.net.env moment) (node.net.store moment) snapshot tip with
        | .ok next => cids next = cids snapshot
        | .error _ => true
      | .syncing _ snapshot => leaveLog node.net.world snapshot tips
      | .applying _ _ => false
      | _ => true
    | none => true
  | _ => true

/-- The step does not give the running state another tip. -/
def keepsTip (state : Nat) (repository : Repository) (action : RepositoryAction) : Bool :=
  match repository.step node action with
  | some after => after.heap[state]?.map RunningState.tip = repository.heap[state]?.map RunningState.tip
  | none => true

def isAnchorEvent (repository : Repository) : RepositoryAction → Bool
  | .proceed index _ _ =>
    match repository.operations[index]? with
    | some operation =>
      match operation.stage with
      | .anchoring _ _ => true
      | _ => false
    | none => false
  | _ => false

/-- What is written back to the running state was read after its anchor was requested, and
not before it was being processed. -/
def writesBackStatus (state : Nat) (repository : Repository) : RepositoryAction → Bool
  | .proceed index _ _ =>
    match repository.operations[index]? with
    | some operation =>
      match operation.stage.writesBack, repository.heap[state]? with
      | some (other, snapshot), some found => other ≠ state || snapshot.anchorStatus ≠ .NOT_REQUESTED &&
        !(found.value.anchorStatus = .PROCESSING && snapshot.anchorStatus = .PENDING)
      | _, _ => true
    | none => true
  | _ => true

/-- After the step the anchor still counts as requested, and as being processed unless an anchor
event says otherwise. -/
def KeepsStatus (state : Nat) (repository : Repository) (action : RepositoryAction)
    (repository' : Repository) : Prop :=
  ∀ found found', repository.heap[state]? = some found → repository'.heap[state]? = some found' →
    found'.value.anchorStatus ≠ .NOT_REQUESTED ∧
    (found.value.anchorStatus = .PROCESSING → found'.value.anchorStatus = .PENDING →
      isAnchorEvent repository action = true)

end Node

section

variable {stream : StreamID} {node : Node stream} {repository : Repository} {state : Nat}
  {found found' : RunningState}

/-- The value of a running state after a turn. -/
theorem value_take {index : Nat} {operation : Operation} {turn : Turn}
    (before : repository.heap[state]? = some found)
    (after : (repository.take index operation turn).heap[state]? = some found') :
    turn.write = .next state found'.value ∨
      found'.value = found.value ∧ ∀ value, turn.write ≠ .next state value := by
  rw [take_heap] at after
  cases written : turn.write with
  | nothing | markPinnedAndSynced =>
    rw [written] at after
    obtain rfl := Option.some.inj (before.symm.trans after)
    exact .inr ⟨rfl, by simp⟩
  | register new =>
    rw [written] at after
    have within := (List.getElem?_eq_some_iff.mp before).1
    simp only [Repository.write, Repository.registerRunningState] at after
    rw [List.getElem?_append_left within, before] at after
    obtain rfl := Option.some.inj after
    exact .inr ⟨rfl, by simp⟩
  | save saved value =>
    rw [written] at after
    simp only [Repository.write, Repository.save, List.getElem?_modify, before, Option.map_eq_map,
      Option.map_some, Option.some.injEq] at after
    refine .inr ⟨?_, by simp⟩
    rw [← after]
    split <;> rfl
  | next other value =>
    rw [written] at after
    simp only [Repository.write, Repository.next, List.getElem?_modify, before, Option.map_eq_map,
      Option.map_some, Option.some.injEq] at after
    by_cases same : other = state
    · rw [if_pos same] at after
      subst after
      exact .inl (by rw [same])
    · rw [if_neg same] at after
      exact .inr ⟨by rw [after], fun value eq => same (Write.next.inj eq).1⟩

/-- An unchanged status is kept. -/
theorem keeps_of_same {action : RepositoryAction} {repository' : Repository}
    (before : repository.heap[state]? = some found) (after : repository'.heap[state]? = some found')
    (requested : found.value.anchorStatus ≠ .NOT_REQUESTED) (same : found'.value.anchorStatus = found.value.anchorStatus) :
    Node.KeepsStatus state repository action repository' := by
  intro one other at_state at_state'
  obtain rfl := Option.some.inj (before.symm.trans at_state)
  obtain rfl := Option.some.inj (after.symm.trans at_state')
  rw [same]
  exact ⟨requested, fun processing pending => by simp [processing] at pending⟩

/-- An operation writes back what it has read, as its tip left the log. -/
theorem written_anchorStatus {index moment : Nat} {tips : List TipResponse} {operation : Operation}
    {value snapshot : StreamState} (at_index : repository.operations[index]? = some operation)
    (leaves : node.leavesLog repository (.proceed index moment tips) = true)
    (origin : WriteOrigin node repository operation.stage moment tips (.next state value))
    (writes : operation.stage.writesBack = some (state, snapshot)) :
    value.anchorStatus = snapshot.anchorStatus := by
  simp only [Node.leavesLog, at_index] at leaves
  cases origin with
  | quiet _ _ none _ =>
    rw [none] at writes
    cases writes
  | synced _ snapshot' stage =>
    simp only [stage] at leaves writes
    cases writes
    exact (sync_leaves leaves).2
  | handled _ tip attempt snapshot' _ stage applied =>
    simp only [stage, applied, decide_eq_true_eq] at leaves
    simp only [stage] at writes
    cases writes
    exact applyTip_anchorStatus applied leaves
  | applied _ snapshot' _ stage =>
    rw [stage] at writes
    cases writes
  | anchored _ _ _ _ stage | reset _ _ _ _ stage =>
    rw [stage] at writes
    cases writes

/-- A superset of the log with the same tip is no longer. -/
theorem Network.Chain.same_length {state base : StreamState} (chain : node.net.Chain (cids state))
    (superset : isStateSupersetOf state base = true) (sameTip : tipFromState state = tipFromState base) :
    state.log.toList.length = base.log.toList.length := by
  have last (s : StreamState) : (cids s)[(cids s).length - 1]? = some (tipFromState s) := by
    rw [← List.getLast?_eq_getElem?]
    exact cids_getLast? s
  obtain ⟨rest, longer⟩ := prefix_of_superset superset
  have nonempty (s : StreamState) : 0 < (cids s).length := by
    exact List.length_pos_iff.mpr (by simpa [cids] using s.log.nonempty)
  have inState : (cids state)[(cids base).length - 1]? = some (tipFromState state) := by
    rw [← longer, List.getElem?_append_left (by have := nonempty base; omega), sameTip]
    exact last base
  have index := chain.index_unique inState (last state)
  have lengths (s : StreamState) : (cids s).length = s.log.toList.length := List.length_map ..
  have := nonempty base
  have := nonempty state
  rw [← lengths, ← lengths]
  omega

/-- What is written back keeps the status exactly if it was not read too early. -/
theorem keeps_iff_writesBack {index moment : Nat} {tips : List TipResponse} {operation : Operation}
    {turn : Turn} {snapshot : StreamState} (at_index : repository.operations[index]? = some operation)
    (before : repository.heap[state]? = some found)
    (after : (repository.take index operation turn).heap[state]? = some found')
    (writes : operation.stage.writesBack = some (state, snapshot))
    (same : found'.value.anchorStatus = snapshot.anchorStatus) :
    Node.KeepsStatus state repository (.proceed index moment tips) (repository.take index operation turn) ↔
      Node.writesBackStatus state repository (.proceed index moment tips) = true := by
  have quiet : Node.isAnchorEvent repository (.proceed index moment tips) = false := by
    cases stage : operation.stage with
    | anchoring state event =>
      rw [stage] at writes
      cases writes
    | _ => simp [Node.isAnchorEvent, at_index, stage]
  simp only [Node.writesBackStatus, at_index, writes, before, ne_eq, not_true_eq_false, decide_false,
    Bool.false_or, Bool.and_eq_true, decide_eq_true_eq, Bool.not_eq_true', Bool.and_eq_false_iff,
    decide_eq_false_iff_not]
  unfold Node.KeepsStatus
  constructor
  · intro keeps
    obtain ⟨requested, unreverted⟩ := keeps found found' before after
    rw [same] at requested unreverted
    refine ⟨requested, ?_⟩
    by_contra both
    push Not at both
    have event := unreverted both.1 both.2
    rw [quiet] at event
    cases event
  · rintro ⟨requested, unreverted⟩ one other at_state at_state'
    obtain rfl := Option.some.inj (before.symm.trans at_state)
    obtain rfl := Option.some.inj (after.symm.trans at_state')
    rw [same]
    refine ⟨requested, fun processing pending => ?_⟩
    rcases unreverted with other | other
    · exact absurd processing other
    · exact absurd pending other

theorem written_of_writesBack {moment : Nat} {tips : List TipResponse} {stage : Stage} {write : Write}
    {snapshot : StreamState} (origin : WriteOrigin node repository stage moment tips write)
    (writes : stage.writesBack = some (state, snapshot)) : ∃ value, write = .next state value := by
  cases origin with
  | synced other snapshot' isSyncing =>
    subst isSyncing
    cases writes
    exact ⟨_, rfl⟩
  | handled other tip attempt snapshot' value isHandling _ =>
    subst isHandling
    cases writes
    exact ⟨_, rfl⟩
  | quiet _ _ none _ =>
    rw [none] at writes
    cases writes
  | registered _ registers =>
    cases stage with
    | syncing _ _ | handlingTip _ _ _ _ => cases registers
    | _ => cases writes
  | applied _ _ _ isOther | anchored _ _ _ _ isOther | reset _ _ _ _ isOther =>
    subst isOther
    cases writes

/-- An operation that writes back nothing that it has read keeps the status. -/
theorem keeps_of_current {index moment : Nat} {tips : List TipResponse} {operation : Operation}
    {turn : Turn} (sound : Sound node repository) (at_index : repository.operations[index]? = some operation)
    (advanced : node.advance repository operation moment tips = some turn)
    (leaves : node.leavesLog repository (.proceed index moment tips) = true)
    (before : repository.heap[state]? = some found)
    (after : (repository.take index operation turn).heap[state]? = some found')
    (sameTip : found'.tip = found.tip) (requested : found.value.anchorStatus ≠ .NOT_REQUESTED)
    (current : operation.stage.writesBack = none) :
    Node.KeepsStatus state repository (.proceed index moment tips) (repository.take index operation turn) := by
  rcases value_take before after with written | ⟨same, _⟩
  · have origin := advance_write advanced
    have spec := advance_spec sound (List.mem_of_getElem? at_index) advanced
    have chain := spec.written found'.value (by simp [written, Write.states])
    rw [written] at origin
    simp only [Node.leavesLog, at_index] at leaves
    generalize eq : found'.value = value at origin chain
    cases origin with
    | quiet _ _ _ quiet => cases quiet
    | synced _ _ stage | handled _ _ _ _ _ stage _ =>
      rw [stage] at current
      cases current
    | applied _ _ _ stage => simp [stage] at leaves
    | anchored _ event base status stage at_state isRequested =>
      intro one other at_one at_other
      obtain rfl := Option.some.inj (after.symm.trans at_other)
      rw [eq]
      exact ⟨isRequested, fun _ _ => by simp [Node.isAnchorEvent, at_index, stage]⟩
    | reset _ _ _ base stage at_state superset =>
      obtain rfl := Option.some.inj (before.symm.trans at_state)
      have tips : tipFromState value = tipFromState found.value := by
        rw [← eq]
        exact sameTip
      exact keeps_of_same before after requested
        (by rw [eq]; exact anchorStatus_of_superset superset (chain.same_length superset tips))
  · exact keeps_of_same before after requested (congrArg _ same)

/-- A step that leaves the logs and the tip keeps the status unless it writes back an earlier one. -/
theorem step_anchorStatus {action : RepositoryAction} {repository' : Repository}
    (sound : Sound node repository) (stepped : repository.step node action = some repository')
    (leaves : node.leavesLog repository action = true)
    (sameTip : node.keepsTip state repository action = true)
    (before : repository.heap[state]? = some found)
    (requested : found.value.anchorStatus ≠ .NOT_REQUESTED) :
    (Node.KeepsStatus state repository action repository' ↔
      Node.writesBackStatus state repository action = true) ∧
    ∃ found', repository'.heap[state]? = some found' := by
  have grows : ∃ found', repository'.heap[state]? = some found' := by
    have within := (List.getElem?_eq_some_iff.mp before).1
    suffices repository.heap.length ≤ repository'.heap.length from
      ⟨_, List.getElem?_eq_getElem (by omega)⟩
    cases step_cases sound stepped with
    | called call stage started => exact Nat.le_refl _
    | proceeded index moment tips operation turn at_index spec => exact heap_write turn.write
    | failed index operation turn at_index spec => exact heap_write turn.write
  refine ⟨?_, grows⟩
  obtain ⟨found', after⟩ := grows
  cases action with
  | call call =>
    obtain ⟨stage, started, returned⟩ := Option.bind_eq_some_iff.mp stepped
    obtain rfl := Option.some.inj returned
    obtain rfl := Option.some.inj (before.symm.trans after)
    exact iff_of_true (keeps_of_same before after requested rfl) rfl
  | fail index =>
    obtain ⟨operation, at_index, rest⟩ := Option.bind_eq_some_iff.mp stepped
    obtain ⟨turn, rejected, returned⟩ := Option.bind_eq_some_iff.mp rest
    obtain rfl := Option.some.inj returned
    refine iff_of_true ?_ rfl
    rcases value_take before after with written | ⟨same, _⟩
    · rcases rejected_write rejected with quiet | ⟨other, base, at_other, failed⟩
      · rw [written] at quiet
        cases quiet
      · intro one other at_state at_state'
        obtain rfl := Option.some.inj (after.symm.trans at_state')
        obtain ⟨rfl, value⟩ := Write.next.inj (written.symm.trans failed)
        rw [value]
        exact ⟨nofun, fun _ pending => by cases pending⟩
    · exact keeps_of_same before after requested (congrArg _ same)
  | proceed index moment tips =>
    obtain ⟨operation, at_index, rest⟩ := Option.bind_eq_some_iff.mp stepped
    obtain ⟨turn, advanced, returned⟩ := Option.bind_eq_some_iff.mp rest
    obtain rfl := Option.some.inj returned
    have tips : found'.tip = found.tip := by
      rw [take_heap] at after
      simpa [Node.keepsTip, stepped, before, after] using sameTip
    have origin := advance_write advanced
    cases writes : operation.stage.writesBack with
    | none =>
      exact iff_of_true (keeps_of_current sound at_index advanced leaves before after tips requested writes)
        (by simp [Node.writesBackStatus, at_index, writes])
    | some read =>
      obtain ⟨other, snapshot⟩ := read
      obtain ⟨value, isNext⟩ := written_of_writesBack origin writes
      rcases value_take before after with written | ⟨same, unwritten⟩
      · obtain ⟨rfl, rfl⟩ := Write.next.inj (isNext.symm.trans written)
        rw [isNext] at origin
        exact keeps_iff_writesBack at_index before after writes
          (written_anchorStatus at_index leaves origin writes)
      · have apart : other ≠ state := by
          rintro rfl
          exact unwritten value isNext
        exact iff_of_true (keeps_of_same before after requested (congrArg _ same))
          (by simp [Node.writesBackStatus, at_index, writes, before, apart])

/-- Once an anchor was requested, the status stays so as long as nothing writes back an earlier
one, and the first step that does so takes it back. -/
theorem anchorStatus_kept {booted start : Repository} (isBooted : Booted node booted)
    (started : Transition.Reaches (Repository.step node) (fun _ _ => True) booted start)
    (at_state : start.heap[state]? = some found)
    (requested : found.value.anchorStatus = .PENDING ∨ found.value.anchorStatus = .PROCESSING)
    (run : Transition.Reaches (Repository.step node) (fun s action => node.leavesLog s action = true ∧
      node.keepsTip state s action = true ∧ Node.writesBackStatus state s action = true) start repository) :
    (∃ found', repository.heap[state]? = some found' ∧ found'.value.anchorStatus ≠ .NOT_REQUESTED) ∧
    ∀ action repository', node.leavesLog repository action = true →
      node.keepsTip state repository action = true → repository.step node action = some repository' →
      (Node.KeepsStatus state repository action repository' ↔
        Node.writesBackStatus state repository action = true) := by
  have isRequested : found.value.anchorStatus ≠ .NOT_REQUESTED := by
    rcases requested with pending | processing
    · simp [pending]
    · simp [processing]
  have kept : Sound node repository ∧
      ∃ found', repository.heap[state]? = some found' ∧ found'.value.anchorStatus ≠ .NOT_REQUESTED := by
    induction run with
    | start => exact ⟨reaches_sound isBooted.sound started, found, at_state, isRequested⟩
    | next _ allowed stepped ih =>
      obtain ⟨sound, found', at_state', isRequested'⟩ := ih
      obtain ⟨leaves, sameTip, writesBack⟩ := allowed
      obtain ⟨keeps, found'', at_state''⟩ :=
        step_anchorStatus sound stepped leaves sameTip at_state' isRequested'
      exact ⟨step_sound sound stepped, found'', at_state'',
        (keeps.mpr writesBack found' found'' at_state' at_state'').1⟩
  obtain ⟨sound, found', at_state', isRequested'⟩ := kept
  refine ⟨⟨found', at_state', isRequested'⟩, fun action repository' leaves sameTip stepped => ?_⟩
  exact (step_anchorStatus sound stepped leaves sameTip at_state' isRequested').1

end

namespace BlockStore

/-- A Tile that is loaded, and whose tip then comes again from the network. -/
def tipAgain : List RepositoryAction :=
  [.call (.load .PREFER_CACHE)] ++ turns 0 9 ++ [.call (.handleUpdateFromNetwork ⟨[1]⟩ false)]

/-- The anchor of the tip is requested. -/
def anchorRequested : List RepositoryAction :=
  [.call (.handleAnchorEvent 0 { status := .PENDING, cid := ⟨[1]⟩ })] ++ turns 2 1

/-- The tip is handled once its anchor was requested. -/
def requestedFirst : List RepositoryAction := tipAgain ++ turns 1 1 ++ anchorRequested

/-- The anchor is requested while the tip is handled. -/
def requestedMeanwhile : List RepositoryAction := tipAgain ++ turns 1 2 ++ anchorRequested

theorem reaches_afterTurns (actions more : List RepositoryAction)
    {allowed : Repository → RepositoryAction → Prop}
    (ran : Transition.run (Repository.step tileNode) (afterTurns actions) more =
      some (afterTurns (actions ++ more)))
    (permitted : Transition.AllAllowed (Repository.step tileNode) allowed (afterTurns actions) more) :
    Transition.Reaches (Repository.step tileNode) allowed (afterTurns actions)
      (afterTurns (actions ++ more)) :=
  Transition.reaches_of_run ran permitted

theorem anchorStatus_kept_requestedFirst :
    ∃ found', (afterTurns (requestedFirst ++ turns 1 2)).heap[0]? = some found' ∧
      found'.value.anchorStatus ≠ .NOT_REQUESTED :=
  (anchorStatus_kept (.first : Booted tileNode (.boot none))
    (reaches_afterTurns [] requestedFirst rfl (by decide)) rfl (.inl (by decide))
    (reaches_afterTurns requestedFirst (turns 1 2) rfl (by decide))).1

/-- The tip that is handled meanwhile takes the request back. -/
theorem handled_tip_unrequests : ¬∀ (start repository : Repository) (found found' : RunningState),
    Transition.Reaches (Repository.step tileNode) (fun _ _ => True) (.boot none) start →
    start.heap[0]? = some found →
    found.value.anchorStatus = .PENDING ∨ found.value.anchorStatus = .PROCESSING →
    Transition.Reaches (Repository.step tileNode) (fun s action => tileNode.leavesLog s action = true ∧
      tileNode.keepsTip 0 s action = true) start repository →
    repository.heap[0]? = some found' → found'.value.anchorStatus ≠ .NOT_REQUESTED := by
  intro kept
  exact kept (afterTurns requestedMeanwhile) (afterTurns (requestedMeanwhile ++ turns 1 1)) _ _
    (reaches_afterTurns [] requestedMeanwhile rfl (by decide)) rfl (.inl (by decide))
    (reaches_afterTurns requestedMeanwhile (turns 1 1) rfl (by decide)) rfl (by decide)

end BlockStore

end Ceramic
