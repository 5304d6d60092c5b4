import Ceramic.AnchorProcessingLoop

/-! When a request for an anchor is removed: in the lane of its stream, with the tip that the
loop had in hand, after the loop has seen a terminal event for this tip or has not found the
stream. A stream that is stored again before the removal loses its request. -/
namespace Ceramic

namespace AnchorNode

open NamedTaskQueue

/-- A terminal event for the tip was handled. -/
def Handled (conclusions : List Conclusion) (streamId : StreamID) (cid : Cid) : Prop :=
  ∃ event, .handled event ∈ conclusions ∧ event.streamId = streamId ∧ event.cid = cid ∧
    event.status.isTerminal

/-- A terminal event for the tip was handled, or the stream was not found when an event for the
tip was to be handled. -/
def Concluded (conclusions : List Conclusion) (streamId : StreamID) (cid : Cid) : Prop :=
  Handled conclusions streamId cid ∨ .notFound streamId cid ∈ conclusions

/-- The event is for the stream and the tip that the anchor service is asked about. -/
def IsAbout (event : StreamAnchorEvent) : LoopTask → Prop
  | ⟨streamId, .loaded entry⟩ => event.streamId = streamId ∧ event.cid = entry.cid
  | _ => True

/-- The anchor service answers what it is asked. -/
def Answers (node : AnchorNode) : AnchorAction → Prop
  | .answer i event => ∀ task ∈ node.loop[i]?, IsAbout event task
  | _ => True

theorem Concluded.mono {conclusions more : List Conclusion} {streamId : StreamID} {cid : Cid}
    (sublist : conclusions ⊆ more) (concluded : Concluded conclusions streamId cid) :
    Concluded more streamId cid := by
  rcases concluded with ⟨event, member, rest⟩ | missing
  · exact .inl ⟨event, sublist member, rest⟩
  · exact .inr (sublist missing)

/-- What a run of `handleValue` has in hand is about the request that it loaded. -/
def LoopSound (conclusions : List Conclusion) (task : LoopTask) : Prop :=
  match task.stage with
  | .answered entry event | .handling entry event =>
    event.streamId = task.streamId ∧ event.cid = entry.cid
  | .terminal entry => Concluded conclusions task.streamId entry.cid
  | _ => True

/-- A removal is queued for a tip that is concluded. -/
def TaskSound (conclusions : List Conclusion) (task : AnchorStoreTask) : Prop :=
  match task.work with
  | .save _ => True
  | .compare cid | .remove cid => Concluded conclusions task.streamId cid

theorem LoopSound.mono {conclusions more : List Conclusion} {task : LoopTask}
    (sublist : conclusions ⊆ more) (sound : LoopSound conclusions task) : LoopSound more task := by
  unfold LoopSound at sound ⊢
  split at sound
  · exact sound
  · exact sound
  · exact Concluded.mono sublist sound
  · trivial

theorem TaskSound.mono {conclusions more : List Conclusion} {task : AnchorStoreTask}
    (sublist : conclusions ⊆ more) (sound : TaskSound conclusions task) : TaskSound more task := by
  unfold TaskSound at sound ⊢
  split at sound
  · trivial
  · exact Concluded.mono sublist sound
  · exact Concluded.mono sublist sound

/-- The tasks of the lanes: a lane is about to remove an entry only while the entry has the tip
that the lane has compared. -/
structure LanesSound (conclusions : List Conclusion) (store : StreamID → Option AnchorRequestData)
    (queue : NamedTaskQueue AnchorStoreTask) : Prop where
  registered : Registered AnchorStoreTask.lane queue
  sound : ∀ i, ∀ task ∈ (queue.queues i).tasks, TaskSound conclusions task
  waiting : ∀ i, ∀ task ∈ (queue.queues i).waiting, ∀ cid, task.work ≠ .remove cid
  compared : ∀ i streamId cid, (queue.queues i).pending = some ⟨streamId, .remove cid⟩ →
    (store streamId).map (·.cid) = some cid

theorem LanesSound.empty (conclusions : List Conclusion) (store : StreamID → Option AnchorRequestData) :
    LanesSound conclusions store {} := by
  constructor <;> simp [Registered, TaskQueue.tasks]

namespace LanesSound

variable {conclusions : List Conclusion} {store : StreamID → Option AnchorRequestData}
  {queue : NamedTaskQueue AnchorStoreTask} (lanes : LanesSound conclusions store queue)

include lanes

theorem mono {more : List Conclusion} (sublist : conclusions ⊆ more) : LanesSound more store queue :=
  ⟨lanes.registered, fun i task member => (lanes.sound i task member).mono sublist, lanes.waiting,
    lanes.compared⟩

theorem run {task : AnchorStoreTask} (sound : TaskSound conclusions task)
    (notCompared : ∀ cid, task.work ≠ .remove cid) :
    LanesSound conclusions store (queue.run task.lane task) := by
  refine ⟨lanes.registered.run task, ?_, ?_, ?_⟩
  · intro i other member
    rw [run_queues] at member
    split at member
    next =>
      rw [TaskQueue.tasks_run] at member
      rcases List.mem_append.mp member with old | new
      · exact lanes.sound i other old
      · exact List.mem_singleton.mp new ▸ sound
    next => exact lanes.sound i other member
  · intro i other member
    rw [run_queues] at member
    split at member
    next =>
      rw [TaskQueue.waiting_run] at member
      rcases List.mem_append.mp member with old | new
      · exact lanes.waiting i other old
      · exact List.mem_singleton.mp new ▸ notCompared
    next => exact lanes.waiting i other member
  · intro i streamId cid pending
    rw [run_queues] at pending
    split at pending
    next => exact lanes.compared i streamId cid pending
    next => exact lanes.compared i streamId cid pending

theorem start {i : Nat} {task : AnchorStoreTask} (may : (queue.queues i).next = some task) :
    LanesSound conclusions store (queue.update i ((queue.queues i).start task)) := by
  obtain ⟨_, waiting⟩ := TaskQueue.next_eq may
  have first : task ∈ (queue.queues i).waiting := waiting ▸ List.mem_cons_self
  refine ⟨lanes.registered.of_subset rfl ?_, ?_, ?_, ?_⟩
  · intro j other member
    rw [update_queues] at member
    split at member
    next same => rwa [same, ← TaskQueue.tasks_start may]
    next => exact member
  · intro j other member
    rw [update_queues] at member
    split at member
    next =>
      rw [TaskQueue.tasks_start may] at member
      exact lanes.sound i other member
    next => exact lanes.sound j other member
  · intro j other member
    rw [update_queues] at member
    split at member
    next => exact lanes.waiting i other (List.mem_of_mem_tail member)
    next => exact lanes.waiting j other member
  · intro j streamId cid pending
    rw [update_queues] at pending
    split at pending
    next =>
      rw [TaskQueue.pending_start] at pending
      exact absurd (Option.some.inj pending ▸ rfl) (lanes.waiting i task first cid)
    next => exact lanes.compared j streamId cid pending

/-- The running task of a lane ends, and has maybe written the entry of its stream. -/
theorem settle {i : Nat} {task : AnchorStoreTask} (running : (queue.queues i).pending = some task)
    {store' : StreamID → Option AnchorRequestData}
    (others : ∀ other, other ≠ task.streamId → store' other = store other) :
    LanesSound conclusions store' (queue.update i (queue.queues i).settle) := by
  have fewer : ∀ j other, other ∈ ((queue.update i (queue.queues i).settle).queues j).tasks →
      other ∈ (queue.queues j).tasks := by
    intro j other member
    rw [update_queues] at member
    split at member
    next same =>
      rw [same, TaskQueue.tasks_settle running]
      exact List.mem_cons_of_mem _ member
    next => exact member
  refine ⟨lanes.registered.of_subset rfl fewer, fun j other member => lanes.sound j other (fewer j other member),
    ?_, ?_⟩
  · intro j other member
    rw [update_queues] at member
    split at member
    next => exact lanes.waiting i other member
    next => exact lanes.waiting j other member
  · intro j streamId cid pending
    rw [update_queues] at pending
    split at pending
    next => cases pending
    next apart =>
      -- no other lane runs a task of the stream
      rw [others streamId ?_]
      · exact lanes.compared j streamId cid pending
      · intro same
        exact apart (lanes.registered.same_queue (TaskQueue.mem_tasks.mpr (.inl pending))
          (TaskQueue.mem_tasks.mpr (.inl running)) (congrArg StreamID.toString same))

theorem remove (name : String) : LanesSound conclusions store (queue.remove name) := by
  refine ⟨lanes.registered.remove name, ?_, ?_, ?_⟩
  all_goals rw [remove_queues]
  · exact lanes.sound
  · exact lanes.waiting
  · exact lanes.compared

/-- The entry has the tip. -/
theorem compare {i : Nat} {streamId : StreamID} {cid : Cid}
    (running : (queue.queues i).pending = some ⟨streamId, .compare cid⟩)
    (same : (store streamId).map (·.cid) = some cid) :
    LanesSound conclusions store (queue.update i { queue.queues i with
      pending := some ⟨streamId, .remove cid⟩ }) := by
  have here : (⟨streamId, .compare cid⟩ : AnchorStoreTask) ∈ (queue.queues i).tasks :=
    TaskQueue.mem_tasks.mpr (.inl running)
  have tasks : ∀ j other, other ∈ ((queue.update i { queue.queues i with
      pending := some ⟨streamId, .remove cid⟩ }).queues j).tasks →
      other ∈ (queue.queues j).tasks ∨ j = i ∧ other = ⟨streamId, .remove cid⟩ := by
    intro j other member
    rw [update_queues] at member
    split at member
    next index =>
      rcases TaskQueue.mem_tasks.mp member with pending | waiting
      · exact .inr ⟨index, (Option.some.inj pending).symm⟩
      · exact .inl (index ▸ TaskQueue.mem_tasks.mpr (.inr waiting))
    next => exact .inl member
  refine ⟨?_, ?_, ?_, ?_⟩
  · intro j other member
    rcases tasks j other member with old | ⟨rfl, rfl⟩
    · exact lanes.registered j other old
    · have lane := lanes.registered j _ here
      exact lane
  · intro j other member
    rcases tasks j other member with old | ⟨rfl, rfl⟩
    · exact lanes.sound j other old
    · have sound := lanes.sound j _ here
      exact sound
  · intro j other member
    rw [update_queues] at member
    split at member
    next => exact lanes.waiting i other member
    next => exact lanes.waiting j other member
  · intro j other tip pending
    rw [update_queues] at pending
    split at pending
    next =>
      cases pending
      exact same
    next => exact lanes.compared j other tip pending

end LanesSound

/-- What the node keeps while it is up. -/
structure Sound (node : AnchorNode) : Prop where
  lanes : LanesSound node.conclusions node.store node.anchorStoreQueue
  loop : ∀ task ∈ node.loop, LoopSound node.conclusions task

/-- The runs of `handleValue` that are left, and those that have come further. -/
theorem Sound.loop_set {node : AnchorNode} (sound : Sound node) {i : Nat} {task : LoopTask}
    {conclusions : List Conclusion} (more : node.conclusions ⊆ conclusions)
    (further : LoopSound conclusions task) :
    ∀ other ∈ node.loop.set i task, LoopSound conclusions other := by
  intro other member
  rcases List.mem_or_eq_of_mem_set member with old | rfl
  · exact (sound.loop other old).mono more
  · exact further

theorem Sound.loop_of_subset {node : AnchorNode} (sound : Sound node) {loop : List LoopTask}
    (fewer : loop ⊆ node.loop) : ∀ task ∈ loop, LoopSound node.conclusions task :=
  fun task member => sound.loop task (fewer member)

theorem doneWith_subset (node : AnchorNode) (streamId : StreamID) :
    node.doneWith streamId ⊆ node.loop := List.filter_subset_self _

theorem setEntry_of_ne (node : AnchorNode) {streamId other : StreamID}
    (entry : Option AnchorRequestData) (ne : other ≠ streamId) :
    node.setEntry streamId entry other = node.store other := if_neg ne

theorem Sound.proceed {node : AnchorNode} (sound : Sound node) {i : Nat} {task : AnchorStoreTask}
    (running : (node.anchorStoreQueue.queues i).pending = some task) :
    Sound (node.proceed i task) := by
  obtain ⟨streamId, work⟩ := task
  cases work with
  | save data =>
    exact ⟨sound.lanes.settle running fun other ne => setEntry_of_ne node _ ne, sound.loop⟩
  | compare cid =>
    unfold AnchorNode.proceed
    dsimp only
    split
    next same => exact ⟨sound.lanes.compare running same, sound.loop⟩
    next =>
      exact ⟨sound.lanes.settle running fun _ _ => rfl, sound.loop_of_subset (doneWith_subset _ _)⟩
  | remove cid =>
    exact ⟨sound.lanes.settle running fun other ne => setEntry_of_ne node _ ne,
      sound.loop_of_subset (doneWith_subset _ _)⟩

theorem Sound.step {node node' : AnchorNode} {action : AnchorAction} (sound : Sound node)
    (answers : Answers node action) (stepped : node.step action = some node') : Sound node' := by
  cases action with
  | requestAnchor streamId tip now =>
    obtain rfl := Option.some.inj stepped
    exact ⟨sound.lanes.run trivial nofun, sound.loop⟩
  | start i =>
    dsimp only [AnchorNode.step] at stepped
    split at stepped
    next task may =>
      obtain rfl := Option.some.inj stepped
      exact ⟨sound.lanes.start may, sound.loop⟩
    next => cases stepped
  | proceed i =>
    dsimp only [AnchorNode.step] at stepped
    split at stepped
    next task running =>
      obtain rfl := Option.some.inj stepped
      exact sound.proceed running
    next => cases stepped
  | taskFails i =>
    dsimp only [AnchorNode.step] at stepped
    split at stepped
    next streamId work running =>
      obtain rfl := Option.some.inj stepped
      refine ⟨sound.lanes.settle running fun _ _ => rfl, sound.loop_of_subset ?_⟩
      cases work with
      | save => exact List.Subset.refl _
      | compare | remove => exact doneWith_subset _ _
    next => cases stepped
  | remove name =>
    obtain rfl := Option.some.inj stepped
    exact ⟨sound.lanes.remove name, sound.loop⟩
  | next streamId =>
    dsimp only [AnchorNode.step] at stepped
    split at stepped
    next => cases stepped
    next =>
      obtain rfl := Option.some.inj stepped
      refine ⟨sound.lanes, fun task member => ?_⟩
      rcases List.mem_append.mp member with old | new
      · exact sound.loop task old
      · rw [List.mem_singleton.mp new]
        trivial
  | load i =>
    dsimp only [AnchorNode.step] at stepped
    split at stepped
    next streamId here =>
      split at stepped
      next entry found =>
        obtain rfl := Option.some.inj stepped
        exact ⟨sound.lanes, sound.loop_set (List.Subset.refl _) trivial⟩
      next =>
        obtain rfl := Option.some.inj stepped
        exact ⟨sound.lanes, sound.loop_of_subset (List.eraseIdx_sublist _ i).subset⟩
    next => cases stepped
  | answer i event =>
    dsimp only [AnchorNode.step] at stepped
    split at stepped
    next streamId entry here =>
      obtain rfl := Option.some.inj stepped
      exact ⟨sound.lanes, sound.loop_set (List.Subset.refl _) (answers _ here)⟩
    next => cases stepped
  | lookup i =>
    dsimp only [AnchorNode.step] at stepped
    split at stepped
    next streamId entry event here =>
      obtain ⟨ofStream, ofTip⟩ := sound.loop _ (List.mem_of_getElem? here)
      split at stepped
      next =>
        obtain rfl := Option.some.inj stepped
        exact ⟨sound.lanes, sound.loop_set (List.Subset.refl _) ⟨ofStream, ofTip⟩⟩
      next =>
        obtain rfl := Option.some.inj stepped
        have more := List.subset_append_left node.conclusions [.notFound event.streamId event.cid]
        refine ⟨sound.lanes.mono more, sound.loop_set more (.inr ?_)⟩
        rw [ofStream, ofTip]
        exact List.mem_append_right _ (List.mem_singleton_self _)
    next => cases stepped
  | handled i =>
    dsimp only [AnchorNode.step] at stepped
    split at stepped
    next streamId entry event here =>
      obtain ⟨ofStream, ofTip⟩ := sound.loop _ (List.mem_of_getElem? here)
      split at stepped
      next terminal =>
        obtain rfl := Option.some.inj stepped
        have more := List.subset_append_left node.conclusions [.handled event]
        exact ⟨sound.lanes.mono more, sound.loop_set more
          (.inl ⟨event, List.mem_append_right _ (List.mem_singleton_self _), ofStream, ofTip, terminal⟩)⟩
      next =>
        obtain rfl := Option.some.inj stepped
        exact ⟨sound.lanes, sound.loop_of_subset (List.eraseIdx_sublist _ i).subset⟩
    next => cases stepped
  | queueRemoval i =>
    dsimp only [AnchorNode.step] at stepped
    split at stepped
    next streamId entry here =>
      obtain rfl := Option.some.inj stepped
      have concluded : Concluded node.conclusions streamId entry.cid :=
        sound.loop _ (List.mem_of_getElem? here)
      have queued : TaskSound node.conclusions ⟨streamId, .compare entry.cid⟩ := concluded
      exact ⟨sound.lanes.run queued nofun, sound.loop_set (List.Subset.refl _) trivial⟩
    next => cases stepped
  | fails i =>
    dsimp only [AnchorNode.step] at stepped
    split at stepped
    next => cases stepped
    next =>
      obtain rfl := Option.some.inj stepped
      exact ⟨sound.lanes, sound.loop_of_subset (List.eraseIdx_sublist _ i).subset⟩
    next => cases stepped
  | keep streamId =>
    obtain rfl := Option.some.inj stepped
    exact ⟨sound.lanes, sound.loop⟩
  | drop streamId =>
    obtain rfl := Option.some.inj stepped
    exact ⟨sound.lanes, sound.loop⟩
  | restart =>
    obtain rfl := Option.some.inj stepped
    exact ⟨LanesSound.empty _ _, nofun⟩

/-- Only the removal in a lane leaves a stream without its entry. -/
theorem removal_of_step {node node' : AnchorNode} {action : AnchorAction}
    (stepped : node.step action = some node') {streamId : StreamID} {data : AnchorRequestData}
    (entry : node.store streamId = some data) (removed : node'.store streamId = none) :
    ∃ i cid, action = .proceed i ∧
      (node.anchorStoreQueue.queues i).pending = some ⟨streamId, .remove cid⟩ := by
  have kept : node'.store ≠ node.store := by
    intro same
    rw [same, entry] at removed
    cases removed
  cases action with
  | proceed i =>
    dsimp only [AnchorNode.step] at stepped
    split at stepped
    next task running =>
      obtain rfl := Option.some.inj stepped
      obtain ⟨ofStream, work⟩ := task
      have same : ofStream = streamId := by
        by_contra apart
        have ne : streamId ≠ ofStream := fun same => apart same.symm
        cases work with
        | save new =>
          have other := (setEntry_of_ne node (some new) ne).trans entry
          cases other.symm.trans removed
        | remove =>
          have other := (setEntry_of_ne node none ne).trans entry
          cases other.symm.trans removed
        | compare =>
          unfold AnchorNode.proceed at kept
          dsimp only at kept
          split at kept <;> exact kept rfl
      subst same
      cases work with
      | save new =>
        have saved : node.setEntry ofStream (some new) ofStream = some new := if_pos rfl
        cases saved.symm.trans removed
      | compare =>
        unfold AnchorNode.proceed at kept
        dsimp only at kept
        split at kept <;> exact absurd rfl kept
      | remove cid => exact ⟨i, cid, rfl, running⟩
    next => cases stepped
  | requestAnchor | remove | keep | drop | restart =>
    obtain rfl := Option.some.inj stepped
    exact absurd rfl kept
  | start | taskFails | next | load | answer | lookup | handled | queueRemoval | fails =>
    dsimp only [AnchorNode.step] at stepped
    repeat' split at stepped
    all_goals
      cases stepped
      try exact absurd rfl kept

/-- An entry is removed by the lane of its stream, for the tip of the entry itself, after a
terminal event for this tip was handled or the stream was not found. -/
theorem removed_of_concluded {node node' : AnchorNode}
    (reaches : Transition.Reaches step Answers make node) {action : AnchorAction}
    (stepped : node.step action = some node') {streamId : StreamID} {data : AnchorRequestData}
    (entry : node.store streamId = some data) (removed : node'.store streamId = none) :
    Concluded node.conclusions streamId data.cid ∧ ∃ i, action = .proceed i ∧
      (node.anchorStoreQueue.queues i).pending = some ⟨streamId, .remove data.cid⟩ := by
  have initial : Sound make := ⟨LanesSound.empty _ _, nofun⟩
  have sound := reaches.invariant initial fun _ _ _ sound answers stepped => sound.step answers stepped
  obtain ⟨i, cid, rfl, running⟩ := removal_of_step stepped entry removed
  have compared := sound.lanes.compared i streamId cid running
  rw [entry] at compared
  obtain rfl := Option.some.inj compared
  exact ⟨sound.lanes.sound i _ (TaskQueue.mem_tasks.mpr (.inl running)), i, rfl, running⟩

instance (event : StreamAnchorEvent) : (task : LoopTask) → Decidable (IsAbout event task)
  | ⟨streamId, .loaded entry⟩ =>
    inferInstanceAs (Decidable (event.streamId = streamId ∧ event.cid = entry.cid))
  | ⟨_, .fetched⟩ => isTrue trivial
  | ⟨_, .answered _ _⟩ => isTrue trivial
  | ⟨_, .handling _ _⟩ => isTrue trivial
  | ⟨_, .terminal _⟩ => isTrue trivial
  | ⟨_, .removing⟩ => isTrue trivial

instance (node : AnchorNode) : (action : AnchorAction) → Decidable (Answers node action)
  | .answer i event => inferInstanceAs (Decidable (∀ task ∈ node.loop[i]?, IsAbout event task))
  | .requestAnchor _ _ _ => isTrue trivial
  | .start _ => isTrue trivial
  | .proceed _ => isTrue trivial
  | .taskFails _ => isTrue trivial
  | .remove _ => isTrue trivial
  | .next _ => isTrue trivial
  | .load _ => isTrue trivial
  | .lookup _ => isTrue trivial
  | .handled _ => isTrue trivial
  | .queueRemoval _ => isTrue trivial
  | .fails _ => isTrue trivial
  | .keep _ => isTrue trivial
  | .drop _ => isTrue trivial
  | .restart => isTrue trivial

def anchoredStream : StreamID := ⟨TILE_TYPE_ID, ⟨[1]⟩⟩

def anchorEvent (status : AnchorRequestStatusName) (tip : Cid) : StreamAnchorEvent :=
  { status, cid := tip, streamId := anchoredStream }

/-- A tip is requested and saved. -/
def request (tip : Cid) (now index : Nat) : List AnchorAction :=
  [.requestAnchor anchoredStream tip now, .start index, .proceed index]

/-- The loop learns that the tip is anchored, and is about to remove the request. -/
def completed : List AnchorAction :=
  [.keep anchoredStream] ++ request ⟨[2]⟩ 0 0 ++
    [.remove anchoredStream.toString, .next anchoredStream, .load 0,
      .answer 0 (anchorEvent .COMPLETED ⟨[2]⟩), .lookup 0, .handled 0, .queueRemoval 0, .start 1,
      .proceed 1]

/-- The loop does not find the stream, which is then stored and requested to be anchored again. -/
def storedAgain : List AnchorAction :=
  [.keep anchoredStream] ++ request ⟨[2]⟩ 0 0 ++
    [.drop anchoredStream, .next anchoredStream, .load 0,
      .answer 0 (anchorEvent .PENDING ⟨[2]⟩), .lookup 0, .keep anchoredStream] ++
    request ⟨[2]⟩ 5 0 ++ [.queueRemoval 0, .start 0, .proceed 0]

def afterAnchoring (actions : List AnchorAction) : AnchorNode :=
  (Transition.run step make actions).getD make

theorem removed_of_concluded_completed :
    Concluded (afterAnchoring completed).conclusions anchoredStream ⟨[2]⟩ ∧
      ∃ i, AnchorAction.proceed 1 = .proceed i ∧
        ((afterAnchoring completed).anchorStoreQueue.queues i).pending =
          some ⟨anchoredStream, .remove ⟨[2]⟩⟩ := by
  have reaches : Transition.Reaches step Answers make (afterAnchoring completed) :=
    Transition.reaches_of_run
      (rfl : Transition.run step make completed = some (afterAnchoring completed)) (by decide)
  have stepped : (afterAnchoring completed).step (.proceed 1) =
      some ((afterAnchoring completed).proceed 1 ⟨anchoredStream, .remove ⟨[2]⟩⟩) := rfl
  have entry : (afterAnchoring completed).store anchoredStream = some ⟨⟨[2]⟩, 0⟩ := rfl
  exact removed_of_concluded reaches stepped entry rfl

/-- The request of a stream that the node stores is removed without any event for its tip that is
terminal. -/
theorem request_lost : ¬∀ (node node' : AnchorNode) (action : AnchorAction) (streamId : StreamID)
    (data : AnchorRequestData), Transition.Reaches step Answers make node →
    node.step action = some node' → node.store streamId = some data → node'.store streamId = none →
      Handled node.conclusions streamId data.cid ∨ node.stored streamId = false := by
  intro kept
  have reaches : Transition.Reaches step Answers make (afterAnchoring storedAgain) :=
    Transition.reaches_of_run
      (rfl : Transition.run step make storedAgain = some (afterAnchoring storedAgain)) (by decide)
  have stepped : (afterAnchoring storedAgain).step (.proceed 0) =
      some ((afterAnchoring storedAgain).proceed 0 ⟨anchoredStream, .remove ⟨[2]⟩⟩) := rfl
  have entry : (afterAnchoring storedAgain).store anchoredStream = some ⟨⟨[2]⟩, 5⟩ := rfl
  rcases kept _ _ _ _ _ reaches stepped entry rfl with ⟨event, member, _⟩ | dropped
  · have conclusions : (afterAnchoring storedAgain).conclusions =
        [.notFound anchoredStream ⟨[2]⟩] := rfl
    rw [conclusions] at member
    cases List.mem_singleton.mp member
  · revert dropped
    decide

end AnchorNode

end Ceramic
