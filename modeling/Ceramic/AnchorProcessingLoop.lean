import Ceramic.NamedTaskQueue
import Ceramic.Repository

/-! The requests for anchors. The anchor service saves a request, one for each stream, and the
loop asks for what has become of it and removes it; both do so in the lane of the stream. -/
namespace Ceramic

structure AnchorRequestData where
  cid : Cid
  timestamp : Nat
  deriving DecidableEq, Repr

/-- What is left to do of a task of `anchorStoreQueue`. -/
inductive AnchorStoreWork where
  | save (data : AnchorRequestData)
  /-- Load the entry, and remove it if its tip is this one. -/
  | compare (cid : Cid)
  /-- The tips are equal. -/
  | remove (cid : Cid)
  deriving DecidableEq, Repr

structure AnchorStoreTask where
  streamId : StreamID
  work : AnchorStoreWork
  deriving DecidableEq, Repr

def AnchorStoreTask.lane (task : AnchorStoreTask) : String := task.streamId.toString

/-- An event with the stream that it is for. -/
structure StreamAnchorEvent extends AnchorEvent where
  streamId : StreamID
  deriving DecidableEq, Repr

/-- How far `handleValue` has come. -/
inductive LoopStage where
  | fetched
  | loaded (entry : AnchorRequestData)
  | answered (entry : AnchorRequestData) (event : StreamAnchorEvent)
  /-- `handleAnchorEvent` is under way. -/
  | handling (entry : AnchorRequestData) (event : StreamAnchorEvent)
  /-- `handle` has returned true. -/
  | terminal (entry : AnchorRequestData)
  | removing
  deriving DecidableEq, Repr

structure LoopTask where
  streamId : StreamID
  stage : LoopStage
  deriving DecidableEq, Repr

/-- How `handle` came to return true for a request. -/
inductive Conclusion where
  | handled (event : StreamAnchorEvent)
  /-- The stream was neither in memory nor in the state store. -/
  | notFound (streamId : StreamID) (cid : Cid)
  deriving DecidableEq, Repr

structure AnchorNode where
  store : StreamID → Option AnchorRequestData
  /-- The streams that are in memory or in the state store. -/
  stored : StreamID → Bool
  anchorStoreQueue : NamedTaskQueue AnchorStoreTask
  loop : List LoopTask
  /-- What has been concluded so far. -/
  conclusions : List Conclusion

inductive AnchorAction where
  | requestAnchor (streamId : StreamID) (tip : Cid) (now : Nat)
  /-- A lane of the queue starts its next task. -/
  | start (index : Nat)
  /-- The running task of a lane goes on. -/
  | proceed (index : Nat)
  | taskFails (index : Nat)
  /-- The queue sees that a task of this name is done. -/
  | remove (name : String)
  | next (streamId : StreamID)
  | load (i : Nat)
  | answer (i : Nat) (event : StreamAnchorEvent)
  | lookup (i : Nat)
  | handled (i : Nat)
  | queueRemoval (i : Nat)
  | fails (i : Nat)
  | keep (streamId : StreamID)
  | drop (streamId : StreamID)
  | restart
  deriving DecidableEq, Repr

/-- What `handleAnchorEvent` returns. -/
def AnchorRequestStatusName.isTerminal : AnchorRequestStatusName → Bool
  | .READY | .PENDING | .PROCESSING => false
  | .COMPLETED | .FAILED | .REPLACED => true

namespace AnchorNode

def make : AnchorNode := ⟨fun _ => none, fun _ => false, {}, [], []⟩

def setEntry (node : AnchorNode) (streamId : StreamID) (entry : Option AnchorRequestData) :
    StreamID → Option AnchorRequestData :=
  fun other => if other = streamId then entry else node.store other

/-- The running task of a lane is done. -/
def settle (node : AnchorNode) (index : Nat) : NamedTaskQueue AnchorStoreTask :=
  node.anchorStoreQueue.update index (node.anchorStoreQueue.queues index).settle

/-- The loop has no more to do for a stream. -/
def doneWith (node : AnchorNode) (streamId : StreamID) : List LoopTask :=
  node.loop.filter fun task => task.streamId ≠ streamId || task.stage ≠ .removing

/-- The next part of the task that a lane runs. -/
def proceed (node : AnchorNode) (index : Nat) (task : AnchorStoreTask) : AnchorNode :=
  match task.work with
  | .save data => { node with
      store := node.setEntry task.streamId (some data)
      anchorStoreQueue := node.settle index }
  | .compare cid =>
    if (node.store task.streamId).map (·.cid) = some cid then { node with
      anchorStoreQueue := node.anchorStoreQueue.update index { node.anchorStoreQueue.queues index with
        pending := some ⟨task.streamId, .remove cid⟩ } }
    else { node with
      anchorStoreQueue := node.settle index
      loop := node.doneWith task.streamId }
  | .remove _ => { node with
      store := node.setEntry task.streamId none
      anchorStoreQueue := node.settle index
      loop := node.doneWith task.streamId }

def step (node : AnchorNode) : AnchorAction → Option AnchorNode
  | .requestAnchor streamId tip now =>
    let task : AnchorStoreTask := ⟨streamId, .save ⟨tip, now⟩⟩
    some { node with anchorStoreQueue := node.anchorStoreQueue.run task.lane task }
  | .start index =>
    match (node.anchorStoreQueue.queues index).next with
    | some task => some { node with anchorStoreQueue :=
        node.anchorStoreQueue.update index ((node.anchorStoreQueue.queues index).start task) }
    | none => none
  | .proceed index =>
    match (node.anchorStoreQueue.queues index).pending with
    | some task => some (node.proceed index task)
    | none => none
  | .taskFails index =>
    match (node.anchorStoreQueue.queues index).pending with
    | some ⟨streamId, work⟩ => some { node with
        anchorStoreQueue := node.settle index
        loop := match work with
          | .save _ => node.loop
          | _ => node.doneWith streamId }
    | none => none
  | .remove name => some { node with anchorStoreQueue := node.anchorStoreQueue.remove name }
  | .next streamId =>
    -- `taskIds`
    if node.loop.any fun task => task.streamId = streamId then none
    else some { node with loop := node.loop ++ [⟨streamId, .fetched⟩] }
  | .load i =>
    match node.loop[i]? with
    | some ⟨streamId, .fetched⟩ =>
      match node.store streamId with
      | some entry => some { node with loop := node.loop.set i ⟨streamId, .loaded entry⟩ }
      | none => some { node with loop := node.loop.eraseIdx i }
    | _ => none
  | .answer i event =>
    match node.loop[i]? with
    | some ⟨streamId, .loaded entry⟩ =>
      some { node with loop := node.loop.set i ⟨streamId, .answered entry event⟩ }
    | _ => none
  | .lookup i =>
    match node.loop[i]? with
    | some ⟨streamId, .answered entry event⟩ =>
      if node.stored event.streamId then
        some { node with loop := node.loop.set i ⟨streamId, .handling entry event⟩ }
      else some { node with
        loop := node.loop.set i ⟨streamId, .terminal entry⟩
        conclusions := node.conclusions ++ [.notFound event.streamId event.cid] }
    | _ => none
  | .handled i =>
    match node.loop[i]? with
    | some ⟨streamId, .handling entry event⟩ =>
      if event.status.isTerminal then some { node with
        loop := node.loop.set i ⟨streamId, .terminal entry⟩
        conclusions := node.conclusions ++ [.handled event] }
      else some { node with loop := node.loop.eraseIdx i }
    | _ => none
  | .queueRemoval i =>
    match node.loop[i]? with
    | some ⟨streamId, .terminal entry⟩ =>
      let task : AnchorStoreTask := ⟨streamId, .compare entry.cid⟩
      some { node with
        anchorStoreQueue := node.anchorStoreQueue.run task.lane task
        loop := node.loop.set i ⟨streamId, .removing⟩ }
    | _ => none
  | .fails i =>
    match node.loop[i]? with
    | some ⟨_, .removing⟩ => none
    | some _ => some { node with loop := node.loop.eraseIdx i }
    | none => none
  | .keep streamId => some { node with
      stored := fun other => other == streamId || node.stored other }
  | .drop streamId => some { node with
      stored := fun other => other != streamId && node.stored other }
  | .restart => some { node with anchorStoreQueue := {}, loop := [] }

end AnchorNode

end Ceramic
