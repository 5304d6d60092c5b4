import Ceramic.NamedTaskQueue
import Ceramic.StreamId
import Ceramic.Library.Transition

/-! The execution queue, one step at a time. A task waits in the lane of its id's text,
then for the semaphore, and then runs; its lane goes on once it has seen the task end. -/
namespace Ceramic

/-- Waiters get the semaphore in the order in which they ask for it. -/
structure Semaphore (Task : Type) where
  count : Nat
  waiting : List Task := []

/-- The `number`th task submitted. -/
structure StreamTask where
  number : Nat
  id : StreamRef
  deriving DecidableEq, Repr

/-- The name of the task's lane. -/
def StreamTask.lane (task : StreamTask) : String := task.id.toString

def StreamTask.stream (task : StreamTask) : StreamID := task.id.baseID

structure ExecutionQueue where
  name : String
  concurrencyLimit : Nat
  tasks : NamedTaskQueue StreamTask := {}
  semaphore : Semaphore StreamTask
  /-- The names whose `remove` is due because a task of theirs is done. -/
  removing : List String := []
  submitted : List StreamTask := []
  started : List StreamTask := []
  ended : List StreamTask := []
  warnings : List String := []

namespace ExecutionQueue

def make (name : String) (concurrencyLimit : Nat) : ExecutionQueue :=
  { name, concurrencyLimit, semaphore := { count := concurrencyLimit } }

def running (queue : ExecutionQueue) : List StreamTask :=
  queue.started.filter fun task => task ∉ queue.ended

inductive Action where
  | run (id : StreamRef)
  /-- A lane starts its next task, which asks for the semaphore. -/
  | start (index : Nat)
  /-- The semaphore is given to the first waiter, whose task begins. -/
  | acquire
  /-- A task ends and its semaphore is released. -/
  | finish (task : StreamTask)
  /-- A lane sees that its task has ended. -/
  | settle (index : Nat)
  | remove (name : String)
  | pause
  deriving DecidableEq, Repr

def warning (queue : ExecutionQueue) : List String :=
  if queue.semaphore.count = 0
  then [queue.name ++ " queue is full, over " ++ toString queue.concurrencyLimit ++
    " pending requests found"]
  else []

def step (queue : ExecutionQueue) : Action → Option ExecutionQueue
  | .run id =>
    let task : StreamTask := ⟨queue.submitted.length, id⟩
    some { queue with
      tasks := queue.tasks.run id.toString task
      submitted := queue.submitted ++ [task] }
  | .start index =>
    match (queue.tasks.queues index).next with
    | none => none
    | some task => some { queue with
        tasks := queue.tasks.update index ((queue.tasks.queues index).start task)
        semaphore := { queue.semaphore with waiting := queue.semaphore.waiting ++ [task] }
        warnings := queue.warnings ++ queue.warning }
  | .acquire =>
    match queue.semaphore.count, queue.semaphore.waiting with
    | count + 1, task :: waiting => some { queue with
        semaphore := { count, waiting }
        started := queue.started ++ [task] }
    | _, _ => none
  | .finish task =>
    if task ∈ queue.running
    then some { queue with
      semaphore := { queue.semaphore with count := queue.semaphore.count + 1 }
      ended := queue.ended ++ [task] }
    else none
  | .settle index =>
    match (queue.tasks.queues index).pending with
    | none => none
    | some task =>
      if task ∈ queue.ended
      then some { queue with
        tasks := queue.tasks.update index (queue.tasks.queues index).settle
        removing := queue.removing ++ [task.lane] }
      else none
  | .remove name =>
    if name ∈ queue.removing
    then some { queue with
      tasks := queue.tasks.remove name
      removing := queue.removing.erase name }
    else none
  | .pause => some { queue with tasks := queue.tasks.pause }

end ExecutionQueue

end Ceramic
