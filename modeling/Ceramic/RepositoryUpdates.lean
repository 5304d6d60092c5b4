import Ceramic.Repository
import Ceramic.StateCache

/-! The subscriptions to `updates$` of one stream. The operations on the stream take their turns
beside them, and other streams use the cache of running states meanwhile. -/
namespace Ceramic

open StreamUtils

/-- A running state of the stream, by its place in the heap, or one of another stream. -/
inductive CacheItem where
  | ours (state : Nat)
  | other
  deriving DecidableEq, Repr

/-- Running states are objects. -/
instance : ToBoolean CacheItem := ⟨fun _ => true⟩

inductive SubscriberStage where
  | queued
  | readingStore
  | storeRead (stored : Option StreamState)
  /-- `fromMemoryOrStore` has resolved. -/
  | found (state : Option Nat)
  /-- With what it received, and what the registered running state was since the first value. -/
  | subscribed (state : Nat) (received due : List StreamState)
  /-- It was closed before the running state tracked it, and is not removed any more. -/
  | leftover (state : Nat)
  | unsubscribed
  /-- Its running state was evicted. -/
  | completed
  | errored
  deriving DecidableEq

structure UpdatesSubscriber where
  init : StreamState
  stage : SubscriberStage := .queued
  closed : Bool := false
  deriving DecidableEq

/-- What another stream does with the cache. -/
inductive CacheUse where
  | get | set | endure | free
  deriving DecidableEq, Repr

inductive UpdatesAction where
  | repository (action : RepositoryAction)
  | streamState
  | other (key : String) (use : CacheUse)
  | subscribe (init : StreamState)
  | proceed (index : Nat)
  | error (index : Nat)
  | unsubscribe (index : Nat)
  deriving DecidableEq, Repr

structure CachedRepository (stream : StreamID) where
  /-- Its `inmemory` is what the cache has. -/
  repository : Repository
  inmemory : StateCache String CacheItem
  /-- The running states that were evicted. -/
  completed : List Nat := []
  subscribers : List UpdatesSubscriber := []

namespace SubscriberStage

/-- The subscription is in the running state's `subscriptionSet`. -/
def isTracked (stage : SubscriberStage) (state : Nat) : Bool :=
  match stage with
  | .subscribed other _ _ | .leftover other => other = state
  | _ => false

def isSubscribed (stage : SubscriberStage) (state : Nat) : Bool :=
  match stage with
  | .subscribed other _ _ => other = state
  | _ => false

/-- The lookup holds the stream's lane of the loading queue. -/
def isLoading : SubscriberStage → Bool
  | .readingStore | .storeRead _ => true
  | _ => false

def complete (stage : SubscriberStage) (state : Nat) : SubscriberStage :=
  if stage.isSubscribed state then .completed else stage

def next (stage : SubscriberStage) (state : Nat) (value : StreamState) : SubscriberStage :=
  match stage with
  | .subscribed other received due =>
    if other = state then .subscribed other (received ++ [value]) due else stage
  | _ => stage

/-- Takes down the value that the registered running state has. -/
def note (stage : SubscriberStage) (registered : Option StreamState) : SubscriberStage :=
  match stage, registered with
  | .subscribed state received due, some value =>
    if due.getLast? = some value then stage else .subscribed state received (due ++ [value])
  | _, _ => stage

end SubscriberStage

namespace CachedRepository

variable {stream : StreamID} (s : CachedRepository stream)

def key (_ : CachedRepository stream) : String := stream.toString

/-- The running state that the cache has for the stream. -/
def registered : Option Nat :=
  match s.inmemory.get s.key with
  | some (.ours state) => some state
  | _ => none

def registeredValue : Option StreamState := do
  let state ← s.registered
  let found ← s.repository.heap[state]?
  return found.value

/-- The repository as an operation finds it. -/
def current : Repository := { s.repository with inmemory := s.registered }

def mapStages (f : SubscriberStage → SubscriberStage) : CachedRepository stream :=
  { s with subscribers := s.subscribers.map fun subscriber => { subscriber with stage := f subscriber.stage } }

def setStage (index : Nat) (stage : SubscriberStage) : CachedRepository stream :=
  { s with subscribers := s.subscribers.modify index fun subscriber => { subscriber with stage } }

def subscriptionSetIsEmpty (state : Nat) : Bool :=
  s.subscribers.all fun subscriber => !subscriber.stage.isTracked state

def noneLoading : Bool := s.subscribers.all fun subscriber => !subscriber.stage.isLoading

/-- The callback of the cache: the running state completes. With the last of its subscriptions
it is freed, and what this evicts is of another stream. -/
def onEvicted : CacheItem → CachedRepository stream
  | .other => s
  | .ours state =>
    let closed := s.mapStages (·.complete state)
    let free := s.subscribers.any (·.stage.isSubscribed state) && closed.subscriptionSetIsEmpty state
    { closed with
      completed := s.completed ++ [state]
      inmemory := if free then s.inmemory.free s.key else s.inmemory }

def evict (entries : List (String × CacheItem)) : CachedRepository stream :=
  entries.foldl (fun s entry => s.onEvicted entry.2) s

def set (key : String) (item : CacheItem) : CachedRepository stream :=
  { s with inmemory := s.inmemory.set key item }.evict (s.inmemory.evictedBySet key item)

def free (key : String) : CachedRepository stream :=
  { s with inmemory := s.inmemory.free key }.evict (s.inmemory.evictedByFree key)

def get (key : String) : CachedRepository stream := { s with inmemory := s.inmemory.afterGet key }

/-- What another stream does. -/
def use (key : String) : CacheUse → CachedRepository stream
  | .get => s.get key
  | .set => s.set key .other
  | .endure => { s with inmemory := s.inmemory.endure key .other }
  | .free => s.free key

/-- `state$.next(value)`: only a value that is not the current one is emitted. -/
def next (state : Nat) (value : StreamState) : CachedRepository stream :=
  match s.repository.heap[state]? with
  | some old => if old.value = value then s else s.mapStages (·.next state value)
  | none => s

/-- What a turn of an operation does to the cache and the subscribers. -/
def write : Write → CachedRepository stream
  | .register _ => s.set s.key (.ours s.repository.heap.length)
  | .next state value => s.next state value
  | _ => s

def take (index : Nat) (operation : Operation) (turn : Turn) : CachedRepository stream :=
  { s.write turn.write with repository := s.current.take index operation turn }

/-- `_registerRunningState` of a new running state. -/
def registerRunningState (state : RunningState) : CachedRepository stream :=
  { s.set s.key (.ours s.repository.heap.length) with
    repository := s.repository.registerRunningState state }

/-- An operation that looks the stream up takes the loading lane, but for the unsafe lookup. -/
def mayLookUp : Stage → Bool
  | .queuedLookup lookup => lookup = .fromMemoryOrStore_UNSAFE || s.noneLoading
  | _ => true

def lookUp : Stage → CachedRepository stream
  | .queuedLookup _ => s.get s.key
  | _ => s

/-- The end of `updates$`, with the running state to subscribe to. -/
def subscribeTo (index : Nat) (subscriber : UpdatesSubscriber) (state : Nat) :
    Option (CachedRepository stream) := do
  let found ← s.repository.heap[state]?
  let endured := { s with inmemory := s.inmemory.endure s.key (.ours state) }
  if subscriber.closed || s.completed.contains state then return endured.setStage index (.leftover state)
  else return endured.setStage index (.subscribed state [found.value] [found.value])

/-- What `updates$` does next for a subscriber. -/
def proceed (node : Node stream) (index : Nat) (subscriber : UpdatesSubscriber) :
    Option (CachedRepository stream) :=
  match subscriber.stage with
  | .queued => do
    guard (node.isFree s.repository .loading && s.noneLoading)
    match s.registered with
    | some state => return (s.get s.key).setStage index (.found (some state))
    | none => return (s.get s.key).setStage index .readingStore
  | .readingStore => some (s.setStage index (.storeRead s.repository.stored))
  | .storeRead (some value) =>
    some ((s.registerRunningState (.make value true)).setStage index (.found (some s.repository.heap.length)))
  | .storeRead none => some (s.setStage index (.found none))
  | .found (some state) => s.subscribeTo index subscriber state
  | .found none =>
    (s.registerRunningState (.make subscriber.init false)).subscribeTo index subscriber s.repository.heap.length
  | _ => none

/-- The end of a subscription. The last one of the running state frees it. -/
def unsubscribe (index : Nat) (subscriber : UpdatesSubscriber) : Option (CachedRepository stream) :=
  match subscriber.stage with
  | .subscribed state _ _ =>
    let left := s.setStage index .unsubscribed
    some (if left.subscriptionSetIsEmpty state then left.free s.key else left)
  | .queued | .readingStore | .storeRead _ | .found _ =>
    some { s with subscribers := s.subscribers.set index { subscriber with closed := true } }
  | _ => none

def act (node : Node stream) : UpdatesAction → Option (CachedRepository stream)
  | .repository (.call call) => do
    let repository ← s.repository.step node (.call call)
    return { s with repository }
  | .repository (.proceed index moment tips) => do
    let operation ← s.repository.operations[index]?
    guard (s.mayLookUp operation.stage)
    let turn ← node.advance s.current operation moment tips
    return (s.lookUp operation.stage).take index operation turn
  | .repository (.fail index) => do
    let operation ← s.repository.operations[index]?
    let turn ← Node.rejected s.current operation
    return s.take index operation turn
  | .streamState => some (s.get s.key)
  | .other key use => if key = s.key then none else some (s.use key use)
  | .subscribe init =>
    if streamIdFromState init = stream then
      some { s with subscribers := s.subscribers ++ [{ init }] }
    else none
  | .proceed index => do
    let subscriber ← s.subscribers[index]?
    s.proceed node index subscriber
  | .error index => do
    let subscriber ← s.subscribers[index]?
    guard (subscriber.stage = .readingStore)
    return s.setStage index .errored
  | .unsubscribe index => do
    let subscriber ← s.subscribers[index]?
    s.unsubscribe index subscriber

def step (node : Node stream) (s : CachedRepository stream) (action : UpdatesAction) :
    Option (CachedRepository stream) := do
  let after ← s.act node action
  return after.mapStages (·.note after.registeredValue)

/-- A node that has started with what its state store holds. -/
def boot (stream : StreamID) (stored : Option StreamState) (limit : Nat) (positive : 0 < limit) :
    CachedRepository stream where
  repository := .boot stored
  inmemory := .new String CacheItem limit positive

end CachedRepository

end Ceramic
