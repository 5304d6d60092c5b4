import Ceramic.NoLostUpdate
import Ceramic.RepositoryUpdates
import Ceramic.RepositoryWrites

/-! Whether a subscriber to `updates$` stays on the registered running state of its stream. The
cache does not evict what is durable, so a subscription ends up beside the registered running
state only where a new one is registered under it, or another one is made durable. -/
namespace Ceramic

namespace SubscriberStage

/-- What its subscriber relies on. -/
def IsFresh (registered : Option Nat) : SubscriberStage → Prop
  | .subscribed state received due => registered = some state ∧ received = due
  | .completed => False
  | _ => True

/-- Not subscribed, or to this running state. -/
def isApartFrom (stage : SubscriberStage) (state : Option Nat) : Bool :=
  match stage with
  | .subscribed other _ _ => state = some other
  | _ => true

end SubscriberStage

namespace CachedRepository

variable {stream : StreamID}

/-- Every subscriber is on the registered running state and has received every value that it
has had since the first one, and none was completed. -/
def NeverStale (s : CachedRepository stream) : Prop :=
  ∀ subscriber ∈ s.subscribers, subscriber.stage.IsFresh s.registered

/-- Every subscription is to this running state. -/
def onlySubscribedTo (s : CachedRepository stream) (state : Option Nat) : Bool :=
  s.subscribers.all fun subscriber => subscriber.stage.isApartFrom state

/-- No running state is registered while there are subscriptions, and none but theirs is made
durable. -/
def keepsSubscriptions (s : CachedRepository stream) : UpdatesAction → Bool
  | .repository (.proceed index _ _) =>
    match s.repository.operations[index]? with
    | some operation => !operation.stage.registers || s.onlySubscribedTo none
    | none => true
  | .proceed index =>
    match s.subscribers[index]? with
    | some subscriber =>
      match subscriber.stage with
      | .storeRead (some _) | .found none => s.onlySubscribedTo none
      | .found (some state) => s.onlySubscribedTo (some state)
      | _ => true
    | none => true
  | _ => true

/-- An item is of the stream only under its key. -/
def IsOwn (stream : StreamID) (key : String) (item : CacheItem) : Prop :=
  ∀ state, item = .ours state → key = stream.toString

/-- A subscription is to a durable running state, and with its value the subscriber has all. -/
def Serves (inmemory : StateCache String CacheItem) (heap : List RunningState) (stream : StreamID)
    (Delivered : StreamState → List StreamState → List StreamState → Prop) : SubscriberStage → Prop
  | .subscribed state received due => inmemory.Endures stream.toString (.ours state) ∧
    ∃ found, heap[state]? = some found ∧ Delivered found.value received due
  | .completed => False
  | _ => True

structure Upheld (s : CachedRepository stream)
    (Delivered : StreamState → List StreamState → List StreamState → Prop) : Prop where
  own : s.inmemory.All (IsOwn stream)
  serves : ∀ subscriber ∈ s.subscribers,
    Serves s.inmemory s.repository.heap stream Delivered subscriber.stage

/-- What is received is what is due, down to the current value. -/
def UpToDate (value : StreamState) (received due : List StreamState) : Prop :=
  received = due ∧ due.getLast? = some value

/-- What is received is what is due once the current value has been taken down. -/
def AheadOf (value : StreamState) (received due : List StreamState) : Prop :=
  received.getLast? = some value ∧
    received = if due.getLast? = some value then due else due ++ [value]

theorem UpToDate.aheadOf {value : StreamState} {received due : List StreamState}
    (upToDate : UpToDate value received due) : AheadOf value received due := by
  obtain ⟨rfl, last⟩ := upToDate
  exact ⟨last, by rw [if_pos last]⟩

theorem UpToDate.next {old value : StreamState} {received due : List StreamState}
    (upToDate : UpToDate old received due) (isNew : old ≠ value) :
    AheadOf value (received ++ [value]) due := by
  obtain ⟨rfl, last⟩ := upToDate
  refine ⟨by simp, ?_⟩
  rw [if_neg (by simpa [last] using isNew)]

section

variable {inmemory inmemory' : StateCache String CacheItem} {heap heap' : List RunningState}
  {Delivered Delivered' : StreamState → List StreamState → List StreamState → Prop}
  {stage : SubscriberStage}

/-- The subscription stays if the durable running state and its value do. -/
theorem Serves.mono (serves : Serves inmemory heap stream Delivered stage)
    (endures : ∀ state, inmemory.Endures stream.toString (.ours state) →
      inmemory'.Endures stream.toString (.ours state))
    (values : ∀ (state : Nat) (found : RunningState), heap[state]? = some found →
      ∃ found', heap'[state]? = some found' ∧ found'.value = found.value)
    (delivered : ∀ value received due, Delivered value received due → Delivered' value received due) :
    Serves inmemory' heap' stream Delivered' stage := by
  cases stage with
  | subscribed state received due =>
    obtain ⟨durable, found, at_state, upToDate⟩ := serves
    obtain ⟨found', at_state', same⟩ := values state found at_state
    exact ⟨endures state durable, found', at_state', same ▸ delivered _ _ _ upToDate⟩
  | completed => exact serves
  | _ => trivial

/-- Without a subscription nothing is relied on. -/
theorem Serves.of_apart (serves : Serves inmemory heap stream Delivered stage)
    (apart : stage.isApartFrom none = true) : Serves inmemory' heap' stream Delivered' stage := by
  cases stage with
  | subscribed state received due => simp [SubscriberStage.isApartFrom] at apart
  | completed => exact serves
  | _ => trivial

theorem Serves.next {state : Nat} {value : StreamState} {old : RunningState}
    (serves : Serves inmemory heap stream UpToDate stage) (at_state : heap[state]? = some old)
    (isNew : old.value ≠ value) :
    Serves inmemory (heap.modify state fun old => { old with value }) stream AheadOf
      (stage.next state value) := by
  cases stage with
  | subscribed other received due =>
    obtain ⟨durable, found, at_other, upToDate⟩ := serves
    unfold SubscriberStage.next
    by_cases same : other = state
    · subst same
      obtain rfl := Option.some.inj (at_state.symm.trans at_other)
      simp only [if_true]
      exact ⟨durable, { old with value }, by simp [at_state], upToDate.next isNew⟩
    · simp only [if_neg same]
      refine ⟨durable, found, ?_, upToDate.aheadOf⟩
      rw [List.getElem?_modify, at_other]
      simp [Ne.symm same]
  | completed => exact serves
  | _ => trivial

/-- Once the registered value is taken down, what is received is what is due. -/
theorem Serves.note {registered : Option StreamState} (serves : Serves inmemory heap stream AheadOf stage)
    (value : ∀ (state : Nat) (found : RunningState), inmemory.Endures stream.toString (.ours state) →
      heap[state]? = some found → registered = some found.value) :
    Serves inmemory heap stream UpToDate (stage.note registered) := by
  cases stage with
  | subscribed state received due =>
    obtain ⟨durable, found, at_state, last, eq⟩ := serves
    unfold SubscriberStage.note
    rw [value state found durable at_state]
    dsimp only
    split at eq
    next noted =>
      subst eq
      rw [if_pos noted]
      exact ⟨durable, found, at_state, rfl, noted⟩
    next notNoted =>
      subst eq
      rw [if_neg notNoted]
      exact ⟨durable, found, at_state, rfl, last⟩
  | completed => exact serves
  | _ => trivial

/-- A subscription to what becomes durable begins, or goes on. -/
theorem Serves.endure {state : Nat} (serves : Serves inmemory heap stream Delivered stage)
    (apart : stage.isApartFrom (some state) = true)
    (delivered : ∀ value received due, Delivered value received due → Delivered' value received due) :
    Serves (inmemory.endure stream.toString (.ours state)) heap stream Delivered' stage := by
  cases stage with
  | subscribed other received due =>
    obtain ⟨_, found, at_state, upToDate⟩ := serves
    have same : state = other := by simpa [SubscriberStage.isApartFrom] using apart
    subst same
    exact ⟨.begin, found, at_state, delivered _ _ _ upToDate⟩
  | completed => exact serves
  | _ => trivial

end

section

variable {s s' : CachedRepository stream} {node : Node stream}
  {Delivered Delivered' : StreamState → List StreamState → List StreamState → Prop}

theorem forall_setStage {P : SubscriberStage → Prop} {index : Nat} {stage : SubscriberStage}
    (all : ∀ subscriber ∈ s.subscribers, P subscriber.stage) (new : P stage) :
    ∀ subscriber ∈ (s.setStage index stage).subscribers, P subscriber.stage := by
  intro subscriber member
  obtain ⟨i, at_i⟩ := List.mem_iff_getElem?.mp member
  rw [setStage, List.getElem?_modify] at at_i
  obtain ⟨old, at_old, rfl⟩ := Option.map_eq_some_iff.mp at_i
  split
  · exact new
  · exact all old (List.mem_of_getElem? at_old)

theorem mem_setStage {index : Nat} {subscriber other : UpdatesSubscriber} {stage : SubscriberStage}
    (at_index : s.subscribers[index]? = some subscriber) (member : other ∈ s.subscribers)
    (apart : other.stage ≠ subscriber.stage) : other ∈ (s.setStage index stage).subscribers := by
  obtain ⟨i, at_i⟩ := List.mem_iff_getElem?.mp member
  refine List.mem_iff_getElem?.mpr ⟨i, ?_⟩
  have notIndex : index ≠ i := by
    rintro rfl
    exact apart (congrArg _ (Option.some.inj (at_i.symm.trans at_index)))
  rw [setStage, List.getElem?_modify, at_i]
  simp [notIndex]

/-- A running state of the stream in the volatile bucket has no subscription. -/
theorem Upheld.notSubscribed (upheld : s.Upheld Delivered) {key : String} {state : Nat}
    (volatile : (key, .ours state) ∈ s.inmemory.volatile.entries) (other : Nat) :
    ∀ subscriber ∈ s.subscribers, subscriber.stage.isSubscribed other = false := by
  intro subscriber member
  have serves := upheld.serves subscriber member
  cases stage : subscriber.stage with
  | subscribed subscribed received due =>
    rw [stage] at serves
    exact absurd (upheld.own.volatile _ volatile state rfl) (serves.1.apart _ volatile)
  | _ => rfl

/-- No subscription is evicted. -/
theorem Upheld.evict (upheld : s.Upheld Delivered) {inmemory : StateCache String CacheItem}
    {entries : List (String × CacheItem)} (old : ∀ entry ∈ entries, entry ∈ s.inmemory.volatile.entries) :
    ∃ completed, ({ s with inmemory } : CachedRepository stream).evict entries =
      { s with inmemory, completed } := by
  suffices general : ∀ completed, ∃ completed',
      ({ s with inmemory, completed } : CachedRepository stream).evict entries =
        { s with inmemory, completed := completed' } from general s.completed
  induction entries with
  | nil => exact fun completed => ⟨completed, rfl⟩
  | cons entry rest ih =>
    obtain ⟨key, item⟩ := entry
    have rest := ih fun entry member => old entry (List.mem_cons_of_mem _ member)
    intro completed
    cases item with
    | other => exact rest completed
    | ours state =>
      have apart := upheld.notSubscribed (old _ List.mem_cons_self) state
      have unchanged : s.subscribers.map (fun subscriber =>
          { subscriber with stage := subscriber.stage.complete state }) = s.subscribers := by
        refine (List.map_congr_left fun subscriber member => ?_).trans (List.map_id _)
        rw [SubscriberStage.complete, apart subscriber member]
        rfl
      have none : (s.subscribers.any fun subscriber => subscriber.stage.isSubscribed state) = false :=
        List.any_eq_false.mpr fun subscriber member => by simp [apart subscriber member]
      have first : ({ s with inmemory, completed } : CachedRepository stream).onEvicted (.ours state) =
          { s with inmemory, completed := completed ++ [state] } := by
        simp only [onEvicted, mapStages, unchanged, none, Bool.false_and, Bool.false_eq_true, if_false]
      unfold CachedRepository.evict at rest ⊢
      rw [List.foldl_cons, first]
      exact rest _

theorem Upheld.set (upheld : s.Upheld Delivered) (key : String) (item : CacheItem) :
    ∃ completed, s.set key item = { s with inmemory := s.inmemory.set key item, completed } :=
  upheld.evict fun _ evicted => (StateCache.ne_of_passed evicted).2

theorem Upheld.free (upheld : s.Upheld Delivered) (key : String) :
    ∃ completed, s.free key = { s with inmemory := s.inmemory.free key, completed } := by
  refine upheld.evict fun entry evicted => ?_
  unfold StateCache.evictedByFree at evicted
  cases durable : s.inmemory.durable? key with
  | none => simp [durable] at evicted
  | some item =>
    rw [durable] at evicted
    exact (StateCache.ne_of_passed evicted).2

/-- The cache may change as long as it keeps what is durable for the stream. -/
theorem Upheld.recached (upheld : s.Upheld UpToDate) {inmemory : StateCache String CacheItem}
    {completed : List Nat} (own : inmemory.All (IsOwn stream))
    (endures : ∀ state, s.inmemory.Endures stream.toString (.ours state) →
      inmemory.Endures stream.toString (.ours state)) :
    ({ s with inmemory, completed } : CachedRepository stream).Upheld AheadOf where
  own := own
  serves subscriber member := (upheld.serves subscriber member).mono endures
    (fun _ found at_state => ⟨found, at_state, rfl⟩) fun _ _ _ upToDate => upToDate.aheadOf

theorem Upheld.aheadOf (upheld : s.Upheld UpToDate) : s.Upheld AheadOf :=
  upheld.recached upheld.own fun _ endures => endures

theorem Upheld.setStage {stage : SubscriberStage} (upheld : s.Upheld Delivered) (index : Nat)
    (serves : Serves s.inmemory s.repository.heap stream Delivered stage) :
    (s.setStage index stage).Upheld Delivered where
  own := upheld.own
  serves := forall_setStage upheld.serves serves

theorem onlySubscribedTo_iff {state : Option Nat} : s.onlySubscribedTo state = true ↔
    ∀ subscriber ∈ s.subscribers, subscriber.stage.isApartFrom state = true := by
  simp [onlySubscribedTo]

theorem Upheld.get (upheld : s.Upheld UpToDate) (key : String) : (s.get key).Upheld AheadOf :=
  upheld.recached upheld.own.afterGet fun _ endures => endures.afterGet

theorem Upheld.use {key : String} (upheld : s.Upheld UpToDate) (apart : key ≠ s.key) (use : CacheUse) :
    (s.use key use).Upheld AheadOf := by
  have notOwn : IsOwn stream key .other := fun _ same => nomatch same
  cases use with
  | get => exact upheld.get key
  | set =>
    obtain ⟨completed, eq⟩ := upheld.set key .other
    rw [CachedRepository.use, eq]
    exact upheld.recached (upheld.own.set notOwn) fun _ endures => endures.set apart
  | endure => exact upheld.recached (upheld.own.endure notOwn) fun _ endures => endures.endure apart
  | free =>
    obtain ⟨completed, eq⟩ := upheld.free key
    rw [CachedRepository.use, eq]
    exact upheld.recached upheld.own.free fun _ endures => endures.free apart

/-- Where nobody is subscribed, a new running state may be registered. -/
theorem Upheld.register (upheld : s.Upheld Delivered) (none : s.onlySubscribedTo none = true)
    (repository : Repository) :
    ({ s.set s.key (.ours s.repository.heap.length) with repository } : CachedRepository stream).Upheld
      Delivered' := by
  obtain ⟨completed, eq⟩ := upheld.set s.key (.ours s.repository.heap.length)
  rw [eq]
  exact { own := upheld.own.set fun _ _ => rfl
          serves := fun subscriber member =>
            (upheld.serves subscriber member).of_apart (onlySubscribedTo_iff.mp none subscriber member) }

theorem Upheld.take {index : Nat} {operation : Operation} {turn : Turn} (upheld : s.Upheld UpToDate)
    (keeps : turn.write.registers = true → s.onlySubscribedTo none = true) :
    (s.take index operation turn).Upheld AheadOf := by
  unfold CachedRepository.take
  -- the values stay
  have same {repository : Repository} (values : ∀ (state : Nat) (found : RunningState),
      s.repository.heap[state]? = some found →
      ∃ found', repository.heap[state]? = some found' ∧ found'.value = found.value) :
      ({ s with repository } : CachedRepository stream).Upheld AheadOf :=
    { own := upheld.own
      serves := fun subscriber member => (upheld.serves subscriber member).mono (fun _ endures => endures)
        values fun _ _ _ upToDate => upToDate.aheadOf }
  cases written : turn.write with
  | register state => exact upheld.register (keeps (by rw [written]; rfl)) _
  | nothing =>
    refine same fun state found at_state => ⟨found, ?_, rfl⟩
    rw [take_heap, written]
    exact at_state
  | markPinnedAndSynced =>
    refine same fun state found at_state => ⟨found, ?_, rfl⟩
    rw [take_heap, written]
    exact at_state
  | save saved value =>
    refine same fun state found at_state => ?_
    rw [take_heap, written]
    refine ⟨if saved = state then found.markAsPinned else found, ?_, by split <;> rfl⟩
    simp [Repository.write, Repository.save, current, List.getElem?_modify, at_state]
  | next state value =>
    have heap : (s.current.take index operation turn).heap =
        s.repository.heap.modify state fun old => { old with value } := by
      rw [take_heap, written]
      rfl
    -- an equal value, or one of no running state, changes nothing
    have unchanged (kept : ∀ old, s.repository.heap[state]? = some old → old.value = value) :
        ({ s with repository := s.current.take index operation turn } : CachedRepository stream).Upheld
          AheadOf := by
      refine same fun other found at_other => ?_
      rw [heap]
      refine ⟨if state = other then { found with value } else found, by simp [List.getElem?_modify, at_other], ?_⟩
      split
      next isOther =>
        subst isOther
        exact (kept found at_other).symm
      next => rfl
    simp only [CachedRepository.write, CachedRepository.next]
    cases at_state : s.repository.heap[state]? with
    | none => exact unchanged (by simp [at_state])
    | some old =>
      by_cases isCurrent : old.value = value
      · simp only [if_pos isCurrent]
        exact unchanged fun other at_state' => by
          obtain rfl := Option.some.inj (at_state.symm.trans at_state')
          exact isCurrent
      · simp only [if_neg isCurrent]
        refine ⟨upheld.own, fun subscriber member => ?_⟩
        obtain ⟨before, inList, rfl⟩ := List.mem_map.mp member
        dsimp only
        rw [heap]
        exact (upheld.serves before inList).next at_state isCurrent

theorem subscribeTo_cases {index state : Nat} {subscriber : UpdatesSubscriber}
    (subscribed : s.subscribeTo index subscriber state = some s') : ∃ found stage,
      s.repository.heap[state]? = some found ∧
      (stage = .leftover state ∨ stage = .subscribed state [found.value] [found.value]) ∧
      s' = { s with inmemory := s.inmemory.endure s.key (.ours state) }.setStage index stage := by
  obtain ⟨found, at_state, subscribed⟩ := Option.bind_eq_some_iff.mp subscribed
  split at subscribed
  · obtain rfl := Option.some.inj subscribed
    exact ⟨found, _, at_state, .inl rfl, rfl⟩
  · obtain rfl := Option.some.inj subscribed
    exact ⟨found, _, at_state, .inr rfl, rfl⟩

theorem Upheld.subscribeTo {index state : Nat} {subscriber : UpdatesSubscriber} (upheld : s.Upheld UpToDate)
    (apart : s.onlySubscribedTo (some state) = true)
    (subscribed : s.subscribeTo index subscriber state = some s') : s'.Upheld AheadOf := by
  obtain ⟨found, stage, at_state, isStage, rfl⟩ := subscribeTo_cases subscribed
  have endured : ({ s with inmemory := s.inmemory.endure s.key (.ours state) } : CachedRepository stream).Upheld
      AheadOf :=
    { own := upheld.own.endure fun _ _ => rfl
      serves := fun other member => (upheld.serves other member).endure
        (onlySubscribedTo_iff.mp apart other member) fun _ _ _ upToDate => upToDate.aheadOf }
  refine endured.setStage index ?_
  rcases isStage with rfl | rfl
  · trivial
  · exact ⟨.begin, found, at_state, by simp [AheadOf]⟩

/-- The last subscription of a running state is the last one of the stream. -/
theorem Upheld.unsubscribe {index : Nat} {subscriber : UpdatesSubscriber} (upheld : s.Upheld UpToDate)
    (at_index : s.subscribers[index]? = some subscriber)
    (unsubscribed : s.unsubscribe index subscriber = some s') : s'.Upheld AheadOf := by
  have serves := upheld.serves subscriber (List.mem_of_getElem? at_index)
  -- a subscriber that does not wait for the end of the lookup
  have closed : ({ s with subscribers := s.subscribers.set index { subscriber with closed := true } } :
      CachedRepository stream).Upheld AheadOf := by
    refine ⟨upheld.own, fun other member => ?_⟩
    rcases List.mem_or_eq_of_mem_set member with old | rfl
    · exact upheld.aheadOf.serves other old
    · exact upheld.aheadOf.serves subscriber (List.mem_of_getElem? at_index)
  unfold CachedRepository.unsubscribe at unsubscribed
  cases stage : subscriber.stage with
  | subscribed state received due =>
    rw [stage] at serves
    simp only [stage] at unsubscribed
    obtain rfl := Option.some.inj unsubscribed
    have left : (s.setStage index .unsubscribed).Upheld UpToDate := upheld.setStage index trivial
    split
    next isEmpty =>
      obtain ⟨completed, eq⟩ := left.free s.key
      rw [eq]
      refine ⟨left.own.free, fun other member => (left.serves other member).of_apart ?_⟩
      have otherServes := left.serves other member
      have untracked := List.all_eq_true.mp isEmpty other member
      cases otherStage : other.stage with
      | subscribed state' received' due' =>
        rw [otherStage] at otherServes untracked
        have same := serves.1.durable.symm.trans otherServes.1.durable
        obtain rfl := CacheItem.ours.inj (Option.some.inj same)
        simp [SubscriberStage.isTracked] at untracked
      | _ => rfl
    next => exact left.aheadOf
  | queued | readingStore | storeRead _ | found _ =>
    simp only [stage] at unsubscribed
    obtain rfl := Option.some.inj unsubscribed
    rw [stage] at closed
    exact closed
  | leftover _ | unsubscribed | completed | errored =>
    simp only [stage] at unsubscribed
    cases unsubscribed

theorem Upheld.proceed {index : Nat} {subscriber : UpdatesSubscriber} (upheld : s.Upheld UpToDate)
    (at_index : s.subscribers[index]? = some subscriber)
    (keeps : s.keepsSubscriptions (.proceed index) = true)
    (proceeded : s.proceed node index subscriber = some s') : s'.Upheld AheadOf := by
  simp only [keepsSubscriptions, at_index] at keeps
  unfold CachedRepository.proceed at proceeded
  cases stage : subscriber.stage with
  | queued =>
    simp only [stage] at proceeded
    obtain ⟨_, proceeded⟩ := guard_bind_eq_some.mp proceeded
    split at proceeded
    all_goals
      obtain rfl := Option.some.inj proceeded
      exact (upheld.get s.key).setStage index trivial
  | readingStore =>
    simp only [stage] at proceeded
    obtain rfl := Option.some.inj proceeded
    exact upheld.aheadOf.setStage index trivial
  | storeRead stored =>
    cases stored with
    | none =>
      simp only [stage] at proceeded
      obtain rfl := Option.some.inj proceeded
      exact upheld.aheadOf.setStage index trivial
    | some value =>
      simp only [stage] at proceeded keeps
      obtain rfl := Option.some.inj proceeded
      exact (upheld.register keeps _).setStage index trivial
  | found state =>
    cases state with
    | none =>
      simp only [stage] at proceeded keeps
      have registered : (s.registerRunningState (.make subscriber.init false)).Upheld UpToDate :=
        upheld.register keeps _
      refine registered.subscribeTo (onlySubscribedTo_iff.mpr fun other member => ?_) proceeded
      obtain ⟨completed, eq⟩ := upheld.set s.key (.ours s.repository.heap.length)
      rw [registerRunningState, eq] at member
      have notSubscribed := onlySubscribedTo_iff.mp keeps other member
      cases otherStage : other.stage with
      | subscribed _ _ _ => simp [otherStage, SubscriberStage.isApartFrom] at notSubscribed
      | _ => rfl
    | some state =>
      simp only [stage] at proceeded keeps
      exact upheld.subscribeTo keeps proceeded
  | subscribed _ _ _ | leftover _ | unsubscribed | completed | errored =>
    simp only [stage] at proceeded
    cases proceeded

/-- What one action keeps. -/
theorem Upheld.act {action : UpdatesAction} (upheld : s.Upheld UpToDate)
    (keeps : s.keepsSubscriptions action = true) (acted : s.act node action = some s') :
    s'.Upheld AheadOf := by
  cases action with
  | repository action =>
    cases action with
    | call call =>
      obtain ⟨repository, called, returned⟩ := Option.bind_eq_some_iff.mp acted
      obtain rfl := Option.some.inj returned
      obtain ⟨stage, _, returned⟩ := Option.bind_eq_some_iff.mp called
      obtain rfl := Option.some.inj returned
      exact ⟨upheld.own, upheld.aheadOf.serves⟩
    | proceed index moment tips =>
      obtain ⟨operation, at_index, acted⟩ := Option.bind_eq_some_iff.mp acted
      obtain ⟨_, acted⟩ := guard_bind_eq_some.mp acted
      obtain ⟨turn, advanced, returned⟩ := Option.bind_eq_some_iff.mp acted
      obtain rfl := Option.some.inj returned
      simp only [keepsSubscriptions, at_index] at keeps
      have lookedUp : (s.lookUp operation.stage).Upheld UpToDate := by
        unfold CachedRepository.lookUp
        split
        · exact {
            own := upheld.own.afterGet
            serves := fun subscriber member => (upheld.serves subscriber member).mono
              (fun _ endures => endures.afterGet) (fun _ found at_state => ⟨found, at_state, rfl⟩)
              fun _ _ _ upToDate => upToDate }
        · exact upheld
      refine lookedUp.take fun registers => ?_
      rw [advance_registers advanced] at registers
      have none : s.onlySubscribedTo none = true := by simpa [registers] using keeps
      unfold CachedRepository.lookUp
      split <;> exact none
    | fail index =>
      obtain ⟨operation, at_index, acted⟩ := Option.bind_eq_some_iff.mp acted
      obtain ⟨turn, rejected, returned⟩ := Option.bind_eq_some_iff.mp acted
      obtain rfl := Option.some.inj returned
      refine upheld.take fun registers => ?_
      rw [rejected_registers rejected] at registers
      cases registers
  | streamState =>
    obtain rfl := Option.some.inj acted
    exact upheld.get s.key
  | other key use =>
    unfold CachedRepository.act at acted
    dsimp only at acted
    split at acted
    · cases acted
    · obtain rfl := Option.some.inj acted
      exact upheld.use (by assumption) use
  | subscribe init =>
    unfold CachedRepository.act at acted
    dsimp only at acted
    split at acted
    · obtain rfl := Option.some.inj acted
      refine ⟨upheld.own, fun subscriber member => ?_⟩
      rcases List.mem_append.mp member with old | new
      · exact upheld.aheadOf.serves subscriber old
      · obtain rfl := List.mem_singleton.mp new
        trivial
    · cases acted
  | proceed index =>
    obtain ⟨subscriber, at_index, proceeded⟩ := Option.bind_eq_some_iff.mp acted
    exact upheld.proceed at_index keeps proceeded
  | error index =>
    obtain ⟨subscriber, _, acted⟩ := Option.bind_eq_some_iff.mp acted
    obtain ⟨_, returned⟩ := guard_bind_eq_some.mp acted
    obtain rfl := Option.some.inj returned
    exact upheld.aheadOf.setStage index trivial
  | unsubscribe index =>
    obtain ⟨subscriber, at_index, unsubscribed⟩ := Option.bind_eq_some_iff.mp acted
    exact upheld.unsubscribe at_index unsubscribed

theorem registered_of_get {state : Nat} (found : s.inmemory.get s.key = some (.ours state)) :
    s.registered = some state := by
  rw [registered, found]

theorem Upheld.note (upheld : s.Upheld AheadOf) :
    (s.mapStages (·.note s.registeredValue)).Upheld UpToDate where
  own := upheld.own
  serves := by
    intro subscriber member
    obtain ⟨before, inList, rfl⟩ := List.mem_map.mp member
    refine (upheld.serves before inList).note fun state found endures at_state => ?_
    rw [registeredValue, registered_of_get (StateCache.get_of_durable endures.durable rfl)]
    simp [at_state]

/-- What one step keeps. -/
theorem Upheld.step {action : UpdatesAction} (upheld : s.Upheld UpToDate)
    (keeps : s.keepsSubscriptions action = true) (stepped : s.step node action = some s') :
    s'.Upheld UpToDate := by
  obtain ⟨after, acted, returned⟩ := Option.bind_eq_some_iff.mp stepped
  obtain rfl := Option.some.inj returned
  exact (upheld.act keeps acted).note

theorem Upheld.neverStale (upheld : s.Upheld UpToDate) : s.NeverStale := by
  intro subscriber member
  have serves := upheld.serves subscriber member
  cases stage : subscriber.stage with
  | subscribed state received due =>
    rw [stage] at serves
    obtain ⟨endures, found, _, same, _⟩ := serves
    exact ⟨registered_of_get (StateCache.get_of_durable endures.durable rfl), same⟩
  | completed =>
    rw [stage] at serves
    exact serves
  | _ => trivial

/-- A subscriber is on another running state than this one. -/
def HasOtherThan (s : CachedRepository stream) (state : Option Nat) : Prop :=
  ∃ subscriber ∈ s.subscribers, ∃ subscribed received due,
    subscriber.stage = .subscribed subscribed received due ∧ state ≠ some subscribed

theorem hasOtherThan_of {state : Option Nat} (others : s.onlySubscribedTo state = false) :
    s.HasOtherThan state := by
  obtain ⟨subscriber, member, notApart⟩ := List.all_eq_false.mp others
  refine ⟨subscriber, member, ?_⟩
  cases stage : subscriber.stage with
  | subscribed subscribed received due =>
    exact ⟨subscribed, received, due, rfl, by simpa [stage, SubscriberStage.isApartFrom] using notApart⟩
  | _ => simp [stage, SubscriberStage.isApartFrom] at notApart

theorem HasOtherThan.setStage {state : Option Nat} {index : Nat} {subscriber : UpdatesSubscriber}
    {stage : SubscriberStage} (others : s.HasOtherThan state)
    (at_index : s.subscribers[index]? = some subscriber)
    (waits : ∀ subscribed received due, subscriber.stage ≠ .subscribed subscribed received due) :
    (s.setStage index stage).HasOtherThan state := by
  obtain ⟨other, member, subscribed, received, due, otherStage, apart⟩ := others
  refine ⟨other, mem_setStage at_index member ?_, subscribed, received, due, otherStage, apart⟩
  rw [otherStage]
  exact Ne.symm (waits subscribed received due)

/-- Nobody is subscribed yet to a new running state. -/
theorem Upheld.hasOtherThan_new (upheld : s.Upheld UpToDate) (others : s.onlySubscribedTo none = false) :
    s.HasOtherThan (some s.repository.heap.length) := by
  obtain ⟨subscriber, member, state, received, due, stage, _⟩ := hasOtherThan_of others
  refine ⟨subscriber, member, state, received, due, stage, ?_⟩
  have serves := upheld.serves subscriber member
  rw [stage] at serves
  obtain ⟨_, found, at_state, _⟩ := serves
  have within := (List.getElem?_eq_some_iff.mp at_state).1
  simp only [ne_eq, Option.some.injEq]
  omega

theorem Upheld.set_subscribers (upheld : s.Upheld Delivered) (key : String) (item : CacheItem) :
    (s.set key item).subscribers = s.subscribers := by
  obtain ⟨completed, eq⟩ := upheld.set key item
  rw [eq]

theorem Upheld.set_registered (upheld : s.Upheld Delivered) (state : Nat) :
    (s.set s.key (.ours state)).registered = some state := by
  obtain ⟨completed, eq⟩ := upheld.set s.key (.ours state)
  rw [eq]
  exact registered_of_get (StateCache.get_set_self rfl)

/-- A new running state comes in place of the one that is subscribed to. -/
theorem Upheld.replaced (upheld : s.Upheld UpToDate) (others : s.onlySubscribedTo none = false) :
    (s.set s.key (.ours s.repository.heap.length)).HasOtherThan
      (s.set s.key (.ours s.repository.heap.length)).registered := by
  rw [upheld.set_registered, HasOtherThan, upheld.set_subscribers]
  exact upheld.hasOtherThan_new others

/-- Whoever is subscribed to another running state than what becomes durable is left behind. -/
theorem stale_of_subscribeTo {index state : Nat} {subscriber : UpdatesSubscriber}
    (others : s.HasOtherThan (some state)) (at_index : s.subscribers[index]? = some subscriber)
    (waits : ∀ subscribed received due, subscriber.stage ≠ .subscribed subscribed received due)
    (subscribed : s.subscribeTo index subscriber state = some s') : s'.HasOtherThan s'.registered := by
  obtain ⟨found, stage, _, _, rfl⟩ := subscribeTo_cases subscribed
  rw [registered_of_get (StateCache.get_endure_self rfl)]
  exact HasOtherThan.setStage others at_index waits

/-- An action that the condition rules out leaves a subscriber behind. -/
theorem Upheld.stale {action : UpdatesAction} (upheld : s.Upheld UpToDate)
    (keeps : s.keepsSubscriptions action = false) (acted : s.act node action = some s') :
    s'.HasOtherThan s'.registered := by
  cases action with
  | repository action =>
    cases action with
    | proceed index moment tips =>
      obtain ⟨operation, at_index, acted⟩ := Option.bind_eq_some_iff.mp acted
      obtain ⟨_, acted⟩ := guard_bind_eq_some.mp acted
      obtain ⟨turn, advanced, returned⟩ := Option.bind_eq_some_iff.mp acted
      obtain rfl := Option.some.inj returned
      simp only [keepsSubscriptions, at_index, Bool.or_eq_false_iff, Bool.not_eq_false'] at keeps
      obtain ⟨registers, others⟩ := keeps
      have noLookup : s.lookUp operation.stage = s := by
        cases stage : operation.stage with
        | queuedLookup lookup => simp [stage, Stage.registers] at registers
        | _ => rfl
      rw [← advance_registers advanced] at registers
      rw [noLookup, CachedRepository.take]
      cases written : turn.write with
      | register state => exact upheld.replaced others
      | _ => simp [written, Write.registers] at registers
    | call | fail => cases keeps
  | proceed index =>
    obtain ⟨subscriber, at_index, proceeded⟩ := Option.bind_eq_some_iff.mp acted
    simp only [keepsSubscriptions, at_index] at keeps
    unfold CachedRepository.proceed at proceeded
    cases stage : subscriber.stage with
    | storeRead stored =>
      cases stored with
      | some value =>
        simp only [stage] at proceeded keeps
        obtain rfl := Option.some.inj proceeded
        have still : (s.registerRunningState (.make value true)).subscribers[index]? = some subscriber := by
          rw [registerRunningState, upheld.set_subscribers]
          exact at_index
        exact HasOtherThan.setStage (upheld.replaced keeps) still (by simp [stage])
      | none => simp [stage] at keeps
    | found state =>
      cases state with
      | none =>
        simp only [stage] at proceeded keeps
        refine stale_of_subscribeTo ?_ ?_ (by simp [stage]) proceeded
        · rw [HasOtherThan, registerRunningState, upheld.set_subscribers]
          exact upheld.hasOtherThan_new keeps
        · rw [registerRunningState, upheld.set_subscribers]
          exact at_index
      | some state =>
        simp only [stage] at proceeded keeps
        exact stale_of_subscribeTo (hasOtherThan_of keeps) at_index (by simp [stage]) proceeded
    | _ => simp [stage] at keeps
  | _ => cases keeps

theorem subscribed_note {state : Nat} {received due : List StreamState} (registered : Option StreamState) :
    ∃ due', SubscriberStage.note (.subscribed state received due) registered =
      .subscribed state received due' := by
  unfold SubscriberStage.note
  split
  next value stage =>
    obtain ⟨rfl, rfl, rfl⟩ := SubscriberStage.subscribed.inj stage
    split
    · exact ⟨due, rfl⟩
    · exact ⟨_, rfl⟩
  next => exact ⟨due, rfl⟩

theorem HasOtherThan.notFresh (others : s.HasOtherThan s.registered) (registered : Option StreamState) :
    ¬(s.mapStages (·.note registered)).NeverStale := by
  obtain ⟨subscriber, member, state, received, due, stage, apart⟩ := others
  intro fresh
  have isFresh : (subscriber.stage.note registered).IsFresh s.registered :=
    fresh _ (List.mem_map_of_mem member)
  obtain ⟨due', noted⟩ := subscribed_note registered
  rw [stage, noted] at isFresh
  exact apart isFresh.1

theorem boot_upheld (stored : Option StreamState) (limit : Nat) (positive : 0 < limit) :
    (boot stream stored limit positive).Upheld UpToDate where
  own := .new limit positive
  serves := by simp [boot]

/-- As long as no running state is registered or made durable beside the subscriptions, each of
them is to the registered one, has all of its values and is not evicted; the first step that does
so leaves one behind. -/
theorem updates_never_stale {stored : Option StreamState} {limit : Nat} {positive : 0 < limit}
    (run : Transition.Reaches (CachedRepository.step node) (fun s a => s.keepsSubscriptions a = true)
      (.boot stream stored limit positive) s) :
    s.NeverStale ∧ ∀ action s', s.step node action = some s' →
      (s'.NeverStale ↔ s.keepsSubscriptions action = true) := by
  have initial : (boot stream stored limit positive).Upheld UpToDate := boot_upheld stored limit positive
  have upheld : s.Upheld UpToDate :=
    @Transition.Reaches.invariant _ _ _ _ _ _ (fun s => s.Upheld UpToDate) initial
      (fun _ _ _ upheld keeps stepped => upheld.step keeps stepped) run
  refine ⟨upheld.neverStale, fun action s' stepped => ?_⟩
  cases keeps : s.keepsSubscriptions action with
  | true => exact iff_of_true (upheld.step keeps stepped).neverStale rfl
  | false =>
    obtain ⟨after, acted, returned⟩ := Option.bind_eq_some_iff.mp stepped
    obtain rfl := Option.some.inj returned
    exact iff_of_false ((upheld.stale keeps acted).notFresh _) nofun

end

end CachedRepository

namespace BlockStore

def tileGenesis : StreamState :=
  { type := TILE_TYPE_ID
    content := .obj []
    metadata := [("controllers", .arr [.str "did:key:z6Mk"])]
    signature := .GENESIS
    anchorStatus := .NOT_REQUESTED
    log := ⟨[{ cid := ⟨[1]⟩, type := .INIT }], by simp⟩ }

/-- An operation on the Tile, and its next turns. -/
def operate (index : Nat) (call : Call) (count : Nat) : List UpdatesAction :=
  .repository (.call call) :: (turns index count).map .repository

/-- A subscription to the Tile once it was loaded. -/
def subscribeLoaded : List UpdatesAction :=
  operate 0 (.load .PREFER_CACHE) 9 ++ [.subscribe tileGenesis, .proceed 0, .proceed 0]

/-- Another stream fills the cache, and the Tile is updated. -/
def updateSubscribed : List UpdatesAction :=
  subscribeLoaded ++ [.other "k2t6" .set] ++ operate 1 (.applyCommit ⟨[2]⟩) 7

/-- The Tile is loaded again with `SYNC_ALWAYS`, and then updated. -/
def resyncSubscribed : List UpdatesAction :=
  subscribeLoaded ++ operate 1 (.load .SYNC_ALWAYS) 7 ++ operate 2 (.applyCommit ⟨[2]⟩) 7

def cached : CachedRepository tile := .boot tile none 1 Nat.one_pos

def afterUpdates (actions : List UpdatesAction) : CachedRepository tile :=
  (Transition.run (CachedRepository.step tileNode) cached actions).getD cached

theorem updates_never_stale_updateSubscribed : (afterUpdates updateSubscribed).NeverStale :=
  (CachedRepository.updates_never_stale (Transition.reaches_of_run
    (rfl : Transition.run (CachedRepository.step tileNode) cached updateSubscribed =
      some (afterUpdates updateSubscribed)) (by decide))).1

/-- The resync registers another running state than the one that is subscribed to, and the update
of that one is not received. -/
theorem resync_leaves_subscriber : ¬∀ s : CachedRepository tile,
    Transition.Reaches (CachedRepository.step tileNode) (fun _ _ => True) cached s →
      s.NeverStale := by
  intro fresh
  have ran : Transition.run (CachedRepository.step tileNode) cached resyncSubscribed =
      some (afterUpdates resyncSubscribed) := rfl
  have stale := fresh _ (Transition.reaches_of_run ran (by decide)) _ List.mem_cons_self
  have received : [tileGenesis] = _ := stale.2
  revert received
  decide

end BlockStore

end Ceramic
