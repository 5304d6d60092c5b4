import Ceramic.PubsubMessage
import Ceramic.Library.InsertionMap
import Ceramic.Library.PriorityQueue
import Ceramic.Library.Transition

/-! `OutstandingQueries`: a map by id and a queue by time. The priority queue is a parameter. -/
namespace Ceramic

structure Query where
  timestamp : Nat
  streamID : StreamID
  queryID : String
  deriving DecidableEq, Repr

def compareQueryTimestamps (a b : Query) : Int :=
  if b.timestamp < a.timestamp then 1
  else if a.timestamp < b.timestamp then -1
  -- otherwise they are equal, return RHS
  else -1

structure OutstandingQueries (Queue : Type) where
  queryQueue : Queue
  queryMap : InsertionMap String Query

namespace OutstandingQueries

variable {Queue : Type} (queue : PriorityQueue Queue Query)

def make : OutstandingQueries Queue := ⟨queue.empty, .empty String Query⟩

def minutesThreshold : Int := 1

/-- Whole minutes are compared, so that a query is outstanding for two of them. -/
def isExpired (now : Nat) (query : Query) : Bool := minutesThreshold < ((now : Int) - query.timestamp) / 1000 / 60

def remove (queries : OutstandingQueries Queue) (topQuery : Query) : OutstandingQueries Queue where
  queryQueue := queue.dequeue queries.queryQueue
  queryMap := queries.queryMap.delete topQuery.queryID

/-- The loop of `_cleanUpExpiredQueries`. In front of an empty queue there is no query, and it has not expired. -/
def cleanUp (now : Nat) : Nat → OutstandingQueries Queue → OutstandingQueries Queue
  | 0, queries => queries
  | fuel + 1, queries =>
    match queue.front queries.queryQueue with
    | some top => if isExpired now top then cleanUp now fuel (queries.remove queue top) else queries
    | none => queries

/-- Every round takes one query from the queue. -/
def cleanUpExpiredQueries (now : Nat) (queries : OutstandingQueries Queue) : OutstandingQueries Queue :=
  queries.cleanUp queue now (queue.toList queries.queryQueue).length

def insert (queries : OutstandingQueries Queue) (id : String) (query : Query) : OutstandingQueries Queue where
  queryQueue := queue.enqueue queries.queryQueue query
  queryMap := queries.queryMap.set id query

def add (now : Nat) (queries : OutstandingQueries Queue) (id : String) (query : Query) : OutstandingQueries Queue :=
  let cleaned := queries.cleanUpExpiredQueries queue now
  match cleaned.queryMap.find? id with
  | none => cleaned.insert queue id query
  -- replace query
  | some _ => (cleaned.remove queue query).insert queue id query

end OutstandingQueries

/-- The queries of a message bus, the time of the last call and all the calls, the latest first. -/
structure QueryLog (Queue : Type) where
  queries : OutstandingQueries Queue
  now : Nat
  added : List (String × Query)

structure AddQuery where
  id : String
  query : Query
  now : Nat

namespace QueryLog

variable {Queue : Type} (queue : PriorityQueue Queue Query)

def start : QueryLog Queue := ⟨.make queue, 0, []⟩

/-- The clock does not go back. -/
def step (log : QueryLog Queue) (call : AddQuery) : Option (QueryLog Queue) :=
  if log.now ≤ call.now then
    some {
      queries := log.queries.add queue call.now call.id call.query
      now := call.now
      added := (call.id, call.query) :: log.added }
  else none

/-- The query that an id was last added with. -/
def latest (log : QueryLog Queue) (id : String) : Option Query :=
  (log.added.find? fun entry => entry.1 = id).map Prod.snd

/-- The map holds the latest query of each id unless it has expired, and the queue what the map does. -/
structure Tracked (log : QueryLog Queue) : Prop where
  map : ∀ id, log.queries.queryMap.find? id =
    (log.latest id).filter fun query => !OutstandingQueries.isExpired log.now query
  queue : (queue.toList log.queries.queryQueue).Perm log.queries.queryMap.values

/-- A query is added under its own id, has not expired yet, and a query that it replaces is the one in front of
the queue. -/
structure ReplacesFront (log : QueryLog Queue) (call : AddQuery) : Prop where
  own : call.id = call.query.queryID
  unexpired : OutstandingQueries.isExpired call.now call.query = false
  front : ∀ replaced ∈ log.queries.queryMap.find? call.id, OutstandingQueries.isExpired call.now replaced = false →
    queue.front (log.queries.cleanUpExpiredQueries queue call.now).queryQueue = some replaced

end QueryLog

namespace OutstandingQueries

variable {Queue : Type} {queue : PriorityQueue Queue Query} (lawful : queue.Lawful compareQueryTimestamps)
  {queries : OutstandingQueries Queue} {now later : Nat} {query : Query} {id : String}

theorem compareQueryTimestamps_nonpos {a b : Query} : compareQueryTimestamps a b ≤ 0 ↔ a.timestamp ≤ b.timestamp := by
  unfold compareQueryTimestamps
  split
  next => omega
  next => split <;> omega

theorem isExpired_iff : isExpired now query = true ↔ query.timestamp + 120000 ≤ now := by
  rw [isExpired, decide_eq_true_iff, minutesThreshold]
  omega

theorem isExpired_later (expired : isExpired now query = true) (passed : now ≤ later) : isExpired later query = true :=
  isExpired_iff.mpr (Nat.le_trans (isExpired_iff.mp expired) passed)

/-- What is still unexpired then has been it before. -/
theorem filter_unexpired_later (latest : Option Query) (passed : now ≤ later) :
    (latest.filter fun query => !isExpired now query).filter (fun query => !isExpired later query) =
      latest.filter fun query => !isExpired later query := by
  cases latest with
  | none => rfl
  | some query =>
    by_cases expired : isExpired now query = true
    · simp [Option.filter_some, expired, isExpired_later expired passed]
    · simp [Option.filter_some, expired]

/-- The queue holds the values of the map, in which each query stands under its own id. -/
structure Coupled (queue : PriorityQueue Queue Query) (queries : OutstandingQueries Queue) : Prop where
  queue : (queue.toList queries.queryQueue).Perm queries.queryMap.values
  own : ∀ id query, queries.queryMap.find? id = some query → query.queryID = id

theorem Coupled.find? (coupled : queries.Coupled queue) (member : query ∈ queue.toList queries.queryQueue) :
    queries.queryMap.find? query.queryID = some query := by
  obtain ⟨id, found⟩ := InsertionMap.mem_values_iff.mp (coupled.queue.mem_iff.mp member)
  rw [coupled.own id query found]
  exact found

include lawful in
/-- The query in front of the queue is removed from both. -/
theorem Coupled.remove (coupled : queries.Coupled queue) (front : queue.front queries.queryQueue = some query) :
    (queries.remove queue query).Coupled queue where
  queue := by
    have found := coupled.find? (lawful.mem_of_front _ _ front)
    have whole := (lawful.toList_perm front).symm.trans (coupled.queue.trans (InsertionMap.values_delete found))
    exact (List.perm_cons query).mp whole
  own id other found := by
    rw [OutstandingQueries.remove, InsertionMap.find?_delete] at found
    split at found
    · cases found
    · exact coupled.own id other found

/-- What is left of the queries when the expired ones are gone. -/
structure Cleaned (queue : PriorityQueue Queue Query) (now : Nat) (queries cleaned : OutstandingQueries Queue) :
    Prop where
  coupled : cleaned.Coupled queue
  map : ∀ id, cleaned.queryMap.find? id = (queries.queryMap.find? id).filter fun query => !isExpired now query

include lawful in
/-- The front of the queue expires first. -/
theorem cleaned_of_unexpired (coupled : queries.Coupled queue)
    (unexpired : ∀ front ∈ queue.front queries.queryQueue, isExpired now front = false) :
    Cleaned queue now queries queries := by
  refine ⟨coupled, fun id => ?_⟩
  cases found : queries.queryMap.find? id with
  | none => rfl
  | some query =>
    have member : query ∈ queue.toList queries.queryQueue :=
      coupled.queue.mem_iff.mpr (InsertionMap.mem_values_iff.mpr ⟨id, found⟩)
    cases front : queue.front queries.queryQueue with
    | none =>
      rw [lawful.toList_of_front_none _ front] at member
      cases member
    | some first =>
      have before := compareQueryTimestamps_nonpos.mp (lawful.compare_front _ _ _ front member)
      have firstUnexpired := mt isExpired_iff.mpr (Bool.eq_false_iff.mp (unexpired first front))
      have queryUnexpired : isExpired now query = false :=
        Bool.eq_false_iff.mpr (mt isExpired_iff.mp (by omega))
      simp [Option.filter_some, queryUnexpired]

include lawful in
theorem cleaned_cleanUp (fuel : Nat) (coupled : queries.Coupled queue)
    (enough : (queue.toList queries.queryQueue).length ≤ fuel) :
    Cleaned queue now queries (queries.cleanUp queue now fuel) := by
  induction fuel generalizing queries with
  | zero =>
    refine cleaned_of_unexpired lawful coupled fun front isFront => ?_
    have member := lawful.mem_of_front _ _ isFront
    rw [List.length_eq_zero_iff.mp (Nat.le_zero.mp enough)] at member
    cases member
  | succ fuel ih =>
    unfold cleanUp
    split
    next top front =>
      split
      next expired =>
        have shorter := lawful.length_dequeue front
        have cleaned := ih (coupled.remove lawful front) (by
          change (queue.toList (queue.dequeue queries.queryQueue)).length ≤ fuel
          omega)
        refine ⟨cleaned.coupled, fun id => (cleaned.map id).trans ?_⟩
        rw [OutstandingQueries.remove, InsertionMap.find?_delete]
        split
        next isTop =>
          have found := coupled.find? (lawful.mem_of_front _ _ front)
          rw [isTop, found]
          simp [Option.filter_some, expired]
        next => rfl
      next notExpired =>
        refine cleaned_of_unexpired lawful coupled fun first isFront => ?_
        obtain rfl := Option.some.inj (front.symm.trans isFront)
        exact Bool.eq_false_iff.mpr notExpired
    next empty =>
      refine cleaned_of_unexpired lawful coupled fun first isFront => ?_
      cases empty.symm.trans isFront

include lawful in
theorem cleaned_cleanUpExpiredQueries (coupled : queries.Coupled queue) :
    Cleaned queue now queries (queries.cleanUpExpiredQueries queue now) :=
  cleaned_cleanUp lawful _ coupled (Nat.le_refl _)

theorem find?_insert (queries : OutstandingQueries Queue) (id : String) (query : Query) (k : String) :
    (queries.insert queue id query).queryMap.find? k = if k = id then some query else queries.queryMap.find? k :=
  InsertionMap.find?_set _ _ _ _

theorem find?_add (own : id = query.queryID) (k : String) :
    (queries.add queue now id query).queryMap.find? k =
      if k = id then some query else (queries.cleanUpExpiredQueries queue now).queryMap.find? k := by
  unfold add
  dsimp only
  split
  · exact find?_insert _ _ _ _
  · rw [find?_insert, OutstandingQueries.remove, InsertionMap.find?_delete, own]
    split
    · rfl
    · rfl

include lawful in
theorem queue_insert (absent : queries.queryMap.find? id = none) :
    (queue.toList (queries.insert queue id query).queryQueue).Perm (queries.insert queue id query).queryMap.values ↔
      (queue.toList queries.queryQueue).Perm queries.queryMap.values := by
  have queued : (queue.toList (queries.insert queue id query).queryQueue).Perm
      (query :: queue.toList queries.queryQueue) := lawful.toList_enqueue _ _
  have mapped : (queries.insert queue id query).queryMap.values.Perm (query :: queries.queryMap.values) :=
    (List.Perm.of_eq (InsertionMap.values_set_new absent query)).trans List.perm_append_comm
  constructor
  · intro same
    exact (List.perm_cons query).mp (queued.symm.trans (same.trans mapped))
  · intro same
    exact queued.trans ((same.cons query).trans mapped.symm)

/-- Two lists that are the same but for one element each. -/
theorem eq_of_perm_cons {a b : Query} {l l' : List Query} (whole : (a :: l).Perm (b :: l')) (rest : l.Perm l') :
    a = b := by
  have same := whole.count_eq a
  rw [List.count_cons_self, List.count_cons, rest.count_eq a] at same
  by_contra different
  simp [Ne.symm different] at same

include lawful in
/-- The queue keeps step with a query that is replaced exactly if that is the one in front. -/
theorem queue_replace {replaced : Query} (coupled : queries.Coupled queue) (own : id = query.queryID)
    (found : queries.queryMap.find? id = some replaced) :
    (queue.toList ((queries.remove queue query).insert queue id query).queryQueue).Perm
        ((queries.remove queue query).insert queue id query).queryMap.values ↔
      queue.front queries.queryQueue = some replaced := by
  subst own
  have absent : (queries.remove queue query).queryMap.find? query.queryID = none := by
    rw [OutstandingQueries.remove, InsertionMap.find?_delete, if_pos rfl]
  have mapped : queries.queryMap.values.Perm (replaced :: (queries.remove queue query).queryMap.values) :=
    InsertionMap.values_delete found
  have member : replaced ∈ queue.toList queries.queryQueue :=
    coupled.queue.mem_iff.mpr (InsertionMap.mem_values_iff.mpr ⟨_, found⟩)
  rw [queue_insert lawful absent]
  cases front : queue.front queries.queryQueue with
  | none =>
    rw [lawful.toList_of_front_none _ front] at member
    cases member
  | some first =>
    have whole := (lawful.toList_perm front).symm.trans (coupled.queue.trans mapped)
    constructor
    · intro rest
      exact congrArg some (eq_of_perm_cons whole rest)
    · intro same
      obtain rfl := Option.some.inj same
      exact (List.perm_cons first).mp whole

end OutstandingQueries

namespace QueryLog

open OutstandingQueries

variable {Queue : Type} {queue : PriorityQueue Queue Query} (lawful : queue.Lawful compareQueryTimestamps)
  {log log' : QueryLog Queue} {call : AddQuery}

theorem latest_cons (entry : String × Query) (added : List (String × Query)) (queries : OutstandingQueries Queue)
    (now : Nat) (id : String) :
    (⟨queries, now, entry :: added⟩ : QueryLog Queue).latest id =
      if id = entry.1 then some entry.2 else (⟨queries, now, added⟩ : QueryLog Queue).latest id := by
  unfold latest
  rw [List.find?_cons]
  split
  next same => rw [if_pos (of_decide_eq_true same).symm, Option.map_some]
  next other => rw [if_neg (Ne.symm (of_decide_eq_false other))]

theorem step_eq (stepped : log.step queue call = some log') : log.now ≤ call.now ∧
    log' = ⟨log.queries.add queue call.now call.id call.query, call.now, (call.id, call.query) :: log.added⟩ := by
  obtain ⟨passed, same⟩ := Option.ite_none_right_eq_some.mp stepped
  exact ⟨passed, (Option.some.inj same).symm⟩

/-- The state of a log whose calls have all met the condition. -/
structure Sound (queue : PriorityQueue Queue Query) (log : QueryLog Queue) : Prop where
  tracked : log.Tracked queue
  own : ∀ id query, log.queries.queryMap.find? id = some query → query.queryID = id

theorem Sound.coupled (sound : log.Sound queue) : log.queries.Coupled queue := ⟨sound.tracked.queue, sound.own⟩

include lawful in
theorem sound_start : (start queue).Sound queue where
  tracked := {
    map := fun _ => rfl
    queue := .of_eq lawful.toList_empty }
  own _ _ found := by cases found

include lawful in
/-- What the map holds after a call: the query of the call, and of the others what is unexpired. -/
theorem find?_step (sound : log.Sound queue) (own : call.id = call.query.queryID) (id : String) :
    (log.queries.add queue call.now call.id call.query).queryMap.find? id =
      if id = call.id then some call.query
      else (log.queries.queryMap.find? id).filter fun query => !isExpired call.now query := by
  rw [find?_add own, (cleaned_cleanUpExpiredQueries lawful sound.coupled).map]

include lawful in
/-- The map is right after a call exactly if the query has not expired by then. -/
theorem map_step (sound : log.Sound queue) (passed : log.now ≤ call.now) (own : call.id = call.query.queryID) :
    (∀ id, (log.queries.add queue call.now call.id call.query).queryMap.find? id =
      ((⟨log.queries, call.now, (call.id, call.query) :: log.added⟩ : QueryLog Queue).latest id).filter
        fun query => !isExpired call.now query) ↔ isExpired call.now call.query = false := by
  constructor
  · intro map
    have here := map call.id
    rw [find?_step lawful sound own, if_pos rfl, latest_cons, if_pos rfl, Option.filter_some] at here
    by_contra expired
    simp [expired] at here
  · intro unexpired id
    rw [find?_step lawful sound own, latest_cons]
    split
    · simp [Option.filter_some, unexpired]
    · rw [sound.tracked.map id, filter_unexpired_later _ passed]
      rfl

include lawful in
/-- The queue is right after a call exactly if a query that is replaced was in front. -/
theorem queue_step (sound : log.Sound queue) (own : call.id = call.query.queryID) :
    (queue.toList (log.queries.add queue call.now call.id call.query).queryQueue).Perm
        (log.queries.add queue call.now call.id call.query).queryMap.values ↔
      ∀ replaced ∈ log.queries.queryMap.find? call.id, isExpired call.now replaced = false →
        queue.front (log.queries.cleanUpExpiredQueries queue call.now).queryQueue = some replaced := by
  have cleaned : Cleaned queue call.now log.queries (log.queries.cleanUpExpiredQueries queue call.now) :=
    cleaned_cleanUpExpiredQueries lawful sound.coupled
  unfold add
  dsimp only
  split
  next absent =>
    refine iff_of_true ((queue_insert lawful absent).mpr cleaned.coupled.queue) fun replaced found unexpired => ?_
    rw [cleaned.map, Option.mem_def.mp found] at absent
    simp [Option.filter_some, unexpired] at absent
  next old found =>
    rw [queue_replace lawful cleaned.coupled own found]
    rw [cleaned.map] at found
    obtain ⟨before, unexpired⟩ := Option.filter_eq_some_iff.mp found
    constructor
    · intro front replaced isReplaced _
      rw [front]
      exact before.symm.trans isReplaced
    · intro inFront
      exact inFront old before (by simpa using unexpired)

include lawful in
theorem tracked_step (sound : log.Sound queue) (stepped : log.step queue call = some log')
    (own : call.id = call.query.queryID) : log'.Tracked queue ↔ log.ReplacesFront queue call := by
  obtain ⟨passed, rfl⟩ := step_eq stepped
  constructor
  · rintro ⟨map, inQueue⟩
    exact ⟨own, (map_step lawful sound passed own).mp map, (queue_step lawful sound own).mp inQueue⟩
  · rintro ⟨-, unexpired, front⟩
    exact ⟨(map_step lawful sound passed own).mpr unexpired, (queue_step lawful sound own).mpr front⟩

include lawful in
theorem Sound.step (sound : log.Sound queue) (stepped : log.step queue call = some log')
    (replaces : log.ReplacesFront queue call) : log'.Sound queue := by
  refine ⟨(tracked_step lawful sound stepped replaces.own).mpr replaces, fun id query found => ?_⟩
  obtain ⟨-, rfl⟩ := step_eq stepped
  rw [find?_step lawful sound replaces.own] at found
  split at found
  next isCalled =>
    obtain rfl := Option.some.inj found
    exact replaces.own.symm.trans isCalled.symm
  next => exact sound.own id query (Option.filter_eq_some_iff.mp found).1

/-- In every run whose calls meet the condition the map holds the latest unexpired query of each id and the queue
what the map does, and a further call under the query's own id leaves it so exactly if it meets the condition. -/
theorem outstanding_tracked (lawful : queue.Lawful compareQueryTimestamps)
    (reaches : Transition.Reaches (step queue) (ReplacesFront queue) (start queue) log) :
    log.Tracked queue ∧ ∀ call log', log.step queue call = some log' → call.id = call.query.queryID →
      (log'.Tracked queue ↔ log.ReplacesFront queue call) := by
  have sound : log.Sound queue := reaches.invariant (sound_start lawful)
    fun _ _ _ sound replaces stepped => sound.step lawful stepped replaces
  exact ⟨sound.tracked, fun _ _ stepped own => tracked_step lawful sound stepped own⟩

instance (queue : PriorityQueue Queue Query) (log : QueryLog Queue) (call : AddQuery) :
    Decidable (log.ReplacesFront queue call) :=
  decidable_of_iff (call.id = call.query.queryID ∧ isExpired call.now call.query = false ∧
      ∀ replaced ∈ log.queries.queryMap.find? call.id, isExpired call.now replaced = false →
        queue.front (log.queries.cleanUpExpiredQueries queue call.now).queryQueue = some replaced)
    ⟨fun ⟨own, unexpired, front⟩ => ⟨own, unexpired, front⟩,
      fun ⟨own, unexpired, front⟩ => ⟨own, unexpired, front⟩⟩

/-- Queries that are ordered by time, with ties in the order of the calls. -/
def byTime : PriorityQueue (PriorityQueue.Sorted compareQueryTimestamps) Query :=
  PriorityQueue.sortedLists
    (fun a b c first second => compareQueryTimestamps_nonpos.mpr (Nat.le_trans
      (compareQueryTimestamps_nonpos.mp first) (compareQueryTimestamps_nonpos.mp second)))
    (fun a b other => compareQueryTimestamps_nonpos.mpr (by
      have := mt compareQueryTimestamps_nonpos.mpr other
      omega))

theorem byTime_lawful : byTime.Lawful compareQueryTimestamps :=
  PriorityQueue.sortedLists_lawful _ _ fun _ => compareQueryTimestamps_nonpos.mpr (Nat.le_refl _)

/-- A query for a stream at the time it is made. -/
def queryAt (id : String) (now : Nat) : AddQuery := ⟨id, ⟨now, ⟨TILE_TYPE_ID, ⟨[1]⟩⟩, id⟩, now⟩

def afterCalls (calls : List AddQuery) : QueryLog (PriorityQueue.Sorted compareQueryTimestamps) :=
  (Transition.run (step byTime) (start byTime) calls).getD (start byTime)

/-- The older one of two queries is repeated. -/
def olderRepeated : List AddQuery := [queryAt "older" 0, queryAt "newer" 1000, queryAt "older" 2000]

theorem outstanding_tracked_olderRepeated : (afterCalls olderRepeated).Tracked byTime :=
  (outstanding_tracked byTime_lawful (Transition.reaches_of_run
    (rfl : Transition.run (step byTime) (start byTime) olderRepeated = some (afterCalls olderRepeated))
    (by decide))).1

def newerRepeated : List AddQuery := [queryAt "older" 0, queryAt "newer" 1000, queryAt "newer" 2000]

/-- When the newer one is repeated the older one leaves the queue instead, and the queue lists the newer one
twice. -/
theorem outstanding_mixed_up : ¬∀ log : QueryLog (PriorityQueue.Sorted compareQueryTimestamps),
    Transition.Reaches (step byTime) (fun _ _ => True) (start byTime) log → log.Tracked byTime := by
  intro tracked
  have ran : Transition.run (step byTime) (start byTime) newerRepeated = some (afterCalls newerRepeated) := rfl
  have inStep := (tracked _ (Transition.reaches_of_run ran (by decide))).queue
  have older : (⟨0, ⟨TILE_TYPE_ID, ⟨[1]⟩⟩, "older"⟩ : Query) ∈ byTime.toList (afterCalls newerRepeated).queries.queryQueue :=
    inStep.mem_iff.mpr (by decide)
  exact absurd older (by decide)

end QueryLog

end Ceramic
