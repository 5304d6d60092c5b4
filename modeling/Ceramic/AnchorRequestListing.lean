import Ceramic.AnchorRequestStore
import Ceramic.Library.Transition

/-! `list` and `infiniteList` read the stored requests in batches, each from the last key of the one before, while
requests are saved and removed. `list` ends with the first empty batch; `infiniteList` then begins again, until its
store is closed. -/
namespace Ceramic

open CursorScan Transition

structure AnchorRequestStoreListResult where
  key : StreamID
  value : StoredRequest
  deriving DecidableEq, Repr

/-- What a read gives, or the error that it fails with. -/
abbrev FoundBatch := Except JsError (List (StoreKey × JsValue))

inductive ListStage where
  /-- A batch is to be read. -/
  | fetching
  | awaiting (found : FoundBatch)
  /-- A batch has been yielded. -/
  | yielded
  | returned
  | thrown (e : JsError)

/-- A run of `list`. -/
structure AnchorRequestList where
  store : AnchorRequestStore
  gt : Option StreamID := none
  stage : ListStage := .fetching
  yields : List (List AnchorRequestStoreListResult) := []

inductive ListAction where
  | store (action : StoreAction)
  | find
  | answer
  | fail (e : JsError)
  /-- The next batch is asked for. -/
  | next

namespace AnchorRequestList

def readItem (json : JsonText) (item : StoreKey × JsValue) : Except JsError AnchorRequestStoreListResult := do
  let key ← readStreamID item.1.text
  let value ← deserializeAnchorRequestData json item.2
  return { key, value }

/-- The cursor behind a batch, and what is yielded of it. -/
def readBatch (json : JsonText) (last : StoreKey × JsValue) (batch : List (StoreKey × JsValue)) :
    Except JsError (StreamID × List AnchorRequestStoreListResult) := do
  let gt ← readStreamID last.1.text
  let results ← batch.mapM (readItem json)
  return (gt, results)

def answer (json : JsonText) (s : AnchorRequestList) : FoundBatch → AnchorRequestList
  | .error e => { s with stage := .thrown e }
  | .ok batch =>
    match batch.getLast? with
    | none => { s with stage := .returned }
    | some last =>
      match readBatch json last batch with
      | .error e => { s with stage := .thrown e }
      | .ok (gt, results) => { s with gt := some gt, stage := .yielded, yields := s.yields ++ [results] }

def step (json : JsonText) (batchSize : Nat) (s : AnchorRequestList) : ListAction → Option AnchorRequestList
  | .store action => some { s with store := s.store.step json action }
  | .find =>
    match s.stage with
    | .fetching => some { s with stage := .awaiting (s.store.find json batchSize s.gt) }
    | _ => none
  | .answer =>
    match s.stage with
    | .awaiting found => some (answer json s found)
    | _ => none
  | .fail e =>
    match s.stage with
    | .awaiting _ => some { s with stage := .thrown e }
    | _ => none
  | .next =>
    match s.stage with
    | .yielded => some { s with stage := .fetching }
    | _ => none

end AnchorRequestList

inductive InfiniteStage where
  /-- At the top of the loop. -/
  | fetching
  | awaiting (found : FoundBatch)
  /-- The items of a batch that are not yet yielded. -/
  | yielding (items : List (StoreKey × JsValue))
  | sleeping (ms : Nat)
  | returned

/-- A run of `infiniteList`. -/
structure InfiniteList where
  store : AnchorRequestStore
  gt : Option StreamID := none
  numEntries : Nat := 0
  stage : InfiniteStage := .fetching
  yields : List StreamID := []
  /-- The errors that were logged. -/
  logged : List JsError := []

inductive InfiniteAction where
  | store (action : StoreAction)
  | find
  /-- The batch arrives, in some milliseconds. -/
  | answer (ms : Nat)
  | timeout (ms : Nat)
  | fail (e : JsError)
  /-- The next entry is asked for. -/
  | next
  /-- The time is over, or the sleep is aborted. -/
  | wake

namespace InfiniteList

/-- `while (!this.#shouldStop)`. -/
def again (s : InfiniteList) : InfiniteList :=
  { s with stage := if s.store.shouldStop then .returned else .fetching }

/-- The error is caught. -/
def caught (s : InfiniteList) (e : JsError) : InfiniteList := { s with logged := s.logged ++ [e] }.again

def restart (s : InfiniteList) : InfiniteList := { s with gt := none, numEntries := 0 }.again

/-- There is no batch, or an empty one. -/
def passed (s : InfiniteList) (loopDurationMs : Nat) : InfiniteList :=
  if s.store.minLoopDurationMs = 0 then { s with stage := .sleeping s.store.minLoopJitterMs }
  else if loopDurationMs < s.store.minLoopDurationMs then
    let remainingLoopDuration := s.store.minLoopDurationMs - loopDurationMs
    if s.store.minLoopJitterMs < remainingLoopDuration then { s with stage := .sleeping remainingLoopDuration }
    else s.restart
  else s.restart

def answer (s : InfiniteList) (ms : Nat) : FoundBatch → InfiniteList
  | .error e => s.caught e
  | .ok batch =>
    match batch.getLast? with
    | none => s.passed ms
    | some last =>
      match readStreamID last.1.text with
      | .error e => s.caught e
      | .ok gt => { s with gt := some gt, stage := .yielding batch }

def next (s : InfiniteList) : List (StoreKey × JsValue) → InfiniteList
  | [] => s.again
  | item :: items =>
    match readStreamID item.1.text with
    | .error e => { s with numEntries := s.numEntries + 1 }.caught e
    | .ok id => { s with numEntries := s.numEntries + 1, yields := s.yields ++ [id], stage := .yielding items }

def step (json : JsonText) (batchSize : Nat) (s : InfiniteList) : InfiniteAction → Option InfiniteList
  | .store action => some { s with store := s.store.step json action }
  | .find =>
    match s.stage with
    | .fetching => some { s with stage := .awaiting (s.store.find json batchSize s.gt) }
    | _ => none
  | .answer ms =>
    match s.stage with
    | .awaiting found => some (s.answer ms found)
    | _ => none
  | .timeout ms =>
    match s.stage with
    | .awaiting _ => some (s.passed ms)
    | _ => none
  | .fail e =>
    match s.stage with
    | .awaiting _ => some (s.caught e)
    | _ => none
  | .next =>
    match s.stage with
    | .yielding items => some (s.next items)
    | _ => none
  | .wake =>
    match s.stage with
    | .sleeping _ => some s.restart
    | _ => none

end InfiniteList

/-- The requests that a batch is read of. -/
structure IsBatch (json : JsonText) (batch : List (StoreKey × JsValue)) (requests : List (StreamID × AnchorRequestData)) : Prop where
  items : batch = requests.map (foundEntry json)
  readable : ∀ request ∈ requests, ReadableRequest json request

def keysOf (requests : List (StreamID × AnchorRequestData)) : List StoreKey := requests.map (·.1.storeKey)

section

variable {json : JsonText} {batchSize : Nat} {present : StoreKey → Prop} {seen : List StoreKey}

/-- A read of an open store. -/
theorem find_fetched {s : AnchorRequestStore} (sound : s.Sound json) {level : LevelDatabase} (isStore : s.store = some level)
    {gt : Option StreamID} (safe : ∀ id ∈ gt, id.type ≤ MAX_SAFE_INTEGER) (positive : 0 < batchSize)
    (readTo : ReadTo present (gt.map StreamID.storeKey) seen) (there : ∀ k, present k → s.HasKey k) :
    ∃ batch requests, s.find json batchSize gt = .ok batch ∧ IsBatch json batch requests ∧
      ReadTo.Fetched present (gt.map StreamID.storeKey) seen (keysOf requests) ∧
      ∀ request ∈ requests, storedEntry json request ∈ level.entries := by
  obtain ⟨requests, found, readable, searched⟩ := (sound.requests level isStore).find isStore batchSize safe
  refine ⟨_, requests, found, ⟨rfl, readable⟩, ?_, fun request member => ?_⟩
  · have inLevel (k : StoreKey) (holds : present k) : (level.get? k).isSome := by
      obtain ⟨other, isOther, has⟩ := there k holds
      obtain rfl := Option.some.inj (isStore.symm.trans isOther)
      exact has
    have fetched : ReadTo.Fetched present _ seen _ := readTo.fetch inLevel positive
    rw [searched, List.map_map] at fetched
    exact fetched
  · have inSearch : storedEntry json request ∈ level.search (params batchSize (gt.map StreamID.storeKey)) := by
      rw [searched]
      exact List.mem_map_of_mem member
    rw [search_params] at inSearch
    exact (mem_range_iff.mp (List.mem_of_mem_take inSearch)).1

variable {batch : List (StoreKey × JsValue)} {requests : List (StreamID × AnchorRequestData)}

theorem IsBatch.getLast? (isBatch : IsBatch json batch requests) :
    batch.getLast? = requests.getLast?.map (foundEntry json) := by
  rw [isBatch.items, List.getLast?_map]

/-- The identifiers are read back. -/
theorem IsBatch.read {request : StreamID × AnchorRequestData} (isBatch : IsBatch json batch requests)
    (member : request ∈ requests) : readStreamID (foundEntry json request).1.text = .ok request.1 :=
  (isBatch.readable request member).id.read

theorem readItem_found {request : StreamID × AnchorRequestData} (readable : ReadableRequest json request) :
    AnchorRequestList.readItem json (foundEntry json request) = .ok ⟨request.1, request.2.stored⟩ := by
  have key : readStreamID (foundEntry json request).1.text = .ok request.1 := readable.id.read
  have value := deserialize_serialize readable.reads readable.cid
  unfold AnchorRequestList.readItem
  rw [key]
  simp only [bind, Except.bind, foundEntry, value]
  rfl

/-- What `list` yields of some requests. -/
def resultOf (request : StreamID × AnchorRequestData) : AnchorRequestStoreListResult := ⟨request.1, request.2.stored⟩

theorem IsBatch.readBatch (isBatch : IsBatch json batch requests) {last : StreamID × AnchorRequestData}
    (member : last ∈ requests) : AnchorRequestList.readBatch json (foundEntry json last) batch =
      .ok (last.1, requests.map resultOf) := by
  have results : batch.mapM (AnchorRequestList.readItem json) = .ok (requests.map resultOf) := by
    obtain ⟨rfl, readable⟩ := isBatch
    clear member
    induction requests with
    | nil => rfl
    | cons request requests ih =>
      rw [List.map_cons, List.mapM_cons, readItem_found (readable request List.mem_cons_self),
        ih fun other member => readable other (List.mem_cons_of_mem _ member)]
      rfl
  unfold AnchorRequestList.readBatch
  rw [isBatch.read member, results]
  rfl

end

namespace AnchorRequestList

/-- A run that has not begun, of an object that has not been opened. -/
def make (minLoopDurationMs minLoopJitterMs : Nat) : AnchorRequestList :=
  { store := { minLoopDurationMs, minLoopJitterMs } }

def results (s : AnchorRequestList) : List AnchorRequestStoreListResult := s.yields.flatten

def keys (s : AnchorRequestList) : List StoreKey := s.results.map (·.key.storeKey)

def Proper (json : JsonText) (s : AnchorRequestList) : ListAction → Prop
  | .store action => s.store.Proper json action
  | _ => True

/-- What a stage says of the keys seen. -/
def StageSound (json : JsonText) (present : StoreKey → Prop) (cursor : Option StoreKey) (seen : List StoreKey) :
    ListStage → Prop
  | .fetching | .yielded => ReadTo present cursor seen
  | .awaiting (.ok batch) => ∃ requests, IsBatch json batch requests ∧ ReadTo.Fetched present cursor seen (keysOf requests)
  | .awaiting (.error _) | .thrown _ => seen.Pairwise (· < ·)
  | .returned => seen.Pairwise (· < ·) ∧ ∀ k, present k → k ∈ seen

structure Sound (json : JsonText) (present : StoreKey → Prop) (s : AnchorRequestList) : Prop where
  store : s.store.Sound json
  gt : ∀ id ∈ s.gt, id.type ≤ MAX_SAFE_INTEGER
  stage : StageSound json present (s.gt.map StreamID.storeKey) s.keys s.stage

section

variable {json : JsonText} {batchSize : Nat} {present : StoreKey → Prop} {s s' : AnchorRequestList}

theorem StageSound.ordered {cursor : Option StoreKey} {seen : List StoreKey} {stage : ListStage}
    (sound : StageSound json present cursor seen stage) : seen.Pairwise (· < ·) := by
  cases stage with
  | fetching => exact ReadTo.ordered sound
  | yielded => exact ReadTo.ordered sound
  | awaiting found =>
    cases found with
    | error e => exact sound
    | ok batch =>
      obtain ⟨_, _, fetched⟩ := sound
      exact fetched.before.ordered
  | returned => exact sound.1
  | thrown e => exact sound

theorem answer_batch {batch : List (StoreKey × JsValue)} {requests : List (StreamID × AnchorRequestData)}
    (isBatch : IsBatch json batch requests) {last : StreamID × AnchorRequestData} (isLast : requests.getLast? = some last) :
    s.answer json (.ok batch) =
      { s with gt := some last.1, stage := .yielded, yields := s.yields ++ [requests.map resultOf] } := by
  unfold AnchorRequestList.answer
  dsimp only
  rw [isBatch.getLast?, isLast, Option.map_some]
  dsimp only
  rw [isBatch.readBatch (List.mem_of_getLast? isLast)]

theorem keys_append (s : AnchorRequestList) (gt : Option StreamID) (stage : ListStage)
    (requests : List (StreamID × AnchorRequestData)) :
    AnchorRequestList.keys { s with gt, stage, yields := s.yields ++ [requests.map resultOf] } =
      s.keys ++ keysOf requests := by
  simp [AnchorRequestList.keys, results, keysOf, resultOf, Function.comp_def]

theorem Sound.answer (sound : Sound json present s) {found : FoundBatch} (awaits : s.stage = .awaiting found) :
    Sound json present (s.answer json found) := by
  have stage := sound.stage
  rw [awaits] at stage
  cases found with
  | error e => exact ⟨sound.store, sound.gt, stage⟩
  | ok batch =>
    obtain ⟨requests, isBatch, fetched⟩ := stage
    cases isLast : requests.getLast? with
    | none =>
      obtain rfl := List.getLast?_eq_none_iff.mp isLast
      rw [isBatch.items]
      exact ⟨sound.store, sound.gt, fetched.before.ordered, fetched.finished rfl⟩
    | some last =>
      have next := fetched.next last.1.storeKey (by rw [keysOf, List.getLast?_map, isLast]; rfl)
      rw [answer_batch isBatch isLast]
      refine ⟨sound.store, fun id isGt => ?_, ?_⟩
      · obtain rfl := Option.some.inj isGt
        exact (isBatch.readable last (List.mem_of_getLast? isLast)).id.safe
      · rw [keys_append]
        exact next

/-- What a step does, and in which stage it is taken. -/
theorem step_cases {a : ListAction} (stepped : s.step json batchSize a = some s') :
    (∃ action, a = .store action ∧ s' = { s with store := s.store.step json action }) ∨
    (a = .find ∧ s.stage = .fetching ∧ s' = { s with stage := .awaiting (s.store.find json batchSize s.gt) }) ∨
    (∃ found, a = .answer ∧ s.stage = .awaiting found ∧ s' = s.answer json found) ∨
    (∃ found e, a = .fail e ∧ s.stage = .awaiting found ∧ s' = { s with stage := .thrown e }) ∨
    (a = .next ∧ s.stage = .yielded ∧ s' = { s with stage := .fetching }) := by
  unfold AnchorRequestList.step at stepped
  cases a with
  | store action => exact .inl ⟨action, rfl, (Option.some.inj stepped).symm⟩
  | find =>
    cases stage : s.stage <;> rw [stage] at stepped <;> cases stepped
    exact .inr (.inl ⟨rfl, rfl, rfl⟩)
  | answer =>
    cases stage : s.stage <;> rw [stage] at stepped <;> cases stepped
    exact .inr (.inr (.inl ⟨_, rfl, rfl, rfl⟩))
  | fail e =>
    cases stage : s.stage <;> rw [stage] at stepped <;> cases stepped
    exact .inr (.inr (.inr (.inl ⟨_, e, rfl, rfl, rfl⟩)))
  | next =>
    cases stage : s.stage <;> rw [stage] at stepped <;> cases stepped
    exact .inr (.inr (.inr (.inr ⟨rfl, rfl, rfl⟩)))

theorem Sound.step (sound : Sound json present s) {a : ListAction} (positive : 0 < batchSize) (proper : Proper json s a)
    (there : ∀ k, present k → s.store.HasKey k) (stepped : s.step json batchSize a = some s') :
    Sound json present s' := by
  have stage := sound.stage
  rcases step_cases stepped with ⟨action, rfl, rfl⟩ | ⟨rfl, isFetching, rfl⟩ | ⟨found, rfl, awaits, rfl⟩ |
    ⟨_, e, rfl, _, rfl⟩ | ⟨rfl, isYielded, rfl⟩
  · exact ⟨sound.store.step proper, sound.gt, stage⟩
  · rw [isFetching] at stage
    refine ⟨sound.store, sound.gt, ?_⟩
    cases isStore : s.store.store with
    | none =>
      have failed : ∃ e, s.store.find json batchSize s.gt = .error e := by
        unfold AnchorRequestStore.find
        rw [isStore]
        exact ⟨_, rfl⟩
      obtain ⟨e, failed⟩ := failed
      dsimp only
      rw [failed]
      exact ReadTo.ordered stage
    | some level =>
      obtain ⟨batch, requests, found, isBatch, fetched, _⟩ :=
        find_fetched sound.store isStore sound.gt positive stage there
      dsimp only
      rw [found]
      exact ⟨requests, isBatch, fetched⟩
  · exact sound.answer awaits
  · exact ⟨sound.store, sound.gt, stage.ordered⟩
  · rw [isYielded] at stage
    exact ⟨sound.store, sound.gt, stage⟩

/-- What is sound stays so, as long as the keys are there. -/
theorem Sound.reaches {start : AnchorRequestList} (initial : Sound json present start) (positive : 0 < batchSize)
    {allowed : AnchorRequestList → ListAction → Prop} (proper : ∀ s a, allowed s a → Proper json s a)
    (there : ∀ s a, allowed s a → ∀ k, present k → s.store.HasKey k)
    (reaches : Reaches (AnchorRequestList.step json batchSize) allowed start s) : Sound json present s :=
  reaches.invariant initial fun _ _ _ sound permitted stepped =>
    sound.step positive (proper _ _ permitted) (there _ _ permitted) stepped

theorem sound_make (json : JsonText) (present : StoreKey → Prop) (minLoopDurationMs minLoopJitterMs : Nat) :
    Sound json present (make minLoopDurationMs minLoopJitterMs) :=
  ⟨⟨nofun, nofun⟩, nofun, ReadTo.start present⟩

/-- No batch has been read yet. -/
structure Begins (s : AnchorRequestList) : Prop where
  stage : s.stage = .fetching
  gt : s.gt = none
  yields : s.yields = []

theorem Begins.sound {other : StoreKey → Prop} (begins : Begins s) (sound : Sound json other s) : Sound json present s := by
  refine ⟨sound.store, sound.gt, ?_⟩
  rw [begins.stage, begins.gt]
  have keys : s.keys = [] := by rw [AnchorRequestList.keys, results, begins.yields]; rfl
  rw [keys]
  exact ReadTo.start present

/-- No read fails. -/
def Undisturbed (s : AnchorRequestList) (a : ListAction) : Prop := (∀ e, a ≠ .fail e) ∧ s.store.store.isSome

/-- Nothing was thrown, or is about to be. -/
def Unfailed (stage : ListStage) : Prop := (∀ e, stage ≠ .thrown e) ∧ ∀ e, stage ≠ .awaiting (.error e)

theorem Unfailed.step (unfailed : Unfailed s.stage) (sound : Sound json present s) {a : ListAction} (positive : 0 < batchSize)
    (there : ∀ k, present k → s.store.HasKey k) (undisturbed : Undisturbed s a)
    (stepped : s.step json batchSize a = some s') : Unfailed s'.stage := by
  have stage := sound.stage
  rcases step_cases stepped with ⟨action, rfl, rfl⟩ | ⟨rfl, isFetching, rfl⟩ | ⟨found, rfl, awaits, rfl⟩ |
    ⟨_, e, rfl, _, rfl⟩ | ⟨rfl, _, rfl⟩
  · exact unfailed
  · rw [isFetching] at stage
    obtain ⟨level, isStore⟩ := Option.isSome_iff_exists.mp undisturbed.2
    obtain ⟨batch, _, found, _⟩ := find_fetched sound.store isStore sound.gt positive stage there
    dsimp only
    rw [found]
    exact ⟨nofun, nofun⟩
  · rw [awaits] at stage unfailed
    cases found with
    | error e => exact absurd rfl (unfailed.2 e)
    | ok batch =>
      obtain ⟨requests, isBatch, _⟩ := stage
      cases isLast : requests.getLast? with
      | none =>
        obtain rfl := List.getLast?_eq_none_iff.mp isLast
        rw [isBatch.items]
        exact ⟨nofun, nofun⟩
      | some last =>
        rw [answer_batch isBatch isLast]
        exact ⟨nofun, nofun⟩
  · exact absurd rfl (undisturbed.1 e)
  · exact ⟨nofun, nofun⟩

/-- What is yielded for a stream, or is to be, is a certain request. -/
structure Yields (json : JsonText) (id : StreamID) (value : StoredRequest) (s : AnchorRequestList) : Prop where
  yielded : ∀ result ∈ s.results, result.key = id → result.value = value
  awaited : ∀ batch, s.stage = .awaiting (.ok batch) → ∀ item ∈ batch, item.1 = id.storeKey →
    deserializeAnchorRequestData json item.2 = .ok value

theorem Yields.answer {id : StreamID} {value : StoredRequest} (sayings : Yields json id value s) (sound : Sound json present s)
    {found : FoundBatch} (awaits : s.stage = .awaiting found) : Yields json id value (s.answer json found) := by
  have stage := sound.stage
  rw [awaits] at stage
  cases found with
  | error e => exact ⟨sayings.yielded, nofun⟩
  | ok batch =>
    obtain ⟨requests, isBatch, _⟩ := stage
    cases isLast : requests.getLast? with
    | none =>
      obtain rfl := List.getLast?_eq_none_iff.mp isLast
      rw [isBatch.items]
      exact ⟨sayings.yielded, nofun⟩
    | some last =>
      rw [answer_batch isBatch isLast]
      refine ⟨fun result member isKey => ?_, nofun⟩
      simp only [results, List.flatten_append, List.mem_append, List.flatten_singleton] at member
      rcases member with old | new
      · exact sayings.yielded result old isKey
      · obtain ⟨request, inBatch, rfl⟩ := List.mem_map.mp new
        have item : foundEntry json request ∈ batch := by
          rw [isBatch.items]
          exact List.mem_map_of_mem inBatch
        have readable := isBatch.readable request inBatch
        have isValue := sayings.awaited batch awaits _ item (congrArg StreamID.storeKey isKey)
        exact Except.ok.inj ((deserialize_serialize readable.reads readable.cid).symm.trans isValue)

theorem Yields.step {id : StreamID} {value : StoredRequest} (sayings : Yields json id value s) (sound : Sound json present s)
    {a : ListAction} (positive : 0 < batchSize) (there : ∀ k, present k → s.store.HasKey k)
    (loaded : s.store.load json id = .ok (some value)) (stepped : s.step json batchSize a = some s') :
    Yields json id value s' := by
  have stage := sound.stage
  rcases step_cases stepped with ⟨action, rfl, rfl⟩ | ⟨rfl, isFetching, rfl⟩ | ⟨found, rfl, awaits, rfl⟩ |
    ⟨_, e, rfl, _, rfl⟩ | ⟨rfl, _, rfl⟩
  · exact ⟨sayings.yielded, sayings.awaited⟩
  · rw [isFetching] at stage
    refine ⟨sayings.yielded, fun batch awaits item member isKey => ?_⟩
    have found : s.store.find json batchSize s.gt = .ok batch := ListStage.awaiting.inj awaits
    cases isStore : s.store.store with
    | none =>
      unfold AnchorRequestStore.find at found
      rw [isStore] at found
      cases found
    | some level =>
      obtain ⟨other, requests, isFound, isBatch, _, inLevel⟩ :=
        find_fetched sound.store isStore sound.gt positive stage there
      obtain rfl := Except.ok.inj (found.symm.trans isFound)
      rw [isBatch.items] at member
      obtain ⟨request, inBatch, rfl⟩ := List.mem_map.mp member
      have readable := isBatch.readable request inBatch
      obtain rfl := StreamID.storeKey_injective isKey
      rw [AnchorRequestStore.load_eq_some isStore readable (inLevel request inBatch) loaded]
      exact deserialize_serialize readable.reads readable.cid
  · exact sayings.answer sound awaits
  · exact ⟨sayings.yielded, nofun⟩
  · exact ⟨sayings.yielded, nofun⟩

end

end AnchorRequestList

namespace InfiniteList

def make (minLoopDurationMs minLoopJitterMs : Nat) : InfiniteList := { store := { minLoopDurationMs, minLoopJitterMs } }

def Proper (json : JsonText) (s : InfiniteList) : InfiniteAction → Prop
  | .store action => s.store.Proper json action
  | _ => True

/-- Nothing happens to the store, and the generator returns only if it is to stop. -/
structure Kept (old : AnchorRequestStore) (s' : InfiniteList) : Prop where
  store : s'.store = old
  returned : s'.stage = .returned → old.shouldStop = true

theorem kept_again (s : InfiniteList) : Kept s.store s.again := by
  refine ⟨rfl, fun returned => ?_⟩
  unfold again at returned
  dsimp only at returned
  split at returned
  next stops => exact stops
  next => cases returned

theorem kept_passed (s : InfiniteList) (ms : Nat) : Kept s.store (s.passed ms) := by
  unfold passed
  split
  · exact ⟨rfl, nofun⟩
  · split
    · dsimp only
      split
      · exact ⟨rfl, nofun⟩
      · exact kept_again { s with gt := none, numEntries := 0 }
    · exact kept_again { s with gt := none, numEntries := 0 }

theorem kept_answer (s : InfiniteList) (ms : Nat) (found : FoundBatch) : Kept s.store (s.answer ms found) := by
  cases found with
  | error e => exact kept_again { s with logged := s.logged ++ [e] }
  | ok batch =>
    unfold answer
    dsimp only
    split
    · exact kept_passed s ms
    · split
      · exact kept_again { s with logged := s.logged ++ [_] }
      · exact ⟨rfl, nofun⟩

theorem kept_next (s : InfiniteList) (items : List (StoreKey × JsValue)) : Kept s.store (s.next items) := by
  cases items with
  | nil => exact kept_again s
  | cons item items =>
    unfold next
    dsimp only
    split
    · exact kept_again { s with numEntries := s.numEntries + 1, logged := s.logged ++ [_] }
    · exact ⟨rfl, nofun⟩

section

variable {json : JsonText} {batchSize : Nat} {present : StoreKey → Prop} {start s s' : InfiniteList}

/-- What a step does, and in which stage it is taken. -/
theorem step_cases {a : InfiniteAction} (stepped : s.step json batchSize a = some s') :
    (∃ action, a = .store action ∧ s' = { s with store := s.store.step json action }) ∨
    (a = .find ∧ s.stage = .fetching ∧ s' = { s with stage := .awaiting (s.store.find json batchSize s.gt) }) ∨
    (∃ ms found, a = .answer ms ∧ s.stage = .awaiting found ∧ s' = s.answer ms found) ∨
    (∃ ms found, a = .timeout ms ∧ s.stage = .awaiting found ∧ s' = s.passed ms) ∨
    (∃ e found, a = .fail e ∧ s.stage = .awaiting found ∧ s' = s.caught e) ∨
    (∃ items, a = .next ∧ s.stage = .yielding items ∧ s' = s.next items) ∨
    (∃ ms, a = .wake ∧ s.stage = .sleeping ms ∧ s' = s.restart) := by
  unfold InfiniteList.step at stepped
  cases a with
  | store action => exact .inl ⟨action, rfl, (Option.some.inj stepped).symm⟩
  | find =>
    cases stage : s.stage <;> rw [stage] at stepped <;> cases stepped
    exact .inr (.inl ⟨rfl, rfl, rfl⟩)
  | answer ms =>
    cases stage : s.stage <;> rw [stage] at stepped <;> cases stepped
    exact .inr (.inr (.inl ⟨ms, _, rfl, rfl, rfl⟩))
  | timeout ms =>
    cases stage : s.stage <;> rw [stage] at stepped <;> cases stepped
    exact .inr (.inr (.inr (.inl ⟨ms, _, rfl, rfl, rfl⟩)))
  | fail e =>
    cases stage : s.stage <;> rw [stage] at stepped <;> cases stepped
    exact .inr (.inr (.inr (.inr (.inl ⟨e, _, rfl, rfl, rfl⟩))))
  | next =>
    cases stage : s.stage <;> rw [stage] at stepped <;> cases stepped
    exact .inr (.inr (.inr (.inr (.inr (.inl ⟨_, rfl, rfl, rfl⟩)))))
  | wake =>
    cases stage : s.stage <;> rw [stage] at stepped <;> cases stepped
    exact .inr (.inr (.inr (.inr (.inr (.inr ⟨_, rfl, rfl, rfl⟩)))))

/-- Every step but one of the store keeps it. -/
theorem kept_step {a : InfiniteAction} (stepped : s.step json batchSize a = some s') :
    (∃ action, a = .store action ∧ s' = { s with store := s.store.step json action }) ∨ Kept s.store s' := by
  rcases step_cases stepped with ofStore | ⟨-, -, rfl⟩ | ⟨ms, found, -, -, rfl⟩ | ⟨ms, _, -, -, rfl⟩ | ⟨e, _, -, -, rfl⟩ |
    ⟨items, -, -, rfl⟩ | ⟨_, -, -, rfl⟩
  · exact .inl ofStore
  · exact .inr ⟨rfl, nofun⟩
  · exact .inr (kept_answer s ms found)
  · exact .inr (kept_passed s ms)
  · exact .inr (kept_again { s with logged := s.logged ++ [e] })
  · exact .inr (kept_next s items)
  · exact .inr (kept_again { s with gt := none, numEntries := 0 })

/-- What holds in every run. -/
structure Sound (json : JsonText) (s : InfiniteList) : Prop where
  store : s.store.Sound json
  returned : s.stage = .returned → s.store.shouldStop = true

theorem Sound.step (sound : Sound json s) {a : InfiniteAction} (proper : Proper json s a)
    (stepped : s.step json batchSize a = some s') : Sound json s' := by
  rcases kept_step stepped with ⟨action, rfl, rfl⟩ | kept
  · refine ⟨sound.store.step proper, fun returned => ?_⟩
    exact AnchorRequestStore.shouldStop_step (sound.returned returned)
  · refine ⟨kept.store ▸ sound.store, fun returned => ?_⟩
    rw [kept.store]
    exact kept.returned returned

theorem sound_of_reaches {minLoopDurationMs minLoopJitterMs : Nat}
    (reaches : Reaches (step json batchSize) (Proper json) (make minLoopDurationMs minLoopJitterMs) s) : Sound json s :=
  have initial : Sound json (make minLoopDurationMs minLoopJitterMs) := ⟨⟨nofun, nofun⟩, nofun⟩
  reaches.invariant initial fun _ _ _ sound proper stepped => sound.step proper stepped

/-- The generator returns only when the store is not open. -/
theorem Sound.notOpen (sound : Sound json s) (returned : s.stage = .returned) : s.store.isOpen = false :=
  sound.store.stopped (sound.returned returned)

/-- A pass begins: the next batch is the first one. -/
structure Begins (s : InfiniteList) : Prop where
  stage : s.stage = .fetching
  gt : s.gt = none

/-- The pass is not over, and no read times out or fails. -/
structure Undisturbed (s : InfiniteList) (a : InfiniteAction) : Prop where
  timeout : ∀ ms, a ≠ .timeout ms
  fail : ∀ e, a ≠ .fail e
  store : s.store.store.isSome
  goesOn : s.stage ≠ .awaiting (.ok [])

/-- What a stage says of the keys seen in a pass. -/
def StageSound (json : JsonText) (present : StoreKey → Prop) (cursor : Option StoreKey) (seen : List StoreKey) :
    InfiniteStage → Prop
  | .fetching => ReadTo present cursor seen
  | .awaiting (.ok batch) => ∃ requests, IsBatch json batch requests ∧ ReadTo.Fetched present cursor seen (keysOf requests)
  | .yielding items => ∃ requests, IsBatch json items requests ∧ ReadTo present cursor (seen ++ keysOf requests)
  | .returned => seen.Pairwise (· < ·)
  | .awaiting (.error _) | .sleeping _ => False

/-- Where a pass has come to, and what it has yielded. -/
structure Passes (json : JsonText) (present : StoreKey → Prop) (start s : InfiniteList) (new : List StreamID) : Prop where
  store : s.store.Sound json
  gt : ∀ id ∈ s.gt, id.type ≤ MAX_SAFE_INTEGER
  logged : s.logged = start.logged
  yields : s.yields = start.yields ++ new
  stage : StageSound json present (s.gt.map StreamID.storeKey) (new.map StreamID.storeKey) s.stage

theorem StageSound.ordered {cursor : Option StoreKey} {seen : List StoreKey} {stage : InfiniteStage}
    (sound : StageSound json present cursor seen stage) : seen.Pairwise (· < ·) := by
  cases stage with
  | fetching => exact ReadTo.ordered sound
  | awaiting found =>
    cases found with
    | error e => exact sound.elim
    | ok batch =>
      obtain ⟨_, _, fetched⟩ := sound
      exact fetched.before.ordered
  | yielding items =>
    obtain ⟨_, _, readTo⟩ := sound
    exact (List.pairwise_append.mp readTo.ordered).1
  | sleeping ms => exact sound.elim
  | returned => exact sound

theorem Begins.passes (begins : Begins s) (sound : Sound json s) : Passes json present s s [] := by
  refine ⟨sound.store, ?_, rfl, (List.append_nil _).symm, ?_⟩
  · rw [begins.gt]
    exact nofun
  · rw [begins.stage, begins.gt]
    exact ReadTo.start present

theorem answer_batch {batch : List (StoreKey × JsValue)} {requests : List (StreamID × AnchorRequestData)}
    (isBatch : IsBatch json batch requests) {last : StreamID × AnchorRequestData} (isLast : requests.getLast? = some last)
    (ms : Nat) : s.answer ms (.ok batch) = { s with gt := some last.1, stage := .yielding batch } := by
  unfold answer
  dsimp only
  rw [isBatch.getLast?, isLast, Option.map_some]
  dsimp only
  rw [isBatch.read (List.mem_of_getLast? isLast)]

theorem next_batch {items : List (StoreKey × JsValue)} {request : StreamID × AnchorRequestData}
    (readable : ReadableRequest json request) : s.next (foundEntry json request :: items) =
      { s with numEntries := s.numEntries + 1, yields := s.yields ++ [request.1], stage := .yielding items } := by
  unfold next
  dsimp only
  have read : readStreamID (foundEntry json request).1.text = .ok request.1 := readable.id.read
  rw [read]

theorem Passes.step {new : List StreamID} (passes : Passes json present start s new) {a : InfiniteAction}
    (positive : 0 < batchSize) (proper : Proper json s a) (there : ∀ k, present k → s.store.HasKey k)
    (undisturbed : Undisturbed s a) (stepped : s.step json batchSize a = some s') :
    ∃ more, Passes json present start s' (new ++ more) := by
  have stage := passes.stage
  have yields : s.yields = start.yields ++ (new ++ []) := by rw [List.append_nil, passes.yields]
  rcases step_cases stepped with ⟨action, rfl, rfl⟩ | ⟨rfl, isFetching, rfl⟩ | ⟨ms, found, rfl, awaits, rfl⟩ |
    ⟨ms, _, rfl, -, -⟩ | ⟨e, _, rfl, -, -⟩ | ⟨items, rfl, isYielding, rfl⟩ | ⟨ms, rfl, isSleeping, rfl⟩
  · refine ⟨[], passes.store.step proper, passes.gt, passes.logged, yields, ?_⟩
    rw [List.append_nil]
    exact stage
  · rw [isFetching] at stage
    obtain ⟨level, isStore⟩ := Option.isSome_iff_exists.mp undisturbed.store
    obtain ⟨batch, requests, found, isBatch, fetched, _⟩ :=
      find_fetched passes.store isStore passes.gt positive stage there
    refine ⟨[], passes.store, passes.gt, passes.logged, yields, ?_⟩
    dsimp only
    rw [List.append_nil, found]
    exact ⟨requests, isBatch, fetched⟩
  · rw [awaits] at stage
    cases found with
    | error e => exact stage.elim
    | ok batch =>
      obtain ⟨requests, isBatch, fetched⟩ := stage
      cases isLast : requests.getLast? with
      | none =>
        -- the pass would be over
        obtain rfl := List.getLast?_eq_none_iff.mp isLast
        exact absurd (awaits.trans (congrArg _ (congrArg _ isBatch.items))) undisturbed.goesOn
      | some last =>
        have readTo := fetched.next last.1.storeKey (by rw [keysOf, List.getLast?_map, isLast]; rfl)
        rw [answer_batch isBatch isLast]
        refine ⟨[], passes.store, fun id isGt => ?_, passes.logged, yields, ?_⟩
        · obtain rfl := Option.some.inj isGt
          exact (isBatch.readable last (List.mem_of_getLast? isLast)).id.safe
        · rw [List.append_nil]
          exact ⟨requests, isBatch, readTo⟩
  · exact absurd rfl (undisturbed.timeout ms)
  · exact absurd rfl (undisturbed.fail e)
  · rw [isYielding] at stage
    obtain ⟨requests, ⟨rfl, readable⟩, readTo⟩ := stage
    cases requests with
    | nil =>
      refine ⟨[], passes.store, passes.gt, passes.logged, yields, ?_⟩
      have ends : ReadTo present (s.gt.map StreamID.storeKey) (new.map StreamID.storeKey) := by
        rwa [keysOf, List.map_nil, List.append_nil] at readTo
      rw [List.append_nil, List.map_nil]
      unfold InfiniteList.next again
      dsimp only
      split
      · exact ends.ordered
      · exact ends
    | cons request requests =>
      rw [List.map_cons, next_batch (readable request List.mem_cons_self)]
      refine ⟨[request.1], passes.store, passes.gt, passes.logged, ?_, requests, ⟨rfl, ?_⟩, ?_⟩
      · dsimp only
        rw [passes.yields, List.append_assoc]
      · exact fun other member => readable other (List.mem_cons_of_mem _ member)
      · simpa [keysOf] using readTo
  · rw [isSleeping] at stage
    exact stage.elim

theorem Passes.reaches {allowed : InfiniteList → InfiniteAction → Prop} (begins : Begins start) (sound : Sound json start)
    (positive : 0 < batchSize) (proper : ∀ s a, allowed s a → Proper json s a)
    (undisturbed : ∀ s a, allowed s a → Undisturbed s a)
    (there : ∀ s a, allowed s a → ∀ k, present k → s.store.HasKey k)
    (reaches : Reaches (InfiniteList.step json batchSize) allowed start s) : ∃ new, Passes json present start s new := by
  induction reaches with
  | start => exact ⟨[], begins.passes sound⟩
  | next _ permitted stepped ih =>
    obtain ⟨new, passes⟩ := ih
    obtain ⟨more, after⟩ :=
      passes.step positive (proper _ _ permitted) (there _ _ permitted) (undisturbed _ _ permitted) stepped
    exact ⟨new ++ more, after⟩

end

end InfiniteList

/-- What is listed, over all runs of `list` whose steps are proper: never an entry twice, each in the order of the keys,
and once it has returned every entry that was there from the first read on. -/
structure AnchorRequestList.ExactlyOnce (json : JsonText) (batchSize minLoopDurationMs minLoopJitterMs : Nat) : Prop where
  ordered : ∀ s, Reaches (step json batchSize) (Proper json) (make minLoopDurationMs minLoopJitterMs) s →
    s.keys.Pairwise (· < ·)
  answers : ∀ start s, Reaches (step json batchSize) (Proper json) (make minLoopDurationMs minLoopJitterMs) start →
    start.Begins → Reaches (step json batchSize) (fun s a => Proper json s a ∧ Undisturbed s a) start s →
    ∀ e, s.stage ≠ .thrown e
  complete : ∀ start s, Reaches (step json batchSize) (Proper json) (make minLoopDurationMs minLoopJitterMs) start →
    start.Begins → s.stage = .returned → ∀ id,
    Reaches (step json batchSize) (fun s a => Proper json s a ∧ s.store.HasKey id.storeKey) start s →
    (s.results.map (·.key)).count id = 1
  values : ∀ start s, Reaches (step json batchSize) (Proper json) (make minLoopDurationMs minLoopJitterMs) start →
    start.Begins → s.stage = .returned → ∀ id value,
    Reaches (step json batchSize) (fun s a => Proper json s a ∧ s.store.load json id = .ok (some value)) start s →
    s.results.filter (·.key = id) = [⟨id, value⟩]

/-- What is yielded, over all runs of `infiniteList` whose steps are proper: in a pass in which no read times out or fails
never an entry twice, each in the order of the keys, and at its end every entry that was there from the first read on. -/
structure InfiniteList.ExactlyOnce (json : JsonText) (batchSize minLoopDurationMs minLoopJitterMs : Nat) : Prop where
  passes : ∀ start s, Reaches (step json batchSize) (Proper json) (make minLoopDurationMs minLoopJitterMs) start →
    start.Begins → Reaches (step json batchSize) (fun s a => Proper json s a ∧ Undisturbed s a) start s →
    ∃ new, s.yields = start.yields ++ new ∧ (new.map StreamID.storeKey).Pairwise (· < ·) ∧ s.logged = start.logged ∧
      (s.stage = .awaiting (.ok []) → ∀ id, Reaches (step json batchSize)
        (fun s a => (Proper json s a ∧ Undisturbed s a) ∧ s.store.HasKey id.storeKey) start s → new.count id = 1)
  open_stays : ∀ s, Reaches (step json batchSize) (Proper json) (make minLoopDurationMs minLoopJitterMs) s →
    s.store.isOpen = true → s.stage ≠ .returned

namespace AnchorRequestList

variable {json : JsonText} {batchSize minLoopDurationMs minLoopJitterMs : Nat} {start s : AnchorRequestList}

theorem sound_of_reaches (positive : 0 < batchSize)
    (reaches : Reaches (step json batchSize) (Proper json) (make minLoopDurationMs minLoopJitterMs) s) :
    Sound json (fun _ => False) s :=
  (sound_make json (fun _ => False) minLoopDurationMs minLoopJitterMs).reaches positive (fun _ _ proper => proper)
    (fun _ _ _ _ none => none.elim) reaches

theorem unfailed_of_reaches (positive : 0 < batchSize) (begins : Begins start) (sound : Sound json (fun _ => False) start)
    (reaches : Reaches (step json batchSize) (fun s a => Proper json s a ∧ Undisturbed s a) start s) :
    Sound json (fun _ => False) s ∧ Unfailed s.stage := by
  induction reaches with
  | start =>
    refine ⟨sound, ?_⟩
    rw [begins.stage]
    exact ⟨nofun, nofun⟩
  | next _ permitted stepped ih =>
    obtain ⟨sound, unfailed⟩ := ih
    exact ⟨sound.step positive permitted.1 (fun _ none => none.elim) stepped,
      unfailed.step sound positive (fun _ none => none.elim) permitted.2 stepped⟩

/-- Once it has returned, a key that was always there has been yielded, and once. -/
theorem count_of_returned (positive : 0 < batchSize) (begins : Begins start) (sound : Sound json (fun _ => False) start)
    (returned : s.stage = .returned) {id : StreamID}
    (reaches : Reaches (step json batchSize) (fun s a => Proper json s a ∧ s.store.HasKey id.storeKey) start s) :
    (s.results.map (·.key)).count id = 1 := by
  have initial : Sound json (· = id.storeKey) start := begins.sound sound
  have reached := initial.reaches positive (fun _ _ allowed => allowed.1)
    (fun _ _ allowed _ same => same ▸ allowed.2) reaches
  have stage := reached.stage
  rw [returned] at stage
  obtain ⟨ordered, all⟩ := stage
  have keys : s.keys = (s.results.map (·.key)).map StreamID.storeKey := by
    rw [List.map_map]
    rfl
  rw [keys] at ordered all
  have nodup : (s.results.map (·.key)).Nodup := List.Nodup.of_map StreamID.storeKey (ordered.imp ne_of_lt)
  obtain ⟨other, member, same⟩ := List.mem_map.mp (all id.storeKey rfl)
  obtain rfl := StreamID.storeKey_injective same
  exact List.count_eq_one_of_mem nodup member

theorem values_of_returned (positive : 0 < batchSize) (begins : Begins start) (sound : Sound json (fun _ => False) start)
    {id : StreamID} {value : StoredRequest} (reaches : Reaches (step json batchSize)
      (fun s a => Proper json s a ∧ s.store.load json id = .ok (some value)) start s) :
    ∀ result ∈ s.results, result.key = id → result.value = value := by
  have results : start.results = [] := by rw [AnchorRequestList.results, begins.yields]; rfl
  have reached : Sound json (fun _ => False) s ∧ Yields json id value s := by
    induction reaches with
    | start =>
      refine ⟨sound, ?_, ?_⟩
      · rw [results]
        exact nofun
      · rw [begins.stage]
        exact nofun
    | next _ permitted stepped ih =>
      obtain ⟨sound, yields⟩ := ih
      exact ⟨sound.step positive permitted.1 (fun _ none => none.elim) stepped,
        yields.step sound positive (fun _ none => none.elim) permitted.2 stepped⟩
  exact reached.2.yielded

theorem exactlyOnce (json : JsonText) (positive : 0 < batchSize) (minLoopDurationMs minLoopJitterMs : Nat) :
    ExactlyOnce json batchSize minLoopDurationMs minLoopJitterMs where
  ordered s reaches := (sound_of_reaches positive reaches).stage.ordered
  answers start s first begins reaches :=
    (unfailed_of_reaches positive begins (sound_of_reaches positive first) reaches).2.1
  complete start s first begins returned id reaches :=
    count_of_returned positive begins (sound_of_reaches positive first) returned reaches
  values start s first begins returned id value reaches := by
    have sound := sound_of_reaches positive first
    have has : Reaches (step json batchSize) (fun s a => Proper json s a ∧ s.store.HasKey id.storeKey) start s :=
      reaches.mono fun _ _ allowed => ⟨allowed.1, AnchorRequestStore.hasKey_of_load allowed.2⟩
    have once := count_of_returned positive begins sound returned has
    have value := values_of_returned positive begins sound reaches
    generalize s.results = results at once value
    induction results with
    | nil => cases once
    | cons result results ih =>
      rw [List.map_cons, List.count_cons] at once
      by_cases same : result.key = id
      · have none : ∀ other ∈ results, other.key ≠ id := by
          intro other member isKey
          have more : 0 < (results.map (·.key)).count id :=
            List.count_pos_iff.mpr (List.mem_map.mpr ⟨other, member, isKey⟩)
          rw [if_pos (beq_iff_eq.mpr same)] at once
          omega
        rw [List.filter_cons_of_pos (by simpa using same),
          List.filter_eq_nil_iff.mpr fun other member => by simpa using none other member]
        obtain ⟨key, isValue⟩ := result
        obtain rfl := value _ List.mem_cons_self same
        obtain rfl : key = id := same
        rfl
      · rw [if_neg (by simpa using same), Nat.add_zero] at once
        rw [List.filter_cons_of_neg (by simpa using same)]
        exact ih once fun other member => value other (List.mem_cons_of_mem _ member)

end AnchorRequestList

namespace InfiniteList

variable {batchSize : Nat}

theorem exactlyOnce (json : JsonText) (positive : 0 < batchSize) (minLoopDurationMs minLoopJitterMs : Nat) :
    ExactlyOnce json batchSize minLoopDurationMs minLoopJitterMs where
  passes start s first begins reaches := by
    have sound := sound_of_reaches first
    obtain ⟨new, passes⟩ : ∃ new, Passes json (fun _ => False) start s new :=
      Passes.reaches begins sound positive (fun _ _ allowed => allowed.1) (fun _ _ allowed => allowed.2)
        (fun _ _ _ _ none => none.elim) reaches
    refine ⟨new, passes.yields, passes.stage.ordered, passes.logged, fun ends id there => ?_⟩
    obtain ⟨same, whole⟩ : ∃ new, Passes json (· = id.storeKey) start s new :=
      Passes.reaches begins sound positive (fun _ _ allowed => allowed.1.1) (fun _ _ allowed => allowed.1.2)
        (fun _ _ allowed _ isKey => isKey ▸ allowed.2) there
    obtain rfl : new = same := List.append_cancel_left (passes.yields.symm.trans whole.yields)
    have stage := whole.stage
    rw [ends] at stage
    obtain ⟨requests, isBatch, fetched⟩ := stage
    obtain rfl := List.map_eq_nil_iff.mp isBatch.items.symm
    obtain ⟨other, member, isKey⟩ := List.mem_map.mp (fetched.finished rfl id.storeKey rfl)
    obtain rfl := StreamID.storeKey_injective isKey
    exact List.count_eq_one_of_mem (List.Nodup.of_map StreamID.storeKey (whole.stage.ordered.imp ne_of_lt)) member
  open_stays s reaches isOpen returned := by
    have closed := (sound_of_reaches reaches).notOpen returned
    exact Bool.false_ne_true (closed.symm.trans isOpen)

end InfiniteList

end Ceramic
