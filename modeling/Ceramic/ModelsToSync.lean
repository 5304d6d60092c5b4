import Ceramic.ContinuousSync
import Ceramic.HistorySyncGate
import Ceramic.RebuiltAnchors
import Mathlib.Data.Set.Basic

/-! The models of a node's sync jobs: they are read from the index at a start, and the API starts and stops
syncing them. The set of their texts is gone with the node. -/
namespace Ceramic

namespace Indexing

/-- The text of an object that has none of its own. -/
def OBJECT_TEXT : String := "[object Object]"

/-- `id.toString()`: the entries of the index are plain objects. -/
def ModelData.toString (_ : ModelData) : String := OBJECT_TEXT

/-- `this.databaseIndexApi?.getIndexedModels() ?? []` -/
def LocalIndexApi.indexedModels (databaseIndexApi : Option (List ModelData)) : List ModelData :=
  databaseIndexApi.getD []

end Indexing

open Indexing

structure ModelSyncOptions where
  startBlock : Option Int := none
  endBlock : Option Int := none
  deriving DecidableEq, Repr

/-- A call of `startModelSync` that has not enqueued its job; without an end block it waits for the latest one. -/
structure StartedSync where
  modelIds : List String
  startBlock : Int
  endBlock : Option Int
  deriving DecidableEq, Repr

/-- A node with what it syncs: `modelsToSync` keeps its texts in the order in which they were added. -/
structure SyncingNode where
  api : SyncApi
  modelsToSync : List String
  started : List StartedSync
  deriving DecidableEq, Repr

inductive SyncingAction where
  /-- The node starts; its index may not be configured. -/
  | init (latestBlock : Block) (databaseIndexApi : Option (List Indexing.ModelData))
  /-- A step that neither reads nor changes the models, apart from the jobs of the blocks and the loss of all in a
  crash. -/
  | api (action : SyncAction)
  | startModelSync (modelIds : List String) (syncOptions : ModelSyncOptions)
  /-- The i-th call gets the latest block, if it needs it, and adds its job. -/
  | startAdded (i : Nat) (latest : Int)
  | startFailed (i : Nat)
  | stopModelSync (modelIds : List String)
  deriving DecidableEq, Repr

/-- `Set.add` -/
def addModel (modelsToSync : List String) (modelId : String) : List String :=
  if modelId ∈ modelsToSync then modelsToSync else modelsToSync ++ [modelId]

namespace SyncingNode

def _initModelsToSync (databaseIndexApi : Option (List Indexing.ModelData)) : List String :=
  ((LocalIndexApi.indexedModels databaseIndexApi).map Indexing.ModelData.toString).foldl addModel []

/-- An end block of 0, or one before the start block, counts as none. -/
def startedSync (config : SyncConfig) (modelIds : List String) (syncOptions : ModelSyncOptions) : StartedSync :=
  let startBlock := max config.defaultStartBlock (syncOptions.startBlock.getD 0)
  { modelIds
    startBlock
    endBlock := syncOptions.endBlock.filter fun endBlock => endBlock ≠ 0 ∧ ¬endBlock < startBlock }

def fullJob (latest : Int) (started : StartedSync) : SyncJobData :=
  { jobType := .Full
    fromBlock := started.startBlock
    toBlock := started.endBlock.getD (latest - BLOCK_CONFIRMATIONS)
    models := started.modelIds }

def fresh : SyncingNode := ⟨.fresh, [], []⟩

variable (config : SyncConfig)

/-- The configuration with the models that are synced now. -/
def syncing (modelsToSync : List String) : SyncConfig := { config with modelsToSync }

def apiStep (node : SyncingNode) : SyncAction → Option SyncingNode
  | .init _ => none
  | .crash => (node.api.step (syncing config node.modelsToSync) .crash).map fun api => ⟨api, [], []⟩
  | action => (node.api.step (syncing config node.modelsToSync) action).map fun api => { node with api }

def step (node : SyncingNode) : SyncingAction → Option SyncingNode
  | .init latestBlock databaseIndexApi =>
    let modelsToSync := _initModelsToSync databaseIndexApi
    (node.api.step (syncing config modelsToSync) (.init latestBlock)).map fun api => ⟨api, modelsToSync, []⟩
  | .api action => node.apiStep config action
  | .startModelSync modelIds syncOptions =>
    if node.api.session.isSome then
      some { node with
        modelsToSync := modelIds.foldl addModel node.modelsToSync
        started := node.started ++ [startedSync config modelIds syncOptions] }
    else none
  | .startAdded i latest => do
    let started ← node.started[i]?
    return { node with
      api := { node.api with jobs := _addSyncJob node.api.jobs (fullJob latest started) }
      started := node.started.eraseIdx i }
  | .startFailed i => do
    let _ ← node.started[i]?
    return { node with started := node.started.eraseIdx i }
  | .stopModelSync modelIds =>
    if node.api.session.isSome then some { node with modelsToSync := modelIds.foldl List.erase node.modelsToSync }
    else none

/-- The job of a handler that starts with its block. -/
def emitJob (modelsToSync : List String) (session : SyncSession) (hash parentHash : String) : Option SyncJobData :=
  session.loaded.head?.map fun number =>
    let block : Block := { number, hash, parentHash }
    blockJob modelsToSync block (session.reorganized block)

/-- The job of `init`, unless nothing is to be caught up. -/
def initJob (modelsToSync : List String) (api : SyncApi) (latestBlock : Block) : Option SyncJobData :=
  match catchUpJob (syncing config modelsToSync) api.state.processedBlockNumber latestBlock.number with
  | .adding job => some job
  | .done | .failed => none

/-- The job that a step hands to `_addSyncJob`. -/
def jobMade (node : SyncingNode) : SyncingAction → Option SyncJobData
  | .init latestBlock databaseIndexApi =>
    initJob config (_initModelsToSync databaseIndexApi) node.api latestBlock
  | .api (.emit hash parentHash) =>
    node.api.session.bind fun session => emitJob node.modelsToSync session hash parentHash
  | .startAdded i latest => node.started[i]?.map (fullJob latest)
  | .api _ | .startModelSync _ _ | .startFailed _ | .stopModelSync _ => none

end SyncingNode

/-- The texts of the models that are synced after an action: those that are indexed when the node starts, and those
that are started since and not stopped. -/
def SyncingAction.synced (before : Set String) : SyncingAction → Set String
  | .init _ databaseIndexApi =>
    { text | ∃ data ∈ LocalIndexApi.indexedModels databaseIndexApi, data.streamID.toString = text }
  | .api .crash => ∅
  | .startModelSync modelIds _ => before ∪ { text | text ∈ modelIds }
  | .stopModelSync modelIds => before \ { text | text ∈ modelIds }
  | .api _ | .startAdded _ _ | .startFailed _ => before

def syncedModels (actions : List SyncingAction) : Set String := actions.foldl SyncingAction.synced ∅

/-- The models that were indexed when the node started last. -/
def SyncingAction.indexed (before : List Indexing.ModelData) : SyncingAction → List Indexing.ModelData
  | .init _ databaseIndexApi => LocalIndexApi.indexedModels databaseIndexApi
  | .api .crash => []
  | .api _ | .startModelSync _ _ | .startAdded _ _ | .startFailed _ | .stopModelSync _ => before

def indexedAtStart (actions : List SyncingAction) : List Indexing.ModelData := actions.foldl SyncingAction.indexed []

/-- Calls give models by the texts of their stream ids. -/
def SyncingAction.GivesTexts : SyncingAction → Prop
  | .startModelSync modelIds _ | .stopModelSync modelIds =>
    ∀ modelId ∈ modelIds, ∃ model : StreamID, modelId = model.toString
  | .init _ _ | .api _ | .startAdded _ _ | .startFailed _ => True

/-- A list of models without repetitions, which are those of a set. -/
structure Lists (models : List String) (synced : Set String) : Prop where
  once : models.Nodup
  exactly : ∀ text, text ∈ models ↔ text ∈ synced

namespace Lists

variable {models : List String} {synced : Set String}

theorem add (lists : Lists models synced) (modelId : String) :
    Lists (addModel models modelId) (insert modelId synced) := by
  unfold addModel
  split
  next already =>
    refine ⟨lists.once, fun text => ?_⟩
    rw [Set.mem_insert_iff, lists.exactly]
    constructor
    · exact .inr
    · rintro (rfl | other)
      · exact (lists.exactly _).mp already
      · exact other
  next new =>
    constructor
    · exact lists.once.append (List.nodup_singleton _) (by simpa using new)
    · intro text
      rw [List.mem_append, List.mem_singleton, Set.mem_insert_iff, lists.exactly, or_comm]

theorem addAll (lists : Lists models synced) (modelIds : List String) :
    Lists (modelIds.foldl addModel models) (synced ∪ { text | text ∈ modelIds }) := by
  induction modelIds generalizing models synced with
  | nil => simpa using lists
  | cons modelId modelIds ih =>
    have rest := ih (lists.add modelId)
    refine ⟨rest.once, fun text => ?_⟩
    rw [List.foldl_cons, rest.exactly]
    simp only [Set.mem_union, Set.mem_insert_iff, Set.mem_ofPred_eq, List.mem_cons]
    tauto

theorem eraseAll (lists : Lists models synced) (modelIds : List String) :
    Lists (modelIds.foldl List.erase models) (synced \ { text | text ∈ modelIds }) := by
  induction modelIds generalizing models synced with
  | nil => simpa using lists
  | cons modelId modelIds ih =>
    have without : Lists (models.erase modelId) (synced \ {modelId}) := by
      refine ⟨lists.once.erase modelId, fun text => ?_⟩
      rw [lists.once.mem_erase_iff, lists.exactly, Set.mem_sdiff, Set.mem_singleton_iff, and_comm]
    have rest := ih without
    refine ⟨rest.once, fun text => ?_⟩
    rw [List.foldl_cons, rest.exactly]
    simp only [Set.mem_sdiff, Set.mem_singleton_iff, Set.mem_ofPred_eq, List.mem_cons]
    tauto

end Lists

section

variable {models : List String}

theorem toString_ne_object (id : StreamID) : id.toString ≠ OBJECT_TEXT := by
  intro same
  have letters : base36Encode id.bytes = OBJECT_TEXT.toList := by
    rw [← same, StreamID.toString, String.toList_ofList]
  cases letters

theorem object_notMem {modelIds : List String}
    (texts : ∀ modelId ∈ modelIds, ∃ model : StreamID, modelId = model.toString) : OBJECT_TEXT ∉ modelIds := by
  intro member
  obtain ⟨model, same⟩ := texts _ member
  exact toString_ne_object model same.symm

theorem object_notMem_init (before : Set String) (latestBlock : Block) (databaseIndexApi : Option (List Indexing.ModelData)) :
    OBJECT_TEXT ∉ (SyncingAction.init latestBlock databaseIndexApi).synced before := by
  intro member
  obtain ⟨data, _, same⟩ : ∃ data ∈ LocalIndexApi.indexedModels databaseIndexApi,
    data.streamID.toString = OBJECT_TEXT := member
  exact toString_ne_object data.streamID same

theorem mem_addAll {text : String} (modelIds : List String) (member : text ∈ models) :
    text ∈ modelIds.foldl addModel models := by
  induction modelIds generalizing models with
  | nil => exact member
  | cons modelId modelIds ih =>
    apply ih
    unfold addModel
    split
    · exact member
    · exact List.mem_append_left _ member

theorem mem_eraseAll {text : String} {modelIds : List String} (kept : text ∉ modelIds) (member : text ∈ models) :
    text ∈ modelIds.foldl List.erase models := by
  induction modelIds generalizing models with
  | nil => exact member
  | cons modelId modelIds ih =>
    rw [List.mem_cons, not_or] at kept
    exact ih kept.2 ((List.mem_erase_of_ne kept.1).mpr member)

theorem object_mem_init {databaseIndexApi : Option (List Indexing.ModelData)}
    (indexed : LocalIndexApi.indexedModels databaseIndexApi ≠ []) :
    OBJECT_TEXT ∈ SyncingNode._initModelsToSync databaseIndexApi := by
  unfold SyncingNode._initModelsToSync
  cases models : LocalIndexApi.indexedModels databaseIndexApi with
  | nil => exact absurd models indexed
  | cons data rest =>
    rw [List.map_cons, List.foldl_cons]
    exact mem_addAll _ List.mem_cons_self

/-- Whatever is indexed, what a node syncs when it starts is the text of an object. -/
theorem eq_object_of_mem_init {databaseIndexApi : Option (List Indexing.ModelData)} {text : String}
    (member : text ∈ SyncingNode._initModelsToSync databaseIndexApi) : text = OBJECT_TEXT := by
  have all (indexed : List Indexing.ModelData) (before : List String) (objects : ∀ other ∈ before, other = OBJECT_TEXT) :
      ∀ other ∈ (indexed.map Indexing.ModelData.toString).foldl addModel before, other = OBJECT_TEXT := by
    induction indexed generalizing before with
    | nil => exact objects
    | cons data indexed ih =>
      refine ih _ fun other added => ?_
      unfold addModel at added
      split at added
      · exact objects other added
      · rcases List.mem_append.mp added with old | new
        · exact objects other old
        · exact List.mem_singleton.mp new
  exact all _ [] nofun text member

end

namespace SyncingNode

/-- The jobs that a node has enqueued or is about to enqueue are among those that were made. -/
structure Held (made : SyncJobData → Prop) (api : SyncApi) : Prop where
  jobs : ∀ job ∈ api.jobs, made job
  catchUp : ∀ session ∈ api.session, ∀ job, session.catchUp = .adding job → made job
  handlers : ∀ session ∈ api.session, ∀ handler ∈ session.handlers, made handler.job

section

variable {made more : SyncJobData → Prop} {api : SyncApi} {session : SyncSession}

theorem mem_addSyncJob {jobs : List SyncJobData} {job data : SyncJobData} (member : job ∈ _addSyncJob jobs data) :
    job ∈ jobs ∨ job = data := by
  unfold _addSyncJob at member
  split at member
  · exact .inl member
  · simpa using member

theorem held_of_down (down : api.session = none) (jobs : ∀ job ∈ api.jobs, made job) : Held made api where
  jobs := jobs
  catchUp session isSession := by
    rw [down] at isSession
    cases isSession
  handlers session isSession := by
    rw [down] at isSession
    cases isSession

theorem Held.mono (held : Held made api) (also : ∀ job, made job → more job) : Held more api where
  jobs job member := also job (held.jobs job member)
  catchUp session isSession job adding := also job (held.catchUp session isSession job adding)
  handlers session isSession handler member := also _ (held.handlers session isSession handler member)

theorem Held.addSyncJob (held : Held made api) {data : SyncJobData} (isMade : made data) :
    Held made { api with jobs := _addSyncJob api.jobs data } where
  jobs job member := by
    rcases mem_addSyncJob member with old | rfl
    · exact held.jobs job old
    · exact isMade
  catchUp := held.catchUp
  handlers := held.handlers

theorem Held.withSession (held : Held made api) (catchUp : ∀ job, session.catchUp = .adding job → made job)
    (handlers : ∀ handler ∈ session.handlers, made handler.job) :
    Held made { api with session := some session } where
  jobs := held.jobs
  catchUp := by
    intro _ isSession
    obtain rfl := Option.some.inj isSession
    exact catchUp
  handlers := by
    intro _ isSession
    obtain rfl := Option.some.inj isSession
    exact handlers

theorem Held.sessionStep {config : SyncConfig} {action : SyncAction} {after : SyncApi} (held : Held made api)
    (isSession : api.session = some session)
    (emits : ∀ hash parentHash, action = .emit hash parentHash →
      ∀ job, emitJob config.modelsToSync session hash parentHash = some job → made job)
    (stepped : api.sessionStep config session action = some after) : Held made after := by
  have adding := held.catchUp session isSession
  have handlers := held.handlers session isSession
  have fewer (i : Nat) : ∀ handler ∈ session.handlers.eraseIdx i, made handler.job :=
    fun handler member => handlers handler (List.mem_of_mem_eraseIdx member)
  cases action with
  | init latestBlock => cases stepped
  | catchUpAdded =>
    simp only [SyncApi.sessionStep] at stepped
    split at stepped
    next job isAdding =>
      obtain rfl := Option.some.inj stepped
      refine (held.addSyncJob (adding job isAdding)).withSession (fun other done => ?_) handlers
      cases done
    next => cases stepped
  | catchUpFailed =>
    simp only [SyncApi.sessionStep] at stepped
    split at stepped
    · obtain rfl := Option.some.inj stepped
      refine held.withSession (fun other failed => ?_) handlers
      cases failed
    · cases stepped
  | block blockNumber =>
    simp only [SyncApi.sessionStep] at stepped
    split at stepped
    · obtain rfl := Option.some.inj stepped
      exact held.withSession adding handlers
    · cases stepped
  | emit hash parentHash =>
    simp only [SyncApi.sessionStep] at stepped
    split at stepped
    · cases stepped
    next number loaded isLoaded =>
      obtain rfl := Option.some.inj stepped
      refine held.withSession adding fun handler member => ?_
      rcases List.mem_append.mp member with old | new
      · exact handlers handler old
      · obtain rfl := List.mem_singleton.mp new
        exact emits hash parentHash rfl _ (by rw [emitJob, isLoaded]; rfl)
  | added i =>
    simp only [SyncApi.sessionStep] at stepped
    split at stepped
    next block job isHandler =>
      obtain rfl := Option.some.inj stepped
      have isMade : made job := handlers _ (List.mem_of_getElem? isHandler)
      refine (held.addSyncJob isMade).withSession adding fun handler member => ?_
      rcases List.mem_or_eq_of_mem_set member with old | rfl
      · exact handlers handler old
      · exact isMade
    next => cases stepped
  | updated i =>
    simp only [SyncApi.sessionStep] at stepped
    split at stepped
    · obtain rfl := Option.some.inj stepped
      have kept : Held made { api with session := some { session with handlers := session.handlers.eraseIdx i } } :=
        held.withSession adding (fewer i)
      exact ⟨kept.jobs, kept.catchUp, kept.handlers⟩
    · cases stepped
  | failed i =>
    simp only [SyncApi.sessionStep] at stepped
    split at stepped
    · obtain rfl := Option.some.inj stepped
      exact held.withSession adding (fewer i)
    · cases stepped
  | listenerFailed =>
    obtain rfl := Option.some.inj stepped
    exact held.withSession adding handlers
  | crash =>
    obtain rfl := Option.some.inj stepped
    exact held_of_down rfl held.jobs

theorem Held.init {config : SyncConfig} {latestBlock : Block} (held : Held made api)
    (makes : ∀ job, initJob config config.modelsToSync api latestBlock = some job → made job) :
    Held made (api.init config latestBlock) := by
  refine held.withSession (fun job adding => makes job ?_) nofun
  have same : catchUpJob (syncing config config.modelsToSync) api.state.processedBlockNumber latestBlock.number =
      .adding job := adding
  rw [initJob, same]

end

section

variable {config : SyncConfig} {node next : SyncingNode} {actions : List SyncingAction} {action : SyncingAction}
  {job : SyncJobData}

/-- A step of a run made the job. -/
def Made (config : SyncConfig) (actions : List SyncingAction) (job : SyncJobData) : Prop :=
  ∃ before action after node, actions = before ++ action :: after ∧
    Transition.run (step config) fresh before = some node ∧ jobMade config node action = some job

theorem Made.concat (made : Made config actions job) (action : SyncingAction) :
    Made config (actions ++ [action]) job := by
  obtain ⟨before, maker, after, node, rfl, ran, isMade⟩ := made
  exact ⟨before, maker, after ++ [action], node, by simp, ran, isMade⟩

theorem Made.last (ran : Transition.run (step config) fresh actions = some node)
    (isMade : jobMade config node action = some job) : Made config (actions ++ [action]) job :=
  ⟨actions, action, [], node, rfl, ran, isMade⟩

theorem held_apiStep {action : SyncAction} (held : Held (Made config actions) node.api)
    (ran : Transition.run (step config) fresh actions = some node)
    (stepped : node.apiStep config action = some next) : Held (Made config (actions ++ [.api action])) next.api := by
  have more : Held (Made config (actions ++ [.api action])) node.api := held.mono fun _ made => made.concat _
  have inSession {api : SyncApi} (uninit : ∀ latestBlock, action ≠ .init latestBlock)
      (stepped : node.api.step (syncing config node.modelsToSync) action = some api) :
      Held (Made config (actions ++ [.api action])) api := by
    unfold SyncApi.step at stepped
    split at stepped
    next session isSession =>
      refine more.sessionStep isSession (fun hash parentHash isEmit job emitted => ?_) stepped
      subst isEmit
      exact .last ran (by rw [jobMade, isSession]; exact emitted)
    next =>
      cases action with
      | init latestBlock => exact absurd rfl (uninit latestBlock)
      | _ => cases stepped
  cases action with
  | init latestBlock => cases stepped
  | _ =>
    obtain ⟨api, taken, rfl⟩ := Option.map_eq_some_iff.mp stepped
    exact inSession nofun taken

theorem held_step (held : Held (Made config actions) node.api)
    (ran : Transition.run (step config) fresh actions = some node) (stepped : node.step config action = some next) :
    Held (Made config (actions ++ [action])) next.api := by
  have more : Held (Made config (actions ++ [action])) node.api := held.mono fun _ made => made.concat action
  cases action with
  | init latestBlock databaseIndexApi =>
    obtain ⟨api, taken, rfl⟩ := Option.map_eq_some_iff.mp stepped
    unfold SyncApi.step at taken
    split at taken
    · cases taken
    · obtain rfl := Option.some.inj taken
      exact more.init fun job isMade => .last ran isMade
  | api action => exact held_apiStep held ran stepped
  | startModelSync modelIds syncOptions =>
    obtain ⟨_, rfl⟩ := Option.ite_some_none_eq_some.mp stepped
    exact more
  | startAdded i latest =>
    obtain ⟨started, isStarted, stepped⟩ := Option.bind_eq_some_iff.mp stepped
    obtain rfl := Option.some.inj stepped
    exact more.addSyncJob (.last ran (by rw [jobMade, isStarted]; rfl))
  | startFailed i =>
    obtain ⟨started, isStarted, stepped⟩ := Option.bind_eq_some_iff.mp stepped
    obtain rfl := Option.some.inj stepped
    exact more
  | stopModelSync modelIds =>
    obtain ⟨_, rfl⟩ := Option.ite_some_none_eq_some.mp stepped
    exact more

theorem held_of_run (ran : Transition.run (step config) fresh actions = some node) :
    Held (Made config actions) node.api := by
  induction actions using List.reverseRecOn generalizing node with
  | nil =>
    obtain rfl := Option.some.inj ran
    exact held_of_down rfl nofun
  | append_singleton actions action ih =>
    obtain ⟨middle, ran, stepped⟩ := Transition.run_concat.mp ran
    exact held_step (ih ran) ran stepped

theorem initModelsToSync_nil {databaseIndexApi : Option (List Indexing.ModelData)}
    (none : LocalIndexApi.indexedModels databaseIndexApi = []) : _initModelsToSync databaseIndexApi = [] := by
  rw [_initModelsToSync, none]
  rfl

theorem lists_step {index : List Indexing.ModelData} {before : Set String}
    (lists : index = [] → Lists node.modelsToSync before) (stepped : node.step config action = some next)
    (unindexed : action.indexed index = []) : Lists next.modelsToSync (action.synced before) := by
  cases action with
  | init latestBlock databaseIndexApi =>
    obtain ⟨api, _, rfl⟩ := Option.map_eq_some_iff.mp stepped
    have none : LocalIndexApi.indexedModels databaseIndexApi = [] := unindexed
    exact ⟨by simp [initModelsToSync_nil none], fun text => by
      simp [initModelsToSync_nil none, none, SyncingAction.synced]⟩
  | api action =>
    cases action with
    | init latestBlock => cases stepped
    | crash =>
      obtain ⟨api, _, rfl⟩ := Option.map_eq_some_iff.mp stepped
      exact ⟨List.nodup_nil, fun text => by simp [SyncingAction.synced]⟩
    | _ =>
      obtain ⟨api, _, rfl⟩ := Option.map_eq_some_iff.mp stepped
      exact lists unindexed
  | startModelSync modelIds syncOptions =>
    obtain ⟨_, rfl⟩ := Option.ite_some_none_eq_some.mp stepped
    exact (lists unindexed).addAll modelIds
  | startAdded i latest =>
    obtain ⟨started, _, stepped⟩ := Option.bind_eq_some_iff.mp stepped
    obtain rfl := Option.some.inj stepped
    exact lists unindexed
  | startFailed i =>
    obtain ⟨started, _, stepped⟩ := Option.bind_eq_some_iff.mp stepped
    obtain rfl := Option.some.inj stepped
    exact lists unindexed
  | stopModelSync modelIds =>
    obtain ⟨_, rfl⟩ := Option.ite_some_none_eq_some.mp stepped
    exact (lists unindexed).eraseAll modelIds

theorem lists_of_run (ran : Transition.run (step config) fresh actions = some node)
    (unindexed : indexedAtStart actions = []) : Lists node.modelsToSync (syncedModels actions) := by
  induction actions using List.reverseRecOn generalizing node with
  | nil =>
    obtain rfl := Option.some.inj ran
    exact ⟨List.nodup_nil, by simp [syncedModels, fresh]⟩
  | append_singleton actions action ih =>
    obtain ⟨middle, ran, stepped⟩ := Transition.run_concat.mp ran
    rw [indexedAtStart, List.foldl_append] at unindexed
    rw [syncedModels, List.foldl_append]
    exact lists_step (ih ran) stepped unindexed

/-- Where models were indexed at the start, the text of an object is among what is synced, and no model has it. -/
structure Misled (node : SyncingNode) (index : List Indexing.ModelData) (synced : Set String) : Prop where
  object : index ≠ [] → OBJECT_TEXT ∈ node.modelsToSync
  apart : OBJECT_TEXT ∉ synced

theorem misled_step {index : List Indexing.ModelData} {before : Set String} (misled : Misled node index before)
    (texts : action.GivesTexts) (stepped : node.step config action = some next) :
    Misled next (action.indexed index) (action.synced before) := by
  cases action with
  | init latestBlock databaseIndexApi =>
    obtain ⟨api, _, rfl⟩ := Option.map_eq_some_iff.mp stepped
    exact ⟨object_mem_init, object_notMem_init before latestBlock databaseIndexApi⟩
  | api action =>
    cases action with
    | init latestBlock => cases stepped
    | crash =>
      obtain ⟨api, _, rfl⟩ := Option.map_eq_some_iff.mp stepped
      exact ⟨fun indexed => absurd rfl indexed, id⟩
    | _ =>
      obtain ⟨api, _, rfl⟩ := Option.map_eq_some_iff.mp stepped
      exact ⟨misled.object, misled.apart⟩
  | startModelSync modelIds syncOptions =>
    obtain ⟨_, rfl⟩ := Option.ite_some_none_eq_some.mp stepped
    refine ⟨fun indexed => mem_addAll modelIds (misled.object indexed), ?_⟩
    rintro (old | new)
    · exact misled.apart old
    · exact object_notMem texts new
  | startAdded i latest =>
    obtain ⟨started, _, stepped⟩ := Option.bind_eq_some_iff.mp stepped
    obtain rfl := Option.some.inj stepped
    exact ⟨misled.object, misled.apart⟩
  | startFailed i =>
    obtain ⟨started, _, stepped⟩ := Option.bind_eq_some_iff.mp stepped
    obtain rfl := Option.some.inj stepped
    exact ⟨misled.object, misled.apart⟩
  | stopModelSync modelIds =>
    obtain ⟨_, rfl⟩ := Option.ite_some_none_eq_some.mp stepped
    exact ⟨fun indexed => mem_eraseAll (object_notMem texts) (misled.object indexed),
      fun member => misled.apart member.1⟩

theorem misled_of_run (ran : Transition.run (step config) fresh actions = some node)
    (texts : ∀ action ∈ actions, action.GivesTexts) :
    Misled node (indexedAtStart actions) (syncedModels actions) := by
  induction actions using List.reverseRecOn generalizing node with
  | nil =>
    obtain rfl := Option.some.inj ran
    exact ⟨fun indexed => absurd rfl indexed, id⟩
  | append_singleton actions action ih =>
    obtain ⟨middle, ran, stepped⟩ := Transition.run_concat.mp ran
    have misled := ih ran fun action member => texts action (List.mem_append_left _ member)
    rw [indexedAtStart, syncedModels, List.foldl_append, List.foldl_append]
    exact misled_step misled (texts action (by simp)) stepped

theorem models_initJob {models : List String} {api : SyncApi} {latestBlock : Block}
    (made : initJob config models api latestBlock = some job) : job.models = models := by
  unfold initJob catchUpJob at made
  cases processed : api.state.processedBlockNumber with
  | none =>
    simp only [processed] at made
    obtain rfl := Option.some.inj made
    rfl
  | some processedBlockNumber =>
    by_cases behind : processedBlockNumber < latestBlock.number
    · simp only [processed, if_pos behind] at made
      obtain rfl := Option.some.inj made
      rfl
    · simp [processed, if_neg behind] at made

/-- The jobs for the blocks and the one of `init` are made from what is synced. -/
theorem jobMade_cases (made : jobMade config node action = some job) (partly : job.jobType ≠ .Full) :
    (∃ latestBlock databaseIndexApi, action = .init latestBlock databaseIndexApi ∧
      job.models = _initModelsToSync databaseIndexApi) ∨
    ∃ hash parentHash, action = .api (.emit hash parentHash) ∧ job.models = node.modelsToSync := by
  cases action with
  | init latestBlock databaseIndexApi => exact .inl ⟨latestBlock, databaseIndexApi, rfl, models_initJob made⟩
  | api action =>
    cases action with
    | emit hash parentHash =>
      obtain ⟨session, _, emitted⟩ := Option.bind_eq_some_iff.mp made
      obtain ⟨number, _, rfl⟩ := Option.map_eq_some_iff.mp emitted
      exact .inr ⟨hash, parentHash, rfl, (SyncApi.blockJob_spec _ _ _).1⟩
    | _ => cases made
  | startAdded i latest =>
    obtain ⟨started, _, rfl⟩ := Option.map_eq_some_iff.mp made
    exact absurd rfl partly
  | _ => cases made

end

end SyncingNode

open RebuildAnchorWorker

/-- A tree of anchors that the network serves: what its proof leads to is stored, and the anchor commits can be. -/
structure ServedTree (put : JsValue → Except JsError Cid) (base : IpfsRecords) (proof : AnchorProof)
    (candidates : List ICandidate) : Prop where
  encodes : EncodesRecords put
  addressed : Ipfs.Addressed put base
  built : ∃ compareFn metadataFn depthLimit leaves records metadata,
    BuiltTree put compareFn metadataFn depthLimit leaves records proof.root metadata ∧
      (∀ entry ∈ records, entry ∈ base) ∧
      candidates = IpfsMerge.candidates put compareFn metadataFn depthLimit leaves
  txHash : proof.txHash.WellFormed
  stores : StoresAnchors put proof candidates

/-- Once the job and the rebuild jobs that it creates have run, each document of a synced model that can be loaded and
is anchored in a block of the job has reached `handleCommit`. -/
def Delivers (job : SyncJobData) (synced : Set String) : Prop :=
  ∀ (chain : AnchorListener.Chain) (chainId : String) (worker : SyncWorker), 0 ≤ job.fromBlock →
    Transition.Reaches (SyncWorker.step chain chainId job) (fun worker action =>
      worker.keepsProgress job action = true) .initial worker → worker.completed ≠ none →
    ∀ log ∈ chain.logs, job.fromBlock ≤ log.blockNumber → log.blockNumber ≤ job.toBlock →
      ∃ rebuildJob ∈ worker.rebuildJobs, ∀ put base candidates,
        ServedTree put base (AnchorListener.createAnchorProof chainId log) candidates →
        (∃ records calls, Handles put rebuildJob base records calls) ∧
        ∀ records calls, Handles put rebuildJob base records calls →
          ∀ (i : Nat) (candidate : ICandidate) (model : StreamID) (text : String), candidates[i]? = some candidate →
            getModelForStream base candidate.streamId = .ok (some model) → model.toText = .ok text →
              text ∈ synced →
              ∃ call, (i, call) ∈ calls ∧ call.streamId = candidate.streamId ∧ call.model = model ∧
                Anchors records (AnchorListener.createAnchorProof chainId log) candidate call

/-- The job names the models, as the workers compare them. -/
structure Names (job : SyncJobData) (synced : Set String) : Prop where
  lists : Lists job.models synced
  delivers : Delivers job synced

theorem delivers_of_lists {job : SyncJobData} {synced : Set String} (lists : Lists job.models synced) :
    Delivers job synced := by
  intro chain chainId worker nonneg reaches completed log isLog low high
  have spec := SyncWorker.spec_of_reaches nonneg (Int.le_trans low high) reaches
  refine ⟨_, spec.completed completed log.blockNumber low high log isLog rfl, ?_⟩
  intro put base candidates served
  obtain ⟨compareFn, metadataFn, depthLimit, leaves, treeRecords, metadata, built, stays, rfl⟩ := served.built
  obtain ⟨proofCid, given⟩ := served.stores.proves rfl
  obtain ⟨ends, rebuilt⟩ :=
    rebuilds_of_stored served.encodes built served.addressed stays served.txHash served.stores job.models given
  refine ⟨ends, fun records calls handles i candidate model text isCandidate hasModel isText isSynced => ?_⟩
  have all := rebuilt records calls handles
  have wanted : Wanted base job.models candidate.streamId model :=
    ⟨hasModel, text, isText, (lists.exactly text).mpr isSynced⟩
  have called := (all.complete i).mpr ⟨candidate, model, isCandidate, wanted⟩
  obtain ⟨⟨_, call⟩, isCall, rfl⟩ := List.mem_map.mp called
  obtain ⟨other, isOther, sameStream, otherWanted, anchors⟩ := all.anchored _ call isCall
  obtain rfl := Option.some.inj (isCandidate.symm.trans isOther)
  have sameModel : call.model = model := by
    have both := otherWanted.1.symm.trans hasModel
    exact Option.some.inj (Except.ok.inj both)
  exact ⟨call, isCall, sameStream, sameModel, anchors⟩

namespace SyncingNode

/-- The catch-up, continuous and reorg jobs of a run name the models that are synced when they are made if no model
was indexed at the start, and otherwise they do not. A job is enqueued only if a step of the run made it. -/
structure NamesModels (config : SyncConfig) (actions : List SyncingAction) (node : SyncingNode) : Prop where
  names : ∀ before action after reached job, actions = before ++ action :: after →
    Transition.run (step config) fresh before = some reached → jobMade config reached action = some job →
      job.jobType ≠ .Full → indexedAtStart (before ++ [action]) = [] → Names job (syncedModels (before ++ [action]))
  misnames : ∀ before action after reached job, actions = before ++ action :: after →
    Transition.run (step config) fresh before = some reached → jobMade config reached action = some job →
      job.jobType ≠ .Full → (∀ given ∈ before, given.GivesTexts) → indexedAtStart (before ++ [action]) ≠ [] →
        ¬Names job (syncedModels (before ++ [action]))
  enqueued : ∀ job ∈ node.api.jobs, Made config actions job

section

variable {config : SyncConfig} {actions : List SyncingAction} {node : SyncingNode} {action : SyncingAction}
  {job : SyncJobData}

theorem lists_jobMade (ran : Transition.run (step config) fresh actions = some node)
    (made : jobMade config node action = some job) (partly : job.jobType ≠ .Full)
    (unindexed : indexedAtStart (actions ++ [action]) = []) :
    Lists job.models (syncedModels (actions ++ [action])) := by
  rw [indexedAtStart, List.foldl_append] at unindexed
  rw [syncedModels, List.foldl_append]
  obtain ⟨latestBlock, databaseIndexApi, rfl, models⟩ | ⟨hash, parentHash, rfl, models⟩ := jobMade_cases made partly
  · have none : LocalIndexApi.indexedModels databaseIndexApi = [] := unindexed
    rw [models, initModelsToSync_nil none]
    exact ⟨List.nodup_nil, fun text => by simp [SyncingAction.synced, none]⟩
  · rw [models]
    exact lists_of_run ran unindexed

theorem misnamed_jobMade (ran : Transition.run (step config) fresh actions = some node)
    (made : jobMade config node action = some job) (partly : job.jobType ≠ .Full)
    (texts : ∀ given ∈ actions, given.GivesTexts) (indexed : indexedAtStart (actions ++ [action]) ≠ []) :
    OBJECT_TEXT ∈ job.models ∧ OBJECT_TEXT ∉ syncedModels (actions ++ [action]) := by
  have misled := misled_of_run ran texts
  rw [indexedAtStart, List.foldl_append] at indexed
  rw [syncedModels, List.foldl_append]
  obtain ⟨latestBlock, databaseIndexApi, rfl, models⟩ | ⟨hash, parentHash, rfl, models⟩ := jobMade_cases made partly
  · rw [models]
    exact ⟨object_mem_init indexed, object_notMem_init (syncedModels actions) latestBlock databaseIndexApi⟩
  · rw [models]
    exact ⟨misled.object indexed, misled.apart⟩

/-- The sync jobs of a node name the models that are synced exactly if none was indexed when the node started. -/
theorem jobs_name_models (ran : Transition.run (step config) fresh actions = some node) :
    NamesModels config actions node where
  names := by
    intro before action _ _ job _ ranBefore isMade partly unindexed
    have lists := lists_jobMade ranBefore isMade partly unindexed
    exact ⟨lists, delivers_of_lists lists⟩
  misnames := by
    intro before action _ _ job _ ranBefore isMade partly texts indexed names
    obtain ⟨listed, apart⟩ := misnamed_jobMade ranBefore isMade partly texts indexed
    exact apart ((names.lists.exactly _).mp listed)
  enqueued := (held_of_run ran).jobs

/-- The catch-up of a start rebuilds nothing, whatever is indexed. -/
theorem not_wanted_of_init {latestBlock : Block} {databaseIndexApi : Option (List Indexing.ModelData)}
    (made : jobMade config node (.init latestBlock databaseIndexApi) = some job) (base : IpfsRecords)
    (streamId model : StreamID) : ¬Wanted base job.models streamId model := by
  rintro ⟨_, text, isText, member⟩
  rw [models_initJob made] at member
  have same := eq_object_of_mem_init member
  rw [StreamID.text_unique isText] at same
  exact toString_ne_object model same

end

/-- A model is started after the node, and the next block has its job. -/
def startedLater : List SyncingAction :=
  [.init ⟨100, "h100", "h99"⟩ none, .startModelSync [RebuildFixture.model.toString] {}, .api (.block 121),
    .api (.emit "h101" "h100"), .api (.added 0)]

theorem startedLater_named : ∃ node, Transition.run (step SyncApi.oneModel) fresh startedLater = some node ∧
    node.api.jobs = [⟨.Continuous, 101, 101, [RebuildFixture.model.toString]⟩] ∧
    NamesModels SyncApi.oneModel startedLater node :=
  ⟨_, rfl, rfl, jobs_name_models rfl⟩

/-- The catch-up job of a node that starts with an indexed model does not name it. -/
theorem indexed_not_named : ¬∀ (config : SyncConfig) (actions : List SyncingAction) (node : SyncingNode),
    Transition.run (step config) fresh actions = some node →
      ∀ before action after reached job, actions = before ++ action :: after →
        Transition.run (step config) fresh before = some reached → jobMade config reached action = some job →
          job.jobType ≠ .Full → Names job (syncedModels (before ++ [action])) := by
  intro named
  let start : SyncingAction := .init ⟨100, "h100", "h99"⟩ (some [⟨RebuildFixture.model, none⟩])
  have made : jobMade SyncApi.oneModel fresh start = some ⟨.Catchup, 0, 100, [OBJECT_TEXT]⟩ := rfl
  have names := named SyncApi.oneModel [start] _ rfl [] start [] fresh _ rfl rfl made nofun
  have misnamed := @misnamed_jobMade SyncApi.oneModel [] fresh start _ rfl made nofun nofun (List.cons_ne_nil _ _)
  exact misnamed.2 ((names.lists.exactly _).mp misnamed.1)

end SyncingNode

end Ceramic
