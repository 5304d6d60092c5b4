import Ceramic.IndexedContents
import Ceramic.ModelInterfaces

/-! Models that a node has stopped indexing. Their rows stay as they are, and they are not indexed again: not on
request, since it is refused, and not by a restart, which loads the models whose rows say that they are indexed. -/
namespace Ceramic.Indexing

open StreamIndexing (IndexCall)

/-- What the index is told of a model is about that model. -/
structure ArgsLoader where
  load : ModelData → Except JsError IndexModelArgs
  same : ∀ {data args}, load data = .ok args → args.model = data.streamID

theorem getIndexModelArgs_model {reader : ModelReader} {MODEL : StreamID} {req : Ceramic.ModelData}
    {loading : LoadingInterfaceImplements} {args : Ceramic.IndexModelArgs}
    (loaded : (getIndexModelArgs reader MODEL req loading).1 = .ok args) : args.model = req.streamID := by
  unfold getIndexModelArgs at loaded
  dsimp only at loaded
  split at loaded
  next => cases loaded
  next =>
    split at loaded
    next =>
      split at loaded
      next => cases loaded
      next content _ =>
        split at loaded
        next =>
          obtain ⟨implements, _, rfl⟩ := map_eq_ok.mp loaded
          rfl
        next =>
          cases loaded
          rfl
    next =>
      cases loaded
      rfl

/-- The arguments that are got by loading models one at a time. -/
def ArgsLoader.ofReader (reader : ModelReader) (MODEL : StreamID) : ArgsLoader where
  load data := (getIndexModelArgs reader MODEL ⟨data.streamID, .undefined⟩ fun _ => none).1.map fun args =>
    { model := args.model
      relations := args.relations.map fun relations => relations.map (·.1)
      indices := data.indices
      implements := args.implements.getD [] }
  same loaded := by
    obtain ⟨args, isArgs, rfl⟩ := map_eq_ok.mp loaded
    exact getIndexModelArgs_model isArgs

def DatabaseIndexApi.getModelsNoLongerIndexed (api : DatabaseIndexApi) : List ModelData :=
  (api.database.ceramic_models.rows.filter fun row => !row.is_indexed).map fun row => ⟨row.model, row.indices⟩

namespace LocalIndexApi

def convertModelDataToIndexModelsArgs (loader : ArgsLoader) (modelsNoLongerIndexed : List ModelData) (modelData : ModelData) :
    Except JsError IndexModelArgs :=
  if modelsNoLongerIndexed.any fun oldIdx => oldIdx.streamID == modelData.streamID then
    .error ⟨"Cannot re-index model " ++ modelData.streamID.toString ++ ", data may not be up-to-date"⟩
  else loader.load modelData

section

variable (type : DatabaseType) (allowQueriesBeforeHistoricalSync : Bool) (answers : Answers) (loader : ArgsLoader)

def indexModels (api : DatabaseIndexApi) (models : List ModelData) : Except JsError Unit × DatabaseIndexApi :=
  match models.mapM (convertModelDataToIndexModelsArgs loader api.getModelsNoLongerIndexed) with
  | .error e => (.error e, api)
  | .ok indexModelsArgs => api.indexModels type allowQueriesBeforeHistoricalSync answers indexModelsArgs

/-- At a start the models that are loaded from the database are passed back to it. -/
def init (api : DatabaseIndexApi) : Except JsError Unit × DatabaseIndexApi :=
  let api := { api.init with modelRelations := fun _ => none }
  indexModels type allowQueriesBeforeHistoricalSync answers loader api api.indexedModels

end

end LocalIndexApi

namespace DatabaseIndexApi

/-- The models in memory are indexed as their rows say. -/
def Known (api : DatabaseIndexApi) : Prop :=
  ∀ data ∈ api.indexedModels, ∃ row, api.database.ceramic_models.find? data.streamID = some row ∧ row.is_indexed = true

/-- A model was indexed and is no longer. -/
def Stopped (api : DatabaseIndexApi) (model : StreamID) : Prop :=
  ∃ row, api.database.ceramic_models.find? model = some row ∧ row.is_indexed = false

variable {type : DatabaseType} {allowQueriesBeforeHistoricalSync : Bool} {answers : Answers} {api : DatabaseIndexApi}
  {model : StreamID}

theorem Known.apart (known : api.Known) (stopped : api.Stopped model) : ∀ data ∈ api.indexedModels, data.streamID ≠ model := by
  rintro data member rfl
  obtain ⟨row, found, indexed⟩ := known data member
  obtain ⟨_, sameFound, unindexed⟩ := stopped
  obtain rfl := Option.some.inj (found.symm.trans sameFound)
  rw [indexed] at unindexed
  cases unindexed

theorem mem_track {args : IndexModelArgs} {data : ModelData} (member : data ∈ (api.track args).indexedModels) :
    data ∈ api.indexedModels ∨ args.model = data.streamID := by
  unfold track at member
  dsimp only at member
  split at member
  next => exact .inl member
  next => exact (List.mem_append.mp member).imp_right fun isNew => by rw [List.mem_singleton.mp isNew]

theorem mem_foldl_track {models : List IndexModelArgs} {data : ModelData}
    (member : data ∈ (models.foldl track api).indexedModels) :
    data ∈ api.indexedModels ∨ ∃ args ∈ models, args.model = data.streamID := by
  induction models generalizing api with
  | nil => exact .inl member
  | cons args models ih =>
    rcases ih member with before | ⟨other, behind, same⟩
    · exact (mem_track before).imp_right fun same => ⟨args, List.mem_cons_self, same⟩
    · exact .inr ⟨other, List.mem_cons_of_mem _ behind, same⟩

/-- A call that indexes models leaves the rows and the models in memory, or it writes rows for all of its models and
takes no others into memory. -/
structure Indexed (api after : DatabaseIndexApi) (models : List IndexModelArgs) : Prop where
  cases : (after.indexedModels = api.indexedModels ∧ after.database = api.database) ∨
    (after.database.ceramic_models = withModels api.database.ceramic_models models ∧
      ∀ data ∈ after.indexedModels, data ∈ api.indexedModels ∨ ∃ args ∈ models, args.model = data.streamID)

theorem indexed_indexModels (api : DatabaseIndexApi) (models : List IndexModelArgs) :
    Indexed api (indexModels type allowQueriesBeforeHistoricalSync answers api models).2 models := by
  by_cases given : models = []
  · subst given
    exact ⟨.inl ⟨rfl, rfl⟩⟩
  by_cases begun : Begun type answers models
  · by_cases done : Committed answers models
    · rw [indexModels_committed begun done]
      by_cases queryable : Queryable allowQueriesBeforeHistoricalSync answers models
      · rw [trackModels_queryable queryable]
        refine ⟨.inr ⟨?_, fun data member => @mem_foldl_track (api.committed models) models data member⟩⟩
        rw [foldl_track_database]
        rfl
      · obtain ⟨e, before, args, behind, rfl, result⟩ :=
          @trackModels_rejected (api.committed models) models allowQueriesBeforeHistoricalSync answers queryable
        rw [result]
        refine ⟨.inr ⟨?_, fun data member => ?_⟩⟩
        · rw [foldl_track_database]
          rfl
        · refine (@mem_foldl_track (api.committed _) before data member).imp_right ?_
          rintro ⟨other, inFront, same⟩
          exact ⟨other, List.mem_append_left _ inFront, same⟩
    · obtain ⟨e, result⟩ :=
        @indexModels_rolledBack type allowQueriesBeforeHistoricalSync answers api models given begun done
      rw [result]
      exact ⟨.inl ⟨rfl, rfl⟩⟩
  · obtain ⟨e, result⟩ := @indexModels_refused type allowQueriesBeforeHistoricalSync answers api models given begun
    rw [result]
    exact ⟨.inl ⟨rfl, rfl⟩⟩

theorem Indexed.known {after : DatabaseIndexApi} {models : List IndexModelArgs} (indexed : Indexed api after models)
    (known : api.Known) : after.Known := by
  rcases indexed.cases with ⟨sameModels, sameDatabase⟩ | ⟨written, kept⟩
  · unfold Known
    rw [sameModels, sameDatabase]
    exact known
  · intro data member
    rw [written, find?_withModels]
    cases listed : models.find? fun args => decide (args.model = data.streamID) with
    | some args =>
      refine ⟨_, rfl, ?_⟩
      cases api.database.ceramic_models.find? data.streamID <;> rfl
    | none =>
      have old : data ∈ api.indexedModels := (kept data member).resolve_right fun ⟨args, inModels, same⟩ =>
        absurd (decide_eq_true same) (List.find?_eq_none.mp listed args inModels)
      exact known data old

theorem Indexed.stopped {after : DatabaseIndexApi} {models : List IndexModelArgs} (indexed : Indexed api after models)
    (apart : ∀ args ∈ models, args.model ≠ model) (stopped : api.Stopped model) : after.Stopped model := by
  unfold Stopped
  rcases indexed.cases with ⟨_, sameDatabase⟩ | ⟨written, _⟩
  · rw [sameDatabase]
    exact stopped
  · have unlisted : (models.find? fun args => decide (args.model = model)) = none :=
      List.find?_eq_none.mpr fun args member => by simpa using apart args member
    rw [written, find?_withModels, unlisted]
    exact stopped

theorem mem_getModelsNoLongerIndexed (stopped : api.Stopped model) :
    ∃ data ∈ api.getModelsNoLongerIndexed, data.streamID = model := by
  obtain ⟨row, found, unindexed⟩ := stopped
  refine ⟨⟨row.model, row.indices⟩, List.mem_map.mpr ⟨row, List.mem_filter.mpr ⟨?_, ?_⟩, rfl⟩, ?_⟩
  · exact List.mem_of_find?_eq_some found
  · rw [unindexed]
    rfl
  · have isModel : row.model = model := KeyedTable.key_of_find? found
    exact isModel

/-- No arguments are made for a model that was stopped. -/
theorem converted_apart {loader : ArgsLoader} {models : List ModelData} {args : List IndexModelArgs}
    (converted : models.mapM (LocalIndexApi.convertModelDataToIndexModelsArgs loader api.getModelsNoLongerIndexed) = .ok args)
    (stopped : api.Stopped model) : ∀ arg ∈ args, arg.model ≠ model := by
  obtain ⟨old, isOld, isModel⟩ := mem_getModelsNoLongerIndexed stopped
  intro arg member same
  obtain ⟨data, _, made⟩ := exists_of_forall₂ (mapM_ok converted).flip member
  unfold LocalIndexApi.convertModelDataToIndexModelsArgs at made
  split at made
  next => cases made
  next fresh =>
    refine fresh (List.any_eq_true.mpr ⟨old, isOld, beq_iff_eq.mpr ?_⟩)
    rw [isModel, ← same]
    exact loader.same made

theorem indexed_local (loader : ArgsLoader) (api : DatabaseIndexApi) (models : List ModelData) :
    ∃ args : List IndexModelArgs, (∀ model, api.Stopped model → ∀ arg ∈ args, arg.model ≠ model) ∧
      Indexed api (LocalIndexApi.indexModels type allowQueriesBeforeHistoricalSync answers loader api models).2 args := by
  unfold LocalIndexApi.indexModels
  split
  next => exact ⟨[], fun _ _ => List.forall_mem_nil _, ⟨.inl ⟨rfl, rfl⟩⟩⟩
  next args converted => exact ⟨args, fun _ => converted_apart converted, indexed_indexModels api args⟩

theorem known_init (api : DatabaseIndexApi) : Known { api.init with modelRelations := fun _ => none } := by
  intro data member
  obtain ⟨row, inTable, rfl⟩ := List.mem_map.mp member
  obtain ⟨inRows, indexed⟩ := List.mem_filter.mp inTable
  exact ⟨row, (KeyedTable.mem_iff_find? api.database.ceramic_models.unique).mp inRows, indexed⟩

theorem known_stopIndexingModels (known : api.Known) (models : List ModelData) :
    (stopIndexingModels type answers api models).2.Known := by
  unfold stopIndexingModels
  split
  next => exact known
  next table stopped =>
    intro data member
    obtain ⟨old, kept⟩ := List.mem_filter.mp member
    obtain ⟨row, found, indexed⟩ := known data old
    refine ⟨row, ?_, indexed⟩
    dsimp only
    rw [find?_stopped stopped, if_neg (by simpa using kept)]
    exact found

theorem stopped_stopIndexingModels (stopped : api.Stopped model) (models : List ModelData) :
    (stopIndexingModels type answers api models).2.Stopped model := by
  unfold stopIndexingModels
  split
  next => exact stopped
  next table written =>
    obtain ⟨row, found, unindexed⟩ := stopped
    unfold Stopped
    dsimp only
    rw [find?_stopped written, found]
    split
    · exact ⟨_, rfl, rfl⟩
    · exact ⟨row, rfl, unindexed⟩

theorem stopped_of_done {models : List ModelData} (done : (stopIndexingModels type answers api models).1 = .ok ())
    (listed : ∃ data ∈ models, data.streamID = model) : (stopIndexingModels type answers api models).2.Stopped model := by
  unfold stopIndexingModels at done ⊢
  split at done
  next => cases done
  next table written =>
    obtain ⟨data, member, rfl⟩ := listed
    have isListed : models.any (fun other => other.streamID == data.streamID) = true :=
      List.any_eq_true.mpr ⟨data, member, beq_self_eq_true _⟩
    unfold Stopped
    dsimp only
    rw [find?_stopped written, if_pos isListed]
    exact ⟨_, rfl, by cases api.database.ceramic_models.find? data.streamID <;> rfl⟩

end DatabaseIndexApi

/-- What a node has of the index. -/
structure IndexNode where
  config : DatabaseIndexApi
  tables : String → ModelTable

namespace IndexNode

/-- The index that updates are written to. -/
def index (node : IndexNode) : Ceramic.DatabaseIndexApi :=
  { indexedModels := node.config.indexedModels.map ModelData.streamID
    modelRelations := node.config.modelRelations
    tables := node.tables }

def ModelsKnown (node : IndexNode) : Prop := node.config.Known

end IndexNode

inductive LocalIndexAction where
  | indexModels (loader : ArgsLoader) (answers : Answers) (models : List ModelData)
  | stopIndexingModels (answers : Answers) (models : List ModelData)
  | restart (loader : ArgsLoader) (answers : Answers)
  | update (call : IndexCall)

def IndexNode.step (type : DatabaseType) (allowQueriesBeforeHistoricalSync : Bool) (node : IndexNode) :
    LocalIndexAction → Option IndexNode
  | .indexModels loader answers models => some { node with
      config := (LocalIndexApi.indexModels type allowQueriesBeforeHistoricalSync answers loader node.config models).2 }
  | .stopIndexingModels answers models =>
    some { node with config := (node.config.stopIndexingModels type answers models).2 }
  | .restart loader answers => some { node with
      config := (LocalIndexApi.init type allowQueriesBeforeHistoricalSync answers loader node.config).2 }
  | .update call => some { node with tables := (StreamIndexing.afterCall node.index call).tables }

section Runs

open Ceramic.Indexing.DatabaseIndexApi (Known Stopped)

variable {type : DatabaseType} {allowQueriesBeforeHistoricalSync : Bool} {model : StreamID}

/-- An update only writes to the table of a model that is indexed. -/
theorem afterCall_other {index : Ceramic.DatabaseIndexApi} (call : IndexCall) {name : String}
    (apart : ∀ model, LocalIndexApi.shouldIndexStream index model = true → model.toString ≠ name) :
    (StreamIndexing.afterCall index call).tables name = index.tables name := by
  have written {args : IndexStreamArgs} {index' : Ceramic.DatabaseIndexApi}
      (isIndexed : LocalIndexApi.shouldIndexStream index args.model = true)
      (stored : index.indexStream args call.now = .ok index') : index'.tables name = index.tables name := by
    have elsewhere (table : ModelTable) : (index.updateTable (asTableName args.model) table).tables name = index.tables name :=
      if_neg fun same => apart args.model isIndexed same.symm
    unfold Ceramic.DatabaseIndexApi.indexStream at stored
    dsimp only at stored
    split at stored
    next => exact Except.ok.inj stored ▸ elsewhere _
    next =>
      split at stored
      next => exact Except.ok.inj stored ▸ rfl
      next =>
        obtain ⟨_, _, stored⟩ := bind_eq_ok.mp stored
        exact Except.ok.inj stored ▸ elsewhere _
  have needed {index' : Ceramic.DatabaseIndexApi}
      (updated : StreamIndexing._indexStreamIfNeeded index call.state call.now = .ok index') :
      index'.tables name = index.tables name := by
    unfold StreamIndexing._indexStreamIfNeeded at updated
    split at updated
    next =>
      obtain ⟨_, _, updated⟩ := bind_eq_ok.mp updated
      unfold Ceramic.LocalIndexApi.indexStream at updated
      split at updated
      next isIndexed => exact written isIndexed updated
      next => exact Except.ok.inj updated ▸ rfl
    next => exact Except.ok.inj updated ▸ rfl
  obtain ⟨storing, result, _⟩ := run_eq index call
  unfold StreamIndexing.afterCall
  split
  next index' updated =>
    rw [result] at updated
    split at updated
    next => exact needed (bind_eq_ok.mp updated).choose_spec.2
    next => exact needed updated
  next => rfl

variable {node node' : IndexNode} {action : LocalIndexAction}

theorem known_step (known : node.ModelsKnown)
    (stepped : node.step type allowQueriesBeforeHistoricalSync action = some node') : node'.ModelsKnown := by
  cases action with
  | indexModels loader answers models =>
    obtain rfl := Option.some.inj stepped
    obtain ⟨args, _, indexed⟩ := @DatabaseIndexApi.indexed_local type allowQueriesBeforeHistoricalSync answers loader
      node.config models
    exact indexed.known known
  | stopIndexingModels answers models =>
    obtain rfl := Option.some.inj stepped
    exact DatabaseIndexApi.known_stopIndexingModels known models
  | restart loader answers =>
    obtain rfl := Option.some.inj stepped
    obtain ⟨args, _, indexed⟩ := @DatabaseIndexApi.indexed_local type allowQueriesBeforeHistoricalSync answers loader
      { node.config.init with modelRelations := fun _ => none } node.config.init.indexedModels
    exact indexed.known (DatabaseIndexApi.known_init node.config)
  | update call => exact Option.some.inj stepped ▸ known

/-- A model is stopped, and its table is as it was. -/
structure IndexNode.Frozen (model : StreamID) (table : ModelTable) (node : IndexNode) : Prop where
  known : node.ModelsKnown
  stopped : node.config.Stopped model
  same : node.tables model.toString = table

theorem frozen_step {table : ModelTable} (frozen : node.Frozen model table)
    (stepped : node.step type allowQueriesBeforeHistoricalSync action = some node') : node'.Frozen model table := by
  have knownAfter := known_step frozen.known stepped
  cases action with
  | indexModels loader answers models =>
    obtain rfl := Option.some.inj stepped
    obtain ⟨args, apart, indexed⟩ := @DatabaseIndexApi.indexed_local type allowQueriesBeforeHistoricalSync answers
      loader node.config models
    exact ⟨knownAfter, indexed.stopped (apart _ frozen.stopped) frozen.stopped, frozen.same⟩
  | stopIndexingModels answers models =>
    obtain rfl := Option.some.inj stepped
    exact ⟨knownAfter, DatabaseIndexApi.stopped_stopIndexingModels frozen.stopped models, frozen.same⟩
  | restart loader answers =>
    obtain rfl := Option.some.inj stepped
    obtain ⟨args, apart, indexed⟩ := @DatabaseIndexApi.indexed_local type allowQueriesBeforeHistoricalSync answers
      loader { node.config.init with modelRelations := fun _ => none } node.config.init.indexedModels
    exact ⟨knownAfter, indexed.stopped (apart _ frozen.stopped) frozen.stopped, frozen.same⟩
  | update call =>
    obtain rfl := Option.some.inj stepped
    refine ⟨knownAfter, frozen.stopped, (afterCall_other call fun other isIndexed same => ?_).trans frozen.same⟩
    obtain ⟨indexed, member, isOther⟩ := List.any_eq_true.mp isIndexed
    obtain ⟨data, inMemory, rfl⟩ := List.mem_map.mp member
    refine frozen.known.apart frozen.stopped data inMemory ?_
    rw [beq_iff_eq.mp isOther]
    exact StreamID.toString_injective same

/-- Once a call that stops indexing a model has returned, the model is not indexed again and its rows do not change,
whatever is called and however often the node is restarted; no query that is answered is about it. -/
theorem stopped_model_frozen {start later : IndexNode} (known : start.ModelsKnown) {answers : Answers}
    {models : List ModelData}
    (reached : Transition.Reaches (IndexNode.step type allowQueriesBeforeHistoricalSync) (fun _ _ => True) start node)
    (done : (node.config.stopIndexingModels type answers models).1 = .ok ())
    (listed : ∃ data ∈ models, data.streamID = model)
    (further : Transition.Reaches (IndexNode.step type allowQueriesBeforeHistoricalSync) (fun _ _ => True)
      { node with config := (node.config.stopIndexingModels type answers models).2 } later) :
    (∀ data ∈ later.config.indexedModels, data.streamID ≠ model) ∧
    later.tables model.toString = node.tables model.toString ∧
    ∀ parseCID answers inOrder query asked, (∀ models, (inOrder models).toFinset = models) →
      StreamID.fromString parseCID model.toString = .ok model →
      later.config.getQueryModels parseCID allowQueriesBeforeHistoricalSync answers inOrder query = .ok asked →
      model.toString ∉ asked := by
  have knownHere : node.ModelsKnown := reached.invariant known fun _ _ _ known _ stepped => known_step known stepped
  have frozenHere : IndexNode.Frozen model (node.tables model.toString)
      { node with config := (node.config.stopIndexingModels type answers models).2 } :=
    ⟨DatabaseIndexApi.known_stopIndexingModels knownHere models, DatabaseIndexApi.stopped_of_done done listed, rfl⟩
  have frozen : later.Frozen model (node.tables model.toString) :=
    further.invariant frozenHere fun _ _ _ frozen _ stepped => frozen_step frozen stepped
  have apart := frozen.known.apart frozen.stopped
  refine ⟨apart, frozen.same, fun parseCID answers inOrder query asked lists reads answered member => ?_⟩
  obtain ⟨_, _, _, queryable⟩ := DatabaseIndexApi.getQueryModels_ok lists answered
  obtain ⟨id, read, checked⟩ := queryable _ member
  obtain rfl := Except.ok.inj (reads.symm.trans read)
  have indexed := (then_eq_ok.mp checked).1
  unfold assertModelIsIndexed at indexed
  split at indexed
  next isIndexed =>
    obtain ⟨data, inMemory, same⟩ := List.any_eq_true.mp isIndexed
    exact apart data inMemory (beq_iff_eq.mp same).symm
  next => cases indexed

end Runs

namespace IndexFixture

def plainLoader : ArgsLoader where
  load data := .ok { model := data.streamID, indices := data.indices }
  same loaded := by rw [← Except.ok.inj loaded]

def firstPost : LocalIndexAction :=
  .update { isPinned := true, pin := .ok (), state := postState 1 "first", now := 5 }

def changedPost : LocalIndexAction :=
  .update { isPinned := true, pin := .ok (), state := postState 1 "changed", now := 9 }

def freshNode : IndexNode := ⟨fresh, fun _ => .empty⟩

def indexOnce : List LocalIndexAction := [.indexModels plainLoader {} [⟨postModel, none⟩], firstPost]

def indexAgain : List LocalIndexAction :=
  [.indexModels plainLoader {} [⟨postModel, none⟩], .restart plainLoader {},
    .indexModels plainLoader {} [⟨postModel, none⟩], changedPost]

/-- The node with one post. -/
def postsNode : IndexNode := (Transition.run (IndexNode.step .SQLITE false) freshNode indexOnce).getD freshNode

def stoppedNode : IndexNode :=
  { postsNode with config := (postsNode.config.stopIndexingModels .SQLITE {} [⟨postModel, none⟩]).2 }

/-- The model is stopped with one post; indexing it again is refused, also after a restart. -/
theorem stopped_model_frozen_posts : ∃ later,
    Transition.run (IndexNode.step .SQLITE false) stoppedNode indexAgain = some later ∧
    (∀ data ∈ later.config.indexedModels, data.streamID ≠ postModel) ∧
    later.tables postModel.toString = postsNode.tables postModel.toString ∧
    ∀ parseCID answers inOrder query asked, (∀ models, (inOrder models).toFinset = models) →
      StreamID.fromString parseCID postModel.toString = .ok postModel →
      later.config.getQueryModels parseCID false answers inOrder query = .ok asked → postModel.toString ∉ asked := by
  have known : freshNode.ModelsKnown := List.forall_mem_nil _
  have first : Transition.run (IndexNode.step .SQLITE false) freshNode indexOnce = some postsNode := rfl
  have second : Transition.run (IndexNode.step .SQLITE false) stoppedNode indexAgain = some _ := rfl
  refine ⟨_, second, ?_⟩
  exact @stopped_model_frozen .SQLITE false postModel postsNode freshNode _ known {} [⟨postModel, none⟩]
    (Transition.reaches_of_run first ⟨trivial, trivial, trivial⟩) rfl ⟨_, List.mem_singleton_self _, rfl⟩
    (Transition.reaches_of_run second ⟨trivial, trivial, trivial, trivial, trivial⟩)

end IndexFixture

end Ceramic.Indexing
