import Ceramic.IdText
import Ceramic.Js
import Ceramic.Library.KeyedTable
import Mathlib.Data.Finset.Insert
import Mathlib.Data.List.Perm.Basic

/-! The models that a node indexes and the interfaces that they implement, in memory and in the tables
that outlive the node. -/
namespace Ceramic.Indexing

inductive DatabaseType where
  | POSTGRES
  | SQLITE
  deriving DecidableEq, Repr

/-- An index over fields of the content, each given by its path. -/
structure FieldsIndex where
  fields : List (List String)
  deriving DecidableEq, Repr

structure ModelData where
  streamID : StreamID
  indices : Option (List FieldsIndex) := none
  deriving DecidableEq, Repr

/-- `relations` are the names of the fields that have one. -/
structure IndexModelArgs where
  model : StreamID
  relations : Option (List String) := none
  indices : Option (List FieldsIndex) := none
  implements : List String := []
  deriving DecidableEq, Repr

/-- A row of `ceramic_models`, whose model is stored as the text of its id. -/
structure ModelRow where
  model : StreamID
  is_indexed : Bool
  indices : Option (List FieldsIndex)
  deriving DecidableEq, Repr

/-- What a row becomes when one of the same model is inserted: its indices stay. -/
def ModelRow.merge (is_indexed : Bool) (row : ModelRow) : ModelRow := { row with is_indexed }

abbrev ModelsTable := KeyedTable ModelRow ModelRow.model

/-- The tables that the configuration is loaded from at a start. The second has pairs of an interface and a
model that implements it. -/
structure ConfigTables where
  ceramic_models : ModelsTable
  ceramic_model_implements : List (String × String)

abbrev InterfacesModels := String → Option (Finset String)

structure DatabaseIndexApi where
  indexedModels : List ModelData
  modelRelations : String → Option (List String)
  interfacesModels : InterfacesModels
  database : ConfigTables

/-- What the database and the historical sync answer during a call. -/
structure Answers where
  initMidTables : Except JsError Unit := .ok ()
  verifyTables : Except JsError Unit := .ok ()
  insertModels : Except JsError Unit := .ok ()
  insertImplements : Except JsError Unit := .ok ()
  commit : Except JsError Unit := .ok ()
  syncComplete : String → Except JsError Bool := fun _ => .ok true

namespace ModelsTable

/-- One statement may not merge into a row twice in Postgres. -/
def insertMerging (type : DatabaseType) (table : ModelsTable) (rows : List ModelRow) (merge : ModelRow → ModelRow) :
    Except JsError ModelsTable :=
  if type = .POSTGRES ∧ ¬(rows.map ModelRow.model).Nodup then
    .error ⟨"ON CONFLICT DO UPDATE command cannot affect row a second time"⟩
  else .ok (rows.foldl (fun table row => table.insertOrMerge row merge) table)

end ModelsTable

def insertIgnoring (pairs : List (String × String)) (pair : String × String) : List (String × String) :=
  if pair ∈ pairs then pairs else pairs ++ [pair]

def addModelImplements (interfaces : InterfacesModels) (pair : String × String) : InterfacesModels := fun interfaceID =>
  if interfaceID = pair.1 then some (insert pair.2 ((interfaces interfaceID).getD ∅)) else interfaces interfaceID

def modelImplements (models : List IndexModelArgs) : List (String × String) :=
  models.flatMap fun args => args.implements.map fun interfaceID => (interfaceID, args.model.toString)

namespace DatabaseIndexApi

def getIndexedModelsFromDatabase (tables : ConfigTables) : List ModelData :=
  (tables.ceramic_models.rows.filter ModelRow.is_indexed).map fun row => ⟨row.model, row.indices⟩

def _getInterfacesModelsFromDataBase (tables : ConfigTables) : InterfacesModels :=
  tables.ceramic_model_implements.foldl addModelImplements fun _ => none

/-- The relations are kept in memory only. -/
def init (api : DatabaseIndexApi) : DatabaseIndexApi :=
  { api with
    indexedModels := getIndexedModelsFromDatabase api.database
    interfacesModels := _getInterfacesModelsFromDataBase api.database }

section

variable (type : DatabaseType) (allowQueriesBeforeHistoricalSync : Bool) (answers : Answers)

def assertNoOngoingSyncForModel (modelStreamId : StreamID) : Except JsError Unit :=
  if allowQueriesBeforeHistoricalSync then .ok ()
  else do
    if !(← answers.syncComplete modelStreamId.toString) then
      throw ⟨"Queries on Model " ++ modelStreamId.toString ++
        " are not currently available because historical data for that model is still syncing"⟩

/-- Tables, verification and the first statement of the transaction. -/
def insertModels (table : ModelsTable) (models : List IndexModelArgs) : Except JsError ModelsTable := do
  answers.initMidTables
  answers.verifyTables
  answers.insertModels
  table.insertMerging type (models.map fun args => ⟨args.model, true, args.indices⟩) (ModelRow.merge true)

/-- The rest of the transaction. -/
def commit (pairs : List (String × String)) : Except JsError Unit := do
  if !pairs.isEmpty then answers.insertImplements
  answers.commit

/-- The interfaces are added to memory while the transaction is under way. -/
def indexModelsInDatabase (api : DatabaseIndexApi) (models : List IndexModelArgs) : Except JsError Unit × DatabaseIndexApi :=
  if models.isEmpty then (.ok (), api)
  else match insertModels type answers api.database.ceramic_models models with
    | .error e => (.error e, api)
    | .ok table =>
      let pairs := modelImplements models
      let api := { api with interfacesModels := pairs.foldl addModelImplements api.interfacesModels }
      match commit answers pairs with
      | .error e => (.error e, api)
      | .ok _ => (.ok (), { api with database := ⟨table, pairs.foldl insertIgnoring api.database.ceramic_model_implements⟩ })

def track (api : DatabaseIndexApi) (args : IndexModelArgs) : DatabaseIndexApi :=
  { api with
    indexedModels := if api.indexedModels.any fun indexed => indexed.streamID == args.model then api.indexedModels
      else api.indexedModels ++ [⟨args.model, args.indices⟩]
    modelRelations := match args.relations with
      | some relations => fun model => if model = args.model.toString then some relations else api.modelRelations model
      | none => api.modelRelations }

def trackModels (api : DatabaseIndexApi) : List IndexModelArgs → Except JsError Unit × DatabaseIndexApi
  | [] => (.ok (), api)
  | args :: rest =>
    match assertNoOngoingSyncForModel allowQueriesBeforeHistoricalSync answers args.model with
    | .error e => (.error e, api)
    | .ok _ => trackModels (api.track args) rest

def indexModels (api : DatabaseIndexApi) (models : List IndexModelArgs) : Except JsError Unit × DatabaseIndexApi :=
  match indexModelsInDatabase type answers api models with
  | (.error e, api) => (.error e, api)
  | (.ok _, api) => trackModels allowQueriesBeforeHistoricalSync answers api models

def stopIndexingModelsInDatabase (table : ModelsTable) (models : List ModelData) : Except JsError ModelsTable :=
  if models.isEmpty then .ok table
  else do
    answers.insertModels
    table.insertMerging type (models.map fun model => ⟨model.streamID, false, none⟩) (ModelRow.merge false)

def stopIndexingModels (api : DatabaseIndexApi) (models : List ModelData) : Except JsError Unit × DatabaseIndexApi :=
  match stopIndexingModelsInDatabase type answers api.database.ceramic_models models with
  | .error e => (.error e, api)
  | .ok table => (.ok (), { api with
      database := { api.database with ceramic_models := table }
      indexedModels := api.indexedModels.filter fun idx => !models.any fun data => data.streamID == idx.streamID })

end

end DatabaseIndexApi

section Interfaces

variable {interfaces : InterfacesModels} {pairs others : List (String × String)} {interfaceID modelID : String}

theorem isSome_foldl_add : ((pairs.foldl addModelImplements interfaces) interfaceID).isSome ↔
    (interfaces interfaceID).isSome ∨ ∃ modelID, (interfaceID, modelID) ∈ pairs := by
  induction pairs generalizing interfaces with
  | nil => simp
  | cons pair pairs ih =>
    rw [List.foldl_cons, ih, addModelImplements]
    split
    next same => simp [same, Prod.ext_iff]
    next other => simp [Prod.ext_iff, other]

theorem mem_foldl_add : modelID ∈ ((pairs.foldl addModelImplements interfaces) interfaceID).getD ∅ ↔
    modelID ∈ (interfaces interfaceID).getD ∅ ∨ (interfaceID, modelID) ∈ pairs := by
  induction pairs generalizing interfaces with
  | nil => simp
  | cons pair pairs ih =>
    rw [List.foldl_cons, ih, addModelImplements]
    split
    next same => simp [same, Prod.ext_iff, or_assoc, or_left_comm]
    next other => simp [Prod.ext_iff, other]

/-- What is loaded depends on which pairs there are alone. -/
theorem foldl_add_eq_iff : pairs.foldl addModelImplements (fun _ => none) = others.foldl addModelImplements (fun _ => none) ↔
    ∀ pair, pair ∈ pairs ↔ pair ∈ others := by
  constructor
  · rintro same ⟨interfaceID, modelID⟩
    have members := congrArg (fun interfaces : InterfacesModels => modelID ∈ (interfaces interfaceID).getD ∅) same
    simpa [mem_foldl_add] using members
  · intro same
    funext interfaceID
    have present : ((pairs.foldl addModelImplements fun _ => none) interfaceID).isSome ↔
        ((others.foldl addModelImplements fun _ => none) interfaceID).isSome := by
      simp only [isSome_foldl_add, same]
    have members : ((pairs.foldl addModelImplements fun _ => none) interfaceID).getD ∅ =
        ((others.foldl addModelImplements fun _ => none) interfaceID).getD ∅ := by
      ext modelID
      simp only [mem_foldl_add, same]
    revert present members
    cases (pairs.foldl addModelImplements fun _ => none) interfaceID <;>
      cases (others.foldl addModelImplements fun _ => none) interfaceID <;> simp

theorem foldl_add_append_eq_iff : others.foldl addModelImplements (pairs.foldl addModelImplements fun _ => none) =
    pairs.foldl addModelImplements (fun _ => none) ↔ ∀ pair ∈ others, pair ∈ pairs := by
  rw [← List.foldl_append, foldl_add_eq_iff]
  simp only [List.mem_append, or_iff_left_iff_imp]

theorem mem_foldl_insertIgnoring {pair : String × String} :
    pair ∈ others.foldl insertIgnoring pairs ↔ pair ∈ pairs ∨ pair ∈ others := by
  induction others generalizing pairs with
  | nil => simp
  | cons first others ih =>
    rw [List.foldl_cons, ih, insertIgnoring]
    split
    next known =>
      rw [List.mem_cons]
      constructor
      · rintro (old | new)
        · exact .inl old
        · exact .inr (.inr new)
      · rintro (old | rfl | new)
        · exact .inl old
        · exact .inl known
        · exact .inr new
    next => simp [or_assoc]

/-- Adding pairs to what has been loaded is loading them as well. -/
theorem foldl_add_loaded : others.foldl addModelImplements (pairs.foldl addModelImplements fun _ => none) =
    (others.foldl insertIgnoring pairs).foldl addModelImplements fun _ => none := by
  rw [← List.foldl_append, foldl_add_eq_iff]
  exact fun pair => by rw [List.mem_append, mem_foldl_insertIgnoring]

end Interfaces

namespace DatabaseIndexApi

/-- The model with this id, as it is kept in memory. -/
def modelData (models : List ModelData) (model : StreamID) : Option ModelData :=
  models.find? fun data => decide (data.streamID = model)

/-- Memory has what a restart would load, in whatever order. -/
structure Synced (api : DatabaseIndexApi) : Prop where
  models : api.indexedModels.Perm api.init.indexedModels
  interfaces : api.interfacesModels = api.init.interfacesModels

section Models

variable {api : DatabaseIndexApi} {tables : ConfigTables} {model : StreamID}

theorem loaded_unique : ((getIndexedModelsFromDatabase tables).map ModelData.streamID).Nodup := by
  unfold getIndexedModelsFromDatabase
  rw [List.map_map]
  exact tables.ceramic_models.unique.sublist (List.filter_sublist.map _)

theorem modelData_loaded : modelData (getIndexedModelsFromDatabase tables) model =
    ((tables.ceramic_models.find? model).filter ModelRow.is_indexed).map fun row => ⟨row.model, row.indices⟩ := by
  have unique := tables.ceramic_models.unique
  unfold modelData getIndexedModelsFromDatabase
  rw [List.find?_map, List.find?_filter]
  congr 1
  refine Option.ext fun row => ?_
  rw [Option.filter_eq_some_iff]
  constructor
  · intro found
    have holds := List.find?_some found
    simp only [Function.comp, decide_eq_true_eq] at holds
    obtain ⟨indexed, rfl⟩ := holds
    exact ⟨(KeyedTable.mem_iff_find? unique).mp (List.mem_of_find?_eq_some found), indexed⟩
  · rintro ⟨found, indexed⟩
    have isKey : row.model = model := KeyedTable.key_of_find? found
    have member : row ∈ tables.ceramic_models.rows.filter ModelRow.is_indexed :=
      List.mem_filter.mpr ⟨List.mem_of_find?_eq_some found, indexed⟩
    have filtered := (KeyedTable.mem_iff_find? (unique.sublist (List.filter_sublist.map _))).mp member
    rw [List.find?_filter, isKey] at filtered
    exact filtered

theorem synced_models_iff : api.indexedModels.Perm api.init.indexedModels ↔ (api.indexedModels.map ModelData.streamID).Nodup ∧
    ∀ model, modelData api.indexedModels model =
      ((api.database.ceramic_models.find? model).filter ModelRow.is_indexed).map fun row => ⟨row.model, row.indices⟩ := by
  have unique : (api.init.indexedModels.map ModelData.streamID).Nodup := loaded_unique
  rw [List.perm_comm, KeyedTable.perm_iff_find? unique]
  refine and_congr_right fun _ => forall_congr' fun model => ?_
  rw [← modelData_loaded, eq_comm]
  rfl

end Models

section Tracking

variable {api : DatabaseIndexApi} {args : IndexModelArgs} {models : List IndexModelArgs} {model : StreamID}

@[simp] theorem track_database : (api.track args).database = api.database := rfl

@[simp] theorem track_interfaces : (api.track args).interfacesModels = api.interfacesModels := rfl

theorem track_known {data : ModelData} (member : data ∈ api.indexedModels) (same : data.streamID = args.model) :
    (api.track args).indexedModels = api.indexedModels := by
  have known : (api.indexedModels.any fun indexed => indexed.streamID == args.model) = true :=
    List.any_eq_true.mpr ⟨data, member, beq_iff_eq.mpr same⟩
  exact if_pos known

theorem track_new (unknown : ∀ data ∈ api.indexedModels, data.streamID ≠ args.model) :
    (api.track args).indexedModels = api.indexedModels ++ [⟨args.model, args.indices⟩] := by
  refine if_neg fun known => ?_
  obtain ⟨data, member, same⟩ := List.any_eq_true.mp known
  exact unknown data member (beq_iff_eq.mp same)

theorem track_unique (unique : (api.indexedModels.map ModelData.streamID).Nodup) :
    ((api.track args).indexedModels.map ModelData.streamID).Nodup := by
  by_cases known : ∃ data ∈ api.indexedModels, data.streamID = args.model
  · obtain ⟨data, member, same⟩ := known
    rw [track_known member same]
    exact unique
  · simp only [not_exists, not_and] at known
    rw [track_new known, List.map_append, List.map_singleton]
    refine unique.append (List.nodup_singleton _) fun id inOld inNew => ?_
    obtain ⟨data, member, rfl⟩ := List.mem_map.mp inOld
    exact known data member (List.mem_singleton.mp inNew)

theorem modelData_eq_none {models : List ModelData} : modelData models model = none ↔ ∀ data ∈ models, data.streamID ≠ model := by
  simp [modelData]

theorem modelData_isSome {models : List ModelData} : (modelData models model).isSome ↔ ∃ data ∈ models, data.streamID = model := by
  simp [modelData]

theorem modelData_track : modelData (api.track args).indexedModels model = (modelData api.indexedModels model).or
    (if args.model = model then some ⟨args.model, args.indices⟩ else none) := by
  by_cases known : ∃ data ∈ api.indexedModels, data.streamID = args.model
  · obtain ⟨data, member, same⟩ := known
    rw [track_known member same]
    split
    next isModel =>
      obtain ⟨found, isFound⟩ := Option.isSome_iff_exists.mp (modelData_isSome.mpr ⟨data, member, same.trans isModel⟩)
      rw [isFound, Option.some_or]
    next => rw [Option.or_none]
  · simp only [not_exists, not_and] at known
    rw [track_new known, modelData, List.find?_append, List.find?_singleton]
    simp [modelData]

theorem foldl_track_database : (models.foldl track api).database = api.database := by
  induction models generalizing api with
  | nil => rfl
  | cons args models ih => exact ih

theorem foldl_track_interfaces : (models.foldl track api).interfacesModels = api.interfacesModels := by
  induction models generalizing api with
  | nil => rfl
  | cons args models ih => exact ih

theorem foldl_track_unique (unique : (api.indexedModels.map ModelData.streamID).Nodup) :
    ((models.foldl track api).indexedModels.map ModelData.streamID).Nodup := by
  induction models generalizing api with
  | nil => exact unique
  | cons args models ih => exact ih (track_unique unique)

/-- A model that is not known yet is kept as it was first given. -/
theorem modelData_foldl_track : modelData (models.foldl track api).indexedModels model = (modelData api.indexedModels model).or
    ((models.find? fun args => decide (args.model = model)).map fun args => ⟨args.model, args.indices⟩) := by
  induction models generalizing api with
  | nil => simp
  | cons args models ih =>
    rw [List.foldl_cons, ih, modelData_track, List.find?_cons, Option.or_assoc]
    by_cases same : args.model = model <;> simp [same]

variable {allowQueriesBeforeHistoricalSync : Bool} {answers : Answers}

def Queryable (allowQueriesBeforeHistoricalSync : Bool) (answers : Answers) (models : List IndexModelArgs) : Prop :=
  ∀ args ∈ models, assertNoOngoingSyncForModel allowQueriesBeforeHistoricalSync answers args.model = .ok ()

theorem trackModels_queryable (queryable : Queryable allowQueriesBeforeHistoricalSync answers models) :
    trackModels allowQueriesBeforeHistoricalSync answers api models = (.ok (), models.foldl track api) := by
  induction models generalizing api with
  | nil => rfl
  | cons args models ih =>
    obtain ⟨here, behind⟩ := List.forall_mem_cons.mp queryable
    rw [trackModels, here]
    exact ih behind

/-- The models before the first that cannot be queried yet are kept. -/
theorem trackModels_rejected (rejected : ¬Queryable allowQueriesBeforeHistoricalSync answers models) :
    ∃ e before args after, models = before ++ args :: after ∧
      trackModels allowQueriesBeforeHistoricalSync answers api models = (.error e, before.foldl track api) := by
  induction models generalizing api with
  | nil => exact absurd (fun args member => absurd member List.not_mem_nil) rejected
  | cons args models ih =>
    cases asserted : assertNoOngoingSyncForModel allowQueriesBeforeHistoricalSync answers args.model with
    | error e => exact ⟨e, [], args, models, rfl, by simp [trackModels, asserted]⟩
    | ok =>
      obtain ⟨e, before, other, after, rfl, result⟩ := @ih (api.track args) fun queryable =>
        rejected (List.forall_mem_cons.mpr ⟨asserted, queryable⟩)
      exact ⟨e, args :: before, other, after, rfl, by rw [trackModels, asserted, List.foldl_cons, ← result]⟩

end Tracking

/-- The transaction begins, and its first statement is carried out. -/
structure Begun (type : DatabaseType) (answers : Answers) (models : List IndexModelArgs) : Prop where
  initMidTables : answers.initMidTables = .ok ()
  verifyTables : answers.verifyTables = .ok ()
  insertModels : answers.insertModels = .ok ()
  distinct : type = .POSTGRES → (models.map IndexModelArgs.model).Nodup

structure Committed (answers : Answers) (models : List IndexModelArgs) : Prop where
  insertImplements : modelImplements models ≠ [] → answers.insertImplements = .ok ()
  commit : answers.commit = .ok ()

def ImplementsKnown (api : DatabaseIndexApi) (models : List IndexModelArgs) : Prop :=
  ∀ pair ∈ modelImplements models, pair ∈ api.database.ceramic_model_implements

def AllIndexed (api : DatabaseIndexApi) (models : List IndexModelArgs) : Prop :=
  ∀ args ∈ models, ∃ data ∈ api.indexedModels, data.streamID = args.model

/-- A model that is not indexed any more is given with the indices that it is stored with. -/
def IndicesStored (api : DatabaseIndexApi) (models : List IndexModelArgs) : Prop :=
  ∀ model args row, models.find? (fun args => decide (args.model = model)) = some args →
    api.database.ceramic_models.find? model = some row → row.is_indexed = false → row.indices = args.indices

section Statements

variable {type : DatabaseType} {answers : Answers} {table : ModelsTable} {models : List IndexModelArgs}

/-- The row that a model is inserted with. -/
def newRow (args : IndexModelArgs) : ModelRow := ⟨args.model, true, args.indices⟩

def withModels (table : ModelsTable) (models : List IndexModelArgs) : ModelsTable :=
  (models.map newRow).foldl (fun table row => table.insertOrMerge row (ModelRow.merge true)) table

theorem insertModels_eq_ok {written : ModelsTable} : insertModels type answers table models = .ok written ↔
    Begun type answers models ∧ written = withModels table models := by
  have keys : (models.map newRow).map ModelRow.model = models.map IndexModelArgs.model := by
    rw [List.map_map]
    rfl
  have statement : table.insertMerging type (models.map newRow) (ModelRow.merge true) = .ok written ↔
      (type = .POSTGRES → (models.map IndexModelArgs.model).Nodup) ∧ written = withModels table models := by
    unfold ModelsTable.insertMerging
    rw [keys]
    split
    next repeated => simp [repeated]
    next accepted =>
      rw [not_and_not_right] at accepted
      rw [and_iff_right accepted, Except.ok.injEq, eq_comm]
      rfl
  unfold insertModels
  rw [then_eq_ok, then_eq_ok, then_eq_ok]
  refine Iff.trans (and_congr_right fun _ => and_congr_right fun _ => and_congr_right fun _ => statement) ?_
  constructor
  · rintro ⟨created, verified, inserted, distinct, rfl⟩
    exact ⟨⟨created, verified, inserted, distinct⟩, rfl⟩
  · rintro ⟨⟨created, verified, inserted, distinct⟩, rfl⟩
    exact ⟨created, verified, inserted, distinct, rfl⟩

theorem commit_eq_ok : commit answers (modelImplements models) = .ok () ↔ Committed answers models := by
  unfold commit
  cases pairs : modelImplements models with
  | nil => exact ⟨fun done => ⟨by simp [pairs], done⟩, fun committed => committed.commit⟩
  | cons pair rest =>
    simp only [List.isEmpty_cons, Bool.not_false, if_true]
    rw [then_eq_ok]
    exact ⟨fun ⟨inserted, done⟩ => ⟨fun _ => inserted, done⟩,
      fun committed => ⟨committed.insertImplements (by simp [pairs]), committed.commit⟩⟩

theorem find?_withModels (model : StreamID) : (withModels table models).find? model =
    (models.find? fun args => decide (args.model = model)).elim (table.find? model) fun args =>
      some ((table.find? model).elim (newRow args) (ModelRow.merge true)) := by
  have settled : ∀ row ∈ models.map newRow, row.merge true = row := by
    intro row member
    obtain ⟨args, -, rfl⟩ := List.mem_map.mp member
    rfl
  rw [withModels, KeyedTable.find?_foldl_insertOrMerge table _ (ModelRow.merge true) (fun _ => rfl) (fun _ => rfl) settled, List.find?_map]
  cases found : models.find? ((fun row => decide (row.model = model)) ∘ newRow) with
  | none => rw [show (models.find? fun args => decide (args.model = model)) = none from found]; rfl
  | some args => rw [show (models.find? fun args => decide (args.model = model)) = some args from found]; rfl

end Statements

/-- What a call leaves behind: memory is what a restart would load, and after an error it is what it was. -/
structure Kept (api : DatabaseIndexApi) (result : Except JsError Unit × DatabaseIndexApi) : Prop where
  synced : result.2.Synced
  unchanged : result.1 ≠ .ok () → result.2.indexedModels = api.indexedModels ∧ result.2.interfacesModels = api.interfacesModels

section Indexing

variable {type : DatabaseType} {allowQueriesBeforeHistoricalSync : Bool} {answers : Answers} {api : DatabaseIndexApi}
  {models : List IndexModelArgs}

def withPairs (api : DatabaseIndexApi) (pairs : List (String × String)) : DatabaseIndexApi :=
  { api with interfacesModels := pairs.foldl addModelImplements api.interfacesModels }

def committed (api : DatabaseIndexApi) (models : List IndexModelArgs) : DatabaseIndexApi :=
  { api.withPairs (modelImplements models) with
    database := ⟨withModels api.database.ceramic_models models,
      (modelImplements models).foldl insertIgnoring api.database.ceramic_model_implements⟩ }

theorem indexModels_refused (given : models ≠ []) (refused : ¬Begun type answers models) :
    ∃ e, indexModels type allowQueriesBeforeHistoricalSync answers api models = (.error e, api) := by
  cases inserted : insertModels type answers api.database.ceramic_models models with
  | ok table => exact absurd (insertModels_eq_ok.mp inserted).1 refused
  | error e => exact ⟨e, by simp [indexModels, indexModelsInDatabase, given, inserted]⟩

theorem indexModels_rolledBack (given : models ≠ []) (begun : Begun type answers models) (failed : ¬Committed answers models) :
    ∃ e, indexModels type allowQueriesBeforeHistoricalSync answers api models = (.error e, api.withPairs (modelImplements models)) := by
  have inserted := (@insertModels_eq_ok type answers api.database.ceramic_models models _).mpr ⟨begun, rfl⟩
  cases done : commit answers (modelImplements models) with
  | ok => exact absurd (commit_eq_ok.mp done) failed
  | error e => exact ⟨e, by simp [indexModels, indexModelsInDatabase, given, inserted, done, withPairs]⟩

theorem indexModels_committed (begun : Begun type answers models) (done : Committed answers models) :
    indexModels type allowQueriesBeforeHistoricalSync answers api models =
      trackModels allowQueriesBeforeHistoricalSync answers (api.committed models) models := by
  have inserted := (@insertModels_eq_ok type answers api.database.ceramic_models models _).mpr ⟨begun, rfl⟩
  cases models with
  | nil => rfl
  | cons => simp [indexModels, indexModelsInDatabase, inserted, commit_eq_ok.mpr done, committed, withPairs]

theorem withPairs_interfaces_iff (synced : api.Synced) {pairs : List (String × String)} :
    (api.withPairs pairs).interfacesModels = api.interfacesModels ↔ ∀ pair ∈ pairs, pair ∈ api.database.ceramic_model_implements := by
  rw [withPairs, synced.interfaces]
  exact foldl_add_append_eq_iff

theorem committed_interfaces (synced : api.Synced) : (api.committed models).interfacesModels =
    (api.committed models).init.interfacesModels := by
  change (modelImplements models).foldl addModelImplements api.interfacesModels = _
  rw [synced.interfaces]
  exact foldl_add_loaded

/-- A model in memory is what is stored of it, unless it is given with other indices than are stored. -/
theorem tracked_iff (synced : api.Synced) (model : StreamID) :
    modelData (models.foldl track (api.committed models)).indexedModels model =
        (((api.committed models).database.ceramic_models.find? model).filter ModelRow.is_indexed).map (fun row => ⟨row.model, row.indices⟩) ↔
      ∀ args row, models.find? (fun args => decide (args.model = model)) = some args →
        api.database.ceramic_models.find? model = some row → row.is_indexed = false → row.indices = args.indices := by
  have old := (synced_models_iff.mp synced.models).2 model
  rw [modelData_foldl_track, show (api.committed models).indexedModels = api.indexedModels from rfl, old,
    show (api.committed models).database.ceramic_models = withModels api.database.ceramic_models models from rfl, find?_withModels]
  cases given : models.find? fun args => decide (args.model = model) with
  | none => simp
  | some args =>
    have isModel : args.model = model := by simpa using List.find?_some given
    cases found : api.database.ceramic_models.find? model with
    | none => simp [newRow]
    | some row =>
      have isRow : row.model = model := KeyedTable.key_of_find? found
      cases indexed : row.is_indexed with
      | true => simp [indexed, ModelRow.merge, Option.filter_some]
      | false =>
        have stored : (⟨model, args.indices⟩ : ModelData) = ⟨model, row.indices⟩ ↔ row.indices = args.indices := by
          rw [ModelData.mk.injEq, and_iff_right rfl, eq_comm]
        simpa [indexed, ModelRow.merge, isModel, isRow, Option.filter_some] using stored

theorem synced_tracked_iff (synced : api.Synced) : (models.foldl track (api.committed models)).Synced ↔ IndicesStored api models := by
  have unique := (synced_models_iff.mp synced.models).1
  have models_iff : (models.foldl track (api.committed models)).indexedModels.Perm
      (models.foldl track (api.committed models)).init.indexedModels ↔ IndicesStored api models := by
    rw [synced_models_iff, foldl_track_database]
    simp only [tracked_iff synced]
    exact and_iff_right (foldl_track_unique unique)
  constructor
  · exact fun kept => models_iff.mp kept.models
  · refine fun stored => ⟨models_iff.mpr stored, ?_⟩
    rw [foldl_track_interfaces, committed_interfaces synced, init, init, foldl_track_database]

theorem foldl_track_known (known : ∀ args ∈ models, ∃ data ∈ api.indexedModels, data.streamID = args.model) :
    (models.foldl track api).indexedModels = api.indexedModels := by
  induction models generalizing api with
  | nil => rfl
  | cons args models ih =>
    obtain ⟨⟨data, member, same⟩, behind⟩ := List.forall_mem_cons.mp known
    have unchanged := track_known member same
    rw [List.foldl_cons, ih (by rwa [unchanged]), unchanged]

/-- All that the models are stored with is stored already. -/
theorem synced_of_nothing_new (synced : api.Synced) (indexed : AllIndexed api models) {after : DatabaseIndexApi}
    (sameModels : after.indexedModels = api.indexedModels) (sameDatabase : after.database = (api.committed models).database)
    (sameInterfaces : after.interfacesModels = (api.committed models).interfacesModels) : after.Synced := by
  have known : (models.foldl track (api.committed models)).indexedModels = api.indexedModels :=
    @foldl_track_known (api.committed models) models indexed
  have stored : IndicesStored api models := by
    intro model args row given found notIndexed
    have isModel : args.model = model := by simpa using List.find?_some given
    have isNone := (synced_models_iff.mp synced.models).2 model
    rw [found, Option.filter_some, notIndexed] at isNone
    obtain ⟨data, member, same⟩ := indexed args (List.mem_of_find?_eq_some given)
    exact absurd (same.trans isModel) (modelData_eq_none.mp isNone data member)
  have tracked := ((synced_tracked_iff synced).mpr stored).models
  constructor
  · rw [known, init, foldl_track_database] at tracked
    rwa [sameModels, init, sameDatabase]
  · rw [sameInterfaces, committed_interfaces synced, init, init, sameDatabase]

/-- Models that have been stored without being kept in memory were in memory before. -/
theorem indexed_of_synced {after : DatabaseIndexApi} (syncedAfter : after.Synced)
    (sameModels : after.indexedModels = api.indexedModels) (sameDatabase : after.database = (api.committed models).database) :
    AllIndexed api models := by
  intro args member
  have stored := (synced_models_iff.mp syncedAfter.models).2 args.model
  rw [sameModels, sameDatabase, show (api.committed models).database.ceramic_models = withModels api.database.ceramic_models models from rfl,
    find?_withModels] at stored
  obtain ⟨first, isFirst⟩ := Option.isSome_iff_exists.mp
    (List.find?_isSome.mpr ⟨args, member, by simp⟩ : (models.find? fun other => decide (other.model = args.model)).isSome)
  apply modelData_isSome.mp
  rw [stored, isFirst]
  cases api.database.ceramic_models.find? args.model <;> simp [newRow, ModelRow.merge, Option.filter_some]

theorem kept_rejected_iff (synced : api.Synced) (begun : Begun type answers models) (done : Committed answers models)
    (rejected : ¬Queryable allowQueriesBeforeHistoricalSync answers models) :
    Kept api (indexModels type allowQueriesBeforeHistoricalSync answers api models) ↔
      AllIndexed api models ∧ ImplementsKnown api models := by
  obtain ⟨e, before, args, after, split, result⟩ := @trackModels_rejected (api.committed models) models _ _ rejected
  rw [indexModels_committed begun done, result]
  have sameDatabase : (before.foldl track (api.committed models)).database = (api.committed models).database := foldl_track_database
  have sameInterfaces : (before.foldl track (api.committed models)).interfacesModels = (api.committed models).interfacesModels :=
    foldl_track_interfaces
  constructor
  · intro kept
    obtain ⟨sameModels, unchanged⟩ := kept.unchanged nofun
    exact ⟨indexed_of_synced kept.synced sameModels sameDatabase,
      (withPairs_interfaces_iff synced).mp (sameInterfaces.symm.trans unchanged)⟩
  · rintro ⟨indexed, known⟩
    have sameModels : (before.foldl track (api.committed models)).indexedModels = api.indexedModels :=
      @foldl_track_known (api.committed models) before fun args member => indexed args (split ▸ List.mem_append_left _ member)
    exact ⟨synced_of_nothing_new synced indexed sameModels sameDatabase sameInterfaces,
      fun _ => ⟨sameModels, sameInterfaces.trans ((withPairs_interfaces_iff synced).mpr known)⟩⟩

theorem kept_rolledBack_iff (synced : api.Synced) (given : models ≠ []) (begun : Begun type answers models)
    (failed : ¬Committed answers models) :
    Kept api (indexModels type allowQueriesBeforeHistoricalSync answers api models) ↔ ImplementsKnown api models := by
  obtain ⟨e, result⟩ := @indexModels_rolledBack type allowQueriesBeforeHistoricalSync answers api models given begun failed
  rw [result]
  constructor
  · exact fun kept => (withPairs_interfaces_iff synced).mp (kept.unchanged nofun).2
  · intro known
    have unchanged := (withPairs_interfaces_iff synced).mpr known
    exact ⟨⟨synced.models, unchanged.trans synced.interfaces⟩, fun _ => ⟨rfl, unchanged⟩⟩

end Indexing

inductive IndexCall where
  | indexModels (models : List IndexModelArgs) (answers : Answers)
  | stopIndexingModels (models : List ModelData) (answers : Answers)

section Runs

variable (type : DatabaseType) (allowQueriesBeforeHistoricalSync : Bool)

def perform (api : DatabaseIndexApi) : IndexCall → Except JsError Unit × DatabaseIndexApi
  | .indexModels models answers => indexModels type allowQueriesBeforeHistoricalSync answers api models
  | .stopIndexingModels models answers => stopIndexingModels type answers api models

/-- Nothing new is kept in memory before it is stored, or stored and not kept in memory. -/
def InStep (api : DatabaseIndexApi) : IndexCall → Prop
  | .indexModels models answers => Begun type answers models →
    (¬Committed answers models → ImplementsKnown api models) ∧
    (Committed answers models → ¬Queryable allowQueriesBeforeHistoricalSync answers models →
      AllIndexed api models ∧ ImplementsKnown api models) ∧
    (Committed answers models → Queryable allowQueriesBeforeHistoricalSync answers models → IndicesStored api models)
  | .stopIndexingModels _ _ => True

/-- The state after calls one after the other, rejected or not. -/
def after (api : DatabaseIndexApi) (calls : List IndexCall) : DatabaseIndexApi :=
  calls.foldl (fun api call => (perform type allowQueriesBeforeHistoricalSync api call).2) api

variable {type allowQueriesBeforeHistoricalSync} {api : DatabaseIndexApi} {answers : Answers}

theorem init_synced : api.init.Synced := ⟨.refl _, rfl⟩

theorem kept_of_same (synced : api.Synced) {result : Except JsError Unit} : Kept api (result, api) := ⟨synced, fun _ => ⟨rfl, rfl⟩⟩

theorem kept_indexModels_iff (synced : api.Synced) (models : List IndexModelArgs) :
    Kept api (indexModels type allowQueriesBeforeHistoricalSync answers api models) ↔
      InStep type allowQueriesBeforeHistoricalSync api (.indexModels models answers) := by
  by_cases given : models = []
  · subst given
    refine iff_of_true (kept_of_same synced) fun _ => ⟨fun _ => nofun, fun _ _ => ⟨nofun, nofun⟩, fun _ _ => nofun⟩
  by_cases begun : Begun type answers models
  · by_cases done : Committed answers models
    · by_cases queryable : Queryable allowQueriesBeforeHistoricalSync answers models
      · rw [indexModels_committed begun done, trackModels_queryable queryable]
        have resolved : Kept api (.ok (), models.foldl track (api.committed models)) ↔ (models.foldl track (api.committed models)).Synced :=
          ⟨fun kept => kept.synced, fun tracked => ⟨tracked, fun isError => absurd rfl isError⟩⟩
        rw [resolved, synced_tracked_iff synced]
        exact ⟨fun stored _ => ⟨fun failed => absurd done failed, fun _ rejected => absurd queryable rejected, fun _ _ => stored⟩,
          fun inStep => (inStep begun).2.2 done queryable⟩
      · rw [kept_rejected_iff synced begun done queryable]
        exact ⟨fun known _ => ⟨fun failed => absurd done failed, fun _ _ => known, fun _ isQueryable => absurd isQueryable queryable⟩,
          fun inStep => (inStep begun).2.1 done queryable⟩
    · rw [kept_rolledBack_iff synced given begun done]
      exact ⟨fun known _ => ⟨fun _ => known, fun isDone => absurd isDone done, fun isDone => absurd isDone done⟩,
        fun inStep => (inStep begun).1 done⟩
  · obtain ⟨e, result⟩ := @indexModels_refused type allowQueriesBeforeHistoricalSync answers api models given begun
    rw [result]
    exact iff_of_true (kept_of_same synced) fun isBegun => absurd isBegun begun

theorem modelData_filter {models : List ModelData} {stopped : ModelData → Bool} {model : StreamID} {out : Bool}
    (same : ∀ data, data.streamID = model → stopped data = out) :
    modelData (models.filter fun data => !stopped data) model = if out then none else modelData models model := by
  unfold modelData
  rw [List.find?_filter]
  cases out with
  | true =>
    refine List.find?_eq_none.mpr fun data _ => ?_
    by_cases isModel : data.streamID = model <;> simp [isModel, same]
  | false =>
    refine congrArg (List.find? · models) (funext fun data => ?_)
    by_cases isModel : data.streamID = model <;> simp [isModel, same]

/-- The row that a model that is not indexed is inserted with. -/
def stoppedRow (data : ModelData) : ModelRow := ⟨data.streamID, false, none⟩

theorem find?_stopped {table written : ModelsTable} {models : List ModelData}
    (stopped : stopIndexingModelsInDatabase type answers table models = .ok written) (model : StreamID) :
    written.find? model = if models.any fun data => data.streamID == model then
        some ((table.find? model).elim ⟨model, false, none⟩ (ModelRow.merge false))
      else table.find? model := by
  unfold stopIndexingModelsInDatabase at stopped
  split at stopped
  next empty =>
    obtain rfl := List.isEmpty_iff.mp empty
    cases stopped
    rfl
  next given =>
    have inserted := (then_eq_ok.mp stopped).2
    unfold ModelsTable.insertMerging at inserted
    split at inserted
    · cases inserted
    have settled : ∀ row ∈ models.map stoppedRow, row.merge false = row := by
      intro row member
      obtain ⟨data, -, rfl⟩ := List.mem_map.mp member
      rfl
    obtain rfl := Except.ok.inj inserted
    rw [show (models.map fun model => (⟨model.streamID, false, none⟩ : ModelRow)) = models.map stoppedRow from rfl,
      KeyedTable.find?_foldl_insertOrMerge table _ (ModelRow.merge false) (fun _ => rfl) (fun _ => rfl) settled]
    cases found : (models.map stoppedRow).find? fun row => decide (row.model = model) with
    | none =>
      have absent : models.any (fun data => data.streamID == model) = false := by
        simp only [List.find?_eq_none, List.forall_mem_map, decide_eq_true_eq] at found
        exact List.any_eq_false.mpr fun data member same => found data member (beq_iff_eq.mp same)
      rw [absent]
      rfl
    | some row =>
      have isModel : row.model = model := by simpa using List.find?_some found
      obtain ⟨data, member, rfl⟩ := List.mem_map.mp (List.mem_of_find?_eq_some found)
      have present : models.any (fun data => data.streamID == model) = true :=
        List.any_eq_true.mpr ⟨data, member, beq_iff_eq.mpr isModel⟩
      rw [present, ← isModel]
      rfl

theorem kept_stopIndexingModels (synced : api.Synced) (models : List ModelData) :
    Kept api (stopIndexingModels type answers api models) := by
  unfold stopIndexingModels
  cases stopped : stopIndexingModelsInDatabase type answers api.database.ceramic_models models with
  | error => exact kept_of_same synced
  | ok table =>
    refine ⟨⟨?_, synced.interfaces⟩, fun isError => absurd rfl isError⟩
    apply synced_models_iff.mpr
    obtain ⟨unique, old⟩ := synced_models_iff.mp synced.models
    refine ⟨unique.sublist (List.filter_sublist.map _), fun model => ?_⟩
    rw [@modelData_filter _ _ model (models.any fun data => data.streamID == model) (by rintro idx rfl; rfl), find?_stopped stopped, old]
    cases models.any fun data => data.streamID == model with
    | false => rfl
    | true => cases api.database.ceramic_models.find? model <;> rfl

theorem kept_iff (synced : api.Synced) (call : IndexCall) :
    Kept api (perform type allowQueriesBeforeHistoricalSync api call) ↔ InStep type allowQueriesBeforeHistoricalSync api call := by
  cases call with
  | indexModels models answers => exact kept_indexModels_iff synced models
  | stopIndexingModels models answers => exact iff_of_true (kept_stopIndexingModels synced models) trivial

theorem after_concat {before : List IndexCall} {call : IndexCall} : after type allowQueriesBeforeHistoricalSync api (before ++ [call]) =
    (perform type allowQueriesBeforeHistoricalSync (after type allowQueriesBeforeHistoricalSync api before) call).2 := by
  simp [after]

/-- From a start on, memory stays what a restart would load exactly as long as every call is in step. -/
theorem configuration_kept_iff (type : DatabaseType) (allowQueriesBeforeHistoricalSync : Bool) (api : DatabaseIndexApi)
    (calls : List IndexCall) :
    (∀ before call behind, calls = before ++ call :: behind →
      Kept (after type allowQueriesBeforeHistoricalSync api.init before)
        (perform type allowQueriesBeforeHistoricalSync (after type allowQueriesBeforeHistoricalSync api.init before) call)) ↔
    ∀ before call behind, calls = before ++ call :: behind →
      InStep type allowQueriesBeforeHistoricalSync (after type allowQueriesBeforeHistoricalSync api.init before) call := by
  have synced_of {holds : List IndexCall → IndexCall → Prop}
      (every : ∀ before call behind, calls = before ++ call :: behind → holds before call)
      (inStep : ∀ before call, (after type allowQueriesBeforeHistoricalSync api.init before).Synced → holds before call →
        InStep type allowQueriesBeforeHistoricalSync (after type allowQueriesBeforeHistoricalSync api.init before) call)
      {before behind : List IndexCall} (split : calls = before ++ behind) :
      (after type allowQueriesBeforeHistoricalSync api.init before).Synced := by
    induction before using List.reverseRecOn generalizing behind with
    | nil => exact init_synced
    | append_singleton before call ih =>
      have split' : calls = before ++ call :: behind := by simp [split]
      have syncedBefore := ih split'
      rw [after_concat]
      exact ((kept_iff syncedBefore call).mpr (inStep before call syncedBefore (every before call behind split'))).synced
  constructor
  · intro kept before call behind split
    have synced := synced_of kept (fun before call synced holds => (kept_iff synced call).mp holds) split
    exact (kept_iff synced call).mp (kept before call behind split)
  · intro inStep before call behind split
    have synced := synced_of inStep (fun _ _ _ holds => holds) split
    exact (kept_iff synced call).mpr (inStep before call behind split)

end Runs

end DatabaseIndexApi

namespace IndexFixture

open DatabaseIndexApi

/-- A node that has never indexed a model. -/
def fresh : DatabaseIndexApi := ⟨[], fun _ => none, fun _ => none, ⟨KeyedTable.empty, []⟩⟩

def model : StreamID := ⟨2, ⟨[1]⟩⟩

def byName : List FieldsIndex := [⟨[["name"]]⟩]

def byAge : List FieldsIndex := [⟨[["age"]]⟩]

def syncing : Answers := { syncComplete := fun _ => .ok false }

def failing : Answers := { commit := .error ⟨"disk full"⟩ }

/-- A model that is still synced is stored and not kept, the interfaces of a failed transaction are kept and
not stored, and a model that is indexed again has the indices it had at first. -/
theorem configuration_not_kept :
    ¬Kept fresh (perform .POSTGRES false fresh (.indexModels [{ model }] syncing)) ∧
    ¬Kept fresh (perform .POSTGRES true fresh (.indexModels [{ model, implements := ["kjz"] }] failing)) ∧
    ¬Kept (after .POSTGRES true fresh [.indexModels [{ model, indices := some byName }] {}, .stopIndexingModels [⟨model, none⟩] {}])
      (perform .POSTGRES true
        (after .POSTGRES true fresh [.indexModels [{ model, indices := some byName }] {}, .stopIndexingModels [⟨model, none⟩] {}])
        (.indexModels [{ model, indices := some byAge }] {})) := by
  refine ⟨fun kept => ?_, fun kept => ?_, fun kept => ?_⟩
  · have models : ([] : List ModelData).Perm [⟨model, none⟩] := kept.synced.models
    cases models.length_eq
  · have known := congrFun (kept.unchanged nofun).2 "kjz"
    cases known
  · have models : [(⟨model, some byAge⟩ : ModelData)].Perm [⟨model, some byName⟩] := kept.synced.models
    exact absurd (List.perm_singleton.mp models) (by decide)

end IndexFixture

end Ceramic.Indexing
