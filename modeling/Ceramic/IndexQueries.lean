import Ceramic.HistorySyncGate
import Ceramic.InsertionOrderPages
import Ceramic.StreamRefParsing

/-! Queries by model: which models a query is about, how many rows they have for it, and these rows a page at a time.
A query for an interface is one for the indexed models that implement it. -/
namespace Ceramic.Indexing

open InsertionOrder (PageQuery Page applyFilters)

/-- A model in a query. -/
inductive ModelName where
  | streamID (id : StreamID)
  | text (name : String)
  deriving DecidableEq, Repr

def ModelName.toString : ModelName → String
  | .streamID id => id.toString
  | .text name => name

structure ModelsQuery extends PageQuery where
  model : Option ModelName
  models : Option (List ModelName)

/-- Older clients give a single model. -/
def ModelsQuery.ids (query : ModelsQuery) : Except JsError (List ModelName) :=
  match query.models, query.model with
  | some (first :: rest), _ => .ok (first :: rest)
  | _, some model => .ok [model]
  | _, none => .error ⟨"Missing \"models\" values to execute query"⟩

def emptyPage : Page :=
  { edges := []
    pageInfo := { hasNextPage := false, hasPreviousPage := false, endCursor := none, startCursor := none } }

namespace DatabaseIndexApi

section

variable (parseCID : String → Option Cid) (allowQueriesBeforeHistoricalSync : Bool) (answers : Answers)
  (inOrder : Finset String → List String)

def _getIndexedModel (api : DatabaseIndexApi) (id : StreamID) : Option ModelData := modelData api.indexedModels id

def assertModelQueryable (api : DatabaseIndexApi) (modelStreamId : StreamID) : Except JsError Unit := do
  assertModelIsIndexed api.indexedModels modelStreamId
  assertNoOngoingSyncForModel allowQueriesBeforeHistoricalSync answers modelStreamId

def addIfIndexed (api : DatabaseIndexApi) (models : Finset String) (model : String) : Except JsError (Finset String) := do
  let id ← StreamID.fromString parseCID model
  return if (api._getIndexedModel id).isSome then insert model models else models

/-- What is not known as an interface is assumed not to be one. -/
def addModels (api : DatabaseIndexApi) (models : Finset String) (id : String) : Except JsError (Finset String) :=
  match api.interfacesModels id with
  | none => .ok (insert id models)
  | some interfaceModels => (inOrder interfaceModels).foldlM (api.addIfIndexed parseCID) models

/-- The checks are made at once; the error is that of the first that fails. -/
def getQueryModels (api : DatabaseIndexApi) (query : ModelsQuery) : Except JsError (Finset String) := do
  let ids ← query.ids
  let models ← (ids.map ModelName.toString).foldlM (api.addModels parseCID inOrder) ∅
  (inOrder models).forM fun id => do
    let modelStreamId ← StreamID.fromString parseCID id
    api.assertModelQueryable allowQueriesBeforeHistoricalSync answers modelStreamId
  return models

/-- The tables that a query selects from: a model that is indexed has one, under the text of its id. -/
def assertTables (api : DatabaseIndexApi) (models : List String) : Except JsError Unit :=
  models.forM fun name =>
    if api.indexedModels.any fun data => asTableName data.streamID == name then .ok ()
    else .error ⟨"no such table: " ++ name⟩

variable {V : Type} (db : IndexDatabase V) (tables : String → ModelTable)

def rowsOf (name : String) : List IndexedData := (tables name).rows

/-- The number of suitable indexed records. -/
def count (api : DatabaseIndexApi) (query : ModelsQuery) : Except JsError Nat := do
  let models ← api.getQueryModels parseCID allowQueriesBeforeHistoricalSync answers inOrder query
  if models = ∅ then return 0
  let filtered ← applyFilters db query.toBaseQuery
  api.assertTables (inOrder models)
  return ((inOrder models).flatMap fun model => (rowsOf tables model).filter filtered).length

def page [LinearOrder V] (api : DatabaseIndexApi) (query : ModelsQuery) : Except JsError Page := do
  let models ← api.getQueryModels parseCID allowQueriesBeforeHistoricalSync answers inOrder query
  if models = ∅ then return emptyPage
  let found ← InsertionOrder.page db (rowsOf tables) (inOrder models) query.toPageQuery
  api.assertTables (inOrder models)
  return found

end

/-- A name stands for a model of the query: it is listed and not known as an interface, or it is an indexed model that
implements an interface that is listed. -/
def Asked (parseCID : String → Option Cid) (api : DatabaseIndexApi) (ids : List ModelName) (name : String) : Prop :=
  ∃ id ∈ ids, match api.interfacesModels id.toString with
    | none => name = id.toString
    | some interfaceModels => name ∈ interfaceModels ∧ ∃ model, StreamID.fromString parseCID name = .ok model ∧
        (api._getIndexedModel model).isSome

variable {parseCID : String → Option Cid} {allowQueriesBeforeHistoricalSync : Bool} {answers : Answers}
  {inOrder : Finset String → List String} {api : DatabaseIndexApi}

theorem mem_addIfIndexed {models result : Finset String} {model : String}
    (added : api.addIfIndexed parseCID models model = .ok result) (name : String) :
    name ∈ result ↔ name ∈ models ∨ name = model ∧
      ∃ id, StreamID.fromString parseCID name = .ok id ∧ (api._getIndexedModel id).isSome := by
  unfold addIfIndexed at added
  obtain ⟨id, read, returned⟩ := bind_eq_ok.mp added
  obtain rfl := Except.ok.inj returned
  split
  next indexed =>
    rw [Finset.mem_insert, or_comm]
    refine or_congr_right ⟨?_, And.left⟩
    rintro rfl
    exact ⟨rfl, id, read, indexed⟩
  next unindexed =>
    refine ⟨.inl, fun known => known.resolve_right ?_⟩
    rintro ⟨rfl, other, readOther, indexed⟩
    obtain rfl := Except.ok.inj (read.symm.trans readOther)
    exact unindexed indexed

theorem mem_foldlM_addIfIndexed {listed : List String} {models result : Finset String}
    (added : listed.foldlM (api.addIfIndexed parseCID) models = .ok result) (name : String) :
    name ∈ result ↔ name ∈ models ∨ name ∈ listed ∧
      ∃ id, StreamID.fromString parseCID name = .ok id ∧ (api._getIndexedModel id).isSome := by
  induction listed generalizing models with
  | nil =>
    obtain rfl := Except.ok.inj added
    simp
  | cons model listed ih =>
    obtain ⟨middle, first, rest⟩ := bind_eq_ok.mp added
    rw [ih rest, mem_addIfIndexed first, List.mem_cons, or_and_right, or_assoc]

theorem mem_addModels (lists : ∀ models, (inOrder models).toFinset = models) {models result : Finset String} {id : ModelName}
    (added : api.addModels parseCID inOrder models id.toString = .ok result) (name : String) :
    name ∈ result ↔ name ∈ models ∨ Asked parseCID api [id] name := by
  unfold Asked
  simp only [List.mem_singleton, exists_eq_left]
  unfold addModels at added
  split at added
  next => 
    obtain rfl := Except.ok.inj added
    rw [Finset.mem_insert, or_comm]
  next interfaceModels _ =>
    rw [mem_foldlM_addIfIndexed added, ← List.mem_toFinset, lists]

theorem mem_foldlM_addModels (lists : ∀ models, (inOrder models).toFinset = models) {ids : List ModelName}
    {models result : Finset String}
    (added : (ids.map ModelName.toString).foldlM (api.addModels parseCID inOrder) models = .ok result) (name : String) :
    name ∈ result ↔ name ∈ models ∨ Asked parseCID api ids name := by
  induction ids generalizing models with
  | nil =>
    obtain rfl := Except.ok.inj added
    simp [Asked]
  | cons id ids ih =>
    obtain ⟨middle, first, rest⟩ := bind_eq_ok.mp added
    rw [ih rest, mem_addModels lists first, or_assoc]
    unfold Asked
    simp only [List.mem_singleton, exists_eq_left, List.exists_mem_cons_iff]

/-- A query that is answered is about the models asked for, and each of them is indexed and not being synced. -/
theorem getQueryModels_ok (lists : ∀ models, (inOrder models).toFinset = models) {query : ModelsQuery} {models : Finset String}
    (answered : api.getQueryModels parseCID allowQueriesBeforeHistoricalSync answers inOrder query = .ok models) :
    ∃ ids, query.ids = .ok ids ∧ (∀ name, name ∈ models ↔ Asked parseCID api ids name) ∧
      ∀ name ∈ models, ∃ id, StreamID.fromString parseCID name = .ok id ∧
        api.assertModelQueryable allowQueriesBeforeHistoricalSync answers id = .ok () := by
  unfold getQueryModels at answered
  obtain ⟨ids, given, answered⟩ := bind_eq_ok.mp answered
  obtain ⟨collected, added, answered⟩ := bind_eq_ok.mp answered
  obtain ⟨_, queryable, answered⟩ := bind_eq_ok.mp answered
  obtain rfl := Except.ok.inj answered
  refine ⟨ids, given, fun name => ?_, fun name member => ?_⟩
  · rw [mem_foldlM_addModels lists added]
    simp
  · rw [← lists collected, List.mem_toFinset] at member
    exact bind_eq_ok.mp (forM_eq_ok.mp queryable name member)

end DatabaseIndexApi

end Ceramic.Indexing
