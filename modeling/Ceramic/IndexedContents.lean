import Ceramic.IndexMirror
import Ceramic.IndexQueries
import Ceramic.Library.Transition

/-! The index as what it is for: the last states of streams whose models were indexed at the time. The tables have a row
for each of these states, through calls that configure the index, restarts and updates, so that queries by model
list those of them that match. -/
namespace Ceramic.Indexing

open InsertionOrder (PageQuery Page forward backward ReadsAll applyFilters)
open StreamIndexing (IndexCall RowOf firstController)

/-- The last state that was indexed of each stream. -/
abbrev Contents := StreamID → Option StreamState

/-- A state is taken over if its model is indexed and the state could be stored. One that is not to be indexed takes the
stream out, one without content is passed over. -/
def Contents.update (contents : Contents) (isIndexed : StreamID → Bool) (call : IndexCall) : Contents :=
  match JsObject.get call.state.metadata "model" with
  | .streamID model =>
    if isIndexed model && call.pin.isOk then
      if JsObject.get call.state.metadata "shouldIndex" = .bool false then
        Function.update contents (StreamUtils.streamIdFromState call.state) none
      else if call.state.content.isNullish then contents
      else Function.update contents (StreamUtils.streamIdFromState call.state) (some call.state)
    else contents
  | _ => contents

/-- The index of a node, and what was indexed. -/
structure IndexRun where
  config : DatabaseIndexApi
  tables : String → ModelTable
  contents : Contents

namespace IndexRun

def start (config : DatabaseIndexApi) : IndexRun := ⟨config, fun _ => .empty, fun _ => none⟩

/-- The index that updates are written to. -/
def index (run : IndexRun) : Ceramic.DatabaseIndexApi :=
  { indexedModels := run.config.indexedModels.map ModelData.streamID
    modelRelations := run.config.modelRelations
    tables := run.tables }

def isIndexed (run : IndexRun) (model : StreamID) : Bool := LocalIndexApi.shouldIndexStream run.index model

end IndexRun

inductive IndexAction where
  | configure (call : DatabaseIndexApi.IndexCall)
  | restart
  | update (call : IndexCall)

/-- The relations of the models are not kept over a restart. -/
def IndexRun.step (type : DatabaseType) (allowQueriesBeforeHistoricalSync : Bool) (run : IndexRun) :
    IndexAction → Option IndexRun
  | .configure call =>
    some { run with config := (DatabaseIndexApi.perform type allowQueriesBeforeHistoricalSync run.config call).2 }
  | .restart => some { run with config := { run.config.init with modelRelations := fun _ => none } }
  | .update call => some { run with
      tables := (StreamIndexing.afterCall run.index call).tables
      contents := run.contents.update run.isIndexed call }

/-- A stream has one model, and its states name a controller. -/
structure StateAllowed (modelOf : StreamID → StreamID) (state : StreamState) : Prop where
  model : ∀ model, JsObject.get state.metadata "model" = .streamID model →
    model = modelOf (StreamUtils.streamIdFromState state)
  controller : ∃ controller, firstController state.metadata = .ok (.str controller)

def Allowed (modelOf : StreamID → StreamID) (_ : IndexRun) : IndexAction → Prop
  | .update call => StateAllowed modelOf call.state
  | _ => True

/-- The row of a stream, in the table of its model. -/
def IndexRun.row (run : IndexRun) (modelOf : StreamID → StreamID) (stream : StreamID) : Option IndexedData :=
  (run.tables (modelOf stream).toString).find? stream.toString

/-- Each row is in the table of its stream's model, and the rows are those of the states that were indexed. -/
structure Refines (modelOf : StreamID → StreamID) (run : IndexRun) : Prop where
  placed : ∀ name key, ((run.tables name).find? key).isSome →
    ∃ stream, name = (modelOf stream).toString ∧ key = StreamID.toString stream
  same : ∀ stream, Option.Rel (fun row state => RowOf [] state row) (run.row modelOf stream) (run.contents stream)

section Steps

variable {modelOf : StreamID → StreamID} {run : IndexRun} {type : DatabaseType} {allowQueriesBeforeHistoricalSync : Bool}

theorem refines_start (modelOf : StreamID → StreamID) (config : DatabaseIndexApi) : Refines modelOf (.start config) where
  placed _ _ found := by cases found
  same _ := .none

/-- One stream's row is replaced, or removed, or added, and so is what was indexed of it. -/
theorem Refines.moved (refines : Refines modelOf run) (stream : StreamID) {table : ModelTable} {row : Option IndexedData}
    {state : Option StreamState}
    (rows : ∀ key, table.find? key = if key = stream.toString then row
      else (run.tables (modelOf stream).toString).find? key)
    (same : Option.Rel (fun row state => RowOf [] state row) row state) :
    Refines modelOf { run with
      tables := (run.index.updateTable (modelOf stream).toString table).tables
      contents := Function.update run.contents stream state } where
  placed name key found := by
    dsimp only [Ceramic.DatabaseIndexApi.updateTable, IndexRun.index] at found
    split at found
    next here =>
      rw [rows key] at found
      split at found
      next isKey => exact ⟨stream, here, isKey⟩
      next => exact here ▸ refines.placed _ key found
    next => exact refines.placed name key found
  same other := by
    have kept := refines.same other
    unfold IndexRun.row at kept ⊢
    dsimp only [Ceramic.DatabaseIndexApi.updateTable, IndexRun.index]
    by_cases isStream : other = stream
    · subst isStream
      rw [if_pos rfl, rows, if_pos rfl, Function.update_self]
      exact same
    · rw [Function.update_of_ne isStream]
      split
      next sameModel =>
        rw [rows, if_neg fun text => isStream (StreamID.toString_injective text), ← sameModel]
        exact kept
      next => exact kept

theorem needed_unindexed {state : StreamState} {now : Nat}
    (unindexed : ∀ model, JsObject.get state.metadata "model" = .streamID model → run.isIndexed model = false)
    (controlled : ∃ controller, firstController state.metadata = .ok (.str controller)) :
    StreamIndexing._indexStreamIfNeeded run.index state now = .ok run.index := by
  obtain ⟨controller, controlled⟩ := controlled
  unfold StreamIndexing._indexStreamIfNeeded
  split
  next model isModel =>
    rw [controlled]
    exact if_neg (Bool.eq_false_iff.mp (unindexed model isModel))
  next => rfl

/-- A stream is stored before its row is written, if it is pinned or its model is indexed. -/
theorem run_eq (index : Ceramic.DatabaseIndexApi) (call : IndexCall) : ∃ storing : Bool,
    call.run index = (if storing then call.pin >>= fun _ => StreamIndexing._indexStreamIfNeeded index call.state call.now
      else StreamIndexing._indexStreamIfNeeded index call.state call.now) ∧
    ∀ model, JsObject.get call.state.metadata "model" = .streamID model →
      LocalIndexApi.shouldIndexStream index model = true → storing = true := by
  refine ⟨_, rfl, fun model isModel indexed => ?_⟩
  simp only [isModel, indexed, Bool.or_true]

/-- An update of a stream whose model is not indexed, or that can not be stored, is not written. -/
theorem afterCall_ignored {call : IndexCall}
    (ignored : ∀ model, JsObject.get call.state.metadata "model" = .streamID model →
      (run.isIndexed model && call.pin.isOk) = false)
    (controlled : ∃ controller, firstController call.state.metadata = .ok (.str controller)) :
    StreamIndexing.afterCall run.index call = run.index := by
  by_cases indexed : ∃ model, JsObject.get call.state.metadata "model" = .streamID model ∧ run.isIndexed model = true
  · obtain ⟨model, isModel, indexed⟩ := indexed
    have failed := ignored model isModel
    rw [indexed, Bool.true_and] at failed
    cases pinned : call.pin with
    | ok _ => rw [pinned] at failed; cases failed
    | error e =>
      obtain ⟨storing, result, stores⟩ := run_eq run.index call
      rw [stores model isModel indexed, if_pos rfl, pinned] at result
      unfold StreamIndexing.afterCall
      rw [result]
      rfl
  · have needed := @needed_unindexed run call.state call.now
      (fun model isModel => by simpa using not_and.mp (not_exists.mp indexed model) isModel) controlled
    obtain ⟨storing, result, _⟩ := run_eq run.index call
    rw [needed] at result
    unfold StreamIndexing.afterCall
    rw [result]
    cases storing with
    | false => rfl
    | true => cases call.pin <;> rfl

/-- An update of a stream whose model is indexed is written once it is stored. -/
theorem run_stored {call : IndexCall} {model : StreamID} (isModel : JsObject.get call.state.metadata "model" = .streamID model)
    (indexed : run.isIndexed model = true) (stored : call.pin = .ok ())
    (controlled : ∃ controller, firstController call.state.metadata = .ok (.str controller)) :
    ∃ index', call.run run.index = .ok index' := by
  obtain ⟨controller, controlled⟩ := controlled
  have shouldIndex : LocalIndexApi.shouldIndexStream run.index model = true := indexed
  obtain ⟨storing, result, stores⟩ := run_eq run.index call
  rw [stores model isModel indexed, if_pos rfl, stored] at result
  rw [result]
  change ∃ index', StreamIndexing._indexStreamIfNeeded run.index call.state call.now = .ok index'
  unfold StreamIndexing._indexStreamIfNeeded
  rw [isModel]
  dsimp only
  rw [controlled]
  change ∃ index', LocalIndexApi.indexStream _ _ _ = .ok index'
  unfold LocalIndexApi.indexStream
  rw [if_pos shouldIndex]
  unfold DatabaseIndexApi.indexStream
  dsimp only
  split
  · exact ⟨_, rfl⟩
  · split
    · exact ⟨_, rfl⟩
    · exact ⟨_, rfl⟩

/-- The row that a record becomes in a table. -/
def writtenRow (table : ModelTable) (data : IndexedData) : IndexedData :=
  (table.find? data.stream_id).elim data.inserted data.mergedInto

theorem find?_written (table : ModelTable) {data : IndexedData} {key : String} (id : data.stream_id = key) (other : String) :
    (table.insertOrMerge data.inserted data.mergedInto).find? other =
      if other = key then some (writtenRow table data) else table.find? other := by
  subst id
  have inserted := KeyedTable.find?_insertOrMerge_self table data.inserted data.mergedInto fun _ => rfl
  split
  next same => exact same ▸ inserted
  next apart =>
    unfold KeyedTable.insertOrMerge
    split
    next => exact KeyedTable.find?_put_other table apart
    next => exact KeyedTable.find?_put_other table apart

theorem rowOf_written (table : ModelTable) {state : StreamState} {data : IndexedData} (plain : RowOf [] state data) :
    RowOf [] state (writtenRow table data) := by
  unfold writtenRow
  cases table.find? data.stream_id with
  | none => exact plain.of_custom rfl rfl rfl rfl rfl (List.forall_mem_nil _)
  | some old => exact plain.of_custom rfl rfl rfl rfl rfl (List.forall_mem_nil _)

theorem rowOf_withRelations {relations : List String} {state : StreamState} {record : IndexedData}
    (plain : RowOf [] state record) : RowOf [] state (DatabaseIndexApi.withRelations relations state.content record) :=
  plain.of_custom rfl rfl rfl rfl rfl (List.forall_mem_nil _)

/-- Each update of a stream of the right model keeps the tables and what was indexed in step. -/
theorem refines_update (refines : Refines modelOf run) {call : IndexCall} (ok : StateAllowed modelOf call.state) :
    Refines modelOf { run with
      tables := (StreamIndexing.afterCall run.index call).tables
      contents := run.contents.update run.isIndexed call } := by
  by_cases written : ∃ model, JsObject.get call.state.metadata "model" = .streamID model ∧
      (run.isIndexed model && call.pin.isOk) = true
  · obtain ⟨model, isModel, accepted⟩ := written
    obtain ⟨indexed, pinned⟩ := Bool.and_eq_true_iff.mp accepted
    have stored : call.pin = .ok () := by
      cases result : call.pin with
      | ok _ => rfl
      | error e => rw [result] at pinned; cases pinned
    have of : StreamIndexing.StateOf (StreamUtils.streamIdFromState call.state) model call.state := ⟨rfl, isModel, ok.controller⟩
    obtain ⟨index', updated⟩ := run_stored isModel indexed stored ok.controller
    have after : StreamIndexing.afterCall run.index call = index' := by
      unfold StreamIndexing.afterCall
      rw [updated]
    have named := ok.model model isModel
    unfold Contents.update
    rw [after, isModel]
    dsimp only
    rw [if_pos accepted]
    rcases StreamIndexing.update_cases of indexed updated with
      ⟨deleted, rfl⟩ | ⟨kept, empty, rfl⟩ | ⟨⟨content, kept⟩, record, id, plain, _, rfl⟩
    · rw [if_pos deleted, named]
      refine refines.moved _ (fun key => ?_) .none
      exact KeyedTable.find?_delete _ _ _
    · rw [if_neg kept, if_pos empty]
      exact refines
    · rw [if_neg kept, if_neg (by rw [content]; decide), named]
      exact refines.moved _ (find?_written _ id) (.some (rowOf_written _ (rowOf_withRelations plain)))
  · have ignored : ∀ model, JsObject.get call.state.metadata "model" = .streamID model →
        (run.isIndexed model && call.pin.isOk) = false :=
      fun model isModel => by simpa using not_and.mp (not_exists.mp written model) isModel
    have unchanged : run.contents.update run.isIndexed call = run.contents := by
      unfold Contents.update
      split
      next model isModel => rw [ignored model isModel]; rfl
      next => rfl
    rw [afterCall_ignored ignored ok.controller, unchanged]
    exact refines

theorem refines_reached {config : DatabaseIndexApi} (reached : Transition.Reaches (IndexRun.step type
    allowQueriesBeforeHistoricalSync) (Allowed modelOf) (.start config) run) : Refines modelOf run := by
  refine reached.invariant (refines_start modelOf config) fun run action run' refines ok stepped => ?_
  cases action with
  | configure call => exact Option.some.inj stepped ▸ ⟨refines.placed, refines.same⟩
  | restart => exact Option.some.inj stepped ▸ ⟨refines.placed, refines.same⟩
  | update call => exact Option.some.inj stepped ▸ refines_update refines ok

end Steps

section Queries

variable {V : Type} (db : IndexDatabase V)

/-- A row with what a state has is selected. -/
def Matches (query : BaseQuery) (state : StreamState) : Prop :=
  ∃ selected, applyFilters db query = .ok selected ∧ ∃ row, RowOf [] state row ∧ selected row = true

/-- The names of the streams that were indexed under one of some models and match a query, each once. -/
structure Lists (run : IndexRun) (modelOf : StreamID → StreamID) (models : Finset String) (query : BaseQuery)
    (names : List String) : Prop where
  once : names.Nodup
  exact : ∀ name, name ∈ names ↔ ∃ stream state, run.contents stream = some state ∧ stream.toString = name ∧
    (modelOf stream).toString ∈ models ∧ Matches db query state

variable {db} {query : BaseQuery} {selected : IndexedData → Bool}

/-- Where relations are not filtered by, what is selected depends on the controller and the content alone. -/
theorem selected_congr (plain : query.filter = none ∨ query.queryFilters.isSome)
    (filters : applyFilters db query = .ok selected) {row other : IndexedData}
    (controller : row.controller_did = other.controller_did) (content : row.stream_content = other.stream_content) :
    selected row = selected other := by
  unfold applyFilters at filters
  cases isFilter : query.queryFilters with
  | some queryFilters =>
    rw [isFilter] at filters
    obtain ⟨parsed, _, filters⟩ := bind_eq_ok.mp filters
    obtain ⟨converted, _, filters⟩ := bind_eq_ok.mp filters
    obtain rfl := Except.ok.inj filters
    simp only [controller, content]
  | none =>
    have noFilter : query.filter = none := plain.resolve_right (by simp [isFilter])
    rw [isFilter, noFilter] at filters
    obtain rfl := Except.ok.inj filters
    simp only [controller]

variable {modelOf : StreamID → StreamID} {run : IndexRun} {models : Finset String} {names : List String}

theorem matches_iff (plain : query.filter = none ∨ query.queryFilters.isSome)
    (filters : applyFilters db query = .ok selected) {state : StreamState} {row : IndexedData} (rowOf : RowOf [] state row) :
    Matches db query state ↔ selected row = true := by
  constructor
  · rintro ⟨_, sameFilters, other, otherOf, isSelected⟩
    obtain rfl := Except.ok.inj (filters.symm.trans sameFilters)
    have controller := Except.ok.inj (rowOf.controller.symm.trans otherOf.controller)
    rw [selected_congr plain filters (JsValue.str.inj controller) (rowOf.content.trans otherOf.content.symm)]
    exact isSelected
  · exact fun isSelected => ⟨selected, filters, row, rowOf, isSelected⟩

/-- The rows that a query selects are those of the streams that match it. -/
theorem Refines.mem_matching (refines : Refines modelOf run) (plain : query.filter = none ∨ query.queryFilters.isSome)
    (filters : applyFilters db query = .ok selected) (listed : List String) (name : String) :
    (∃ model ∈ listed, ∃ row ∈ (run.tables model).rows, selected row = true ∧ row.stream_id = name) ↔
      ∃ stream state, run.contents stream = some state ∧ stream.toString = name ∧
        (modelOf stream).toString ∈ listed ∧ Matches db query state := by
  constructor
  · rintro ⟨model, member, row, inTable, isSelected, rfl⟩
    have found : (run.tables model).find? row.stream_id = some row :=
      (KeyedTable.mem_iff_find? (run.tables model).unique).mp inTable
    obtain ⟨stream, rfl, text⟩ := refines.placed model row.stream_id (by rw [found]; rfl)
    have same := refines.same stream
    unfold IndexRun.row at same
    rw [← text, found] at same
    cases contents : run.contents stream with
    | none => rw [contents] at same; cases same
    | some state =>
      rw [contents] at same
      cases same with
      | some rowOf => exact ⟨stream, state, contents, text.symm, member, (matches_iff plain filters rowOf).mpr isSelected⟩
  · rintro ⟨stream, state, contents, rfl, member, isMatch⟩
    have same := refines.same stream
    rw [contents] at same
    cases found : run.row modelOf stream with
    | none => rw [found] at same; cases same
    | some row =>
      rw [found] at same
      cases same with
      | some rowOf =>
        refine ⟨_, member, row, List.mem_of_find?_eq_some found, (matches_iff plain filters rowOf).mp isMatch, ?_⟩
        exact KeyedTable.key_of_find? found

/-- No stream has rows in two tables. -/
theorem Refines.distinct (refines : Refines modelOf run) {listed : List String} (nodup : listed.Nodup) :
    ((listed.flatMap fun model => (run.tables model).rows).map (·.stream_id)).Nodup := by
  rw [List.map_flatMap, List.nodup_flatMap]
  refine ⟨fun model _ => (run.tables model).unique, nodup.imp fun {a b} apart => ?_⟩
  intro name inA inB
  have placed {model : String} (member : name ∈ (run.tables model).rows.map (·.stream_id)) :
      ∃ stream, model = (modelOf stream).toString ∧ name = stream.toString := by
    obtain ⟨row, inTable, rfl⟩ := List.mem_map.mp member
    have found : (run.tables model).find? row.stream_id = some row :=
      (KeyedTable.mem_iff_find? (run.tables model).unique).mp inTable
    exact refines.placed model row.stream_id (by rw [found]; rfl)
  obtain ⟨stream, rfl, text⟩ := placed inA
  obtain ⟨other, rfl, otherText⟩ := placed inB
  exact apart (congrArg (fun stream => (modelOf stream).toString) (StreamID.toString_injective (text.symm.trans otherText)))

variable {parseCID : String → Option Cid} {allowQueriesBeforeHistoricalSync : Bool} {answers : Answers}
  {inOrder : Finset String → List String} {tables : String → ModelTable} {api : DatabaseIndexApi}

/-- A query with another page asked for. -/
def ModelsQuery.withPage (query : ModelsQuery) (page : PageQuery) : ModelsQuery := { query with toPageQuery := page }

/-- A count is that of the rows that a page is made from. -/
theorem count_ok {asks : ModelsQuery} {total : Nat}
    (counted : api.count parseCID allowQueriesBeforeHistoricalSync answers inOrder db tables asks = .ok total) :
    ∃ models, api.getQueryModels parseCID allowQueriesBeforeHistoricalSync answers inOrder asks = .ok models ∧
      (models = ∅ ∧ total = 0 ∨ models ≠ ∅ ∧ api.assertTables (inOrder models) = .ok () ∧
        ∃ selected, applyFilters db asks.toBaseQuery = .ok selected ∧
          total = (InsertionOrder.matching (DatabaseIndexApi.rowsOf tables) (inOrder models) selected).length) := by
  unfold DatabaseIndexApi.count at counted
  obtain ⟨models, answered, counted⟩ := bind_eq_ok.mp counted
  refine ⟨models, answered, ?_⟩
  split at counted
  next none => exact .inl ⟨none, (Except.ok.inj counted).symm⟩
  next nonempty =>
    obtain ⟨selected, filters, counted⟩ := bind_eq_ok.mp counted
    obtain ⟨_, present, counted⟩ := bind_eq_ok.mp counted
    refine .inr ⟨nonempty, present, selected, filters, ?_⟩
    rw [← Except.ok.inj counted]
    unfold InsertionOrder.matching
    simp only [List.length_flatMap, List.length_map]

/-- The rows found for a query are the matching streams, each once. -/
theorem Refines.lists (refines : Refines modelOf run) (ordered : (inOrder models).Nodup ∧ (inOrder models).toFinset = models)
    (plain : query.filter = none ∨ query.queryFilters.isSome) (filters : applyFilters db query = .ok selected)
    {rows : List QueryResult}
    (same : rows.Perm (InsertionOrder.matching (DatabaseIndexApi.rowsOf run.tables) (inOrder models) selected))
    (distinct : (rows.map (·.stream_id)).Nodup) : Lists db run modelOf models query (rows.map (·.stream_id)) := by
  refine ⟨distinct, fun name => ?_⟩
  rw [(same.map _).mem_iff]
  have listed : ∀ model, model ∈ inOrder models ↔ model ∈ models := fun model => by
    rw [← List.mem_toFinset, ordered.2]
  have matching := refines.mem_matching plain filters (inOrder models) name
  simp only [listed] at matching
  rw [← matching]
  unfold InsertionOrder.matching DatabaseIndexApi.rowsOf
  simp only [List.mem_map, List.mem_flatMap, List.mem_filter, InsertionOrder.resultOf]
  constructor
  · rintro ⟨_, ⟨model, member, row, ⟨inTable, isSelected⟩, rfl⟩, isName⟩
    exact ⟨model, (listed model).mp member, row, inTable, isSelected, isName⟩
  · rintro ⟨model, member, row, inTable, isSelected, isName⟩
    exact ⟨_, ⟨model, (listed model).mpr member, row, ⟨inTable, isSelected⟩, rfl⟩, isName⟩

/-- Pages of which none has anything. -/
theorem readsAll_empty {get : Option CursorData → Except JsError Page} {more : Page → Bool}
    {next : Page → Option CursorData} {entries : Page → List String} (empty : ∀ cursor, get cursor = .ok emptyPage)
    (last : more emptyPage = false) (nothing : entries emptyPage = []) : ReadsAll get more next entries [] := by
  refine ⟨⟨[emptyPage], .last (empty none) last⟩, fun pages followed => ?_⟩
  have only : pages = [emptyPage] := by
    cases followed with
    | last returned _ => rw [Except.ok.inj ((empty none).symm.trans returned)]
    | next returned goesOn _ =>
      rw [← Except.ok.inj ((empty none).symm.trans returned), last] at goesOn
      cases goesOn
  subst only
  refine ⟨by simp [nothing], fun front page rest split => ?_⟩
  have isEmpty : page = emptyPage := by
    have member : page ∈ front ++ page :: rest := by simp
    rw [← split] at member
    exact List.mem_singleton.mp member
  rw [isEmpty, last]
  simp

variable (db) in
/-- A query is answered with the streams that match, through pages that end. -/
def AnsweredWith (run : IndexRun) (modelOf : StreamID → StreamID) (models : Finset String) (query : BaseQuery)
    (total : Nat) (get : Option CursorData → Except JsError Page) (more : Page → Bool) (next : Page → Option CursorData)
    (entries : Page → List String) : Prop :=
  ∃ names, Lists db run modelOf models query names ∧ names.length = total ∧ ReadsAll get more next entries names

theorem answeredWith_none {get : Option CursorData → Except JsError Page} {more : Page → Bool}
    {next : Page → Option CursorData} {entries : Page → List String} (empty : ∀ cursor, get cursor = .ok emptyPage)
    (last : more emptyPage = false) (nothing : entries emptyPage = []) :
    AnsweredWith db run modelOf ∅ query 0 get more next entries := by
  refine ⟨[], ⟨List.nodup_nil, fun name => ?_⟩, rfl, readsAll_empty empty last nothing⟩
  simp

variable [LinearOrder V]

theorem page_none {asks : ModelsQuery}
    (answered : api.getQueryModels parseCID allowQueriesBeforeHistoricalSync answers inOrder asks = .ok ∅) :
    api.page parseCID allowQueriesBeforeHistoricalSync answers inOrder db tables asks = .ok emptyPage := by
  unfold DatabaseIndexApi.page
  rw [answered]
  rfl

theorem page_some {asks : ModelsQuery} {models : Finset String}
    (answered : api.getQueryModels parseCID allowQueriesBeforeHistoricalSync answers inOrder asks = .ok models)
    (nonempty : models ≠ ∅) (present : api.assertTables (inOrder models) = .ok ()) :
    api.page parseCID allowQueriesBeforeHistoricalSync answers inOrder db tables asks =
      InsertionOrder.page db (DatabaseIndexApi.rowsOf tables) (inOrder models) asks.toPageQuery := by
  unfold DatabaseIndexApi.page
  rw [answered]
  change (if models = ∅ then _ else _) = _
  rw [if_neg nonempty]
  cases found : InsertionOrder.page db (DatabaseIndexApi.rowsOf tables) (inOrder models) asks.toPageQuery with
  | error e => rfl
  | ok result =>
    change (api.assertTables (inOrder models) >>= fun _ => Except.ok result) = _
    rw [present]
    rfl

variable {type : DatabaseType}

end Queries

namespace IndexFixture

/-- A model whose id has an empty digest. -/
def postModel : StreamID := ⟨2, .v1 0x71 (createMultihash 0 [])⟩

def postState (id : Nat) (text : String) : StreamState :=
  { type := 3
    content := .obj [("text", .str text)]
    metadata := [("controllers", .arr [.str "did:key:a"]), ("model", .streamID postModel)]
    signature := .SIGNED
    anchorStatus := .NOT_REQUESTED
    log := ⟨[{ cid := ⟨[UInt8.ofNat id]⟩, type := .INIT }], List.cons_ne_nil _ _⟩ }

def postUpdate (id : Nat) (text : String) (now : Nat) : IndexAction :=
  .update { isPinned := true, pin := .ok (), state := postState id text, now }

/-- Two posts of a model that implements an interface, one of them updated after a restart. -/
def posts : List IndexAction :=
  [.configure (.indexModels [{ model := postModel, implements := ["kinterface"] }] {}), postUpdate 1 "first" 5,
    postUpdate 2 "second" 7, .restart, postUpdate 1 "changed" 9]

theorem postState_allowed (id : Nat) (text : String) : StateAllowed (fun _ => postModel) (postState id text) :=
  ⟨fun _ isModel => (JsValue.streamID.inj isModel).symm, "did:key:a", rfl⟩

theorem posts_allowed : Transition.AllAllowed (IndexRun.step .SQLITE false) (Allowed fun _ => postModel) (.start fresh) posts :=
  ⟨trivial, postState_allowed 1 "first", postState_allowed 2 "second", trivial, postState_allowed 1 "changed", trivial⟩

def everyPost : ModelsQuery :=
  { account := none, filter := none, queryFilters := none, sorting := none, first := none, after := none, last := none,
    before := none, model := none, models := some [.text "kinterface"] }

set_option maxRecDepth 4000 in
theorem reads_postModel : StreamID.fromString (fun _ => none) postModel.toString = .ok postModel := by decide

/-- A query for an interface that a single model implements. -/
theorem getQueryModels_only {parseCID : String → Option Cid} {allowQueriesBeforeHistoricalSync : Bool} {answers : Answers}
    {api : DatabaseIndexApi} {query : ModelsQuery} {id : ModelName} {name : String} {model : StreamID}
    (only : query.ids = .ok [id]) (implemented : api.interfacesModels id.toString = some {name})
    (reads : StreamID.fromString parseCID name = .ok model) (indexed : (api._getIndexedModel model).isSome)
    (queryable : api.assertModelQueryable allowQueriesBeforeHistoricalSync answers model = .ok ()) :
    api.getQueryModels parseCID allowQueriesBeforeHistoricalSync answers Finset.toList query = .ok {name} := by
  have inserted : api.addIfIndexed parseCID ∅ name = .ok {name} := by
    refine bind_eq_ok.mpr ⟨model, reads, ?_⟩
    rw [if_pos indexed]
    rfl
  have added : api.addModels parseCID Finset.toList ∅ id.toString = .ok {name} := by
    unfold DatabaseIndexApi.addModels
    rw [implemented]
    dsimp only
    rw [Finset.toList_singleton]
    exact bind_eq_ok.mpr ⟨_, inserted, rfl⟩
  refine bind_eq_ok.mpr ⟨[id], only, bind_eq_ok.mpr ⟨{name}, bind_eq_ok.mpr ⟨_, added, rfl⟩, bind_eq_ok.mpr ⟨(), ?_, rfl⟩⟩⟩
  rw [Finset.toList_singleton]
  refine forM_eq_ok.mpr fun other member => ?_
  rw [List.mem_singleton.mp member]
  exact bind_eq_ok.mpr ⟨model, reads, queryable⟩

theorem posts_counted {run : IndexRun} (ran : Transition.run (IndexRun.step .SQLITE false) (.start fresh) posts = some run) :
    run.config.count (fun _ => none) false {} Finset.toList InsertionOrder.numbers run.tables everyPost = .ok 2 := by
  have asked : run.config.getQueryModels (fun _ => none) false {} Finset.toList everyPost = .ok {postModel.toString} := by
    obtain rfl := Option.some.inj ran
    exact getQueryModels_only rfl rfl reads_postModel rfl rfl
  refine bind_eq_ok.mpr ⟨_, asked, ?_⟩
  rw [if_neg (Finset.singleton_ne_empty _), Finset.toList_singleton]
  obtain rfl := Option.some.inj ran
  rfl

end IndexFixture

end Ceramic.Indexing
