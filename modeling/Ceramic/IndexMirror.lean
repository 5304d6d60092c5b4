import Ceramic.DatabaseIndexApi

/-! Whether the row of a stream has what the stream's state has. A record that is merged into
a row leaves the columns of the relations that the content has no field for, and a state
without content leaves the row. -/
namespace Ceramic

namespace IndexedData

/-- The columns of a record, those that are `undefined` too. -/
def recordColumns (relations : List String) (content : JsValue) : JsObject :=
  relations.map fun relation => (addColumnPrefix relation, contentField content relation)

theorem withRelations_custom (relations : List String) (content : JsValue) (data : IndexedData)
    (columns : (relations.map addColumnPrefix).Nodup) (new : data.custom = []) :
    (DatabaseIndexApi.withRelations relations content data).custom = recordColumns relations content := by
  have appended : ∀ custom : JsObject, (∀ relation ∈ relations, ∀ field ∈ custom,
      field.1 ≠ addColumnPrefix relation) →
      relations.foldl (fun custom relation =>
        JsObject.set custom (addColumnPrefix relation) (contentField content relation)) custom =
      custom ++ recordColumns relations content := by
    clear new
    induction relations with
    | nil => simp [recordColumns]
    | cons relation relations ih =>
      intro custom absent
      obtain ⟨apart, columns⟩ := List.nodup_cons.mp columns
      rw [List.foldl_cons, JsObject.set_new (absent relation List.mem_cons_self), ih columns]
      · simp [recordColumns]
      · intro other member field inCustom
        rcases List.mem_append.mp inCustom with inCustom | inCustom
        · exact absent other (List.mem_cons_of_mem _ member) field inCustom
        · rw [List.mem_singleton.mp inCustom]
          exact fun same => apart (List.mem_map.mpr ⟨other, member, same.symm⟩)
  unfold DatabaseIndexApi.withRelations
  rw [new]
  exact (appended [] (by simp)).trans (List.nil_append _)

variable {relations : List String} {content : JsValue}

/-- The value of a column that a record does not leave out. -/
theorem get?_defined (columns : (relations.map addColumnPrefix).Nodup) {relation : String}
    (member : relation ∈ relations) :
    JsObject.get? ((recordColumns relations content).filter fun field => field.2 ≠ .undefined)
      (addColumnPrefix relation) =
      if contentField content relation = .undefined then none
      else some (contentField content relation) := by
  induction relations with
  | nil => cases member
  | cons first relations ih =>
    obtain ⟨apart, columns⟩ := List.nodup_cons.mp columns
    have split : recordColumns (first :: relations) content =
      (addColumnPrefix first, contentField content first) :: recordColumns relations content := rfl
    rw [split, List.filter_cons]
    rcases List.mem_cons.mp member with rfl | behind
    · have later : JsObject.get? ((recordColumns relations content).filter fun field =>
          field.2 ≠ .undefined) (addColumnPrefix relation) = none := by
        refine JsObject.get?_eq_none fun field inRest same => ?_
        obtain ⟨other, inRelations, rfl⟩ := List.mem_map.mp (List.mem_of_mem_filter inRest)
        exact apart (List.mem_map.mpr ⟨other, inRelations, same⟩)
      by_cases undefined : contentField content relation = .undefined
      · simpa [undefined] using later
      · simp [undefined, JsObject.get?_cons]
    · have other : addColumnPrefix first ≠ addColumnPrefix relation := fun same =>
        apart (List.mem_map.mpr ⟨relation, behind, same.symm⟩)
      by_cases undefined : contentField content first = .undefined
      · simpa [undefined] using ih columns behind
      · simpa [undefined, JsObject.get?_cons, other] using ih columns behind

/-- What a state has for a relation, `NULL` if its content has no such field. -/
def relationValue (content : JsValue) (relation : String) : JsValue :=
  if contentField content relation = .undefined then .null else contentField content relation

theorem column_inserted {data : IndexedData} (columns : (relations.map addColumnPrefix).Nodup)
    (record : data.custom = recordColumns relations content) {relation : String}
    (member : relation ∈ relations) :
    data.inserted.column (addColumnPrefix relation) = relationValue content relation := by
  unfold column inserted relationValue
  simp only [record]
  rw [get?_defined columns member]
  split <;> rfl

theorem column_mergedInto {data : IndexedData} (columns : (relations.map addColumnPrefix).Nodup)
    (record : data.custom = recordColumns relations content) (old : IndexedData) {relation : String}
    (member : relation ∈ relations) :
    (data.mergedInto old).column (addColumnPrefix relation) =
      if contentField content relation = .undefined then old.column (addColumnPrefix relation)
      else contentField content relation := by
  have nodup : ((recordColumns relations content).map (·.1)).Nodup := by
    simpa [recordColumns, Function.comp_def] using columns
  unfold column mergedInto
  simp only [record]
  rw [JsObject.get?_spread _ _ (nodup.sublist (List.filter_sublist.map _)), get?_defined columns member]
  split <;> rfl

end IndexedData

namespace StreamIndexing

/-- A row has what a state has. -/
structure RowOf (relations : List String) (state : StreamState) (row : IndexedData) : Prop where
  tip : row.tip = (StreamUtils.tipFromState state).toString
  controller : firstController state.metadata = .ok (.str row.controller_did)
  content : row.stream_content = state.content
  lastAnchor : row.last_anchored_at = asDate (StreamUtils.anchorTimestampFromState state)
  firstAnchor : row.first_anchored_at = asDate (firstAnchorTimestamp state)
  relations : ∀ relation ∈ relations,
    row.column (addColumnPrefix relation) = IndexedData.relationValue state.content relation

/-- The stream of a state is to have a row. -/
def Listed (state : StreamState) : Prop :=
  state.content.isNullish = false ∧ JsObject.get state.metadata "shouldIndex" ≠ .bool false

def rowOf (table : ModelTable) (state : StreamState) : Option IndexedData :=
  table.find? (StreamUtils.streamIdFromState state).toString

/-- After a state was indexed, the table has a row for it exactly if it is to have one, with
what the state has; a row that was there keeps the time it was created at. -/
structure Mirrors (relations : List String) (before after : ModelTable) (state : StreamState) : Prop where
  listed : (rowOf after state).isSome ↔ Listed state
  equal : ∀ row, rowOf after state = some row → RowOf relations state row
  created : ∀ old row, rowOf before state = some old → rowOf after state = some row →
    row.created_at = old.created_at

/-- A state without content finds no row, and a content without the field of a relation finds
no row that has a value for it, unless the row is deleted. -/
structure Settled (relations : List String) (before : ModelTable) (state : StreamState) : Prop where
  absent : JsObject.get state.metadata "shouldIndex" ≠ .bool false → state.content.isNullish →
    rowOf before state = none
  blank : Listed state → ∀ old, rowOf before state = some old → ∀ relation ∈ relations,
    contentField state.content relation = .undefined → old.column (addColumnPrefix relation) = .null

/-- A state of a stream of a model. -/
structure StateOf (stream model : StreamID) (state : StreamState) : Prop where
  stream : StreamUtils.streamIdFromState state = stream
  model : JsObject.get state.metadata "model" = .streamID model
  controller : ∃ controller, firstController state.metadata = .ok (.str controller)

variable {stream model : StreamID} {state : StreamState} {index index' : DatabaseIndexApi}
  {isPinned : Bool} {pin : Except JsError Unit} {now : Nat}

/-- What is written to the table of the model. -/
theorem update_cases (of : StateOf stream model state)
    (indexed : LocalIndexApi.shouldIndexStream index model = true)
    (updated : _updateStateIfPinned index isPinned pin state now = .ok index') :
    (JsObject.get state.metadata "shouldIndex" = .bool false ∧ index' = index.updateTable model.toString
      ((index.tables model.toString).delete stream.toString)) ∨
    (JsObject.get state.metadata "shouldIndex" ≠ .bool false ∧ state.content.isNullish = true ∧
      index' = index) ∨
    (Listed state ∧ ∃ record : IndexedData, record.stream_id = stream.toString ∧
      RowOf [] state record ∧ record.custom = [] ∧
      index' = index.updateTable model.toString ((index.tables model.toString).insertOrMerge
        (DatabaseIndexApi.withRelations (index.relationsOf model) state.content record).inserted
        (DatabaseIndexApi.withRelations (index.relationsOf model) state.content record).mergedInto)) := by
  obtain ⟨controller, controlled⟩ := of.controller
  have needed : _indexStreamIfNeeded index state now = .ok index' := by
    unfold _updateStateIfPinned at updated
    simp only [of.model] at updated
    split at updated
    · obtain ⟨_, _, needed⟩ := bind_eq_ok.mp updated
      exact needed
    · exact updated
  unfold _indexStreamIfNeeded at needed
  simp only [of.model] at needed
  obtain ⟨_, read, stored⟩ := bind_eq_ok.mp needed
  obtain rfl := Except.ok.inj (controlled.symm.trans read)
  unfold LocalIndexApi.indexStream at stored
  rw [if_pos indexed] at stored
  unfold DatabaseIndexApi.indexStream at stored
  rw [of.stream] at stored
  by_cases deleted : JsObject.get state.metadata "shouldIndex" = .bool false
  · rw [if_pos deleted] at stored
    exact .inl ⟨deleted, (Except.ok.inj stored).symm⟩
  rw [if_neg deleted] at stored
  by_cases empty : state.content.isNullish
  · rw [if_pos empty] at stored
    exact .inr (.inl ⟨deleted, empty, (Except.ok.inj stored).symm⟩)
  rw [if_neg empty] at stored
  obtain ⟨record, built, returned⟩ := bind_eq_ok.mp stored
  obtain rfl := Except.ok.inj built
  refine .inr (.inr ⟨⟨by simpa using empty, deleted⟩, _, rfl, ?_, rfl, (Except.ok.inj returned).symm⟩)
  exact ⟨rfl, controlled, if_neg empty, rfl, rfl, fun _ member => by cases member⟩

theorem tables_updateTable (index : DatabaseIndexApi) (name : String) (table : ModelTable) :
    (index.updateTable name table).tables name = table := if_pos rfl

/-- What a record has beside its relations is the same inserted, merged, and as it is. -/
theorem RowOf.of_custom {relations : List String} {record row : IndexedData}
    (plain : RowOf [] state record) (tip : row.tip = record.tip)
    (controller : row.controller_did = record.controller_did)
    (content : row.stream_content = record.stream_content)
    (lastAnchor : row.last_anchored_at = record.last_anchored_at)
    (firstAnchor : row.first_anchored_at = record.first_anchored_at)
    (custom : ∀ relation ∈ relations,
      row.column (addColumnPrefix relation) = IndexedData.relationValue state.content relation) :
    RowOf relations state row :=
  ⟨tip ▸ plain.tip, controller ▸ plain.controller, content ▸ plain.content,
    lastAnchor ▸ plain.lastAnchor, firstAnchor ▸ plain.firstAnchor, custom⟩

/-- One call: the row has what the state has exactly if the row that was there allows it. -/
theorem mirrors_iff (of : StateOf stream model state)
    (indexed : LocalIndexApi.shouldIndexStream index model = true)
    (columns : ((index.relationsOf model).map addColumnPrefix).Nodup)
    (updated : _updateStateIfPinned index isPinned pin state now = .ok index') :
    Mirrors (index.relationsOf model) (index.tables model.toString) (index'.tables model.toString) state ↔
      Settled (index.relationsOf model) (index.tables model.toString) state := by
  rcases update_cases of indexed updated with ⟨deleted, rfl⟩ | ⟨kept, empty, rfl⟩ | ⟨listed, record, id, plain, new, rfl⟩
  · rw [tables_updateTable]
    have gone : rowOf ((index.tables model.toString).delete stream.toString) state = none := by
      unfold rowOf
      rw [of.stream]
      exact KeyedTable.find?_delete_self _ _
    constructor
    · exact fun _ => ⟨fun kept => absurd deleted kept, fun listed => absurd deleted listed.2⟩
    · intro _
      refine ⟨?_, fun row found => ?_, fun _ row _ found => ?_⟩
      · rw [gone]
        exact iff_of_false (by simp) fun listed => listed.2 deleted
      · simp [gone] at found
      · simp [gone] at found
  · have unlisted : ¬ Listed state := fun listed => by simp [listed.1] at empty
    constructor
    · intro mirrors
      refine ⟨fun _ _ => ?_, fun listed => absurd listed unlisted⟩
      cases found : rowOf (index'.tables model.toString) state with
      | none => rfl
      | some row => exact absurd (mirrors.listed.mp (by rw [found]; rfl)) unlisted
    · intro settled
      have none := settled.absent kept empty
      refine ⟨?_, fun row found => ?_, fun _ row _ found => ?_⟩
      · rw [none]
        exact iff_of_false (by simp) unlisted
      · simp [none] at found
      · simp [none] at found
  · rw [tables_updateTable]
    have custom := IndexedData.withRelations_custom (index.relationsOf model) state.content record columns new
    have written : rowOf ((index.tables model.toString).insertOrMerge
          (DatabaseIndexApi.withRelations (index.relationsOf model) state.content record).inserted
          (DatabaseIndexApi.withRelations (index.relationsOf model) state.content record).mergedInto) state =
        some ((rowOf (index.tables model.toString) state).elim
          (DatabaseIndexApi.withRelations (index.relationsOf model) state.content record).inserted
          (DatabaseIndexApi.withRelations (index.relationsOf model) state.content record).mergedInto) := by
      unfold rowOf
      rw [of.stream, ← id]
      exact KeyedTable.find?_insertOrMerge_self _ _ _ fun _ => rfl
    constructor
    · intro mirrors
      refine ⟨fun _ empty => by simp [listed.1] at empty, fun _ old found relation member undefined => ?_⟩
      rw [found] at written
      have equal := (mirrors.equal _ written).relations relation member
      rw [IndexedData.relationValue, if_pos undefined] at equal
      have merged := IndexedData.column_mergedInto columns custom old member
      rw [if_pos undefined] at merged
      exact merged.symm.trans equal
    · intro settled
      refine ⟨?_, fun row found => ?_, fun old row before found => ?_⟩
      · rw [written]
        exact iff_of_true rfl listed
      · obtain rfl := Option.some.inj (written.symm.trans found)
        cases before : rowOf (index.tables model.toString) state with
        | none =>
          exact plain.of_custom rfl rfl rfl rfl rfl fun relation member =>
            IndexedData.column_inserted columns custom member
        | some old =>
          refine plain.of_custom rfl rfl rfl rfl rfl fun relation member => ?_
          have merged := IndexedData.column_mergedInto columns custom old member
          by_cases undefined : contentField state.content relation = .undefined
          · rw [if_pos undefined] at merged
            rw [IndexedData.relationValue, if_pos undefined]
            exact merged.trans (settled.blank listed old before relation member undefined)
          · rw [if_neg undefined] at merged
            rw [IndexedData.relationValue, if_neg undefined]
            exact merged
      · rw [before] at written
        obtain rfl := Option.some.inj (written.symm.trans found)
        rfl

/-- A call of `_updateStateIfPinned`. -/
structure IndexCall where
  isPinned : Bool
  pin : Except JsError Unit
  state : StreamState
  now : Nat

def IndexCall.run (index : DatabaseIndexApi) (call : IndexCall) : Except JsError DatabaseIndexApi :=
  _updateStateIfPinned index call.isPinned call.pin call.state call.now

/-- A call that fails leaves the index. -/
def afterCall (index : DatabaseIndexApi) (call : IndexCall) : DatabaseIndexApi :=
  match call.run index with
  | .ok index' => index'
  | .error _ => index

def afterCalls (index : DatabaseIndexApi) (calls : List IndexCall) : DatabaseIndexApi :=
  calls.foldl afterCall index

/-- Which models are indexed, and with which relations, does not change. -/
theorem afterCalls_models (indexed : LocalIndexApi.shouldIndexStream index model = true)
    {calls : List IndexCall} (of : ∀ call ∈ calls, StateOf stream model call.state) :
    (afterCalls index calls).indexedModels = index.indexedModels ∧
      (afterCalls index calls).modelRelations = index.modelRelations := by
  induction calls generalizing index with
  | nil => exact ⟨rfl, rfl⟩
  | cons call calls ih =>
    have step : (afterCall index call).indexedModels = index.indexedModels ∧
        (afterCall index call).modelRelations = index.modelRelations := by
      unfold afterCall
      split
      next index' updated =>
        have kept (name : String) (table : ModelTable) : (index.updateTable name table).indexedModels = index.indexedModels ∧
            (index.updateTable name table).modelRelations = index.modelRelations := ⟨rfl, rfl⟩
        rcases update_cases (of call List.mem_cons_self) indexed updated with
          ⟨_, same⟩ | ⟨_, _, same⟩ | ⟨_, _, _, _, _, same⟩
        · exact same ▸ kept _ _
        · exact same ▸ ⟨rfl, rfl⟩
        · rw [same]
          exact kept _ _
      next => exact ⟨rfl, rfl⟩
    have still : LocalIndexApi.shouldIndexStream (afterCall index call) model = true := by
      unfold LocalIndexApi.shouldIndexStream
      rw [step.1]
      exact indexed
    obtain ⟨models, relations⟩ := ih still fun other member => of other (List.mem_cons_of_mem _ member)
    exact ⟨models.trans step.1, relations.trans step.2⟩

/-- For every sequence of states of a stream of an indexed model: after each call that returns
the table mirrors its state, exactly if each finds the row in a state that allows it. -/
theorem index_mirrors_iff (index : DatabaseIndexApi) (calls : List IndexCall)
    (of : ∀ call ∈ calls, StateOf stream model call.state)
    (indexed : LocalIndexApi.shouldIndexStream index model = true)
    (columns : ((index.relationsOf model).map addColumnPrefix).Nodup) :
    (∀ front call, front ++ [call] <+: calls → ∀ index', call.run (afterCalls index front) = .ok index' →
      Mirrors (index.relationsOf model) ((afterCalls index front).tables model.toString)
        (index'.tables model.toString) call.state) ↔
    ∀ front call, front ++ [call] <+: calls → (∃ index', call.run (afterCalls index front) = .ok index') →
      Settled (index.relationsOf model) ((afterCalls index front).tables model.toString) call.state := by
  have each : ∀ front call, front ++ [call] <+: calls → ∀ index', call.run (afterCalls index front) = .ok index' →
      (Mirrors (index.relationsOf model) ((afterCalls index front).tables model.toString)
        (index'.tables model.toString) call.state ↔
      Settled (index.relationsOf model) ((afterCalls index front).tables model.toString) call.state) := by
    intro front call isPrefix index' updated
    have known : ∀ other ∈ front ++ [call], StateOf stream model other.state :=
      fun other member => of other (isPrefix.subset member)
    obtain ⟨models, relations⟩ := afterCalls_models indexed fun other member =>
      known other (List.mem_append_left _ member)
    have same : (afterCalls index front).relationsOf model = index.relationsOf model := by
      unfold DatabaseIndexApi.relationsOf
      rw [relations]
    have still : LocalIndexApi.shouldIndexStream (afterCalls index front) model = true := by
      unfold LocalIndexApi.shouldIndexStream
      rw [models]
      exact indexed
    have here := mirrors_iff (known call (by simp)) still (same ▸ columns) updated
    rw [same] at here
    exact here
  constructor
  · rintro mirrors front call isPrefix ⟨index', updated⟩
    exact (each front call isPrefix index' updated).mp (mirrors front call isPrefix index' updated)
  · intro settled front call isPrefix index' updated
    exact (each front call isPrefix index' updated).mpr (settled front call isPrefix ⟨index', updated⟩)

section Posts

def postModel : StreamID := ⟨MODEL_TYPE_ID, ⟨[1]⟩⟩

def postIndex : DatabaseIndexApi :=
  { indexedModels := [postModel], modelRelations := fun _ => some ["author"], tables := fun _ => .empty }

def post (content : JsValue) (log : List LogEntry) : StreamState :=
  { type := MODEL_INSTANCE_TYPE_ID
    content := content
    metadata := [("controllers", .arr [.str "did:key:a"]), ("model", .streamID postModel)]
    signature := .SIGNED
    anchorStatus := .NOT_REQUESTED
    log := ⟨{ cid := ⟨[2]⟩, type := .INIT } :: log, by simp⟩ }

def postCall (content : JsValue) (log : List LogEntry) (now : Nat) : IndexCall :=
  { isPinned := true, pin := .ok (), state := post content log, now := now }

theorem post_stateOf (content : JsValue) (log : List LogEntry) :
    StateOf ⟨MODEL_INSTANCE_TYPE_ID, ⟨[2]⟩⟩ postModel (post content log) :=
  ⟨rfl, rfl, "did:key:a", rfl⟩

/-- A post by an author, then with another, then anchored. -/
def signedPosts : List IndexCall :=
  [postCall (.obj [("author", .str "did:key:a")]) [] 1,
    postCall (.obj [("author", .str "did:key:b")]) [{ cid := ⟨[3]⟩, type := .DATA }] 2,
    postCall (.obj [("author", .str "did:key:b")])
      [{ cid := ⟨[3]⟩, type := .DATA, timestamp := .seconds 5 },
        { cid := ⟨[4]⟩, type := .TIME, timestamp := .seconds 5 }] 3]

theorem signedPosts_mirrors :
    (∀ front call, front ++ [call] <+: signedPosts → ∀ index', call.run (afterCalls postIndex front) = .ok index' →
      Mirrors (postIndex.relationsOf postModel) ((afterCalls postIndex front).tables postModel.toString)
        (index'.tables postModel.toString) call.state) ↔
    ∀ front call, front ++ [call] <+: signedPosts →
      (∃ index', call.run (afterCalls postIndex front) = .ok index') →
      Settled (postIndex.relationsOf postModel) ((afterCalls postIndex front).tables postModel.toString)
        call.state :=
  index_mirrors_iff postIndex signedPosts
    (by
      intro call member
      simp only [signedPosts, List.mem_cons, List.not_mem_nil, or_false] at member
      rcases member with rfl | rfl | rfl
      all_goals exact post_stateOf _ _)
    (by decide) (by decide)

/-- The author is removed from the post, and stays in the row. -/
def unsignedPosts : List IndexCall :=
  [postCall (.obj [("author", .str "did:key:a")]) [] 1,
    postCall (.obj []) [{ cid := ⟨[3]⟩, type := .DATA }] 2]

theorem removed_author_stays : (∀ call ∈ unsignedPosts,
      StateOf ⟨MODEL_INSTANCE_TYPE_ID, ⟨[2]⟩⟩ postModel call.state) ∧
    LocalIndexApi.shouldIndexStream postIndex postModel = true ∧
    ((postIndex.relationsOf postModel).map addColumnPrefix).Nodup ∧
    ¬ ∀ front call, front ++ [call] <+: unsignedPosts →
      ∀ index', call.run (afterCalls postIndex front) = .ok index' →
        Mirrors (postIndex.relationsOf postModel) ((afterCalls postIndex front).tables postModel.toString)
          (index'.tables postModel.toString) call.state := by
  refine ⟨?_, by decide, by decide, fun mirrors => ?_⟩
  · intro call member
    simp only [unsignedPosts, List.mem_cons, List.not_mem_nil, or_false] at member
    rcases member with rfl | rfl
    all_goals exact post_stateOf _ _
  · have second := mirrors [postCall (.obj [("author", .str "did:key:a")]) [] 1]
      (postCall (.obj []) [{ cid := ⟨[3]⟩, type := .DATA }] 2) (List.prefix_refl _) _ rfl
    have column := (second.equal _ rfl).relations "author" (by decide)
    exact absurd column (by decide)

end Posts

end StreamIndexing

end Ceramic
