import Ceramic.StreamUtils
import Ceramic.Library.KeyedTable

/-! The tables of the index, one for each model with a row for each of its streams, and how a
stream's state is written to them. Dates are in milliseconds. -/
namespace Ceramic

def CUSTOM_COLUMN_PREFIX : String := "custom_"

def addColumnPrefix (name : String) : String :=
  if CUSTOM_COLUMN_PREFIX.toList.isPrefixOf name.toList then name else CUSTOM_COLUMN_PREFIX ++ name

/-- `content?.[key]`. -/
def contentField : JsValue → String → JsValue
  | .obj content, key => JsObject.get content key
  | _, _ => .undefined

/-- A row of a model's table. `custom` has the columns of the model's relations, those left
out being `NULL`. -/
structure IndexedData where
  stream_id : String
  controller_did : String
  stream_content : JsValue
  tip : String
  last_anchored_at : Option Nat
  first_anchored_at : Option Nat
  created_at : Nat
  updated_at : Nat
  custom : JsObject
  deriving DecidableEq, Repr

namespace IndexedData

def column (row : IndexedData) (name : String) : JsValue :=
  (JsObject.get? row.custom name).getD .null

/-- The row that is inserted for a record: a value that is `undefined` is left to the default. -/
def inserted (data : IndexedData) : IndexedData :=
  { data with custom := data.custom.filter fun field => field.2 ≠ .undefined }

/-- A record merged into a row: what is `undefined` in the record stays, and so does
`created_at`, which is deleted from it. -/
def mergedInto (data row : IndexedData) : IndexedData :=
  { data with
    created_at := row.created_at
    custom := JsObject.spread row.custom (data.custom.filter fun field => field.2 ≠ .undefined) }

end IndexedData

structure IndexStreamArgs where
  streamID : StreamID
  model : StreamID
  controller : JsValue
  streamContent : JsValue
  tip : Cid
  lastAnchor : Option Nat
  firstAnchor : Option Nat
  shouldIndex : JsValue

abbrev ModelTable := KeyedTable IndexedData IndexedData.stream_id

def asTableName (model : StreamID) : String := model.toString

structure DatabaseIndexApi where
  indexedModels : List StreamID
  /-- The fields of a model's relations, by the model's name. -/
  modelRelations : String → Option (List String)
  tables : String → ModelTable

namespace DatabaseIndexApi

/-- `controller.toString()`. -/
def controllerText : JsValue → Except JsError String
  | .str controller => .ok controller
  | _ => .error ⟨"Cannot read properties of undefined (reading 'toString')"⟩

def getIndexedData (args : IndexStreamArgs) (now : Nat) : Except JsError IndexedData := do
  let controller ← controllerText args.controller
  return {
    stream_id := args.streamID.toString
    controller_did := controller
    stream_content := if args.streamContent.isNullish then .obj [] else args.streamContent
    tip := args.tip.toString
    last_anchored_at := args.lastAnchor
    first_anchored_at := args.firstAnchor
    created_at := now
    updated_at := now
    custom := [] }

/-- `indexedData[addColumnPrefix(relation)] = streamContent?.[relation]`, for each relation. -/
def withRelations (relations : List String) (content : JsValue) (data : IndexedData) : IndexedData :=
  { data with custom := relations.foldl (fun custom relation =>
      JsObject.set custom (addColumnPrefix relation) (contentField content relation)) data.custom }

def updateTable (index : DatabaseIndexApi) (name : String) (table : ModelTable) : DatabaseIndexApi :=
  { index with tables := fun other => if other = name then table else index.tables other }

def relationsOf (index : DatabaseIndexApi) (model : StreamID) : List String :=
  (index.modelRelations model.toString).getD []

def indexStream (index : DatabaseIndexApi) (args : IndexStreamArgs) (now : Nat) :
    Except JsError DatabaseIndexApi :=
  let tableName := asTableName args.model
  let table := index.tables tableName
  if args.shouldIndex = .bool false then
    .ok (index.updateTable tableName (table.delete args.streamID.toString))
  else if args.streamContent.isNullish then .ok index
  else do
    let data ← getIndexedData args now
    let indexedData := withRelations (index.relationsOf args.model) args.streamContent data
    return index.updateTable tableName (table.insertOrMerge indexedData.inserted indexedData.mergedInto)

end DatabaseIndexApi

namespace LocalIndexApi

def shouldIndexStream (index : DatabaseIndexApi) (model : StreamID) : Bool :=
  index.indexedModels.any fun indexed => indexed == model

def indexStream (index : DatabaseIndexApi) (args : IndexStreamArgs) (now : Nat) :
    Except JsError DatabaseIndexApi :=
  if shouldIndexStream index args.model then index.indexStream args now else .ok index

end LocalIndexApi

namespace StreamIndexing

/-- A date that may be absent, from seconds. -/
def asDate (unixTimestamp : Timestamp) : Option Nat :=
  match unixTimestamp with
  | .seconds n => if n = 0 then none else some (n * 1000)
  | _ => none

/-- `metadata.controllers[0]`. -/
def firstController (metadata : StreamMetadata) : Except JsError JsValue := do
  (JsObject.get metadata "controllers").prop "0"

def firstAnchorTimestamp (state : StreamState) : Timestamp :=
  match state.log.toList.find? (fun entry => entry.type = .TIME) with
  | some entry => entry.timestamp
  | none => .undefined

/-- Repository._indexStreamIfNeeded. -/
def _indexStreamIfNeeded (index : DatabaseIndexApi) (state : StreamState) (now : Nat) :
    Except JsError DatabaseIndexApi :=
  match JsObject.get state.metadata "model" with
  | .streamID model => do
    let controller ← firstController state.metadata
    LocalIndexApi.indexStream index {
      streamID := StreamUtils.streamIdFromState state
      model := model
      controller := controller
      streamContent := state.content
      tip := StreamUtils.tipFromState state
      lastAnchor := asDate (StreamUtils.anchorTimestampFromState state)
      firstAnchor := asDate (firstAnchorTimestamp state)
      shouldIndex := JsObject.get state.metadata "shouldIndex" } now
  | _ => .ok index

/-- Repository._updateStateIfPinned. `pin` is what becomes of writing the state store and the
feed, if the stream is pinned or indexed. -/
def _updateStateIfPinned (index : DatabaseIndexApi) (isPinned : Bool) (pin : Except JsError Unit)
    (state : StreamState) (now : Nat) : Except JsError DatabaseIndexApi := do
  let shouldIndex := match JsObject.get state.metadata "model" with
    | .streamID model => LocalIndexApi.shouldIndexStream index model
    | _ => false
  if isPinned || shouldIndex then pin
  _indexStreamIfNeeded index state now

end StreamIndexing

end Ceramic
