import Ceramic.DatabaseIndexApi
import Ceramic.QueryFilterMeaning
import Mathlib.Data.List.Sort

/-! Queries of the index: the rows of some models that a filter selects, in the order of some
fields of their content, a page at a time. A cursor is the data that its text decodes to. -/
namespace Ceramic

open ThreeValued QueryFilterParser QueryFilterConverter

inductive SortOrder where
  | ASC
  | DESC
  deriving DecidableEq, Repr

abbrev Sorting := List (String × SortOrder)

structure BaseQuery where
  account : Option String
  filter : Option (List (String × String))
  queryFilters : Option ApiQueryFilters
  sorting : Option Sorting

/-- `Object.keys(query.sorting ?? {})`. -/
def BaseQuery.orderByKeys (query : BaseQuery) : List String := (query.sorting.getD []).map (·.1)

structure QueryResult where
  stream_id : String
  last_anchored_at : Option Nat
  created_at : Nat
  stream_content : JsValue
  deriving DecidableEq, Repr

/-- What the database reads from a field of the content, what it takes a bound value for, the
text of a value, and whether an ordered column begins with its `NULL`s. -/
structure IndexDatabase (V : Type) where
  filters : Database
  field : JsValue → String → Option V
  bind : JsValue → V
  text : V → String
  nullsFirst : SortOrder → Bool

inductive CursorValue where
  | timestamp (value : Nat)
  | content (value : JsObject)
  deriving DecidableEq, Repr

structure CursorData where
  id : String
  value : CursorValue
  deriving DecidableEq, Repr

namespace Cursor

def stringify (input : Option QueryResult) (orderByKeys : List String) : Option CursorData :=
  input.map fun input =>
    if orderByKeys.isEmpty then { id := input.stream_id, value := .timestamp input.created_at }
    else
      { id := input.stream_id
        value := .content (orderByKeys.foldl (fun value key =>
          if (contentField input.stream_content key).isNullish then value
          else JsObject.set value key (contentField input.stream_content key)) []) }

end Cursor

namespace InsertionOrder

def REVERSE_ORDER : SortOrder → SortOrder
  | .ASC => .DESC
  | .DESC => .ASC

inductive ComparisonSign where
  | gt
  | lt
  deriving DecidableEq, Repr

def getComparisonSign (order : SortOrder) (reverse : Bool) : ComparisonSign :=
  if order = .ASC then (if reverse then .lt else .gt) else if reverse then .gt else .lt

def ComparisonSign.holds {V : Type} [LinearOrder V] (sign : ComparisonSign) (x y : V) : Bool :=
  match sign with
  | .gt => decide (y < x)
  | .lt => decide (x < y)

/-- Ties after one condition are broken by the stream id; `AND` binds tighter than `OR`. -/
def nextOrTied (next tied : Truth) (row : QueryResult) (id : String) : Bool :=
  joined [(.and, next), (.or, tied), (.and, .ofBool (decide (id < row.stream_id)))] = .true

section
variable {V : Type} [LinearOrder V] (db : IndexDatabase V)

/-- A field's value compared with a bound one: nothing is known of a `NULL`. -/
def compareBound (row : QueryResult) (key : String) (test : V → Bool) : Truth :=
  match db.field row.stream_content key with
  | none => .unknown
  | some value => .ofBool (test value)

def applyCursor (cursor : CursorData) (isReverseOrder : Bool) (sorting : Sorting)
    (row : QueryResult) : Bool :=
  match cursor.value with
  | .timestamp value =>
    nextOrTied (.ofBool ((if isReverseOrder then ComparisonSign.lt else .gt).holds row.created_at value))
      (.ofBool (decide (row.created_at = value))) row cursor.id
  | .content value => value.all fun (key, value) =>
    let sign := getComparisonSign ((sorting.lookup key).getD .ASC) isReverseOrder
    nextOrTied (compareBound db row key fun field => sign.holds field (db.bind value))
      (compareBound db row key fun field => decide (field = db.bind value)) row cursor.id

/-- `order` on a column that may be `NULL`. -/
def compareColumn (order : SortOrder) : Option V → Option V → Ordering :=
  compareLex (compareOn fun value => value.isSome == db.nullsFirst order) fun a b =>
    match order with
    | .ASC => compare a b
    | .DESC => compare b a

def orderByField (key : String) (order : SortOrder) (a b : QueryResult) : Ordering :=
  compareColumn db order (db.field a.stream_content key) (db.field b.stream_content key)

def orderByCreation (order : SortOrder) (a b : QueryResult) : Ordering :=
  match order with
  | .ASC => compare a.created_at b.created_at
  | .DESC => compare b.created_at a.created_at

/-- The columns of `ORDER BY`, the stream id last. -/
def applySorting (isReverseOrder : Bool) (sorting : Sorting) : QueryResult → QueryResult → Ordering :=
  let columns :=
    if sorting.isEmpty then [orderByCreation (if isReverseOrder then REVERSE_ORDER .ASC else .ASC)]
    else sorting.map fun (field, order) =>
      orderByField db field (if isReverseOrder then REVERSE_ORDER order else order)
  columns.foldr compareLex (compareOn (·.stream_id))

/-- The condition on the rows of one table. -/
def applyFilters (query : BaseQuery) : Except JsError (IndexedData → Bool) := do
  let account : IndexedData → Bool := fun row =>
    match query.account with
    | none => true
    | some account => account = "" || row.controller_did = account
  match query.queryFilters, query.filter with
  | some filters, _ =>
    let parsed ← parseQueryFilters filters
    let converted ← convertQueryFilter parsed
    return fun row => account row && converted.truth db.filters
      (fun field => (db.field row.stream_content field).map db.text) = .true
  | none, some filter =>
    return fun row => account row && filter.all fun relation =>
      decide (row.column (addColumnPrefix relation.1) = .str relation.2)
  | none, none => return account

def resultOf (row : IndexedData) : QueryResult :=
  { stream_id := row.stream_id, last_anchored_at := row.last_anchored_at
    created_at := row.created_at, stream_content := row.stream_content }

variable (tables : String → List IndexedData)

def query (models : List String) (query : BaseQuery) (isReverseOrder : Bool)
    (cursor : Option CursorData) : Except JsError (List QueryResult) := do
  let filtered ← applyFilters db query
  let union := models.flatMap fun model => ((tables model).filter filtered).map resultOf
  let sorting := query.sorting.getD []
  let selected := match cursor with
    | none => union
    | some cursor => union.filter (applyCursor db cursor isReverseOrder sorting)
  return selected.insertionSort fun a b => (applySorting db isReverseOrder sorting a b).isLE

end

structure PageQuery extends BaseQuery where
  first : Option Nat
  after : Option CursorData
  last : Option Nat
  before : Option CursorData

inductive PaginationQuery where
  | FORWARD (first : Nat) (after : Option CursorData)
  | BACKWARD (last : Nat) (before : Option CursorData)

def parsePagination (query : PageQuery) : Except JsError PaginationQuery :=
  match query.first, query.last with
  | some first, _ => .ok (.FORWARD first query.after)
  | none, some last => .ok (.BACKWARD last query.before)
  | none, none => .error ⟨"Invalid pagination query"⟩

structure Edge where
  cursor : Option CursorData
  node : String
  deriving DecidableEq, Repr

structure PageInfo where
  hasNextPage : Bool
  hasPreviousPage : Bool
  endCursor : Option CursorData
  startCursor : Option CursorData
  deriving DecidableEq, Repr

structure Page where
  edges : List Edge
  pageInfo : PageInfo
  deriving DecidableEq, Repr

section
variable {V : Type} [LinearOrder V] (db : IndexDatabase V) (tables : String → List IndexedData)

/-- The last `n` of a response, where `slice(-0)` is all of it. -/
def sliceLast (response : List QueryResult) (n : Nat) : List QueryResult :=
  if n = 0 then response else response.drop (response.length - n)

def page (models : List String) (pageQuery : PageQuery) : Except JsError Page := do
  let orderByKeys := pageQuery.orderByKeys
  let edgesOf (entries : List QueryResult) : List Edge := entries.map fun row =>
    { cursor := Cursor.stringify (some row) orderByKeys, node := row.stream_id }
  match ← parsePagination pageQuery with
  | .FORWARD limit after =>
    let found ← query db tables models pageQuery.toBaseQuery false after
    let response := found.take (limit + 1)
    let entries := response.take limit
    return {
      edges := edgesOf entries
      pageInfo := {
        hasNextPage := decide (response.length > limit)
        hasPreviousPage := false
        endCursor := Cursor.stringify entries.getLast? orderByKeys
        startCursor := Cursor.stringify entries.head? orderByKeys } }
  | .BACKWARD limit before =>
    let found ← query db tables models pageQuery.toBaseQuery true before
    let response := (found.take (limit + 1)).reverse
    let entries := sliceLast response limit
    return {
      edges := edgesOf entries
      pageInfo := {
        hasNextPage := false
        hasPreviousPage := decide (response.length > limit)
        endCursor := Cursor.stringify entries.getLast? orderByKeys
        startCursor := Cursor.stringify entries.head? orderByKeys } }

end

end InsertionOrder

end Ceramic
