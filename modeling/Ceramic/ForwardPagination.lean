import Ceramic.InsertionOrder
import Ceramic.Library.Pagination

/-! Reading a query's rows forward, page after page. What the cursor of a row selects is not
always what comes after this row: each field of the cursor is compared on its own. -/
namespace Ceramic

open ThreeValued

namespace InsertionOrder

variable {V : Type} [LinearOrder V] (db : IndexDatabase V)

/-- Whether a row is selected after a cursor row: in each field that the cursor row has a value
in, it has a later one, or the same one and a larger stream id. -/
def isBeyond (sorting : Sorting) (cursorRow row : QueryResult) : Bool :=
  if sorting.isEmpty then
    decide (cursorRow.created_at < row.created_at) ||
      (decide (row.created_at = cursorRow.created_at) && decide (cursorRow.stream_id < row.stream_id))
  else sorting.all fun (key, order) =>
    let bound := contentField cursorRow.stream_content key
    bound.isNullish || match db.field row.stream_content key with
      | none => false
      | some value => (getComparisonSign order false).holds value (db.bind bound) ||
          (decide (value = db.bind bound) && decide (cursorRow.stream_id < row.stream_id))

/-- Without a cursor all rows are selected. -/
def selects (sorting : Sorting) : Option QueryResult → QueryResult → Bool
  | none, _ => true
  | some cursorRow, row => isBeyond db sorting cursorRow row

theorem nextOrTied_ofBool (next tied : Bool) (row : QueryResult) (id : String) :
    nextOrTied (.ofBool next) (.ofBool tied) row id = (next || (tied && decide (id < row.stream_id))) := by
  unfold nextOrTied
  generalize decide (id < row.stream_id) = later
  cases next <;> cases tied <;> cases later <;> rfl

theorem nextOrTied_unknown (row : QueryResult) (id : String) :
    nextOrTied .unknown .unknown row id = false := by
  unfold nextOrTied
  cases decide (id < row.stream_id) <;> rfl

/-- The bounds of a cursor, one for each field that its row has a value in. -/
theorem bounds_eq (content : JsValue) (keys : List String) (nodup : keys.Nodup) (value : JsObject)
    (new : ∀ key ∈ keys, ∀ field ∈ value, field.1 ≠ key) :
    keys.foldl (fun value key => if (contentField content key).isNullish then value
        else JsObject.set value key (contentField content key)) value =
      value ++ (keys.filter fun key => !(contentField content key).isNullish).map fun key =>
        (key, contentField content key) := by
  induction keys generalizing value with
  | nil => simp
  | cons key keys ih =>
    obtain ⟨absent, nodup⟩ := List.nodup_cons.mp nodup
    rw [List.foldl_cons]
    by_cases nullish : (contentField content key).isNullish
    · rw [if_pos nullish, ih nodup value fun other member => new other (List.mem_cons_of_mem _ member)]
      simp [nullish]
    · rw [if_neg nullish, JsObject.set_new (new key List.mem_cons_self), ih nodup]
      · simp [nullish]
      · intro other member field inValue
        rcases List.mem_append.mp inValue with inValue | inValue
        · exact new other (List.mem_cons_of_mem _ member) field inValue
        · rw [List.mem_singleton.mp inValue]
          rintro rfl
          exact absent member

variable {db} {sorting : Sorting}

theorem lookup_eq {key : String} {order : SortOrder} (nodup : (sorting.map (·.1)).Nodup)
    (member : (key, order) ∈ sorting) : sorting.lookup key = some order := by
  induction sorting with
  | nil => cases member
  | cons entry sorting ih =>
    obtain ⟨absent, nodup⟩ := List.nodup_cons.mp nodup
    rcases List.mem_cons.mp member with rfl | member
    · simp
    · have other : key ≠ entry.1 := by
        rintro rfl
        exact absent (List.mem_map.mpr ⟨_, member, rfl⟩)
      rw [List.lookup_cons, beq_false_of_ne other]
      exact ih nodup member

omit [LinearOrder V] in
/-- The condition of one field of a cursor. -/
theorem compareBound_next (row : QueryResult) (key id : String) (next tied : V → Bool) :
    nextOrTied (compareBound db row key next) (compareBound db row key tied) row id =
      match db.field row.stream_content key with
      | none => false
      | some value => next value || (tied value && decide (id < row.stream_id)) := by
  unfold compareBound
  cases db.field row.stream_content key with
  | none => exact nextOrTied_unknown row id
  | some value => exact nextOrTied_ofBool _ _ row id

theorem applyCursor_eq (db : IndexDatabase V) (nodup : (sorting.map (·.1)).Nodup) (cursorRow row : QueryResult) :
    ∃ cursor, Cursor.stringify (some cursorRow) (sorting.map (·.1)) = some cursor ∧
      applyCursor db cursor false sorting row = isBeyond db sorting cursorRow row := by
  refine ⟨_, rfl, ?_⟩
  cases sorting with
  | nil => exact nextOrTied_ofBool _ _ row _
  | cons entry rest =>
    have full : ((entry :: rest).map (·.1)).isEmpty = false := rfl
    simp only [full, Bool.false_eq_true, if_false]
    unfold applyCursor
    rw [bounds_eq cursorRow.stream_content _ nodup [] (by simp)]
    simp only [isBeyond, List.isEmpty_cons, Bool.false_eq_true, if_false, List.nil_append]
    rw [Bool.eq_iff_iff, List.all_eq_true, List.all_eq_true]
    constructor
    · rintro all ⟨key, order⟩ member
      by_cases nullish : (contentField cursorRow.stream_content key).isNullish
      · simp [nullish]
      · have := all (key, contentField cursorRow.stream_content key)
          (List.mem_map.mpr ⟨key, List.mem_filter.mpr
            ⟨List.mem_map_of_mem (f := (·.1)) member, by simp [nullish]⟩, rfl⟩)
        simp only [lookup_eq nodup member, Option.getD_some, compareBound_next] at this
        simp only [Bool.or_eq_true]
        exact .inr this
    · rintro all ⟨key, bound⟩ member
      obtain ⟨key', inKeys, same⟩ := List.mem_map.mp member
      obtain ⟨rfl, rfl⟩ := Prod.mk.inj same
      obtain ⟨inSorting, present⟩ := List.mem_filter.mp inKeys
      obtain ⟨⟨_, order⟩, entryMember, rfl⟩ := List.mem_map.mp inSorting
      have := all _ entryMember
      simp only [Bool.or_eq_true] at this
      simp only [lookup_eq nodup entryMember, Option.getD_some, compareBound_next]
      rcases this with nullish | this
      · simp [nullish] at present
      · exact this

variable (db) in
/-- The order of a query: ties in all columns are broken by the stream id. -/
abbrev comesFirst (isReverseOrder : Bool) (sorting : Sorting) (a b : QueryResult) : Prop :=
  (applySorting db isReverseOrder sorting a b).isLE

theorem transCmp_foldr {columns : List (QueryResult → QueryResult → Ordering)}
    (each : ∀ column ∈ columns, Std.TransCmp column) :
    Std.TransCmp (columns.foldr compareLex (compareOn (·.stream_id))) := by
  induction columns with
  | nil =>
    rw [List.foldr_nil]
    infer_instance
  | cons column columns ih =>
    have := each column List.mem_cons_self
    have := ih fun other member => each other (List.mem_cons_of_mem _ member)
    rw [List.foldr_cons]
    infer_instance

theorem stream_id_of_foldr_eq {columns : List (QueryResult → QueryResult → Ordering)}
    {a b : QueryResult} (tied : columns.foldr compareLex (compareOn (·.stream_id)) a b = .eq) :
    a.stream_id = b.stream_id := by
  induction columns with
  | nil => exact Std.LawfulEqCmp.eq_of_compare tied
  | cons column columns ih => exact ih (compareLex_eq_eq.mp tied).2

theorem transCmp_compareColumn (db : IndexDatabase V) (order : SortOrder) : Std.TransCmp (compareColumn db order) := by
  unfold compareColumn
  cases order with
  | ASC => exact inferInstanceAs (Std.TransCmp (compareLex _ fun a b : Option V => compare a b))
  | DESC => exact inferInstanceAs (Std.TransCmp (compareLex _ fun a b : Option V => compare b a))

/-- Between two values it does not matter where the `NULL`s are. -/
theorem compareColumn_some (db : IndexDatabase V) (order : SortOrder) (x y : V) :
    compareColumn db order (some x) (some y) =
      match order with
      | .ASC => compare x y
      | .DESC => compare y x := by
  have same : compareOn (fun value : Option V => value.isSome == db.nullsFirst order) (some x) (some y) =
      .eq := Std.ReflCmp.compare_self
  unfold compareColumn compareLex
  rw [same]
  cases order <;> rfl

theorem transCmp_orderByField (key : String) (order : SortOrder) :
    Std.TransCmp (orderByField db key order) := by
  have column := transCmp_compareColumn db order
  exact { eq_swap := column.toOrientedCmp.eq_swap, isLE_trans := column.isLE_trans }

theorem transCmp_orderByCreation (order : SortOrder) : Std.TransCmp (orderByCreation order) := by
  have column : Std.TransCmp (compareOn QueryResult.created_at) := inferInstance
  cases order with
  | ASC => exact column
  | DESC => exact column.opposite

theorem transCmp_applySorting (db : IndexDatabase V) (isReverseOrder : Bool) (sorting : Sorting) :
    Std.TransCmp (applySorting db isReverseOrder sorting) := by
  refine transCmp_foldr fun column member => ?_
  split at member
  · rw [List.mem_singleton.mp member]
    exact transCmp_orderByCreation _
  · obtain ⟨⟨key, order⟩, _, rfl⟩ := List.mem_map.mp member
    exact transCmp_orderByField _ _

theorem stream_id_of_tied {isReverseOrder : Bool} {a b : QueryResult}
    (tied : applySorting db isReverseOrder sorting a b = .eq) : a.stream_id = b.stream_id :=
  stream_id_of_foldr_eq tied

theorem comesFirst_total (db : IndexDatabase V) (isReverseOrder : Bool) (sorting : Sorting) :
    Std.Total (comesFirst db isReverseOrder sorting) := by
  have trans := transCmp_applySorting db isReverseOrder sorting
  refine ⟨fun a b => ?_⟩
  by_cases first : comesFirst db isReverseOrder sorting a b
  · exact .inl first
  · exact .inr (Ordering.isLE_of_eq_lt (Std.OrientedCmp.lt_of_not_isLE first))

/-- A query with a cursor finds the rows that the cursor selects of those without it. -/
theorem query_cursor {tables : String → List IndexedData} {models : List String} {base : BaseQuery}
    {isReverseOrder : Bool} {rows : List QueryResult}
    (distinct : (rows.map (·.stream_id)).Nodup)
    (found : query db tables models base isReverseOrder none = .ok rows) (cursor : CursorData) :
    query db tables models base isReverseOrder (some cursor) =
      .ok (rows.filter (applyCursor db cursor isReverseOrder (base.sorting.getD []))) := by
  obtain ⟨filtered, accepted, sorted⟩ := bind_eq_ok.mp found
  unfold query
  rw [accepted]
  refine congrArg Except.ok ?_
  rw [← Except.ok.inj sorted] at distinct ⊢
  have trans := transCmp_applySorting db isReverseOrder (base.sorting.getD [])
  have total := comesFirst_total db isReverseOrder (base.sorting.getD [])
  have transitive : IsTrans QueryResult (comesFirst db isReverseOrder (base.sorting.getD [])) :=
    ⟨fun _ _ _ => trans.isLE_trans⟩
  refine Pagination.insertionSort_filter (r := comesFirst db isReverseOrder (base.sorting.getD []))
    (fun a inA b inB first second => ?_) _
  have tied := Std.OrientedCmp.isLE_antisymm first second
  refine List.inj_on_of_nodup_map distinct ?_ ?_ (stream_id_of_tied tied)
  · exact (List.mem_insertionSort _).mpr inA
  · exact (List.mem_insertionSort _).mpr inB

section Traversal

variable (db) (tables : String → List IndexedData) (models : List String) (base : BaseQuery) (n : Nat)

/-- The query for the first `n` rows after a cursor. -/
def forward (after : Option CursorData) : PageQuery :=
  { base with first := some n, after, last := none, before := none }

/-- The pages from a cursor on, each got with the end cursor of the one before. -/
inductive Traversal : Option CursorData → List Page → Prop where
  | last {after : Option CursorData} {result : Page} :
      page db tables models (forward base n after) = .ok result →
      result.pageInfo.hasNextPage = false → Traversal after [result]
  | next {after : Option CursorData} {result : Page} {pages : List Page} :
      page db tables models (forward base n after) = .ok result →
      result.pageInfo.hasNextPage = true → Traversal result.pageInfo.endCursor pages →
      Traversal after (result :: pages)

/-- The stream ids that some pages list. -/
def listed (pages : List Page) : List String := pages.flatMap fun page => page.edges.map (·.node)

variable {db tables models base n} {rows : List QueryResult}

theorem selects_eq (nodup : base.orderByKeys.Nodup) (distinct : (rows.map (·.stream_id)).Nodup)
    (found : query db tables models base false none = .ok rows) (cursorRow : Option QueryResult) :
    query db tables models base false (Cursor.stringify cursorRow base.orderByKeys) =
      .ok (Pagination.found rows (selects db (base.sorting.getD [])) cursorRow) := by
  cases cursorRow with
  | none =>
    have all : Pagination.found rows (selects db (base.sorting.getD [])) none = rows :=
      List.filter_eq_self.mpr fun _ _ => rfl
    rw [all]
    exact found
  | some cursorRow =>
    have ⟨cursor, encoded, _⟩ := applyCursor_eq db nodup cursorRow cursorRow
    rw [show Cursor.stringify (some cursorRow) base.orderByKeys = some cursor from encoded,
      query_cursor distinct found cursor]
    refine congrArg Except.ok (List.filter_congr fun row _ => ?_)
    obtain ⟨_, same, applied⟩ := applyCursor_eq db nodup cursorRow row
    obtain rfl := Option.some.inj (encoded.symm.trans same)
    exact applied

/-- What a page of `n` rows is, of those found. -/
theorem page_eq {after : Option CursorData} {response : List QueryResult}
    (found : query db tables models base false after = .ok response) :
    ∃ result, page db tables models (forward base n after) = .ok result ∧
      result.edges.map (·.node) = (response.take n).map (·.stream_id) ∧
      result.pageInfo.hasNextPage = decide (n < response.length) ∧
      result.pageInfo.endCursor = Cursor.stringify (response.take n).getLast? base.orderByKeys := by
  have entries : (response.take (n + 1)).take n = response.take n := by
    rw [List.take_take, Nat.min_eq_left (Nat.le_succ n)]
  refine ⟨_, bind_eq_ok.mpr ⟨_, rfl, bind_eq_ok.mpr ⟨response, found, rfl⟩⟩, ?_, ?_, ?_⟩
  · simp only [entries, List.map_map]
    rfl
  · simp only [List.length_take, gt_iff_lt, decide_eq_decide]
    omega
  · simp only [entries]
    rfl

variable (db tables models base n) in
theorem traversal_iff_followed {after : Option CursorData} {pages : List Page} :
    Traversal db tables models base n after pages ↔
      Pagination.Followed (fun after => page db tables models (forward base n after)) (·.pageInfo.hasNextPage)
        (·.pageInfo.endCursor) after pages := by
  constructor
  · intro traversal
    induction traversal with
    | last returned none => exact .last returned none
    | next returned more _ ih => exact .next returned more ih
  · intro followed
    induction followed with
    | last returned none => exact .last returned none
    | next returned more _ ih => exact .next returned more ih

/-- The end cursor of a page asks for the next one. -/
theorem serves_forward (nodup : base.orderByKeys.Nodup) (distinct : (rows.map (·.stream_id)).Nodup)
    (found : query db tables models base false none = .ok rows) :
    Pagination.Serves rows (selects db (base.sorting.getD [])) n
      (fun after => page db tables models (forward base n after)) (·.pageInfo.hasNextPage) (·.pageInfo.endCursor)
      (fun cursorRow => Cursor.stringify cursorRow base.orderByKeys) (fun page => page.edges.map (·.node))
      (·.stream_id) :=
  fun cursorRow => page_eq (selects_eq nodup distinct found cursorRow)

/-- The pages of a traversal are the pages of the rows. -/
theorem traversal_of_walk (nodup : base.orderByKeys.Nodup) (distinct : (rows.map (·.stream_id)).Nodup)
    (found : query db tables models base false none = .ok rows) {cursorRow : Option QueryResult}
    {walked : List (List QueryResult)}
    (walk : Pagination.Walk rows (selects db (base.sorting.getD [])) n cursorRow walked) :
    ∃ pages, Traversal db tables models base n (Cursor.stringify cursorRow base.orderByKeys) pages ∧
      listed pages = walked.flatten.map (·.stream_id) := by
  obtain ⟨pages, followed, lists⟩ := (serves_forward nodup distinct found).followed_of_walk walk
  refine ⟨pages, (traversal_iff_followed db tables models base n).mpr followed, ?_⟩
  rw [listed, List.flatMap_def, lists, List.map_flatten]

theorem walk_of_traversal (nodup : base.orderByKeys.Nodup) (distinct : (rows.map (·.stream_id)).Nodup)
    (found : query db tables models base false none = .ok rows) {after : Option CursorData}
    {pages : List Page} (traversal : Traversal db tables models base n after pages)
    {cursorRow : Option QueryResult} (here : after = Cursor.stringify cursorRow base.orderByKeys) :
    ∃ walked, Pagination.Walk rows (selects db (base.sorting.getD [])) n cursorRow walked ∧
      listed pages = walked.flatten.map (·.stream_id) := by
  obtain ⟨walked, walk, lists⟩ := (serves_forward nodup distinct found).walk_of_followed
    ((traversal_iff_followed db tables models base n).mp traversal) here
  refine ⟨walked, walk, ?_⟩
  rw [listed, List.flatMap_def, lists, List.map_flatten]

theorem distinct_rows {isReverseOrder : Bool} (distinct : ((models.flatMap tables).map (·.stream_id)).Nodup)
    (found : query db tables models base isReverseOrder none = .ok rows) : (rows.map (·.stream_id)).Nodup := by
  obtain ⟨filtered, _, sorted⟩ := bind_eq_ok.mp found
  have union : models.flatMap (fun model => ((tables model).filter filtered).map resultOf) =
      ((models.flatMap tables).filter filtered).map resultOf := by
    rw [List.filter_flatMap, List.map_flatMap]
  rw [← Except.ok.inj sorted]
  refine (List.Perm.map _ (List.perm_insertionSort _ _)).nodup_iff.mpr ?_
  simp only [union, List.map_map]
  exact distinct.sublist (List.filter_sublist.map _)

/-- The rows of a query come one after the other in its order. -/
theorem rows_ordered {isReverseOrder : Bool} (distinct : (rows.map (·.stream_id)).Nodup)
    (found : query db tables models base isReverseOrder none = .ok rows) :
    rows.Pairwise fun a b => applySorting db isReverseOrder (base.sorting.getD []) a b = .lt := by
  obtain ⟨filtered, _, sorted⟩ := bind_eq_ok.mp found
  have trans := transCmp_applySorting db isReverseOrder (base.sorting.getD [])
  have total := comesFirst_total db isReverseOrder (base.sorting.getD [])
  have transitive : IsTrans QueryResult (comesFirst db isReverseOrder (base.sorting.getD [])) :=
    ⟨fun _ _ _ => trans.isLE_trans⟩
  have ordered : rows.Pairwise (comesFirst db isReverseOrder (base.sorting.getD [])) := by
    rw [← Except.ok.inj sorted]
    exact List.pairwise_insertionSort (comesFirst db isReverseOrder (base.sorting.getD [])) _
  have apart : rows.Pairwise fun a b => a.stream_id ≠ b.stream_id := List.pairwise_map.mp distinct
  refine (ordered.and apart).imp fun ⟨first, other⟩ => ?_
  rcases Ordering.isLE_iff_eq_lt_or_eq_eq.mp first with before | tied
  · exact before
  · exact absurd (stream_id_of_tied tied) other

theorem eq_of_map_eq {α β : Type} {f : α → β} {xs ys : List α}
    (injective : ∀ a ∈ xs, ∀ b ∈ ys, f a = f b → a = b) (same : xs.map f = ys.map f) : xs = ys := by
  induction xs generalizing ys with
  | nil => exact (List.map_eq_nil_iff.mp same.symm).symm
  | cons x xs ih =>
    obtain ⟨y, rest, rfl, first, behind⟩ := List.map_eq_cons_iff.mp same.symm
    rw [injective x List.mem_cons_self y List.mem_cons_self first.symm,
      ih (fun a inA b inB => injective a (List.mem_cons_of_mem _ inA) b (List.mem_cons_of_mem _ inB))
        behind.symm]

theorem walk_of_listed (nodup : base.orderByKeys.Nodup) (distinct : (rows.map (·.stream_id)).Nodup)
    (found : query db tables models base false none = .ok rows) {pages : List Page}
    (traversal : Traversal db tables models base n none pages)
    (lists : listed pages = rows.map (·.stream_id)) :
    ∃ walked, Pagination.Walk rows (selects db (base.sorting.getD [])) n none walked ∧
      walked.flatten = rows := by
  have start : none = Cursor.stringify (none : Option QueryResult) base.orderByKeys := rfl
  obtain ⟨walked, walk, same⟩ := walk_of_traversal nodup distinct found traversal start
  refine ⟨walked, walk, eq_of_map_eq (fun a inA b inB => ?_) (same.symm.trans lists)⟩
  exact List.inj_on_of_nodup_map distinct (walk.mem inA) inB

/-- For every table with distinct stream ids, sorting, filter and page size, the pages list the
rows of the query exactly when the last row of each page but the last selects no row up to
itself, each row of the next page, and one beyond it if there is one. -/
theorem forward_pagination_iff (db : IndexDatabase V) (tables : String → List IndexedData)
    (models : List String) (base : BaseQuery) (keys : base.orderByKeys.Nodup) (positive : 0 < n)
    (distinct : ((models.flatMap tables).map (·.stream_id)).Nodup)
    (found : query db tables models base false none = .ok rows) :
    (∃ pages, Traversal db tables models base n none pages ∧
      listed pages = rows.map (·.stream_id)) ↔
      ∀ j, j * n < rows.length →
        Pagination.Boundary rows (selects db (base.sorting.getD [])) n (j * n) := by
  have apart := distinct_rows distinct found
  rw [← Pagination.walk_iff (List.Nodup.of_map _ apart) positive fun _ _ => rfl]
  constructor
  · rintro ⟨pages, traversal, lists⟩
    exact walk_of_listed keys apart found traversal lists
  · rintro ⟨walked, walk, lists⟩
    obtain ⟨pages, traversal, same⟩ := traversal_of_walk keys apart found walk
    exact ⟨pages, traversal, by rw [same, lists]⟩

/-- Where the cursor of a row selects the rows behind it, the pages list all rows. -/
theorem pages_of_ordered (keys : base.orderByKeys.Nodup) (positive : 0 < n)
    (distinct : (rows.map (·.stream_id)).Nodup)
    (found : query db tables models base false none = .ok rows)
    (selected : ∀ a ∈ rows, ∀ b ∈ rows, isBeyond db (base.sorting.getD []) a b = true ↔
      applySorting db false (base.sorting.getD []) a b = .lt) :
    ∃ pages, Traversal db tables models base n none pages ∧ listed pages = rows.map (·.stream_id) := by
  have trans := transCmp_applySorting db false (base.sorting.getD [])
  have boundary : ∀ k, Pagination.Boundary rows (selects db (base.sorting.getD [])) n k :=
    Pagination.boundary_of_ordered (rows_ordered distinct found)
      (fun row _ before => by simp [Std.ReflCmp.compare_self] at before)
      (fun a _ b _ before after => by simp [Std.OrientedCmp.gt_of_lt before] at after)
      selected fun _ _ => rfl
  obtain ⟨walked, walk, lists⟩ :=
    (Pagination.walk_iff (List.Nodup.of_map _ distinct) positive fun _ _ => rfl).mpr
      fun j _ => boundary (j * n)
  obtain ⟨pages, traversal, same⟩ := traversal_of_walk keys distinct found walk
  exact ⟨pages, traversal, by rw [same, lists]⟩

theorem then_eq_lt {a b : Ordering} : a.then b = .lt ↔ a = .lt ∨ a = .eq ∧ b = .lt := by
  cases a <;> simp [Ordering.then]

theorem compare_stream_id (a b : QueryResult) :
    compare a.stream_id b.stream_id = .lt ↔ a.stream_id < b.stream_id := compareOfLessAndEq_eq_lt

/-- In insertion order the pages list all rows. -/
theorem insertion_order_pages (unsorted : base.sorting.getD [] = []) (positive : 0 < n)
    (distinct : (rows.map (·.stream_id)).Nodup)
    (found : query db tables models base false none = .ok rows) :
    ∃ pages, Traversal db tables models base n none pages ∧ listed pages = rows.map (·.stream_id) := by
  refine pages_of_ordered (by simp [BaseQuery.orderByKeys, unsorted]) positive distinct found ?_
  intro a _ b _
  rw [unsorted]
  change _ ↔ (compare a.created_at b.created_at).then (compare a.stream_id b.stream_id) = .lt
  rw [then_eq_lt, Nat.compare_eq_lt, Nat.compare_eq_eq, compare_stream_id]
  have tied : b.created_at = a.created_at ↔ a.created_at = b.created_at := eq_comm
  simp [isBeyond, tied]

theorem orderByField_present {key : String} (order : SortOrder) {a b : QueryResult} {x y : V}
    (first : db.field a.stream_content key = some x) (second : db.field b.stream_content key = some y) :
    orderByField db key order a b =
      match order with
      | .ASC => compare x y
      | .DESC => compare y x := by
  unfold orderByField
  rw [first, second]
  cases order with
  | ASC => exact compareColumn_some db .ASC _ _
  | DESC => exact compareColumn_some db .DESC _ _

/-- Where rows are ordered by one field, and all have a value in it, the pages list all rows. -/
theorem single_field_pages {key : String} {order : SortOrder}
    (sorted : base.sorting.getD [] = [(key, order)]) (positive : 0 < n)
    (distinct : (rows.map (·.stream_id)).Nodup)
    (found : query db tables models base false none = .ok rows)
    (present : ∀ row ∈ rows, (contentField row.stream_content key).isNullish = false ∧
      db.field row.stream_content key = some (db.bind (contentField row.stream_content key))) :
    ∃ pages, Traversal db tables models base n none pages ∧ listed pages = rows.map (·.stream_id) := by
  refine pages_of_ordered (by simp [BaseQuery.orderByKeys, sorted]) positive distinct found ?_
  intro a inA b inB
  obtain ⟨valued, first⟩ := present a inA
  obtain ⟨_, second⟩ := present b inB
  rw [sorted]
  change _ ↔ (orderByField db key order a b).then (compare a.stream_id b.stream_id) = .lt
  rw [then_eq_lt, compare_stream_id]
  have compared := orderByField_present order first second
  have beyond : isBeyond db [(key, order)] a b =
      ((getComparisonSign order false).holds (db.bind (contentField b.stream_content key))
          (db.bind (contentField a.stream_content key)) ||
        (decide (db.bind (contentField b.stream_content key) =
          db.bind (contentField a.stream_content key)) && decide (a.stream_id < b.stream_id))) := by
    simp [isBeyond, valued, second]
  have tied : db.bind (contentField b.stream_content key) =
      db.bind (contentField a.stream_content key) ↔
      db.bind (contentField a.stream_content key) =
        db.bind (contentField b.stream_content key) := eq_comm
  rw [compared, beyond]
  cases order with
  | ASC => simp [getComparisonSign, ComparisonSign.holds, compare_lt_iff_lt, tied]
  | DESC => simp [getComparisonSign, ComparisonSign.holds, compare_lt_iff_lt]

end Traversal

section Numbers

/-- A database that reads numbers from the content, and orders `NULL`s first when ascending. -/
def numbers : IndexDatabase Rat where
  filters := .ofTexts
  field content key :=
    match contentField content key with
    | .num n => some n
    | _ => none
  bind
    | .num n => n
    | _ => 0
  text n := toString n
  nullsFirst order := order = .ASC

def indexedRow (id : String) (content : JsObject) : IndexedData :=
  { stream_id := id, controller_did := "did:key:a", stream_content := .obj content, tip := id
    last_anchored_at := none, first_anchored_at := none, created_at := 0, updated_at := 0, custom := [] }

def scores : List IndexedData :=
  [indexedRow "kb" [("wins", .num 2), ("losses", .num 1)], indexedRow "ka" [("wins", .num 1), ("losses", .num 2)]]

def byWins : BaseQuery :=
  { account := none, filter := none, queryFilters := none, sorting := some [("wins", .ASC)] }

def byWinsAndLosses : BaseQuery := { byWins with sorting := some [("wins", .ASC), ("losses", .ASC)] }

theorem byWins_pages : (∃ pages, Traversal numbers (fun _ => scores) ["kmodel"] byWins 1 none pages ∧
    listed pages = (scores.reverse.map resultOf).map (·.stream_id)) ↔
    ∀ j, j * 1 < (scores.reverse.map resultOf).length →
      Pagination.Boundary (scores.reverse.map resultOf) (selects numbers [("wins", .ASC)]) 1 (j * 1) :=
  forward_pagination_iff numbers (fun _ => scores) ["kmodel"] byWins (by decide) (by decide) (by decide)
    (by decide)

/-- The row with more wins has fewer losses, and is not on the second page. -/
theorem byWinsAndLosses_skips : byWinsAndLosses.orderByKeys.Nodup ∧
    ((["kmodel"].flatMap fun _ => scores).map (·.stream_id)).Nodup ∧
    query numbers (fun _ => scores) ["kmodel"] byWinsAndLosses false none =
      .ok (scores.reverse.map resultOf) ∧
    ¬ ∃ pages, Traversal numbers (fun _ => scores) ["kmodel"] byWinsAndLosses 1 none pages ∧
      listed pages = (scores.reverse.map resultOf).map (·.stream_id) := by
  have found : query numbers (fun _ => scores) ["kmodel"] byWinsAndLosses false none =
      .ok (scores.reverse.map resultOf) := by decide
  have apart : ((scores.reverse.map resultOf).map (·.stream_id)).Nodup := by decide
  refine ⟨by decide, by decide, found, ?_⟩
  rintro ⟨pages, traversal, lists⟩
  obtain ⟨walked, walk, all⟩ := walk_of_listed (by decide) apart found traversal lists
  have second := walk.boundaries (List.Nodup.of_map _ apart) Nat.one_pos (k := 0) rfl all 1
    (by decide)
  have selected := second.page (resultOf (indexedRow "kb" [("wins", .num 2), ("losses", .num 1)])) (by decide)
  exact absurd selected (by decide)

end Numbers

end InsertionOrder

end Ceramic
