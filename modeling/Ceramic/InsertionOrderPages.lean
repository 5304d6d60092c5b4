import Ceramic.ForwardPagination

/-! Reading rows in insertion order, in either direction. The order breaks ties in the time of creation by the
stream id, ascending in both directions, and so does the condition that a cursor stands for. -/
namespace Ceramic

open ThreeValued

namespace InsertionOrder

variable {V : Type} [LinearOrder V] (db : IndexDatabase V) (tables : String → List IndexedData) (models : List String)
  (base : BaseQuery) (n : Nat)

/-- The query for the last `n` rows before a cursor. -/
def backward (before : Option CursorData) : PageQuery :=
  { base with first := none, after := none, last := some n, before }

/-- The rows that a page is made from: those of the models that the filter selects. -/
def matching (selected : IndexedData → Bool) : List QueryResult :=
  models.flatMap fun model => ((tables model).filter selected).map resultOf

/-- What the cursor of a row selects, where no fields are sorted by. -/
def selectsBehind (isReverseOrder : Bool) : Option QueryResult → QueryResult → Bool
  | none, _ => true
  | some cursorRow, row =>
    applyCursor db ⟨cursorRow.stream_id, .timestamp cursorRow.created_at⟩ isReverseOrder [] row

variable {db tables models base n} {isReverseOrder : Bool} {rows : List QueryResult}

/-- The cursor of a row selects exactly the rows behind it. -/
theorem selectsBehind_iff (cursorRow row : QueryResult) :
    selectsBehind db isReverseOrder (some cursorRow) row = true ↔
      applySorting db isReverseOrder [] cursorRow row = .lt := by
  have selected : selectsBehind db isReverseOrder (some cursorRow) row =
      ((if isReverseOrder then ComparisonSign.lt else .gt).holds row.created_at cursorRow.created_at ||
        (decide (row.created_at = cursorRow.created_at) && decide (cursorRow.stream_id < row.stream_id))) :=
    nextOrTied_ofBool _ _ row cursorRow.stream_id
  rw [selected]
  have tied : row.created_at = cursorRow.created_at ↔ cursorRow.created_at = row.created_at := eq_comm
  cases isReverseOrder with
  | false =>
    change _ ↔ (compare cursorRow.created_at row.created_at).then (compare cursorRow.stream_id row.stream_id) = .lt
    rw [then_eq_lt, Nat.compare_eq_lt, Nat.compare_eq_eq, compare_stream_id]
    simp [ComparisonSign.holds, tied]
  | true =>
    change _ ↔ (compare row.created_at cursorRow.created_at).then (compare cursorRow.stream_id row.stream_id) = .lt
    rw [then_eq_lt, Nat.compare_eq_lt, Nat.compare_eq_eq, compare_stream_id]
    simp [ComparisonSign.holds]

theorem query_behind (unsorted : base.sorting.getD [] = []) (distinct : (rows.map (·.stream_id)).Nodup)
    (found : query db tables models base isReverseOrder none = .ok rows) (cursorRow : Option QueryResult) :
    query db tables models base isReverseOrder (Cursor.stringify cursorRow base.orderByKeys) =
      .ok (Pagination.found rows (selectsBehind db isReverseOrder) cursorRow) := by
  have noKeys : base.orderByKeys = [] := by rw [BaseQuery.orderByKeys, unsorted, List.map_nil]
  cases cursorRow with
  | none =>
    have all : Pagination.found rows (selectsBehind db isReverseOrder) none = rows :=
      List.filter_eq_self.mpr fun _ _ => rfl
    rw [all]
    exact found
  | some cursorRow =>
    have cursor : Cursor.stringify (some cursorRow) base.orderByKeys =
        some ⟨cursorRow.stream_id, .timestamp cursorRow.created_at⟩ := by
      rw [noKeys]
      rfl
    rw [cursor, query_cursor distinct found, unsorted]
    rfl

/-- Each row is a boundary of a page, whatever the size of the page. -/
theorem boundary_behind (unsorted : base.sorting.getD [] = []) (distinct : (rows.map (·.stream_id)).Nodup)
    (found : query db tables models base isReverseOrder none = .ok rows) (k : Nat) :
    Pagination.Boundary rows (selectsBehind db isReverseOrder) n k := by
  have trans := transCmp_applySorting db isReverseOrder []
  have ordered := rows_ordered distinct found
  rw [unsorted] at ordered
  refine Pagination.boundary_of_ordered ordered (fun row _ before => ?_) (fun a _ b _ before after => ?_)
    (fun a _ b _ => selectsBehind_iff a b) (fun _ _ => rfl) k
  · simp [Std.ReflCmp.compare_self] at before
  · simp [Std.OrientedCmp.gt_of_lt before] at after

/-- What a page of the last `n` rows is, of those found from the end. -/
theorem page_backward_eq (positive : 0 < n) {before : Option CursorData} {response : List QueryResult}
    (found : query db tables models base true before = .ok response) :
    ∃ result, page db tables models (backward base n before) = .ok result ∧
      (result.edges.map (·.node)).reverse = (response.take n).map (·.stream_id) ∧
      result.pageInfo.hasPreviousPage = decide (n < response.length) ∧
      result.pageInfo.startCursor = Cursor.stringify (response.take n).getLast? base.orderByKeys := by
  have entries : sliceLast (response.take (n + 1)).reverse n = (response.take n).reverse := by
    unfold sliceLast
    rw [if_neg (by omega), List.drop_reverse, List.take_take, List.length_reverse, List.length_take]
    congr 1
    rw [List.take_eq_take_iff]
    omega
  refine ⟨_, bind_eq_ok.mpr ⟨_, rfl, bind_eq_ok.mpr ⟨response, found, rfl⟩⟩, ?_, ?_, ?_⟩
  · simp only [entries, List.map_map, List.map_reverse, List.reverse_reverse]
    rfl
  · simp only [List.length_reverse, List.length_take, gt_iff_lt, decide_eq_decide]
    omega
  · simp only [entries, List.head?_reverse]
    rfl

/-- Pages that are got by following cursors list all names, each as often as it is given and in the given order, and
a page has more behind it exactly when a name has not been listed yet. -/
def ReadsAll (get : Option CursorData → Except JsError Page) (more : Page → Bool) (next : Page → Option CursorData)
    (entries : Page → List String) (names : List String) : Prop :=
  (∃ pages, Pagination.Followed get more next none pages) ∧
  ∀ pages, Pagination.Followed get more next none pages → pages.flatMap entries = names ∧
    ∀ front page rest, pages = front ++ page :: rest →
      (more page = true ↔ ∃ name ∈ names, name ∉ (front ++ [page]).flatMap entries)

theorem readsAll_of_serves {get : Option CursorData → Except JsError Page} {more : Page → Bool}
    {next : Page → Option CursorData} {entries : Page → List String} (unsorted : base.sorting.getD [] = [])
    (positive : 0 < n) (distinct : (rows.map (·.stream_id)).Nodup)
    (found : query db tables models base isReverseOrder none = .ok rows)
    (serves : Pagination.Serves rows (selectsBehind db isReverseOrder) n get more next
      (fun cursorRow => Cursor.stringify cursorRow base.orderByKeys) entries (·.stream_id)) :
    ReadsAll get more next entries (rows.map (·.stream_id)) := by
  obtain ⟨some, all⟩ := serves.lists positive (boundary_behind unsorted distinct found)
  refine ⟨some, fun pages followed => ?_⟩
  obtain ⟨lists, more⟩ := all pages followed
  refine ⟨lists, fun front page rest split => (more front page rest split).trans ?_⟩
  -- what is listed by the pages up to this one is not listed again
  have whole : (front ++ [page]).flatMap entries ++ rest.flatMap entries = rows.map (·.stream_id) := by
    rw [← lists, split, ← List.flatMap_append, List.append_assoc]
    rfl
  rw [← whole] at distinct ⊢
  constructor
  · intro nonempty
    obtain ⟨name, member⟩ := List.exists_mem_of_ne_nil _ nonempty
    refine ⟨name, List.mem_append_right _ member, fun before => ?_⟩
    exact (List.nodup_append.mp distinct).2.2 name before name member rfl
  · rintro ⟨name, member, unlisted⟩
    rcases List.mem_append.mp member with before | behind
    · exact absurd before unlisted
    · exact List.ne_nil_of_mem behind

theorem query_perm (tables : String → List IndexedData) (models : List String) (isReverseOrder : Bool)
    {selected : IndexedData → Bool} (filters : applyFilters db base = .ok selected) :
    ∃ rows, query db tables models base isReverseOrder none = .ok rows ∧ rows.Perm (matching tables models selected) := by
  refine ⟨_, ?_, List.perm_insertionSort (comesFirst db isReverseOrder (base.sorting.getD [])) _⟩
  exact bind_eq_ok.mpr ⟨selected, filters, rfl⟩

/-- In insertion order, following the end cursors of pages of `n` rows lists every row that matches exactly once,
and so does following the start cursors backward; a page has a next, or previous, one exactly when rows are left. -/
theorem insertion_order_pagination (db : IndexDatabase V) (tables : String → List IndexedData) (models : List String)
    (base : BaseQuery) (unsorted : base.sorting.getD [] = []) (positive : 0 < n)
    (distinct : ((models.flatMap tables).map (·.stream_id)).Nodup) {selected : IndexedData → Bool}
    (filters : applyFilters db base = .ok selected) :
    (∃ rows, query db tables models base false none = .ok rows ∧ rows.Perm (matching tables models selected) ∧
      (rows.map (·.stream_id)).Nodup ∧ ReadsAll (fun after => page db tables models (forward base n after)) (·.pageInfo.hasNextPage)
        (·.pageInfo.endCursor) (fun page => page.edges.map (·.node)) (rows.map (·.stream_id))) ∧
    ∃ rows, query db tables models base true none = .ok rows ∧ rows.Perm (matching tables models selected) ∧
      (rows.map (·.stream_id)).Nodup ∧ ReadsAll (fun before => page db tables models (backward base n before)) (·.pageInfo.hasPreviousPage)
        (·.pageInfo.startCursor) (fun page => (page.edges.map (·.node)).reverse) (rows.map (·.stream_id)) := by
  constructor
  · obtain ⟨rows, found, same⟩ := query_perm tables models false filters
    have apart := distinct_rows distinct found
    refine ⟨rows, found, same, apart, readsAll_of_serves unsorted positive apart found fun cursorRow => ?_⟩
    exact page_eq (query_behind unsorted apart found cursorRow)
  · obtain ⟨rows, found, same⟩ := query_perm tables models true filters
    have apart := distinct_rows distinct found
    refine ⟨rows, found, same, apart, readsAll_of_serves unsorted positive apart found fun cursorRow => ?_⟩
    exact page_backward_eq positive (query_behind unsorted apart found cursorRow)

def unsortedQuery : BaseQuery := { account := none, filter := none, queryFilters := none, sorting := none }

/-- Two rows that were created at the same time. -/
theorem insertion_order_pagination_scores :
    (∃ rows, query numbers (fun _ => scores) ["kmodel"] unsortedQuery false none = .ok rows ∧
      rows.Perm (matching (fun _ => scores) ["kmodel"] fun _ => true) ∧ (rows.map (·.stream_id)).Nodup ∧
      ReadsAll (fun after => page numbers (fun _ => scores) ["kmodel"] (forward unsortedQuery 1 after))
        (·.pageInfo.hasNextPage) (·.pageInfo.endCursor) (fun page => page.edges.map (·.node))
        (rows.map (·.stream_id))) ∧
    ∃ rows, query numbers (fun _ => scores) ["kmodel"] unsortedQuery true none = .ok rows ∧
      rows.Perm (matching (fun _ => scores) ["kmodel"] fun _ => true) ∧ (rows.map (·.stream_id)).Nodup ∧
      ReadsAll (fun before => page numbers (fun _ => scores) ["kmodel"] (backward unsortedQuery 1 before))
        (·.pageInfo.hasPreviousPage) (·.pageInfo.startCursor) (fun page => (page.edges.map (·.node)).reverse)
        (rows.map (·.stream_id)) :=
  insertion_order_pagination numbers (fun _ => scores) ["kmodel"] unsortedQuery rfl Nat.one_pos (by decide) rfl

end InsertionOrder

end Ceramic
