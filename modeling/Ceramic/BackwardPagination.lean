import Ceramic.InsertionOrderPages
import Ceramic.Library.ReadBack

/-! Reading the rows in front of a row. The reversed query turns the order of the columns round, and not the order
of the stream ids among rows that tie in them. -/
namespace Ceramic

open ThreeValued

namespace InsertionOrder

variable {V : Type} [LinearOrder V] (db : IndexDatabase V) (tables : String → List IndexedData) (models : List String)
  (base : BaseQuery) (n : Nat)

/-- The page of the last `n` rows before the cursor of a row lists the last `n` of those in front of it. -/
def Mirrors (front : List QueryResult) (cursorRow : QueryResult) : Prop :=
  ∃ result, page db tables models (backward base n (Cursor.stringify (some cursorRow) base.orderByKeys)) = .ok result ∧
    result.edges.map (·.node) = (front.drop (front.length - n)).map (·.stream_id)

/-- Whether the cursor of a row selects another one when reading backward. -/
def selectsBackward (cursorRow row : QueryResult) : Bool :=
  (Cursor.stringify (some cursorRow) base.orderByKeys).all fun cursor =>
    applyCursor db cursor true (base.sorting.getD []) row

/-- Which row the reversed query lists first. -/
def listsFirst (a b : QueryResult) : Prop := applySorting db true (base.sorting.getD []) a b = .lt

/-- Which of two rows that tie in the columns is first. -/
def firstOfTied (a b : QueryResult) : Prop := compare a.stream_id b.stream_id = .lt

instance : Std.Asymm firstOfTied where
  asymm a b before after := by
    rw [firstOfTied, Std.OrientedCmp.gt_of_lt before] at after
    cases after

variable {db tables models base n} {rows front back : List QueryResult} {r : QueryResult}

theorem stringify_some (keys : List String) :
    ∃ cursor, Cursor.stringify (some r) keys = some cursor := ⟨_, rfl⟩

theorem listsFirst_asymm (a b : QueryResult) (before : listsFirst db base a b) : ¬listsFirst db base b a := by
  have trans := transCmp_applySorting db true (base.sorting.getD [])
  intro after
  rw [listsFirst, Std.OrientedCmp.gt_of_lt before] at after
  cases after

/-- What the reversed query finds with the cursor of a row. -/
theorem query_backward (distinct : ((models.flatMap tables).map (·.stream_id)).Nodup)
    (found : query db tables models base false none = .ok rows) (r : QueryResult) :
    ∃ response, query db tables models base true (Cursor.stringify (some r) base.orderByKeys) = .ok response ∧
      response.Perm (rows.filter (selectsBackward db base r)) ∧ response.Pairwise (listsFirst db base) := by
  obtain ⟨selected, filters, _⟩ := bind_eq_ok.mp found
  obtain ⟨sorted, again, same⟩ := query_perm tables models false filters
  obtain rfl := Except.ok.inj (found.symm.trans again)
  obtain ⟨reversed, foundBack, sameBack⟩ := query_perm tables models true filters
  have apart := distinct_rows distinct foundBack
  obtain ⟨cursor, encoded⟩ := stringify_some (r := r) base.orderByKeys
  have selects : selectsBackward db base r = applyCursor db cursor true (base.sorting.getD []) := by
    funext row
    rw [selectsBackward, encoded]
    rfl
  refine ⟨_, encoded ▸ query_cursor apart foundBack cursor, ?_, (rows_ordered apart foundBack).sublist List.filter_sublist⟩
  rw [selects]
  exact (sameBack.trans same.symm).filter _

/-- What the page of the last `n` rows before a cursor lists, of those found. -/
theorem page_lists {before : Option CursorData} {response : List QueryResult}
    (found : query db tables models base true before = .ok response) :
    ∃ result, page db tables models (backward base n before) = .ok result ∧
      (result.edges.map (·.node)).reverse = (response.take (if n = 0 then 1 else n)).map (·.stream_id) := by
  by_cases zero : n = 0
  · subst zero
    refine ⟨_, bind_eq_ok.mpr ⟨_, rfl, bind_eq_ok.mpr ⟨response, found, rfl⟩⟩, ?_⟩
    simp only [sliceLast, if_true, List.map_map, List.map_reverse, List.reverse_reverse]
    rfl
  · obtain ⟨result, returned, lists, _⟩ := page_backward_eq (Nat.pos_of_ne_zero zero) found
    rw [if_neg zero]
    exact ⟨result, returned, lists⟩

/-- The rows in front of a row are listed when those that are read first are the last ones in front of it. -/
theorem mirrors_iff_take (distinct : (rows.map (·.stream_id)).Nodup) (split : rows = front ++ r :: back)
    {response : List QueryResult} (members : ∀ row ∈ response, row ∈ rows)
    (found : query db tables models base true (Cursor.stringify (some r) base.orderByKeys) = .ok response) :
    Mirrors db tables models base n front r ↔
      response.take (if n = 0 then 1 else n) = (front.drop (front.length - n)).reverse := by
  obtain ⟨result, returned, lists⟩ := page_lists (n := n) found
  have inRows : ∀ row ∈ (front.drop (front.length - n)).reverse, row ∈ rows := by
    intro row member
    rw [split]
    exact List.mem_append_left _ (List.mem_of_mem_drop (List.mem_reverse.mp member))
  constructor
  · rintro ⟨other, again, same⟩
    obtain rfl := Except.ok.inj (returned.symm.trans again)
    refine eq_of_map_eq (fun a inA b inB => ?_) (lists.symm.trans ?_)
    · exact List.inj_on_of_nodup_map distinct (members a (List.mem_of_mem_take inA)) (inRows b inB)
    · rw [same, List.map_reverse]
  · intro same
    refine ⟨result, returned, ?_⟩
    rw [same, List.map_reverse] at lists
    exact List.reverse_injective lists

/-- Where no more is asked for, none of the rows may be selected. -/
theorem reads_zero {backward : QueryResult → QueryResult → Prop} {selected : QueryResult → Bool}
    {response : List QueryResult} (perm : response.Perm (rows.filter selected)) :
    response.take 1 = [] ↔ ReadBack.Reads backward selected rows front 0 := by
  rw [List.take_eq_nil_iff]
  constructor
  · intro nothing
    have unselected : rows.filter selected = [] := List.nil_perm.mp (nothing.resolve_left (by decide) ▸ perm)
    refine ⟨by simp, by simp, fun x member isSelected _ => ?_⟩
    exact absurd isSelected (List.filter_eq_nil_iff.mp unselected x member)
  · intro reads
    refine .inr (List.perm_nil.mp (perm.trans (List.Perm.of_eq (List.filter_eq_nil_iff.mpr ?_))))
    intro x member isSelected
    exact absurd (reads.behind x member isSelected (by simp)).1 (Nat.lt_irrefl 0)

theorem mirrors_iff_reads (distinct : ((models.flatMap tables).map (·.stream_id)).Nodup)
    (found : query db tables models base false none = .ok rows) (split : rows = front ++ r :: back)
    {backward : QueryResult → QueryResult → Prop} (asymm : ∀ a b, backward a b → ¬backward b a)
    (lists : ∀ a ∈ rows, ∀ b ∈ rows, listsFirst db base a b → backward a b) :
    Mirrors db tables models base n front r ↔ ReadBack.Reads backward (selectsBackward db base r) rows front n := by
  have apart := distinct_rows distinct found
  obtain ⟨response, foundBack, perm, ordered⟩ := query_backward distinct found r
  have members : ∀ row ∈ response, row ∈ rows := fun row member => List.mem_of_mem_filter (perm.mem_iff.mp member)
  rw [mirrors_iff_take apart split members foundBack]
  have nodup := List.Nodup.of_map _ apart
  have inRows : ∀ a ∈ front, a ∈ rows := fun a member => split ▸ List.mem_append_left _ member
  have once : front.Nodup := (List.nodup_append.mp (split ▸ nodup)).1
  by_cases zero : n = 0
  · subst zero
    rw [if_pos rfl, Nat.sub_zero, List.drop_length, List.reverse_nil]
    exact reads_zero perm
  · rw [if_neg zero]
    refine ReadBack.reads_iff asymm nodup inRows once perm ?_ (Nat.pos_of_ne_zero zero)
    exact ordered.imp_of_mem fun {a b} inA inB => lists a (members a inA) b (members b inB)

/-- Where the columns amount to a rank of the rows, those in front of a row are listed just when neither it nor one
of them ties with another row. -/
theorem mirrors_iff_untied {κ : Type} [LinearOrder κ] (rank : QueryResult → κ)
    (distinct : ((models.flatMap tables).map (·.stream_id)).Nodup)
    (found : query db tables models base false none = .ok rows) (split : rows = front ++ r :: back) (positive : 0 < n)
    (forth : ∀ a ∈ rows, ∀ b ∈ rows, applySorting db false (base.sorting.getD []) a b = .lt →
      ReadBack.Forward rank firstOfTied a b)
    (back : ∀ a ∈ rows, ∀ b ∈ rows, listsFirst db base a b → ReadBack.Backward rank firstOfTied a b)
    (selects : ∀ x ∈ rows, selectsBackward db base r x = true ↔ ReadBack.Backward rank firstOfTied r x) :
    Mirrors db tables models base n front r ↔
      ∀ a ∈ r :: front.drop (front.length - n), ∀ b ∈ rows, rank a = rank b → a = b := by
  have ordered : rows.Pairwise (ReadBack.Forward rank firstOfTied) :=
    (rows_ordered (distinct_rows distinct found) found).imp_of_mem fun {a b} inA inB => forth a inA b inB
  rw [mirrors_iff_reads distinct found split (fun a b => ReadBack.Backward.asymm) back]
  exact ReadBack.reads_iff_untied split ordered selects positive

/-- Where no fields are sorted by, the time of creation is the rank of a row. -/
theorem mirrors_iff_created (distinct : ((models.flatMap tables).map (·.stream_id)).Nodup)
    (found : query db tables models base false none = .ok rows) (split : rows = front ++ r :: back) (positive : 0 < n)
    (unsorted : base.sorting.getD [] = []) :
    Mirrors db tables models base n front r ↔
      ∀ a ∈ r :: front.drop (front.length - n), ∀ b ∈ rows, a.created_at = b.created_at → a = b := by
  have backward (a b : QueryResult) : listsFirst db base a b ↔ ReadBack.Backward (·.created_at) firstOfTied a b := by
    rw [listsFirst, unsorted]
    change (compare b.created_at a.created_at).then (compare a.stream_id b.stream_id) = .lt ↔ _
    rw [then_eq_lt, Nat.compare_eq_lt, Nat.compare_eq_eq, eq_comm (a := b.created_at)]
    rfl
  refine mirrors_iff_untied (·.created_at) distinct found split positive (fun a _ b _ before => ?_)
    (fun a _ b _ => (backward a b).mp) (fun x _ => ?_)
  · rw [unsorted] at before
    change (compare a.created_at b.created_at).then (compare a.stream_id b.stream_id) = .lt at before
    rw [then_eq_lt, Nat.compare_eq_lt, Nat.compare_eq_eq] at before
    exact before
  · have cursor : selectsBackward db base r x = selectsBehind db true (some r) x := by
      rw [selectsBackward, BaseQuery.orderByKeys, unsorted]
      rfl
    rw [cursor, selectsBehind_iff, ← backward, listsFirst, unsorted]

/-- What a cursor of one field selects when reading backward. -/
theorem selectsBackward_field {key : String} {order : SortOrder} (sorted : base.sorting.getD [] = [(key, order)])
    (valued : (contentField r.stream_content key).isNullish = false) {row : QueryResult} {x : V}
    (field : db.field row.stream_content key = some x) :
    selectsBackward db base r row =
      ((getComparisonSign order true).holds x (db.bind (contentField r.stream_content key)) ||
        (decide (x = db.bind (contentField r.stream_content key)) && decide (r.stream_id < row.stream_id))) := by
  have cursor : Cursor.stringify (some r) base.orderByKeys =
      some ⟨r.stream_id, .content [(key, contentField r.stream_content key)]⟩ := by
    simp [Cursor.stringify, BaseQuery.orderByKeys, sorted, valued, JsObject.set]
  rw [selectsBackward, cursor]
  simp [applyCursor, sorted, compareBound_next, field]

theorem mirrors_iff_ranked {κ : Type} [LinearOrder κ] (rank : QueryResult → κ) {key : String} {order : SortOrder}
    (distinct : ((models.flatMap tables).map (·.stream_id)).Nodup)
    (found : query db tables models base false none = .ok rows) (split : rows = front ++ r :: back) (positive : 0 < n)
    (sorted : base.sorting.getD [] = [(key, order)])
    (valued : (contentField r.stream_content key).isNullish = false)
    (field : ∀ row ∈ rows, db.field row.stream_content key = some (db.bind (contentField row.stream_content key)))
    (forth : ∀ a ∈ rows, ∀ b ∈ rows, orderByField db key order a b = compare (rank a) (rank b))
    (back : ∀ a ∈ rows, ∀ b ∈ rows, orderByField db key (REVERSE_ORDER order) a b = compare (rank b) (rank a))
    (sign : ∀ a b : QueryResult, (getComparisonSign order true).holds (db.bind (contentField a.stream_content key))
      (db.bind (contentField b.stream_content key)) = decide (rank a < rank b))
    (tied : ∀ a b : QueryResult, db.bind (contentField a.stream_content key) =
      db.bind (contentField b.stream_content key) ↔ rank a = rank b) :
    Mirrors db tables models base n front r ↔
      ∀ a ∈ r :: front.drop (front.length - n), ∀ b ∈ rows,
        db.bind (contentField a.stream_content key) = db.bind (contentField b.stream_content key) → a = b := by
  simp only [tied]
  refine mirrors_iff_untied rank distinct found split positive (fun a inA b inB before => ?_)
    (fun a inA b inB before => ?_) (fun x inX => ?_)
  · rw [sorted] at before
    change (orderByField db key order a b).then (compare a.stream_id b.stream_id) = .lt at before
    rw [then_eq_lt, forth a inA b inB, compare_lt_iff_lt, compare_eq_iff_eq] at before
    exact before
  · rw [listsFirst, sorted] at before
    change (orderByField db key (REVERSE_ORDER order) a b).then (compare a.stream_id b.stream_id) = .lt at before
    rw [then_eq_lt, back a inA b inB, compare_lt_iff_lt, compare_eq_iff_eq] at before
    exact before.imp id fun ⟨same, first⟩ => ⟨same.symm, first⟩
  · rw [selectsBackward_field sorted valued (field x inX), sign, Bool.or_eq_true, Bool.and_eq_true]
    simp only [decide_eq_true_eq, tied]
    rw [ReadBack.Backward, firstOfTied, compare_stream_id, eq_comm (a := rank x)]

/-- Where rows are ordered by one field, and all have a value in it, this value is the rank of a row. -/
theorem mirrors_iff_field {key : String} {order : SortOrder}
    (distinct : ((models.flatMap tables).map (·.stream_id)).Nodup)
    (found : query db tables models base false none = .ok rows) (split : rows = front ++ r :: back) (positive : 0 < n)
    (sorted : base.sorting.getD [] = [(key, order)])
    (present : ∀ row ∈ rows, (contentField row.stream_content key).isNullish = false ∧
      db.field row.stream_content key = some (db.bind (contentField row.stream_content key))) :
    Mirrors db tables models base n front r ↔
      ∀ a ∈ r :: front.drop (front.length - n), ∀ b ∈ rows,
        db.bind (contentField a.stream_content key) = db.bind (contentField b.stream_content key) → a = b := by
  have field := fun row member => (present row member).2
  have valued := (present r (split ▸ List.mem_append_right _ List.mem_cons_self)).1
  cases order with
  | ASC =>
    refine mirrors_iff_ranked (fun row => db.bind (contentField row.stream_content key)) distinct found split positive
      sorted valued field (fun a inA b inB => ?_) (fun a inA b inB => ?_) (fun _ _ => rfl) (fun _ _ => Iff.rfl)
    · exact orderByField_present .ASC (field a inA) (field b inB)
    · exact orderByField_present .DESC (field a inA) (field b inB)
  | DESC =>
    refine mirrors_iff_ranked (fun row => OrderDual.toDual (db.bind (contentField row.stream_content key))) distinct
      found split positive sorted valued field (fun a inA b inB => ?_) (fun a inA b inB => ?_) (fun _ _ => rfl)
      (fun _ _ => Iff.rfl)
    · exact orderByField_present .DESC (field a inA) (field b inB)
    · exact orderByField_present .ASC (field a inA) (field b inB)

/-- For every table with distinct stream ids, sorting, row and size, the page before the row's cursor lists the last
rows in front of it exactly when the cursor selects each of them, they come in the reversed order, and no other row
that it selects comes before one of them. In insertion order, and in that of one field which all rows have a value
in, this means that neither the row nor one of those in front of it ties with another row. -/
theorem backward_mirrors_iff (db : IndexDatabase V) (tables : String → List IndexedData) (models : List String)
    (base : BaseQuery) (n : Nat) (distinct : ((models.flatMap tables).map (·.stream_id)).Nodup)
    (found : query db tables models base false none = .ok rows) (split : rows = front ++ r :: back) :
    (Mirrors db tables models base n front r ↔
      ReadBack.Reads (listsFirst db base) (selectsBackward db base r) rows front n) ∧
    (0 < n → base.sorting.getD [] = [] →
      (Mirrors db tables models base n front r ↔
        ∀ a ∈ r :: front.drop (front.length - n), ∀ b ∈ rows, a.created_at = b.created_at → a = b)) ∧
    ∀ key order, 0 < n → base.sorting.getD [] = [(key, order)] →
      (∀ row ∈ rows, (contentField row.stream_content key).isNullish = false ∧
        db.field row.stream_content key = some (db.bind (contentField row.stream_content key))) →
      (Mirrors db tables models base n front r ↔
        ∀ a ∈ r :: front.drop (front.length - n), ∀ b ∈ rows,
          db.bind (contentField a.stream_content key) = db.bind (contentField b.stream_content key) → a = b) := by
  refine ⟨?_, fun positive unsorted => ?_, fun key order positive sorted present => ?_⟩
  · exact mirrors_iff_reads distinct found split listsFirst_asymm fun _ _ _ _ before => before
  · exact mirrors_iff_created distinct found split positive unsorted
  · exact mirrors_iff_field distinct found split positive sorted present

/-- The page of one row before the second of the scores by wins. -/
theorem backward_mirrors_byWins :
    Mirrors numbers (fun _ => scores) ["kmodel"] byWins 1
      [resultOf (indexedRow "ka" [("wins", .num 1), ("losses", .num 2)])]
      (resultOf (indexedRow "kb" [("wins", .num 2), ("losses", .num 1)])) := by
  have found : query numbers (fun _ => scores) ["kmodel"] byWins false none = .ok (scores.reverse.map resultOf) := by
    decide
  have split : scores.reverse.map resultOf =
      [resultOf (indexedRow "ka" [("wins", .num 1), ("losses", .num 2)])] ++
        resultOf (indexedRow "kb" [("wins", .num 2), ("losses", .num 1)]) :: [] := rfl
  have mirrors := backward_mirrors_iff numbers (fun _ => scores) ["kmodel"] byWins 1 (by decide) found split
  exact (mirrors.2.2 "wins" .ASC Nat.one_pos rfl (by decide)).mpr (by decide)

/-- Of two rows that were created at the same time, the page before the second is empty. -/
theorem tied_not_mirrored : ((["kmodel"].flatMap fun _ => scores).map (·.stream_id)).Nodup ∧
    query numbers (fun _ => scores) ["kmodel"] unsortedQuery false none = .ok (scores.reverse.map resultOf) ∧
    ¬Mirrors numbers (fun _ => scores) ["kmodel"] unsortedQuery 1
      [resultOf (indexedRow "ka" [("wins", .num 1), ("losses", .num 2)])]
      (resultOf (indexedRow "kb" [("wins", .num 2), ("losses", .num 1)])) := by
  have found : query numbers (fun _ => scores) ["kmodel"] unsortedQuery false none =
      .ok (scores.reverse.map resultOf) := by decide
  have split : scores.reverse.map resultOf =
      [resultOf (indexedRow "ka" [("wins", .num 1), ("losses", .num 2)])] ++
        resultOf (indexedRow "kb" [("wins", .num 2), ("losses", .num 1)]) :: [] := rfl
  refine ⟨by decide, found, fun mirrors => ?_⟩
  have untied := (mirrors_iff_created (by decide) found split Nat.one_pos rfl).mp mirrors
  exact absurd untied (by decide)

end InsertionOrder

end Ceramic
