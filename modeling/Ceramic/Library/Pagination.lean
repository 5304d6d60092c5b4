import Mathlib.Data.List.Nodup
import Mathlib.Data.List.Sort

/-! Reading a list page by page: each query is given the last row of the page before and
finds the rows that a condition on this row selects. -/
namespace Pagination

variable {α : Type} (rows : List α) (select : Option α → α → Bool) (n : Nat)

def found (cursor : Option α) : List α := rows.filter (select cursor)

/-- The pages of `n` rows from a cursor on, as long as a page leaves some of what was found. -/
inductive Walk : Option α → List (List α) → Prop where
  | last {cursor : Option α} : (found rows select cursor).length ≤ n →
      Walk cursor [(found rows select cursor).take n]
  | next {cursor : Option α} {pages : List (List α)} : n < (found rows select cursor).length →
      Walk ((found rows select cursor).take n).getLast? pages →
      Walk cursor ((found rows select cursor).take n :: pages)

/-- The row before the position `k` selects nothing before it, the next page, and a row
beyond this page if there is one. -/
structure Boundary (k : Nat) : Prop where
  before : ∀ row ∈ rows.take k, select (rows.take k).getLast? row = false
  page : ∀ row ∈ (rows.drop k).take n, select (rows.take k).getLast? row
  beyond : k + n < rows.length → ∃ row ∈ rows.drop (k + n), select (rows.take k).getLast? row

variable {rows select n}

theorem found_split (rows : List α) (select : Option α → α → Bool) (cursor : Option α) (k n : Nat) : found rows select cursor =
    (rows.take k).filter (select cursor) ++ (((rows.drop k).take n).filter (select cursor) ++
      (rows.drop (k + n)).filter (select cursor)) := by
  rw [← List.drop_drop, ← List.filter_append, List.take_append_drop, ← List.filter_append,
    List.take_append_drop]
  rfl

theorem length_page_le (rows : List α) (n k : Nat) (p : α → Bool) : (((rows.drop k).take n).filter p).length ≤ n :=
  (List.length_filter_le _ _).trans (List.length_take_le _ _)

namespace Boundary

variable {k : Nat} (boundary : Boundary rows select n k)

include boundary

theorem found_eq : found rows select (rows.take k).getLast? =
    (rows.drop k).take n ++ (rows.drop (k + n)).filter (select (rows.take k).getLast?) := by
  rw [found_split rows select _ k n, List.filter_eq_self.mpr boundary.page]
  rw [List.filter_eq_nil_iff.mpr fun row member => by simp [boundary.before row member]]
  rfl

theorem found_take : (found rows select (rows.take k).getLast?).take n = (rows.drop k).take n := by
  rw [boundary.found_eq]
  by_cases full : n ≤ (rows.drop k).length
  · exact List.take_left' (List.length_take_of_le full)
  · rw [List.length_drop] at full
    rw [List.drop_eq_nil_of_le (by omega : rows.length ≤ k + n), List.filter_nil, List.append_nil,
      List.take_take, Nat.min_self]

theorem more_iff : n < (found rows select (rows.take k).getLast?).length ↔ k + n < rows.length := by
  rw [boundary.found_eq, List.length_append]
  constructor
  · intro more
    by_contra short
    rw [List.drop_eq_nil_of_le (by omega : rows.length ≤ k + n)] at more
    have bound := List.length_take_le n (rows.drop k)
    simp only [List.filter_nil, List.length_nil] at more
    omega
  · intro long
    obtain ⟨row, member, selected⟩ := boundary.beyond long
    have some : 0 < ((rows.drop (k + n)).filter (select (rows.take k).getLast?)).length :=
      List.length_pos_of_mem (List.mem_filter.mpr ⟨member, selected⟩)
    have full : ((rows.drop k).take n).length = n :=
      List.length_take_of_le (by rw [List.length_drop]; omega)
    omega

end Boundary

/-- Nothing before a position is found, if the page found there is the page that follows. -/
theorem before_of_take (nodup : rows.Nodup) (positive : 0 < n) {k : Nat} {cursor : Option α}
    (taken : (found rows select cursor).take n = (rows.drop k).take n) :
    (rows.take k).filter (select cursor) = [] := by
  cases early : (rows.take k).filter (select cursor) with
  | nil => rfl
  | cons row rest =>
    have inFront : row ∈ rows.take k := by
      have : row ∈ (rows.take k).filter (select cursor) := by simp [early]
      exact List.mem_of_mem_filter this
    have inPage : row ∈ (rows.drop k).take n := by
      rw [← taken, found_split rows select cursor k n, early]
      obtain ⟨m, rfl⟩ := Nat.exists_eq_add_one.mpr positive
      exact List.mem_cons_self
    exact absurd (List.mem_of_mem_take inPage) (List.disjoint_take_drop nodup (le_refl k) inFront)

theorem boundary_of_take (nodup : rows.Nodup) (positive : 0 < n) {k : Nat}
    (taken : (found rows select (rows.take k).getLast?).take n = (rows.drop k).take n)
    (more : k + n < rows.length → n < (found rows select (rows.take k).getLast?).length) :
    Boundary rows select n k := by
  have none := before_of_take nodup positive taken
  have split := found_split rows select (rows.take k).getLast? k n
  rw [none, List.nil_append] at split
  refine ⟨fun row member => ?_, ?_, fun long => ?_⟩
  · simpa using List.filter_eq_nil_iff.mp none row member
  · -- a row of the page that is left out would have to be made up for by one beyond it
    refine List.filter_eq_self.mp ((List.filter_sublist).eq_of_length_le ?_)
    by_contra short
    rw [split, List.take_append, List.take_of_length_le (length_page_le rows n k _)] at taken
    have lengths := congrArg List.length taken
    rw [List.length_append] at lengths
    have some : 0 < (((rows.drop (k + n)).filter (select (rows.take k).getLast?)).take
        (n - (((rows.drop k).take n).filter (select (rows.take k).getLast?)).length)).length := by
      omega
    obtain ⟨row, member⟩ := List.exists_mem_of_length_pos some
    have inPage : row ∈ (rows.drop k).take n := by
      rw [← taken]
      exact List.mem_append_right _ member
    have behind : row ∈ (rows.drop k).drop n := by
      rw [List.drop_drop]
      exact List.mem_of_mem_filter (List.mem_of_mem_take member)
    exact List.disjoint_take_drop (nodup.sublist (List.drop_sublist k rows)) (le_refl n) inPage behind
  · have enough := more long
    rw [split, List.length_append] at enough
    have bound := length_page_le rows n k (select (rows.take k).getLast?)
    obtain ⟨row, member⟩ := List.exists_mem_of_length_pos
      (by omega : 0 < ((rows.drop (k + n)).filter (select (rows.take k).getLast?)).length)
    exact ⟨row, List.mem_of_mem_filter member, (List.mem_filter.mp member).2⟩

theorem getLast?_take_add {k : Nat} (positive : 0 < n) (full : k + n ≤ rows.length) :
    (rows.take (k + n)).getLast? = ((rows.drop k).take n).getLast? := by
  rw [List.take_add, List.getLast?_append_of_ne_nil]
  rw [← List.length_pos_iff, List.length_take_of_le (by rw [List.length_drop]; omega)]
  exact positive

/-- Induction over the walk: a walk that lists what is left has been at a boundary each time. -/
theorem Walk.boundaries (nodup : rows.Nodup) (positive : 0 < n) {cursor : Option α}
    {pages : List (List α)} (walk : Walk rows select n cursor pages) {k : Nat}
    (here : cursor = (rows.take k).getLast?) (lists : pages.flatten = rows.drop k) (j : Nat)
    (inside : k + j * n < rows.length) : Boundary rows select n (k + j * n) := by
  induction walk generalizing k j with
  | last short =>
    subst here
    rw [List.flatten_cons, List.flatten_nil, List.append_nil] at lists
    have left := congrArg List.length lists
    rw [List.length_drop, List.length_take] at left
    cases j with
    | zero =>
      rw [Nat.zero_mul, Nat.add_zero]
      refine boundary_of_take nodup positive ?_ fun long => by omega
      rw [← lists, List.take_take, Nat.min_self]
    | succ j =>
      rw [Nat.succ_mul] at inside
      omega
  | @next cursor pages more _ ih =>
    subst here
    rw [List.flatten_cons] at lists
    have full : ((found rows select (rows.take k).getLast?).take n).length = n :=
      List.length_take_of_le more.le
    have taken : (rows.drop k).take n = (found rows select (rows.take k).getLast?).take n := by
      rw [← lists, List.take_left' full]
    have rest : pages.flatten = rows.drop (k + n) := by
      rw [← List.drop_drop, ← lists, List.drop_left' full]
    cases j with
    | zero =>
      rw [Nat.zero_mul, Nat.add_zero]
      exact boundary_of_take nodup positive taken.symm fun _ => more
    | succ j =>
      rw [Nat.succ_mul, Nat.add_comm (j * n), ← Nat.add_assoc] at inside ⊢
      refine ih ?_ rest j inside
      rw [getLast?_take_add positive (by omega), taken]

/-- From a boundary on, the pages list what is left. -/
theorem walk_of_boundaries (positive : 0 < n) {k : Nat} (inside : k < rows.length)
    (boundaries : ∀ j, k + j * n < rows.length → Boundary rows select n (k + j * n)) :
    ∃ pages, Walk rows select n (rows.take k).getLast? pages ∧ pages.flatten = rows.drop k := by
  have here : Boundary rows select n k := by simpa using boundaries 0 (by simpa using inside)
  by_cases long : k + n < rows.length
  · obtain ⟨pages, walk, lists⟩ := walk_of_boundaries positive long fun j bound => by
      have later := boundaries (j + 1)
      rw [Nat.succ_mul, Nat.add_comm (j * n), ← Nat.add_assoc] at later
      exact later bound
    rw [getLast?_take_add positive long.le, ← here.found_take] at walk
    refine ⟨_, .next (here.more_iff.mpr long) walk, ?_⟩
    rw [List.flatten_cons, lists, here.found_take, ← List.drop_drop, List.take_append_drop]
  · have short : ¬ n < (found rows select (rows.take k).getLast?).length := mt here.more_iff.mp long
    refine ⟨_, .last (by omega), ?_⟩
    rw [List.flatten_cons, List.flatten_nil, List.append_nil, here.found_take]
    exact List.take_of_length_le (by rw [List.length_drop]; omega)
termination_by rows.length - k

/-- Where the rows are ordered and each selects those behind it, each position is a boundary. -/
theorem boundary_of_ordered {before : α → α → Prop} (ordered : rows.Pairwise before)
    (irreflexive : ∀ row ∈ rows, ¬ before row row)
    (asymmetric : ∀ a ∈ rows, ∀ b ∈ rows, before a b → ¬ before b a)
    (selects : ∀ a ∈ rows, ∀ b ∈ rows, select (some a) b = true ↔ before a b)
    (all : ∀ row ∈ rows, select none row) (k : Nat) : Boundary rows select n k := by
  have apart : ∀ a ∈ rows.take k, ∀ b ∈ rows.drop k, before a b := by
    have split := ordered
    rw [← List.take_append_drop k rows, List.pairwise_append] at split
    exact split.2.2
  have later : ∀ row ∈ rows.drop k, select (rows.take k).getLast? row := by
    intro row member
    cases last : (rows.take k).getLast? with
    | none => exact all row (List.mem_of_mem_drop member)
    | some a =>
      have inFront := List.mem_of_getLast? last
      exact (selects a (List.mem_of_mem_take inFront) row (List.mem_of_mem_drop member)).mpr
        (apart a inFront row member)
  refine ⟨fun row member => ?_, fun row member => later row (List.mem_of_mem_take member), ?_⟩
  · obtain ⟨a, last⟩ := List.getLast?_isSome.mpr (List.ne_nil_of_mem member) |> Option.isSome_iff_exists.mp
    have inFront := List.mem_of_getLast? last
    have known := List.mem_of_mem_take inFront
    rw [last, Bool.eq_false_iff, ne_eq, selects a known row (List.mem_of_mem_take member)]
    -- the last row of those in front is behind each of the others
    obtain ⟨front, split⟩ := List.getLast?_eq_some_iff.mp last
    rw [split, List.mem_append, List.mem_singleton] at member
    rcases member with member | rfl
    · have sorted : (front ++ [a]).Pairwise before := split ▸ ordered.sublist (List.take_sublist k rows)
      have inRows : row ∈ rows := List.mem_of_mem_take (split ▸ List.mem_append_left _ member)
      exact asymmetric row inRows a known
        ((List.pairwise_append.mp sorted).2.2 row member a (List.mem_singleton_self a))
    · exact irreflexive row known
  · intro long
    obtain ⟨row, member⟩ := List.exists_mem_of_length_pos
      (by rw [List.length_drop]; omega : 0 < (rows.drop (k + n)).length)
    refine ⟨row, member, later row ?_⟩
    rw [← List.drop_drop] at member
    exact List.mem_of_mem_drop member

theorem Walk.mem {cursor : Option α} {pages : List (List α)} (walk : Walk rows select n cursor pages)
    {row : α} (member : row ∈ pages.flatten) : row ∈ rows := by
  induction walk with
  | last _ =>
    rw [List.flatten_cons, List.flatten_nil, List.append_nil] at member
    exact List.mem_of_mem_filter (List.mem_of_mem_take member)
  | next _ _ ih =>
    rw [List.flatten_cons, List.mem_append] at member
    rcases member with member | member
    · exact List.mem_of_mem_filter (List.mem_of_mem_take member)
    · exact ih member

/-- The pages list the rows, each once and in their order, exactly when each multiple of
the page size is a boundary. -/
theorem walk_iff (nodup : rows.Nodup) (positive : 0 < n) (all : ∀ row ∈ rows, select none row) :
    (∃ pages, Walk rows select n none pages ∧ pages.flatten = rows) ↔
      ∀ j, j * n < rows.length → Boundary rows select n (j * n) := by
  constructor
  · rintro ⟨pages, walk, lists⟩ j inside
    have boundary := walk.boundaries nodup positive (k := 0) (by simp) (by simpa using lists) j
    simp only [Nat.zero_add] at boundary
    exact boundary inside
  · intro boundaries
    by_cases empty : rows = []
    · subst empty
      exact ⟨_, .last (Nat.zero_le n), by simp [found]⟩
    · have := walk_of_boundaries (k := 0) positive (List.length_pos_iff.mpr empty)
        (fun j inside => by simpa using boundaries j (by simpa using inside))
      simpa using this

/-- Where each position is a boundary, every walk lists what is left, and there is always something behind a
page that is not the last. -/
theorem Walk.lists (positive : 0 < n) (boundary : ∀ k, Boundary rows select n k) {cursor : Option α}
    {pages : List (List α)} (walk : Walk rows select n cursor pages) {k : Nat} (here : cursor = (rows.take k).getLast?) :
    pages.flatten = rows.drop k ∧ ∀ page rest, pages = page :: rest → rest ≠ [] → rest.flatten ≠ [] := by
  induction walk generalizing k with
  | last short =>
    subst here
    have ends : rows.length ≤ k + n := Nat.not_lt.mp (mt (boundary k).more_iff.mpr (Nat.not_lt.mpr short))
    refine ⟨?_, fun page rest split another => absurd (List.cons_eq_cons.mp split).2.symm another⟩
    rw [List.flatten_cons, List.flatten_nil, List.append_nil, (boundary k).found_take]
    exact List.take_of_length_le (by rw [List.length_drop]; omega)
  | @next cursor pages more _ ih =>
    subst here
    have long := (boundary k).more_iff.mp more
    have left := (ih (k := k + n) (by rw [(boundary k).found_take, getLast?_take_add positive long.le])).1
    refine ⟨?_, fun page rest split _ => ?_⟩
    · rw [List.flatten_cons, left, (boundary k).found_take, ← List.drop_drop, List.take_append_drop]
    · obtain ⟨_, rfl⟩ := List.cons_eq_cons.mp split
      rw [left]
      exact List.ne_nil_of_length_pos (by rw [List.length_drop]; omega)

theorem Walk.remaining (positive : 0 < n) (boundary : ∀ k, Boundary rows select n k) {cursor : Option α}
    {pages : List (List α)} (walk : Walk rows select n cursor pages) {k : Nat} (here : cursor = (rows.take k).getLast?)
    {front rest : List (List α)} {page : List α} (split : pages = front ++ page :: rest) :
    rest ≠ [] → rest.flatten ≠ [] := by
  induction front generalizing pages cursor k with
  | nil => exact (walk.lists positive boundary here).2 page rest split
  | cons first front ih =>
    cases walk with
    | last _ =>
      obtain ⟨_, empty⟩ := List.cons_eq_cons.mp split
      simp at empty
    | next more walk =>
      subst here
      obtain ⟨_, behind⟩ := List.cons_eq_cons.mp split
      have long := (boundary k).more_iff.mp more
      exact ih walk (k := k + n) (by rw [(boundary k).found_take, getLast?_take_add positive long.le]) behind

section Followed

variable {Cursor Page ε β : Type} (get : Cursor → Except ε Page) (more : Page → Bool) (next : Page → Cursor)

/-- Pages that are asked for one after another, each with the cursor of the one before, as long as there is more. -/
inductive Followed : Cursor → List Page → Prop where
  | last {cursor : Cursor} {result : Page} : get cursor = .ok result → more result = false → Followed cursor [result]
  | next {cursor : Cursor} {result : Page} {pages : List Page} : get cursor = .ok result → more result = true →
      Followed (next result) pages → Followed cursor (result :: pages)

variable (rows select n) in
/-- With the key of a row, the first `n` of the rows that it selects are returned, under their names. -/
def Serves (key : Option α → Cursor) (entries : Page → List β) (name : α → β) : Prop :=
  ∀ cursorRow, ∃ result, get (key cursorRow) = .ok result ∧
    entries result = ((found rows select cursorRow).take n).map name ∧
    more result = decide (n < (found rows select cursorRow).length) ∧
    next result = key ((found rows select cursorRow).take n).getLast?

variable {get more next} {key : Option α → Cursor} {entries : Page → List β} {name : α → β}

/-- The pages of a walk are returned. -/
theorem Serves.followed_of_walk (serves : Serves rows select n get more next key entries name)
    {cursorRow : Option α} {walked : List (List α)} (walk : Walk rows select n cursorRow walked) :
    ∃ pages, Followed get more next (key cursorRow) pages ∧ pages.map entries = walked.map (·.map name) := by
  induction walk with
  | @last cursorRow short =>
    obtain ⟨result, returned, listed, behind, _⟩ := serves cursorRow
    exact ⟨[result], .last returned (behind.trans (decide_eq_false (Nat.not_lt.mpr short))), by simp [listed]⟩
  | @next cursorRow _ long _ ih =>
    obtain ⟨result, returned, listed, behind, last⟩ := serves cursorRow
    obtain ⟨pages, followed, lists⟩ := ih
    refine ⟨result :: pages, .next returned (behind.trans (decide_eq_true long)) (last ▸ followed), ?_⟩
    rw [List.map_cons, List.map_cons, listed, lists]

/-- And those that are returned are the pages of a walk. -/
theorem Serves.walk_of_followed (serves : Serves rows select n get more next key entries name) {cursor : Cursor}
    {pages : List Page} (followed : Followed get more next cursor pages) {cursorRow : Option α}
    (here : cursor = key cursorRow) :
    ∃ walked, Walk rows select n cursorRow walked ∧ pages.map entries = walked.map (·.map name) := by
  induction followed generalizing cursorRow with
  | @last _ result returned none =>
    subst here
    obtain ⟨result', returned', listed, behind, _⟩ := serves cursorRow
    obtain rfl := Except.ok.inj (returned.symm.trans returned')
    rw [behind] at none
    exact ⟨_, .last (Nat.not_lt.mp (of_decide_eq_false none)), by simp [listed]⟩
  | @next _ result pages returned some _ ih =>
    subst here
    obtain ⟨result', returned', listed, behind, last⟩ := serves cursorRow
    obtain rfl := Except.ok.inj (returned.symm.trans returned')
    rw [behind] at some
    obtain ⟨walked, walk, lists⟩ := ih last
    refine ⟨_, .next (of_decide_eq_true some) walk, ?_⟩
    rw [List.map_cons, List.map_cons, listed, lists]

theorem Followed.more_iff {cursor : Cursor} {pages : List Page} (followed : Followed get more next cursor pages)
    {front rest : List Page} {page : Page} (split : pages = front ++ page :: rest) : more page = true ↔ rest ≠ [] := by
  induction followed generalizing front with
  | last _ none =>
    cases front with
    | nil =>
      obtain ⟨rfl, rfl⟩ := List.cons_eq_cons.mp split
      simp [none]
    | cons first front =>
      obtain ⟨_, empty⟩ := List.cons_eq_cons.mp split
      simp at empty
  | @next _ result pages _ some behind ih =>
    cases front with
    | nil =>
      obtain ⟨rfl, rfl⟩ := List.cons_eq_cons.mp split
      refine iff_of_true some ?_
      cases behind <;> simp
    | cons first front => exact ih (List.cons_eq_cons.mp split).2

/-- Where each position is a boundary, following the cursors lists all rows, and a page has more behind it exactly
when the pages behind it list something. -/
theorem Serves.lists (serves : Serves rows select n get more next key entries name) (positive : 0 < n)
    (boundary : ∀ k, Boundary rows select n k) :
    (∃ pages, Followed get more next (key none) pages) ∧
    ∀ pages, Followed get more next (key none) pages → pages.flatMap entries = rows.map name ∧
      ∀ front page rest, pages = front ++ page :: rest → (more page = true ↔ rest.flatMap entries ≠ []) := by
  have start : none = (rows.take 0).getLast? := rfl
  constructor
  · by_cases empty : rows = []
    · have nothing : (found rows select none).length ≤ n := by simp [found, empty]
      obtain ⟨pages, followed, _⟩ := serves.followed_of_walk (.last nothing)
      exact ⟨pages, followed⟩
    · obtain ⟨_, walk, _⟩ := walk_of_boundaries positive (List.length_pos_iff.mpr empty)
        fun j _ => boundary (0 + j * n)
      obtain ⟨pages, followed, _⟩ := serves.followed_of_walk walk
      exact ⟨pages, followed⟩
  · intro pages followed
    obtain ⟨walked, walk, lists⟩ := serves.walk_of_followed followed rfl
    refine ⟨?_, fun front page rest split => ?_⟩
    · rw [List.flatMap_def, lists, ← List.map_flatten, (walk.lists positive boundary start).1, List.drop_zero]
    · rw [followed.more_iff split]
      -- the pages behind this one are those of the walk
      rw [split, List.map_append, List.map_cons] at lists
      obtain ⟨frontWalked, restWalked, rfl, _, tail⟩ := List.map_eq_append_iff.mp lists.symm
      obtain ⟨pageWalked, behind, rfl, _, same⟩ := List.map_eq_cons_iff.mp tail
      rw [List.flatMap_def, ← same, ← List.map_flatten, ne_eq, ne_eq, List.map_eq_nil_iff]
      have sameEmpty : rest = [] ↔ behind = [] := by
        rw [← List.length_eq_zero_iff, ← List.length_eq_zero_iff]
        have lengths := congrArg List.length same
        simp only [List.length_map] at lengths
        omega
      rw [sameEmpty]
      refine ⟨walk.remaining positive boundary start rfl, ?_⟩
      rintro nonempty rfl
      exact nonempty rfl

end Followed

section Sorted

variable {r : α → α → Prop} [DecidableRel r] [Std.Total r] [IsTrans α r]

/-- Where no two elements tie, those that a condition selects come in the order of the whole. -/
theorem insertionSort_filter {l : List α} (antisymm : ∀ a ∈ l, ∀ b ∈ l, r a b → r b a → a = b)
    (p : α → Bool) : (l.filter p).insertionSort r = (l.insertionSort r).filter p := by
  refine List.Perm.eq_of_pairwise ?_ (List.pairwise_insertionSort r _)
    ((List.pairwise_insertionSort r l).sublist List.filter_sublist)
    ((List.perm_insertionSort r _).trans ((List.perm_insertionSort r l).filter p).symm)
  intro a b inFirst inSecond
  have first : a ∈ l := List.mem_of_mem_filter ((List.mem_insertionSort r).mp inFirst)
  have second : b ∈ l := (List.mem_insertionSort r).mp (List.mem_of_mem_filter inSecond)
  exact antisymm a first b second

end Sorted

end Pagination
