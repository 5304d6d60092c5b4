import Mathlib.Data.List.Sort
import Mathlib.Data.List.Pairwise
import Mathlib.Order.Basic

/-! Reading the rows in front of a row from the end, in an order of its own and through a selection: when
these are the last rows in front of it. -/
namespace ReadBack

section Selection

variable {α : Type}

/-- The last `n` rows are read first, each of them is selected, and more rows only behind `n` of them. -/
structure Reads (backward : α → α → Prop) (selected : α → Bool) (rows front : List α) (n : Nat) : Prop where
  each : ∀ a ∈ front.drop (front.length - n), selected a = true
  reversed : (front.drop (front.length - n)).Pairwise fun a b => backward b a
  behind : ∀ x ∈ rows, selected x = true → x ∉ front.drop (front.length - n) →
    0 < n ∧ n ≤ front.length ∧ ∀ a ∈ front.drop (front.length - n), backward a x

variable [DecidableEq α] {backward : α → α → Prop} {selected : α → Bool} {rows front found : List α} {n : Nat}

theorem reads_iff (asymm : ∀ a b, backward a b → ¬backward b a) (nodup : rows.Nodup) (inRows : ∀ a ∈ front, a ∈ rows)
    (once : front.Nodup) (perm : found.Perm (rows.filter selected)) (ordered : found.Pairwise backward)
    (positive : 0 < n) :
    found.take n = (front.drop (front.length - n)).reverse ↔ Reads backward selected rows front n := by
  have isFound (x : α) : x ∈ found ↔ x ∈ rows ∧ selected x = true := by
    rw [perm.mem_iff, List.mem_filter]
  have size : (front.drop (front.length - n)).length = min n front.length := by
    rw [List.length_drop]
    omega
  constructor
  · intro same
    have inFound {a : α} (member : a ∈ front.drop (front.length - n)) : a ∈ found.take n := by
      rw [same]
      exact List.mem_reverse.mpr member
    refine ⟨fun a member => ((isFound a).mp (List.mem_of_mem_take (inFound member))).2, ?_, ?_⟩
    · have first := ordered.sublist (List.take_sublist n found)
      rw [same] at first
      exact List.pairwise_reverse.mp first
    · intro x inRows isSelected other
      have later : x ∈ found.drop n := by
        have member := (isFound x).mpr ⟨inRows, isSelected⟩
        rw [← List.take_append_drop n found] at member
        rcases List.mem_append.mp member with early | later
        · rw [same] at early
          exact absurd (List.mem_reverse.mp early) other
        · exact later
      have full : n ≤ front.length := by
        have taken := congrArg List.length same
        have long := List.length_pos_of_mem later
        rw [List.length_drop] at long
        rw [List.length_take, List.length_reverse, size] at taken
        omega
      refine ⟨positive, full, fun a member => ?_⟩
      rw [← List.take_append_drop n found] at ordered
      exact (List.pairwise_append.mp ordered).2.2 a (inFound member) x later
  · intro reads
    have split : found = (front.drop (front.length - n)).reverse ++
        found.filter fun x => x ∉ front.drop (front.length - n) := by
      refine List.Perm.eq_of_pairwise (fun a b _ _ first second => absurd second (asymm a b first)) ordered ?_ ?_
      · refine List.pairwise_append.mpr ⟨List.pairwise_reverse.mpr reads.reversed,
          ordered.sublist List.filter_sublist, fun a inLast x inRest => ?_⟩
        obtain ⟨inFound, other⟩ := List.mem_filter.mp inRest
        obtain ⟨known, isSelected⟩ := (isFound x).mp inFound
        exact (reads.behind x known isSelected (by simpa using other)).2.2 a (List.mem_reverse.mp inLast)
      · have foundOnce : found.Nodup := perm.nodup_iff.mpr (nodup.filter _)
        refine (List.perm_ext_iff_of_nodup foundOnce ?_).mpr fun x => ?_
        · refine List.nodup_append.mpr ⟨List.nodup_reverse.mpr (once.sublist (List.drop_sublist ..)),
            foundOnce.filter _, fun a inLast b inRest same => ?_⟩
          subst same
          have other := (List.mem_filter.mp inRest).2
          exact absurd (List.mem_reverse.mp inLast) (by simpa using other)
        · rw [List.mem_append, List.mem_reverse, List.mem_filter]
          by_cases inLast : x ∈ front.drop (front.length - n)
          · have known := (isFound x).mpr ⟨inRows x (List.mem_of_mem_drop inLast), reads.each x inLast⟩
            exact iff_of_true known (.inl inLast)
          · simp [inLast]
    by_cases all : found.filter (fun x => x ∉ front.drop (front.length - n)) = []
    · rw [split, all, List.append_nil, List.take_of_length_le]
      rw [List.length_reverse, size]
      exact Nat.min_le_left ..
    · obtain ⟨x, inRest⟩ := List.exists_mem_of_ne_nil _ all
      obtain ⟨inFound, other⟩ := List.mem_filter.mp inRest
      obtain ⟨known, isSelected⟩ := (isFound x).mp inFound
      have full := (reads.behind x known isSelected (by simpa using other)).2.1
      rw [split]
      refine List.take_left' ?_
      rw [List.length_reverse, size, Nat.min_eq_left full]

end Selection

section Ties

variable {α κ : Type} [LinearOrder κ] (rank : α → κ) (first : α → α → Prop)

/-- By rank, with ties broken by which of the two is first. -/
def Forward (a b : α) : Prop := rank a < rank b ∨ rank a = rank b ∧ first a b

/-- By rank in reverse, with ties broken as before. -/
def Backward (a b : α) : Prop := rank b < rank a ∨ rank a = rank b ∧ first a b

variable {rank first} [Std.Asymm first] {selected : α → Bool} {rows front back : List α} {r : α} {n : Nat}

theorem irrefl_of_asymm (a : α) : ¬first a a := fun before => Std.Asymm.asymm a a before before

theorem Forward.not_backward {a b : α} (forward : Forward rank first a b) (tied : rank a = rank b) :
    ¬Backward rank first b a := by
  rintro (before | ⟨_, before⟩)
  · exact absurd tied before.ne
  · rcases forward with other | ⟨_, later⟩
    · exact absurd tied other.ne
    · exact Std.Asymm.asymm _ _ before later

theorem Backward.asymm {a b : α} (backward : Backward rank first a b) : ¬Backward rank first b a := by
  rintro (before | ⟨tied, before⟩)
  · rcases backward with other | ⟨same, _⟩
    · exact lt_asymm before other
    · exact absurd same before.ne
  · rcases backward with other | ⟨_, later⟩
    · exact absurd tied other.ne
    · exact Std.Asymm.asymm _ _ before later

omit [Std.Asymm first] in
theorem Forward.rank_le {a b : α} (forward : Forward rank first a b) : rank a ≤ rank b := by
  rcases forward with before | ⟨tied, _⟩
  · exact before.le
  · exact tied.le

omit [Std.Asymm first] in
theorem Backward.rank_le {a b : α} (backward : Backward rank first a b) : rank b ≤ rank a := by
  rcases backward with before | ⟨tied, _⟩
  · exact before.le
  · exact tied.ge

omit [LinearOrder κ] in
theorem apart_of_pairwise {rows : List α} (apart : rows.Pairwise fun a b => rank a ≠ rank b) :
    ∀ a ∈ rows, ∀ b ∈ rows, a ≠ b → rank a ≠ rank b := by
  have : Std.Symm fun a b => rank a ≠ rank b := ⟨fun _ _ differ => differ.symm⟩
  intro a inA b inB differ
  exact apart.forall inA inB differ

/-- Where each row comes after those in front of it, and reading back selects what comes after the row in the
reversed order, the last rows in front of the row are read just when neither it nor one of them ties with
another row. -/
theorem reads_iff_untied (split : rows = front ++ r :: back) (ordered : rows.Pairwise (Forward rank first))
    (selects : ∀ x ∈ rows, selected x = true ↔ Backward rank first r x) (positive : 0 < n) :
    Reads (Backward rank first) selected rows front n ↔
      ∀ a ∈ r :: front.drop (front.length - n), ∀ b ∈ rows, rank a = rank b → a = b := by
  subst split
  obtain ⟨frontOrdered, restOrdered, across⟩ := List.pairwise_append.mp ordered
  have behindRow := (List.pairwise_cons.mp restOrdered).1
  have beforeRow {a : α} (member : a ∈ front) : Forward rank first a r := across a member r List.mem_cons_self
  have inFront {a : α} (member : a ∈ front.drop (front.length - n)) : a ∈ front := List.mem_of_mem_drop member
  have inRows {a : α} (member : a ∈ front) : a ∈ front ++ r :: back := List.mem_append_left _ member
  have cut := List.take_append_drop (front.length - n) front
  have frontAcross := frontOrdered
  rw [← cut] at frontAcross
  obtain ⟨-, lastOrdered, earlier⟩ := List.pairwise_append.mp frontAcross
  have lastNonempty (nonempty : front ≠ []) : front.drop (front.length - n) ≠ [] := by
    have long := List.length_pos_iff.mpr nonempty
    intro nothing
    have short := List.drop_eq_nil_iff.mp nothing
    omega
  -- A row that has a lower rank than this one is in front of it.
  have inFrontOf {b : α} (member : b ∈ front ++ r :: back) (lower : rank b < rank r) : b ∈ front := by
    rcases List.mem_append.mp member with found | member
    · exact found
    · rcases List.mem_cons.mp member with rfl | inBack
      · exact absurd lower (lt_irrefl _)
      · exact absurd lower (not_lt_of_ge (behindRow b inBack).rank_le)
  constructor
  · intro reads
    have untiedRow : ∀ b ∈ front ++ r :: back, rank r = rank b → r = b := by
      intro b member tied
      by_contra apart
      rcases List.mem_append.mp member with found | rest
      · -- The last row in front ties as well, and is not selected.
        obtain ⟨init, z, isLast⟩ := List.eq_nil_or_concat' (front.drop (front.length - n)) |>.resolve_left
          (lastNonempty (List.ne_nil_of_mem found))
        have zInLast : z ∈ front.drop (front.length - n) := by
          rw [isLast]
          exact List.mem_append_right _ List.mem_cons_self
        have below : rank b ≤ rank z := by
          rw [← cut, isLast, ← List.append_assoc] at found frontOrdered
          rcases List.mem_append.mp found with before | same
          · exact ((List.pairwise_append.mp frontOrdered).2.2 b before z List.mem_cons_self).rank_le
          · rw [List.mem_singleton.mp same]
        have zBefore := beforeRow (inFront zInLast)
        have tiedLast : rank z = rank r := le_antisymm zBefore.rank_le (tied.le.trans below)
        have isSelected := (selects z (inRows (inFront zInLast))).mp (reads.each z zInLast)
        exact zBefore.not_backward tiedLast isSelected
      · rcases List.mem_cons.mp rest with same | inBack
        · exact apart same.symm
        · -- A tied row behind it is selected, and read before those in front.
          have later := behindRow b inBack
          have isSelected : selected b = true := (selects b member).mpr (by
            rcases later with before | tiedBy
            · exact absurd tied before.ne
            · exact .inr tiedBy)
          have notLast : b ∉ front.drop (front.length - n) := by
            intro inLast
            rcases beforeRow (inFront inLast) with before | ⟨_, before⟩
            · exact absurd tied.symm before.ne
            · rcases later with first | ⟨_, later⟩
              · exact absurd tied first.ne
              · exact Std.Asymm.asymm _ _ before later
          obtain ⟨-, full, after⟩ := reads.behind b member isSelected notLast
          have nonempty : front ≠ [] := List.length_pos_iff.mp (positive.trans_le full)
          obtain ⟨a, inLast⟩ := List.exists_mem_of_ne_nil _ (lastNonempty nonempty)
          have aBefore := beforeRow (inFront inLast)
          have tiedFront : rank a = rank r := le_antisymm aBefore.rank_le (tied.le.trans (after a inLast).rank_le)
          exact aBefore.not_backward tiedFront ((selects a (inRows (inFront inLast))).mp (reads.each a inLast))
    intro a member b inAll tied
    rcases List.mem_cons.mp member with rfl | inLast
    · exact untiedRow b inAll tied
    · by_contra apart
      have aBefore := beforeRow (inFront inLast)
      have lower : rank a < rank r := by
        rcases aBefore with before | ⟨same, before⟩
        · exact before
        · have isRow := untiedRow a (inRows (inFront inLast)) same.symm
          rw [isRow] at before
          exact absurd before (irrefl_of_asymm _)
      have found := inFrontOf inAll (tied ▸ lower)
      have isSelected : selected b = true := (selects b inAll).mpr (.inl (tied ▸ lower))
      by_cases bInLast : b ∈ front.drop (front.length - n)
      · have differ := apart_of_pairwise ((lastOrdered.and reads.reversed).imp fun {x y} ⟨forward, backward⟩ tied =>
          forward.not_backward tied backward)
        exact differ a inLast b bInLast apart tied
      · have first : Forward rank first b a := by
          rw [← cut] at found
          rcases List.mem_append.mp found with inInit | here
          · exact earlier b inInit a inLast
          · exact absurd here bInLast
        exact first.not_backward tied.symm ((reads.behind b inAll isSelected bInLast).2.2 a inLast)
  · intro untied
    refine ⟨fun a inLast => ?_, ?_, fun x member isSelected other => ?_⟩
    · refine (selects a (inRows (inFront inLast))).mpr ?_
      have aBefore := beforeRow (inFront inLast)
      rcases aBefore with before | ⟨tied, before⟩
      · exact .inl before
      · have same := untied r List.mem_cons_self a (inRows (inFront inLast)) tied.symm
        rw [same] at before
        exact absurd before (irrefl_of_asymm _)
    · refine lastOrdered.imp_of_mem fun {x y} inX inY forward => ?_
      rcases forward with before | ⟨tied, before⟩
      · exact .inl before
      · have same := untied x (List.mem_cons_of_mem _ inX) y (inRows (inFront inY)) tied
        exact absurd (same ▸ before) (irrefl_of_asymm _)
    · have lower : rank x < rank r := by
        rcases (selects x member).mp isSelected with before | ⟨tied, before⟩
        · exact before
        · have same := untied r List.mem_cons_self x member tied
          exact absurd (same ▸ before) (irrefl_of_asymm _)
      have inInit : x ∈ front.take (front.length - n) := by
        have found := inFrontOf member lower
        rw [← cut] at found
        rcases List.mem_append.mp found with inInit | here
        · exact inInit
        · exact absurd here other
      refine ⟨positive, ?_, fun a inLast => ?_⟩
      · have long := List.length_pos_of_mem inInit
        rw [List.length_take] at long
        omega
      · rcases earlier x inInit a inLast with before | ⟨tied, _⟩
        · exact .inl before
        · have same := untied a (List.mem_cons_of_mem _ inLast) x member tied.symm
          exact absurd (same ▸ inLast) other

end Ties

end ReadBack
