import Mathlib.Order.WithBot
import Mathlib.Data.Prod.Lex

/-! Lists some of whose elements carry a mark, compared behind the place where they part. A list that
takes the place of another has to be marked earlier there, unless the other has no mark there at all.
Of two lists without a mark the longer one is preferred, and then the label of the last element decides. -/
namespace Divergence

variable {α τ : Type}

/-- The mark of the first element that has one. -/
def firstMark (mark : α → Option τ) : List α → WithTop τ
  | [] => ⊤
  | x :: xs => match mark x with
    | some t => t
    | none => firstMark mark xs

variable {mark : α → Option τ} {x y : α} {xs ys zs shared : List α} {t : τ}

theorem firstMark_marked (marked : mark x = some t) : firstMark mark (x :: xs) = t := by
  simp [firstMark, marked]

theorem firstMark_unmarked (unmarked : mark x = none) : firstMark mark (x :: xs) = firstMark mark xs := by
  simp [firstMark, unmarked]

theorem unmarked_of_firstMark (unmarked : firstMark mark xs = ⊤) (member : x ∈ xs) : mark x = none := by
  induction xs with
  | nil => cases member
  | cons head xs ih =>
    cases marked : mark head with
    | some own => exact absurd ((firstMark_marked marked).symm.trans unmarked) WithTop.coe_ne_top
    | none =>
      rcases List.mem_cons.mp member with rfl | behind
      · exact marked
      · exact ih ((firstMark_unmarked marked).symm.trans unmarked) behind

section

variable [DecidableEq α] [LinearOrder τ]

/-- The marks of the first list are given up in the second one for an earlier mark only. -/
def KeepsMarks (mark : α → Option τ) : List α → List α → Prop
  | x :: xs, y :: ys =>
    if x = y then KeepsMarks mark xs ys
    else firstMark mark (y :: ys) < firstMark mark (x :: xs) ∨ firstMark mark (x :: xs) = ⊤
  | xs, _ => firstMark mark xs = ⊤

namespace KeepsMarks

theorem cons_iff : KeepsMarks mark (x :: xs) (x :: ys) ↔ KeepsMarks mark xs ys :=
  iff_of_eq (if_pos rfl)

theorem apart_iff (apart : x ≠ y) : KeepsMarks mark (x :: xs) (y :: ys) ↔
    firstMark mark (y :: ys) < firstMark mark (x :: xs) ∨ firstMark mark (x :: xs) = ⊤ :=
  iff_of_eq (if_neg apart)

theorem nil_iff : KeepsMarks mark xs [] ↔ firstMark mark xs = ⊤ := by
  cases xs <;> rfl

theorem append_iff : KeepsMarks mark (shared ++ xs) (shared ++ ys) ↔ KeepsMarks mark xs ys := by
  induction shared with
  | nil => rfl
  | cons x shared ih => exact cons_iff.trans ih

theorem refl (xs : List α) : KeepsMarks mark xs xs := by
  induction xs with
  | nil => exact rfl
  | cons x xs ih => exact cons_iff.mpr ih

theorem of_unmarked (unmarked : firstMark mark xs = ⊤) : KeepsMarks mark xs ys := by
  induction xs generalizing ys with
  | nil => exact unmarked
  | cons x xs ih =>
    cases ys with
    | nil => exact nil_iff.mpr unmarked
    | cons y ys =>
      by_cases same : x = y
      · subst same
        refine cons_iff.mpr (ih ?_)
        cases marked : mark x with
        | some own => exact absurd ((firstMark_marked marked).symm.trans unmarked) WithTop.coe_ne_top
        | none => exact (firstMark_unmarked marked).symm.trans unmarked
      · exact (apart_iff same).mpr (.inr unmarked)

/-- What two lists share cannot decide between them. -/
theorem of_lt (earlier : firstMark mark ys < firstMark mark xs) : KeepsMarks mark xs ys := by
  induction xs generalizing ys with
  | nil => exact rfl
  | cons x xs ih =>
    cases ys with
    | nil => exact absurd earlier not_top_lt
    | cons y ys =>
      by_cases same : x = y
      · subst same
        refine cons_iff.mpr (ih ?_)
        cases marked : mark x with
        | some own =>
          rw [firstMark_marked marked, firstMark_marked marked] at earlier
          exact absurd earlier (lt_irrefl _)
        | none => rwa [firstMark_unmarked marked, firstMark_unmarked marked] at earlier
      · exact (apart_iff same).mpr (.inl earlier)

theorem firstMark_le (keeps : KeepsMarks mark xs ys) : firstMark mark ys ≤ firstMark mark xs := by
  induction xs generalizing ys with
  | nil => exact le_top
  | cons x xs ih =>
    cases ys with
    | nil => exact le_top.trans_eq (nil_iff.mp keeps).symm
    | cons y ys =>
      by_cases same : x = y
      · subst same
        have rest := ih (cons_iff.mp keeps)
        cases marked : mark x with
        | some own => rw [firstMark_marked marked, firstMark_marked marked]
        | none => rwa [firstMark_unmarked marked, firstMark_unmarked marked]
      · rcases (apart_iff same).mp keeps with earlier | unmarked
        · exact earlier.le
        · exact le_top.trans_eq unmarked.symm

/-- The third list parts from the first together with the second, or behind that place. -/
theorem trans (first : KeepsMarks mark xs ys) (second : KeepsMarks mark ys zs) : KeepsMarks mark xs zs := by
  induction xs generalizing ys zs with
  | nil => exact rfl
  | cons x xs ih =>
    cases ys with
    | nil => exact of_unmarked (nil_iff.mp first)
    | cons y ys =>
      by_cases same : x = y
      · subst same
        cases zs with
        | nil => exact nil_iff.mpr (top_le_iff.mp ((nil_iff.mp second).symm.le.trans first.firstMark_le))
        | cons z zs =>
          by_cases still : x = z
          · subst still
            exact cons_iff.mpr (ih (cons_iff.mp first) (cons_iff.mp second))
          · refine (apart_iff still).mpr ?_
            rcases (apart_iff still).mp second with earlier | unmarked
            · exact .inl (earlier.trans_le first.firstMark_le)
            · exact .inr (top_le_iff.mp (unmarked.symm.le.trans first.firstMark_le))
      · rcases (apart_iff same).mp first with earlier | unmarked
        · exact of_lt (second.firstMark_le.trans_lt earlier)
        · exact of_unmarked unmarked

/-- A marked element stays, or the lists part before it and the second is marked earlier from there on. -/
theorem kept_or_earlier (keeps : KeepsMarks mark xs ys) {i : Nat} (found : xs[i]? = some x) (marked : mark x ≠ none) :
    ys.take (i + 1) = xs.take (i + 1) ∨
    ∃ n ≤ i, ys.take n = xs.take n ∧ firstMark mark (ys.drop n) < firstMark mark (xs.drop n) := by
  induction xs generalizing ys i with
  | nil => cases found
  | cons head xs ih =>
    have someMark : firstMark mark (head :: xs) ≠ ⊤ := fun unmarked =>
      marked (unmarked_of_firstMark unmarked (List.mem_of_getElem? found))
    cases ys with
    | nil => exact absurd (nil_iff.mp keeps) someMark
    | cons y ys =>
      by_cases same : head = y
      · subst same
        cases i with
        | zero => exact .inl rfl
        | succ i =>
          rcases ih (cons_iff.mp keeps) found with kept | ⟨n, before, shared, earlier⟩
          · exact .inl (by rw [List.take_succ_cons, List.take_succ_cons, kept])
          · exact .inr ⟨n + 1, Nat.succ_le_succ before, congrArg (head :: ·) shared, earlier⟩
      · rcases (apart_iff same).mp keeps with earlier | unmarked
        · exact .inr ⟨0, Nat.zero_le i, rfl, earlier⟩
        · exact absurd unmarked someMark

end KeepsMarks

end

section

variable [DecidableEq α]

/-- No first marks are equal where the two lists part. -/
def MarkedApart (mark : α → Option τ) : List α → List α → Prop
  | x :: xs, y :: ys =>
    if x = y then MarkedApart mark xs ys
    else firstMark mark (x :: xs) = firstMark mark (y :: ys) → firstMark mark (x :: xs) = ⊤
  | _, _ => True

namespace MarkedApart

theorem cons_iff : MarkedApart mark (x :: xs) (x :: ys) ↔ MarkedApart mark xs ys :=
  iff_of_eq (if_pos rfl)

theorem apart_iff (apart : x ≠ y) : MarkedApart mark (x :: xs) (y :: ys) ↔
    (firstMark mark (x :: xs) = firstMark mark (y :: ys) → firstMark mark (x :: xs) = ⊤) :=
  iff_of_eq (if_neg apart)

theorem append_iff : MarkedApart mark (shared ++ xs) (shared ++ ys) ↔ MarkedApart mark xs ys := by
  induction shared with
  | nil => rfl
  | cons x shared ih => exact cons_iff.trans ih

end MarkedApart

end

section

variable {κ : Type} [LinearOrder τ] [LinearOrder κ] {label : α → κ}

def lastLabel (label : α → κ) (xs : List α) : WithBot κ := xs.getLast?.map label

/-- Where a branch stands: marked ones first, by their first marks, then longer ones, then by the last label. -/
def standing (mark : α → Option τ) (label : α → κ) (xs : List α) : WithTop τ ×ₗ Natᵒᵈ ×ₗ WithBot κ :=
  toLex (firstMark mark xs, toLex (OrderDual.toDual xs.length, lastLabel label xs))

theorem standing_lt_iff : standing mark label xs < standing mark label ys ↔
    firstMark mark xs < firstMark mark ys ∨ firstMark mark xs = firstMark mark ys ∧
      (ys.length < xs.length ∨ xs.length = ys.length ∧ lastLabel label xs < lastLabel label ys) := by
  unfold standing
  rw [Prod.Lex.toLex_lt_toLex, Prod.Lex.toLex_lt_toLex, OrderDual.toDual_lt_toDual]
  rfl

theorem firstMark_le_of_standing (le : standing mark label xs ≤ standing mark label ys) :
    firstMark mark xs ≤ firstMark mark ys := by
  by_contra later
  exact absurd (standing_lt_iff.mpr (.inl (not_le.mp later))) (not_lt.mpr le)

/-- An element without a mark in front of both changes nothing. -/
theorem standing_cons_lt_iff (unmarked : mark x = none) :
    standing mark label (x :: xs) < standing mark label (x :: ys) ↔
      standing mark label xs < standing mark label ys := by
  rw [standing_lt_iff, standing_lt_iff, firstMark_unmarked unmarked, firstMark_unmarked unmarked,
    List.length_cons, List.length_cons, Nat.succ_lt_succ_iff, Nat.succ_inj]
  refine or_congr_right (and_congr_right fun _ => or_congr_right (and_congr_right fun same => ?_))
  cases xs with
  | nil =>
    obtain rfl := List.length_eq_zero_iff.mp same.symm
    exact iff_of_false (lt_irrefl _) (lt_irrefl _)
  | cons first xs =>
    cases ys with
    | nil => cases same
    | cons second ys => rw [lastLabel, lastLabel, List.getLast?_cons_cons, List.getLast?_cons_cons, lastLabel, lastLabel]

theorem standing_cons_le_iff (unmarked : mark x = none) :
    standing mark label (x :: xs) ≤ standing mark label (x :: ys) ↔
      standing mark label xs ≤ standing mark label ys := by
  rw [← not_lt, ← not_lt, standing_cons_lt_iff unmarked]

variable [DecidableEq α]

/-- The first list is preferred where the two part. -/
def Prefers (mark : α → Option τ) (label : α → κ) : List α → List α → Prop
  | _, [] => True
  | [], _ :: _ => False
  | x :: xs, y :: ys =>
    if x = y then Prefers mark label xs ys
    else standing mark label (x :: xs) < standing mark label (y :: ys)

namespace Prefers

theorem nil (xs : List α) : Prefers mark label xs [] := by
  cases xs <;> trivial

theorem cons_iff : Prefers mark label (x :: xs) (x :: ys) ↔ Prefers mark label xs ys :=
  iff_of_eq (if_pos rfl)

theorem apart_iff (apart : x ≠ y) : Prefers mark label (x :: xs) (y :: ys) ↔
    standing mark label (x :: xs) < standing mark label (y :: ys) :=
  iff_of_eq (if_neg apart)

theorem append_iff : Prefers mark label (shared ++ xs) (shared ++ ys) ↔ Prefers mark label xs ys := by
  induction shared with
  | nil => rfl
  | cons x shared ih => exact cons_iff.trans ih

/-- A preferred list does not stand behind the other, unless they share their first mark. -/
theorem standing_le (prefers : Prefers mark label xs ys) : standing mark label xs ≤ standing mark label ys ∨
    firstMark mark xs = firstMark mark ys ∧ firstMark mark xs ≠ ⊤ := by
  induction xs generalizing ys with
  | nil =>
    cases ys with
    | nil => exact .inl le_rfl
    | cons y ys => cases prefers
  | cons x xs ih =>
    cases ys with
    | nil =>
      refine .inl (le_of_lt (standing_lt_iff.mpr ?_))
      rcases (le_top : firstMark mark (x :: xs) ≤ ⊤).lt_or_eq with marked | unmarked
      · exact .inl marked
      · exact .inr ⟨unmarked, .inl (Nat.succ_pos xs.length)⟩
    | cons y ys =>
      by_cases same : x = y
      · subst same
        cases marked : mark x with
        | some own =>
          refine .inr ⟨?_, ?_⟩
          · rw [firstMark_marked marked, firstMark_marked marked]
          · rw [firstMark_marked marked]
            exact WithTop.coe_ne_top
        | none =>
          rw [standing_cons_le_iff marked, firstMark_unmarked marked, firstMark_unmarked marked]
          exact ih (cons_iff.mp prefers)
      · exact .inl ((apart_iff same).mp prefers).le

/-- What two lists share without a mark cannot decide between them. -/
theorem of_standing (before : standing mark label xs < standing mark label ys)
    (untied : firstMark mark xs = firstMark mark ys → firstMark mark xs = ⊤) : Prefers mark label xs ys := by
  induction xs generalizing ys with
  | nil =>
    cases ys with
    | nil => trivial
    | cons y ys =>
      rcases standing_lt_iff.mp before with marked | ⟨_, longer | ⟨same, _⟩⟩
      · exact absurd marked not_top_lt
      · exact absurd longer (Nat.not_lt_zero _)
      · cases same
  | cons x xs ih =>
    cases ys with
    | nil => exact nil (x :: xs)
    | cons y ys =>
      by_cases same : x = y
      · subst same
        cases marked : mark x with
        | some own =>
          rw [firstMark_marked marked, firstMark_marked marked] at untied
          exact absurd (untied rfl) WithTop.coe_ne_top
        | none =>
          rw [firstMark_unmarked marked, firstMark_unmarked marked] at untied
          exact cons_iff.mpr (ih ((standing_cons_lt_iff marked).mp before) untied)
      · exact (apart_iff same).mpr before

/-- Where three lists part in one place their standings are compared. Where the third parts from the other two
later or earlier, what the two share in front of that place does not change their standings. -/
theorem trans (first : Prefers mark label xs ys) (second : Prefers mark label ys zs)
    (apart : MarkedApart mark xs ys) (apart' : MarkedApart mark ys zs) : Prefers mark label xs zs := by
  induction xs generalizing ys zs with
  | nil =>
    cases ys with
    | nil => exact second
    | cons y ys => cases first
  | cons x xs ih =>
    cases zs with
    | nil => exact nil (x :: xs)
    | cons z zs =>
      cases ys with
      | nil => cases second
      | cons y ys =>
        by_cases xy : x = y
        · subst xy
          by_cases xz : x = z
          · subst xz
            exact cons_iff.mpr (ih (cons_iff.mp first) (cons_iff.mp second)
              (MarkedApart.cons_iff.mp apart) (MarkedApart.cons_iff.mp apart'))
          · have behind := (apart_iff xz).mp second
            refine (apart_iff xz).mpr ?_
            rcases first.standing_le with before | ⟨tied, marked⟩
            · exact before.trans_lt behind
            · refine standing_lt_iff.mpr (.inl ?_)
              rw [tied] at marked ⊢
              refine lt_of_le_of_ne (firstMark_le_of_standing behind.le) fun same => marked ?_
              exact (MarkedApart.apart_iff xz).mp apart' same
        · have before := (apart_iff xy).mp first
          have untied := (MarkedApart.apart_iff xy).mp apart
          by_cases yz : y = z
          · subst yz
            refine (apart_iff xy).mpr ?_
            rcases second.standing_le with behind | ⟨tied, marked⟩
            · exact before.trans_le behind
            · refine standing_lt_iff.mpr (.inl ?_)
              rw [← tied]
              refine lt_of_le_of_ne (firstMark_le_of_standing before.le) fun same => marked ?_
              exact same.symm.trans (untied same)
          · have behind := (apart_iff yz).mp second
            refine of_standing (before.trans behind) fun same => ?_
            have between := firstMark_le_of_standing behind.le
            rw [← same] at between
            exact untied (le_antisymm (firstMark_le_of_standing before.le) between)

end Prefers

end

end Divergence
