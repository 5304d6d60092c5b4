import Mathlib.Data.List.Basic

/-! Truth values that may still be open, for evaluations cut off at some depth. What is decided stays
decided when more is known. -/
namespace Kleene

variable {α : Type}

/-- `b` says what `a` says, and maybe more. -/
def Below (a b : Option Bool) : Prop := ∀ answer, a = some answer → b = some answer

theorem Below.refl (a : Option Bool) : Below a a := fun _ same => same

def all (values : List (Option Bool)) : Option Bool :=
  if values.contains (some false) then some false
  else if values.contains none then none else some true

def any (values : List (Option Bool)) : Option Bool :=
  if values.contains (some true) then some true
  else if values.contains none then none else some false

/-- Exactly one is true, and the others are known to be false. -/
def one (values : List (Option Bool)) : Option Bool :=
  if values.contains none then none else some (values.count (some true) == 1)

theorem all_eq_true {values : List (Option Bool)} : all values = some true ↔ ∀ value ∈ values, value = some true := by
  unfold all
  split
  next isFalse =>
    simp only [Option.some.injEq, Bool.false_eq_true, false_iff]
    intro every
    cases every _ (List.contains_iff_mem.mp isFalse)
  next noFalse =>
    split
    next isOpen =>
      simp only [reduceCtorEq, false_iff]
      intro every
      cases every _ (List.contains_iff_mem.mp isOpen)
    next noOpen =>
      simp only [true_iff]
      intro value member
      match value with
      | some true => rfl
      | some false => exact absurd (List.contains_iff_mem.mpr member) noFalse
      | none => exact absurd (List.contains_iff_mem.mpr member) noOpen

theorem all_eq_false {values : List (Option Bool)} : all values = some false ↔ some false ∈ values := by
  unfold all
  split
  next isFalse => simpa using isFalse
  next noFalse =>
    have absent : some false ∉ values := fun member => noFalse (List.contains_iff_mem.mpr member)
    split <;> simp [absent]

theorem any_eq_true {values : List (Option Bool)} : any values = some true ↔ some true ∈ values := by
  unfold any
  split
  next isTrue => simpa using isTrue
  next noTrue =>
    have absent : some true ∉ values := fun member => noTrue (List.contains_iff_mem.mpr member)
    split <;> simp [absent]

theorem any_eq_false {values : List (Option Bool)} : any values = some false ↔ ∀ value ∈ values, value = some false := by
  unfold any
  split
  next isTrue =>
    simp only [Option.some.injEq, Bool.true_eq_false, false_iff]
    intro every
    cases every _ (List.contains_iff_mem.mp isTrue)
  next noTrue =>
    split
    next isOpen =>
      simp only [reduceCtorEq, false_iff]
      intro every
      cases every _ (List.contains_iff_mem.mp isOpen)
    next noOpen =>
      simp only [true_iff]
      intro value member
      match value with
      | some false => rfl
      | some true => exact absurd (List.contains_iff_mem.mpr member) noTrue
      | none => exact absurd (List.contains_iff_mem.mpr member) noOpen

theorem one_eq_true {values : List (Option Bool)} :
    one values = some true ↔ none ∉ values ∧ values.count (some true) = 1 := by
  unfold one
  split
  next isOpen =>
    have present : none ∈ values := List.contains_iff_mem.mp isOpen
    simp [present]
  next noOpen =>
    have absent : none ∉ values := fun member => noOpen (List.contains_iff_mem.mpr member)
    simp [absent]

theorem all_cons_below {a b : Option Bool} {values more : List (Option Bool)} (first : Below a b)
    (rest : Below (all values) (all more)) : Below (all (a :: values)) (all (b :: more)) := by
  rintro (_ | _) decided
  · rcases List.mem_cons.mp (all_eq_false.mp decided) with here | behind
    · exact all_eq_false.mpr (List.mem_cons.mpr (.inl (first _ here.symm).symm))
    · exact all_eq_false.mpr (List.mem_cons_of_mem _ (all_eq_false.mp (rest _ (all_eq_false.mpr behind))))
  · obtain ⟨here, behind⟩ := List.forall_mem_cons.mp (all_eq_true.mp decided)
    exact all_eq_true.mpr (List.forall_mem_cons.mpr ⟨first _ here,
      all_eq_true.mp (rest _ (all_eq_true.mpr behind))⟩)

section Map

variable {items : List α} {f g : α → Option Bool} (below : ∀ item ∈ items, Below (f item) (g item))
include below

theorem all_map_below : Below (all (items.map f)) (all (items.map g)) := by
  rintro (_ | _) decided
  · obtain ⟨item, member, isFalse⟩ := List.mem_map.mp (all_eq_false.mp decided)
    exact all_eq_false.mpr (List.mem_map.mpr ⟨item, member, below item member _ isFalse⟩)
  · refine all_eq_true.mpr (List.forall_mem_map.mpr fun item member => ?_)
    exact below item member _ (all_eq_true.mp decided _ (List.mem_map_of_mem member))

theorem any_map_below : Below (any (items.map f)) (any (items.map g)) := by
  rintro (_ | _) decided
  · refine any_eq_false.mpr (List.forall_mem_map.mpr fun item member => ?_)
    exact below item member _ (any_eq_false.mp decided _ (List.mem_map_of_mem member))
  · obtain ⟨item, member, isTrue⟩ := List.mem_map.mp (any_eq_true.mp decided)
    exact any_eq_true.mpr (List.mem_map.mpr ⟨item, member, below item member _ isTrue⟩)

/-- Nothing is open any more, so nothing changes. -/
theorem one_map_below : Below (one (items.map f)) (one (items.map g)) := by
  intro answer decided
  have noOpen : none ∉ items.map f := by
    intro isOpen
    rw [one, if_pos (List.contains_iff_mem.mpr isOpen)] at decided
    cases decided
  have same : items.map f = items.map g := by
    refine List.map_congr_left fun item member => ?_
    cases value : f item with
    | none => exact absurd (List.mem_map.mpr ⟨item, member, value⟩) noOpen
    | some answer => exact (below item member answer value).symm
  rw [← same]
  exact decided

end Map

/-- One item is true, and all before and behind it are false. -/
theorem one_map_eq_true {items : List α} {f : α → Option Bool} :
    one (items.map f) = some true ↔ ∃ before item after, items = before ++ item :: after ∧
      f item = some true ∧ ∀ other ∈ before ++ after, f other = some false := by
  rw [one_eq_true]
  constructor
  · rintro ⟨noOpen, once⟩
    obtain ⟨item, member, isTrue⟩ := List.mem_map.mp (List.count_pos_iff.mp (once ▸ Nat.one_pos))
    obtain ⟨before, after, rfl⟩ := List.append_of_mem member
    have noMore : some true ∉ (before ++ after).map f := by
      rw [← List.count_eq_zero]
      simp only [List.map_append, List.map_cons, List.count_append, isTrue, List.count_cons_self] at once ⊢
      omega
    refine ⟨before, item, after, rfl, isTrue, fun other among => ?_⟩
    have present : other ∈ before ++ item :: after := by
      rcases List.mem_append.mp among with ahead | behind
      · exact List.mem_append_left _ ahead
      · exact List.mem_append_right _ (List.mem_cons_of_mem _ behind)
    match value : f other with
    | some false => rfl
    | some true => exact absurd (List.mem_map.mpr ⟨other, among, value⟩) noMore
    | none => exact absurd (List.mem_map.mpr ⟨other, present, value⟩) noOpen
  · rintro ⟨before, item, after, rfl, isTrue, others⟩
    have noMore (list : List α) (within : ∀ other ∈ list, other ∈ before ++ after) :
        (list.map f).count (some true) = 0 ∧ none ∉ list.map f := by
      constructor
      · refine List.count_eq_zero.mpr fun isTrue => ?_
        obtain ⟨other, member, value⟩ := List.mem_map.mp isTrue
        cases value.symm.trans (others other (within other member))
      · intro isOpen
        obtain ⟨other, member, value⟩ := List.mem_map.mp isOpen
        cases value.symm.trans (others other (within other member))
    obtain ⟨noneAhead, closedAhead⟩ := noMore before fun _ member => List.mem_append_left _ member
    obtain ⟨noneBehind, closedBehind⟩ := noMore after fun _ member => List.mem_append_right _ member
    simp only [List.map_append, List.map_cons, isTrue, List.mem_append, List.mem_cons, List.count_append,
      List.count_cons_self, noneAhead, noneBehind]
    simp [closedAhead, closedBehind]

end Kleene
