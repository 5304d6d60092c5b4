import Ceramic.QueryFilterConverter

/-! Which filters the parser accepts, and which of the trees it makes of them can be converted. -/
namespace Ceramic

open ThreeValued QueryFilterParser QueryFilterConverter

namespace ApiQueryFilters

/-- A filter at some depth of another. -/
inductive Part : ApiQueryFilters → ApiQueryFilters → Prop where
  | refl (filter : ApiQueryFilters) : Part filter filter
  | and {part child : ApiQueryFilters} {filters : List ApiQueryFilters} :
      child ∈ filters → Part part child → Part part (.and filters)
  | or {part child : ApiQueryFilters} {filters : List ApiQueryFilters} :
      child ∈ filters → Part part child → Part part (.or filters)
  | not {part filter : ApiQueryFilters} : Part part filter → Part part (.not filter)

def Everywhere (P : ApiQueryFilters → Prop) (filter : ApiQueryFilters) : Prop :=
  ∀ part, Part part filter → P part

variable {P : ApiQueryFilters → Prop}

theorem Everywhere.here {filter : ApiQueryFilters} (all : Everywhere P filter) : P filter := all filter (.refl filter)

@[simp] theorem everywhere_where (fields : ApiObjectFilter) : Everywhere P (.where fields) ↔ P (.where fields) := by
  refine ⟨Everywhere.here, fun here part isPart => ?_⟩
  cases isPart
  exact here

@[simp] theorem everywhere_other (keys : List String) : Everywhere P (.other keys) ↔ P (.other keys) := by
  refine ⟨Everywhere.here, fun here part isPart => ?_⟩
  cases isPart
  exact here

@[simp] theorem everywhere_and (filters : List ApiQueryFilters) :
    Everywhere P (.and filters) ↔ P (.and filters) ∧ ∀ child ∈ filters, Everywhere P child := by
  constructor
  · exact fun all => ⟨all.here, fun child member part isPart => all part (.and member isPart)⟩
  · rintro ⟨here, children⟩ part isPart
    cases isPart with
    | refl => exact here
    | and member inside => exact children _ member part inside

@[simp] theorem everywhere_or (filters : List ApiQueryFilters) :
    Everywhere P (.or filters) ↔ P (.or filters) ∧ ∀ child ∈ filters, Everywhere P child := by
  constructor
  · exact fun all => ⟨all.here, fun child member part isPart => all part (.or member isPart)⟩
  · rintro ⟨here, children⟩ part isPart
    cases isPart with
    | refl => exact here
    | or member inside => exact children _ member part inside

@[simp] theorem everywhere_not (filter : ApiQueryFilters) :
    Everywhere P (.not filter) ↔ P (.not filter) ∧ Everywhere P filter := by
  constructor
  · exact fun all => ⟨all.here, fun part isPart => all part (.not isPart)⟩
  · rintro ⟨here, child⟩ part isPart
    cases isPart with
    | refl => exact here
    | not inside => exact child part inside

theorem induction (fields : ∀ value, P (.where value)) (all : ∀ filters, (∀ child ∈ filters, P child) → P (.and filters))
    (any : ∀ filters, (∀ child ∈ filters, P child) → P (.or filters)) (negation : ∀ filter, P filter → P (.not filter))
    (others : ∀ keys, P (.other keys)) : ∀ filter, P filter
  | .where value => fields value
  | .and filters => all filters fun child _ => induction fields all any negation others child
  | .or filters => any filters fun child _ => induction fields all any negation others child
  | .not filter => negation filter (induction fields all any negation others filter)
  | .other keys => others keys

end ApiQueryFilters

/-- A condition that the converter takes: a list of values is not empty. -/
def AllValueFilter.Supported : AllValueFilter → Prop
  | .inArray _ value | .nin _ value => value ≠ []
  | .null _ _ | .compare _ _ _ => True

/-- A tree in which every node is there, and each `where` has one key with a supported condition. -/
inductive QueryFilters.WellFormed : QueryFilters → Prop where
  | where (key : String) {filter : AllValueFilter} : filter.Supported → WellFormed (.where [(key, some filter)])
  | and {filters : List QueryFilters} : (∀ child ∈ filters, WellFormed child) → WellFormed (.and filters)
  | or {filters : List QueryFilters} : (∀ child ∈ filters, WellFormed child) → WellFormed (.or filters)
  | not {filter : QueryFilters} : WellFormed filter → WellFormed (.not filter)

namespace QueryFilterConverter

theorem handleWhereQuery_supported {filter : AllValueFilter} (supported : filter.Supported) (key : String)
    (combinator : Option Connective) (negated : Bool) :
    ∃ converted, handleWhereQuery { filter := [(key, some filter)], combinator, negated } = .ok converted := by
  cases filter with
  | null type value => exact ⟨_, rfl⟩
  | compare type op value => exact ⟨_, rfl⟩
  | inArray type value =>
    obtain ⟨first, rest, rfl⟩ := List.exists_cons_of_ne_nil supported
    exact ⟨_, rfl⟩
  | nin type value =>
    obtain ⟨first, rest, rfl⟩ := List.exists_cons_of_ne_nil supported
    exact ⟨_, rfl⟩

theorem convertAll_converts {filters : List QueryFilters} (combinator : Connective)
    (each : ∀ filter ∈ filters, ∃ converted, convert (some combinator) false filter = .ok converted) :
    ∃ converted, convertAll combinator filters = .ok converted := by
  induction filters with
  | nil => exact ⟨[], rfl⟩
  | cons filter filters ih =>
    obtain ⟨first, converts⟩ := each filter List.mem_cons_self
    obtain ⟨rest, convertsRest⟩ := ih fun other member => each other (List.mem_cons_of_mem _ member)
    refine ⟨first :: rest, ?_⟩
    rw [convertAll]
    exact bind_eq_ok.mpr ⟨first, converts, bind_eq_ok.mpr ⟨rest, convertsRest, rfl⟩⟩

/-- Such a tree is converted, under whatever node it stands. -/
theorem convert_wellFormed {tree : QueryFilters} (formed : tree.WellFormed) (combinator : Option Connective)
    (negated : Bool) : ∃ converted, convert combinator negated tree = .ok converted := by
  induction formed generalizing combinator negated with
  | «where» key supported =>
    rw [convert]
    exact handleWhereQuery_supported supported key combinator negated
  | and _ ih =>
    obtain ⟨converted, children⟩ := convertAll_converts .and fun child member => ih child member _ _
    refine ⟨handleCombinator .and converted negated, ?_⟩
    rw [convert]
    exact bind_eq_ok.mpr ⟨converted, children, rfl⟩
  | or _ ih =>
    obtain ⟨converted, children⟩ := convertAll_converts .or fun child member => ih child member _ _
    refine ⟨handleCombinator .or converted negated, ?_⟩
    rw [convert]
    exact bind_eq_ok.mpr ⟨converted, children, rfl⟩
  | not _ ih =>
    rw [convert]
    exact ih combinator !negated

theorem convertQueryFilter_wellFormed {tree : QueryFilters} (formed : tree.WellFormed) :
    ∃ converted, convertQueryFilter tree = .ok converted := by
  obtain ⟨converted, converts⟩ := convert_wellFormed formed none false
  refine ⟨converted, ?_⟩
  cases formed <;> exact converts

end QueryFilterConverter

namespace QueryFilterParser

/-- An operator that the parser takes: a list of values is not empty. -/
def Known : ApiValueFilter → Prop
  | .other _ => False
  | .inArray value | .notIn value => value ≠ []
  | _ => True

def IsLowerBound : ApiValueFilter → Prop
  | .greaterThan _ | .greaterThanOrEqualTo _ => True
  | _ => False

def IsUpperBound : ApiValueFilter → Prop
  | .lessThan _ | .lessThanOrEqualTo _ => True
  | _ => False

/-- The operators of a field: one, or a lower and an upper bound. -/
def Combine (ops : List ApiValueFilter) : Prop :=
  ops.length ≤ 1 ∨ ∃ low high, IsLowerBound low ∧ IsUpperBound high ∧ (ops = [low, high] ∨ ops = [high, low])

theorem parseValueFilter_ok {op : ApiValueFilter} :
    (∃ parsed, parseValueFilter op = .ok parsed) ↔ Known op := by
  cases op with
  | inArray value => cases value <;> simp [parseValueFilter, Known]
  | notIn value => cases value <;> simp [parseValueFilter, Known]
  | _ => simp [parseValueFilter, compareFilter, Known]

theorem supported_parsed {op : ApiValueFilter} {parsed : AllValueFilter} (h : parseValueFilter op = .ok parsed) :
    parsed.Supported := by
  cases op with
  | inArray value =>
    cases value with
    | nil => cases h
    | cons first rest =>
      obtain rfl := Except.ok.inj h
      exact List.cons_ne_nil first rest
  | notIn value =>
    cases value with
    | nil => cases h
    | cons first rest =>
      obtain rfl := Except.ok.inj h
      exact List.cons_ne_nil first rest
  | other key => cases h
  | _ =>
    obtain rfl := Except.ok.inj h
    trivial

theorem startsWith_greaterThan {op : ApiValueFilter} (known : Known op) :
    startsWith op.key "greaterThan" = true ↔ IsLowerBound op := by
  cases op with
  | other key => exact absurd known id
  | _ => simp only [ApiValueFilter.key, IsLowerBound]; decide

theorem startsWith_lessThan {op : ApiValueFilter} (known : Known op) :
    startsWith op.key "lessThan" = true ↔ IsUpperBound op := by
  cases op with
  | other key => exact absurd known id
  | _ => simp only [ApiValueFilter.key, IsUpperBound]; decide

theorem lowerBound_first {low high : ApiValueFilter} (isLow : IsLowerBound low) (isHigh : IsUpperBound high) :
    low.key < high.key ∧ ¬high.key < low.key := by
  cases low <;> first | exact isLow.elim | skip
  all_goals cases high <;> first | exact isHigh.elim | skip
  all_goals simp only [ApiValueFilter.key]; decide

theorem validateCombinedOps_perm {ops sorted : List ApiValueFilter} (h : validateCombinedOps ops = .ok sorted) :
    sorted.Perm ops := by
  unfold validateCombinedOps at h
  split at h
  next first second =>
    by_cases swapped : second.key < first.key
    · rw [if_pos swapped] at h
      dsimp only at h
      split at h
      · cases h
      · obtain rfl := Except.ok.inj h
        exact .swap first second []
    · rw [if_neg swapped] at h
      dsimp only at h
      split at h
      · cases h
      · obtain rfl := Except.ok.inj h
        exact .refl _
  next => cases h
  next =>
    obtain rfl := Except.ok.inj h
    exact .refl _

/-- Two operators are accepted together if one is a lower and the other an upper bound. -/
theorem validateCombinedOps_pair {first second : ApiValueFilter} (known : Known first) (known' : Known second) :
    (∃ sorted, validateCombinedOps [first, second] = .ok sorted) ↔
      (IsLowerBound first ∧ IsUpperBound second) ∨ (IsLowerBound second ∧ IsUpperBound first) := by
  -- the two in the order of their keys
  have ordered {low high : ApiValueFilter} (isLow : Known low) (isHigh : Known high) :
      (!startsWith low.key "greaterThan" || !startsWith high.key "lessThan") = false ↔
        IsLowerBound low ∧ IsUpperBound high := by
    simp [← startsWith_greaterThan isLow, ← startsWith_lessThan isHigh]
  by_cases swapped : second.key < first.key
  · have notFirst : ¬(IsLowerBound first ∧ IsUpperBound second) := fun both =>
      (lowerBound_first both.1 both.2).2 swapped
    rw [or_iff_right notFirst, ← ordered known' known]
    cases bounds : (!startsWith second.key "greaterThan" || !startsWith first.key "lessThan") <;>
      simp [validateCombinedOps, swapped, bounds]
  · have notSecond : ¬(IsLowerBound second ∧ IsUpperBound first) := fun both =>
      swapped (lowerBound_first both.1 both.2).1
    rw [or_iff_left notSecond, ← ordered known known']
    cases bounds : (!startsWith first.key "greaterThan" || !startsWith second.key "lessThan") <;>
      simp [validateCombinedOps, swapped, bounds]

theorem validateCombinedOps_ok_iff {ops : List ApiValueFilter} (known : ∀ op ∈ ops, Known op) :
    (∃ sorted, validateCombinedOps ops = .ok sorted) ↔ Combine ops := by
  unfold Combine
  rcases ops with _ | ⟨first, _ | ⟨second, _ | ⟨third, rest⟩⟩⟩
  · exact iff_of_true ⟨[], rfl⟩ (.inl (by simp))
  · exact iff_of_true ⟨[first], rfl⟩ (.inl (by simp))
  · rw [validateCombinedOps_pair (known first (by simp)) (known second (by simp))]
    constructor
    · rintro (⟨low, high⟩ | ⟨low, high⟩)
      · exact .inr ⟨first, second, low, high, .inl rfl⟩
      · exact .inr ⟨second, first, low, high, .inr rfl⟩
    · rintro (short | ⟨low, high, isLow, isHigh, same | same⟩)
      · simp at short
      · obtain ⟨rfl, rfl⟩ : first = low ∧ second = high := by simpa using same
        exact .inl ⟨isLow, isHigh⟩
      · obtain ⟨rfl, rfl⟩ : first = high ∧ second = low := by simpa using same
        exact .inr ⟨isLow, isHigh⟩
  · refine iff_of_false ?_ ?_
    · rintro ⟨sorted, h⟩
      cases h
    · rintro (short | ⟨low, high, _, _, same | same⟩)
      · simp at short
      · simp at same
      · simp at same

/-- The operators of a field are accepted: each is known, and together they are one or the bounds of a range. -/
def OperatorsAdmitted (ops : List ApiValueFilter) : Prop := (∀ op ∈ ops, Known op) ∧ Combine ops

theorem parseField_ok {field : String × List ApiValueFilter} :
    (∃ entry, parseField field = .ok entry) ↔ OperatorsAdmitted field.2 := by
  constructor
  · rintro ⟨entry, h⟩
    obtain ⟨sorted, validated, h⟩ := bind_eq_ok.mp h
    obtain ⟨values, parsed, _⟩ := bind_eq_ok.mp h
    have known : ∀ op ∈ field.2, Known op := by
      intro op member
      have sortedOp := (validateCombinedOps_perm validated).mem_iff.mpr member
      obtain ⟨value, _, isParsed⟩ := exists_of_forall₂ (mapM_ok parsed) sortedOp
      exact parseValueFilter_ok.mp ⟨value, isParsed⟩
    exact ⟨known, (validateCombinedOps_ok_iff known).mp ⟨sorted, validated⟩⟩
  · rintro ⟨known, combine⟩
    obtain ⟨sorted, validated⟩ := (validateCombinedOps_ok_iff known).mpr combine
    obtain ⟨values, parsed⟩ := mapM_exists fun op (member : op ∈ sorted) =>
      parseValueFilter_ok.mpr (known op ((validateCombinedOps_perm validated).mem_iff.mp member))
    exact ⟨(field.1, values), bind_eq_ok.mpr ⟨sorted, validated, bind_eq_ok.mpr ⟨values, parsed, rfl⟩⟩⟩

theorem parseObjectFilter_ok {fields : ApiObjectFilter} :
    (∃ entries, parseObjectFilter fields = .ok entries) ↔ ∀ field ∈ fields, OperatorsAdmitted field.2 := by
  constructor
  · rintro ⟨entries, h⟩ field member
    obtain ⟨entry, _, parsed⟩ := exists_of_forall₂ (mapM_ok h) member
    exact parseField_ok.mp ⟨entry, parsed⟩
  · intro admitted
    exact mapM_exists fun field member => parseField_ok.mpr (admitted field member)

/-- What is parsed of a field has a condition for each operator, and each is supported. -/
theorem parseField_entry {field entry : String × List _} (h : parseField field = .ok entry) :
    entry.2.length = field.2.length ∧ ∀ filter ∈ entry.2, AllValueFilter.Supported filter := by
  obtain ⟨sorted, validated, h⟩ := bind_eq_ok.mp h
  obtain ⟨values, parsed, returned⟩ := bind_eq_ok.mp h
  obtain rfl : (field.1, values) = entry := Except.ok.inj returned
  have each := mapM_ok parsed
  refine ⟨each.length_eq.symm.trans (validateCombinedOps_perm validated).length_eq, fun filter member => ?_⟩
  obtain ⟨op, _, isParsed⟩ := exists_of_forall₂ each.flip member
  exact supported_parsed isParsed

/-- A key with conditions becomes a well-formed tree. -/
theorem wellFormed_whereOfKey {entry : String × List AllValueFilter} (supported : ∀ filter ∈ entry.2, filter.Supported) :
    (whereOfKey entry).WellFormed ↔ entry.2 ≠ [] := by
  obtain ⟨key, values⟩ := entry
  rcases values with _ | ⟨first, _ | ⟨second, rest⟩⟩
  · refine iff_of_false (fun formed => ?_) (fun nonempty => nonempty rfl)
    cases formed
  · exact iff_of_true (.where key (supported first List.mem_cons_self)) (List.cons_ne_nil _ _)
  · refine iff_of_true (.and fun child member => ?_) (List.cons_ne_nil _ _)
    obtain ⟨filter, inValues, rfl⟩ := List.mem_map.mp member
    exact .where key (supported filter inValues)

theorem wellFormed_combineKeys {children : List QueryFilters} :
    (combineKeys children).WellFormed ↔ children ≠ [] ∧ ∀ child ∈ children, child.WellFormed := by
  rcases children with _ | ⟨first, _ | ⟨second, rest⟩⟩
  · refine iff_of_false (fun formed => ?_) (fun both => both.1 rfl)
    cases formed
  · simp [combineKeys]
  · rw [and_iff_right (List.cons_ne_nil _ _)]
    constructor
    · rintro (⟨⟩ | formed)
      exact formed
    · exact .and

end QueryFilterParser

namespace ApiQueryFilters

/-- The part has one of the four keys, and operators that the parser takes. -/
def Admitted : ApiQueryFilters → Prop
  | .where fields => ∀ field ∈ fields, OperatorsAdmitted field.2
  | .other _ => False
  | _ => True

/-- A `where` has a field, and each field an operator. -/
def Filled : ApiQueryFilters → Prop
  | .where fields => fields ≠ [] ∧ ∀ field ∈ fields, field.2 ≠ []
  | _ => True

/-- An empty `where`, one with a field that has no operator, or an empty object. -/
def Empty : ApiQueryFilters → Prop
  | .where fields => fields = [] ∨ ∃ field ∈ fields, field.2 = []
  | .other keys => keys = []
  | _ => False

end ApiQueryFilters

namespace QueryFilterParser

theorem parseAll_eq_mapM (filters : List ApiQueryFilters) : parseAll filters = filters.mapM parseQueryFilters := by
  induction filters with
  | nil => rfl
  | cons filter filters ih => rw [parseAll, List.mapM_cons, ih]

theorem parseAll_ok {filters : List ApiQueryFilters} :
    (∃ trees, parseAll filters = .ok trees) ↔ ∀ filter ∈ filters, ∃ tree, parseQueryFilters filter = .ok tree := by
  rw [parseAll_eq_mapM]
  constructor
  · rintro ⟨trees, parsed⟩ filter member
    obtain ⟨tree, _, isParsed⟩ := exists_of_forall₂ (mapM_ok parsed) member
    exact ⟨tree, isParsed⟩
  · exact mapM_exists

/-- The filters that the parser accepts. -/
theorem parseQueryFilters_ok {filter : ApiQueryFilters} :
    (∃ tree, parseQueryFilters filter = .ok tree) ↔ filter.Everywhere ApiQueryFilters.Admitted := by
  induction filter using ApiQueryFilters.induction with
  | fields value =>
    rw [ApiQueryFilters.everywhere_where, ApiQueryFilters.Admitted, ← parseObjectFilter_ok]
    simp only [parseQueryFilters, bind_eq_ok]
    exact ⟨fun ⟨_, entries, parsed, _⟩ => ⟨entries, parsed⟩, fun ⟨entries, parsed⟩ => ⟨_, entries, parsed, rfl⟩⟩
  | all filters ih =>
    rw [ApiQueryFilters.everywhere_and, and_iff_right (show ApiQueryFilters.Admitted (.and filters) from trivial),
      ← forall₂_congr ih, ← parseAll_ok]
    simp only [parseQueryFilters, bind_eq_ok]
    exact ⟨fun ⟨_, trees, parsed, _⟩ => ⟨trees, parsed⟩, fun ⟨trees, parsed⟩ => ⟨_, trees, parsed, rfl⟩⟩
  | any filters ih =>
    rw [ApiQueryFilters.everywhere_or, and_iff_right (show ApiQueryFilters.Admitted (.or filters) from trivial),
      ← forall₂_congr ih, ← parseAll_ok]
    simp only [parseQueryFilters, bind_eq_ok]
    exact ⟨fun ⟨_, trees, parsed, _⟩ => ⟨trees, parsed⟩, fun ⟨trees, parsed⟩ => ⟨_, trees, parsed, rfl⟩⟩
  | negation filter ih =>
    rw [ApiQueryFilters.everywhere_not, and_iff_right (show ApiQueryFilters.Admitted (.not filter) from trivial), ← ih]
    simp only [parseQueryFilters, bind_eq_ok]
    exact ⟨fun ⟨_, tree, parsed, _⟩ => ⟨tree, parsed⟩, fun ⟨tree, parsed⟩ => ⟨_, tree, parsed, rfl⟩⟩
  | others keys =>
    rw [ApiQueryFilters.everywhere_other]
    refine iff_of_false ?_ id
    rintro ⟨tree, parsed⟩
    rw [parseQueryFilters] at parsed
    split at parsed <;> cases parsed

/-- What it makes of them is well formed if nothing in them is left empty. -/
theorem wellFormed_parsed {filter : ApiQueryFilters} {tree : QueryFilters} (parsed : parseQueryFilters filter = .ok tree) :
    tree.WellFormed ↔ filter.Everywhere ApiQueryFilters.Filled := by
  have children {filters : List ApiQueryFilters} {trees : List QueryFilters} (parsed : parseAll filters = .ok trees)
      (ih : ∀ child ∈ filters, ∀ {tree}, parseQueryFilters child = .ok tree →
        (tree.WellFormed ↔ child.Everywhere ApiQueryFilters.Filled)) :
      (∀ tree ∈ trees, tree.WellFormed) ↔ ∀ child ∈ filters, child.Everywhere ApiQueryFilters.Filled := by
    rw [parseAll_eq_mapM] at parsed
    have each := mapM_ok parsed
    constructor
    · intro formed child member
      obtain ⟨tree, inTrees, isParsed⟩ := exists_of_forall₂ each member
      exact (ih child member isParsed).mp (formed tree inTrees)
    · intro filled tree member
      obtain ⟨child, inFilters, isParsed⟩ := exists_of_forall₂ each.flip member
      exact (ih child inFilters isParsed).mpr (filled child inFilters)
  induction filter using ApiQueryFilters.induction generalizing tree with
  | fields value =>
    rw [parseQueryFilters] at parsed
    obtain ⟨entries, found, returned⟩ := bind_eq_ok.mp parsed
    obtain rfl : combineKeys (entries.map whereOfKey) = tree := Except.ok.inj returned
    have each := mapM_ok found
    have sameLength : entries.length = value.length := each.length_eq.symm
    rw [ApiQueryFilters.everywhere_where, ApiQueryFilters.Filled, wellFormed_combineKeys, List.forall_mem_map,
      ← List.length_pos_iff, List.length_map, sameLength, List.length_pos_iff]
    refine and_congr_right fun _ => ⟨fun formed field member => ?_, fun filled entry member => ?_⟩
    · obtain ⟨entry, inEntries, isParsed⟩ := exists_of_forall₂ each member
      obtain ⟨same, supported⟩ := parseField_entry isParsed
      have nonempty := (wellFormed_whereOfKey supported).mp (formed entry inEntries)
      rwa [← List.length_pos_iff, same, List.length_pos_iff] at nonempty
    · obtain ⟨field, inFields, isParsed⟩ := exists_of_forall₂ each.flip member
      obtain ⟨same, supported⟩ := parseField_entry isParsed
      refine (wellFormed_whereOfKey supported).mpr ?_
      rw [← List.length_pos_iff, same, List.length_pos_iff]
      exact filled field inFields
  | all filters ih =>
    rw [parseQueryFilters] at parsed
    obtain ⟨trees, found, returned⟩ := bind_eq_ok.mp parsed
    obtain rfl : QueryFilters.and trees = tree := Except.ok.inj returned
    rw [ApiQueryFilters.everywhere_and, and_iff_right (show ApiQueryFilters.Filled (.and filters) from trivial),
      ← children found ih]
    refine ⟨fun formed => ?_, .and⟩
    cases formed with
    | and each => exact each
  | any filters ih =>
    rw [parseQueryFilters] at parsed
    obtain ⟨trees, found, returned⟩ := bind_eq_ok.mp parsed
    obtain rfl : QueryFilters.or trees = tree := Except.ok.inj returned
    rw [ApiQueryFilters.everywhere_or, and_iff_right (show ApiQueryFilters.Filled (.or filters) from trivial),
      ← children found ih]
    refine ⟨fun formed => ?_, .or⟩
    cases formed with
    | or each => exact each
  | negation filter ih =>
    rw [parseQueryFilters] at parsed
    obtain ⟨child, found, returned⟩ := bind_eq_ok.mp parsed
    obtain rfl : QueryFilters.not child = tree := Except.ok.inj returned
    have same : child.WellFormed ↔ filter.Everywhere ApiQueryFilters.Filled := ih found
    rw [ApiQueryFilters.everywhere_not, and_iff_right (show ApiQueryFilters.Filled (.not filter) from trivial), ← same]
    refine ⟨fun formed => ?_, .not⟩
    cases formed with
    | not child => exact child
  | others keys =>
    rw [parseQueryFilters] at parsed
    split at parsed <;> cases parsed

end QueryFilterParser

/-- The parser and the converter do right by a filter: a tree that is accepted is well formed and can be converted,
and a filter with an empty part is refused. -/
def ApiQueryFilters.WellHandled (filter : ApiQueryFilters) : Prop :=
  (∀ tree, parseQueryFilters filter = .ok tree →
    tree.WellFormed ∧ ∃ converted, convertQueryFilter tree = .ok converted) ∧
  ∀ part, Part part filter → part.Empty → ∃ e, parseQueryFilters filter = .error e

/-- That is so unless a `where` is empty, or a field has no operator, in a filter in which the parser has nothing
else to refuse. -/
theorem wellHandled_iff (filter : ApiQueryFilters) :
    filter.WellHandled ↔ (filter.Everywhere ApiQueryFilters.Admitted → filter.Everywhere ApiQueryFilters.Filled) := by
  constructor
  · rintro ⟨accepted, _⟩ admitted
    obtain ⟨tree, parsed⟩ := parseQueryFilters_ok.mpr admitted
    exact (wellFormed_parsed parsed).mp (accepted tree parsed).1
  · intro filled
    refine ⟨fun tree parsed => ?_, fun part isPart empty => ?_⟩
    · have formed := (wellFormed_parsed parsed).mpr (filled (parseQueryFilters_ok.mp ⟨tree, parsed⟩))
      exact ⟨formed, convertQueryFilter_wellFormed formed⟩
    · cases parsed : parseQueryFilters filter with
      | error e => exact ⟨e, rfl⟩
      | ok tree =>
        have admitted := parseQueryFilters_ok.mp ⟨tree, parsed⟩
        have here := filled admitted part isPart
        cases part with
        | «where» fields =>
          rcases empty with none | ⟨field, member, none⟩
          · exact absurd none here.1
          · exact absurd none (here.2 field member)
        | other keys => exact absurd (admitted _ isPart) id
        | and filters => exact empty.elim
        | or filters => exact empty.elim
        | not filter => exact empty.elim

/-- A field without an operator is accepted, and the converter reads its condition, which is not there. -/
theorem fieldWithoutOperator_accepted :
    parseQueryFilters (.where [("name", [])]) = .ok (.where [("name", none)]) ∧
    convertQueryFilter (.where [("name", none)]) = .error ⟨"Cannot read properties of undefined (reading 'op')"⟩ ∧
    ¬ApiQueryFilters.WellHandled (.where [("name", [])]) := by
  refine ⟨rfl, rfl, fun handled => ?_⟩
  have formed := (handled.1 _ rfl).1
  cases formed

end Ceramic
