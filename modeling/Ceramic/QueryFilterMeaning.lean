import Ceramic.QueryFilterConverter

/-! What a query filter means for a row, and what its SQL condition means. They agree but
for `notIn`, which becomes `in`. -/
namespace Ceramic

open ThreeValued QueryFilterParser QueryFilterConverter

/-- The text of each field of a row's content, or `NULL`. -/
abbrev Row := String → Option String

/-- How the database compares a field's text, cast to a type, with a literal. -/
structure Database where
  compare : Cast → CompareOp → String → ScalarValue → Bool

namespace Database

variable (db : Database) (row : Row)

def isNull (field : String) (value : Bool) : Truth := .ofBool ((row field).isNone == value)

def compareField (field : String) (cast : Cast) (op : CompareOp) (value : ScalarValue) : Truth :=
  match row field with
  | none => .unknown
  | some text => .ofBool (db.compare cast op text value)

def membership (field : String) (cast : Cast) (values : List ScalarValue) : Truth :=
  match row field with
  | none => .unknown
  | some text => .ofBool (values.any fun value => db.compare cast .eq text value)

end Database

/-- The truth value of a field's condition, and in what sense `notIn` is the opposite of `in`. -/
def ApiValueFilter.truth (notIn : Truth → Truth) (db : Database) (row : Row) (field : String) :
    ApiValueFilter → Truth
  | .isNull value => Database.isNull row field value
  | .equalTo value => db.compareField row field (typeAsCast (getValueType value)) .eq value
  | .notEqualTo value => db.compareField row field (typeAsCast (getValueType value)) .ne value
  | .lessThan value => db.compareField row field (typeAsCast (getValueType value)) .lt value
  | .lessThanOrEqualTo value => db.compareField row field (typeAsCast (getValueType value)) .le value
  | .greaterThan value => db.compareField row field (typeAsCast (getValueType value)) .gt value
  | .greaterThanOrEqualTo value =>
    db.compareField row field (typeAsCast (getValueType value)) .ge value
  | .inArray values => db.membership row field (listCast values) values
  | .notIn values => notIn (db.membership row field (listCast values) values)
  | .other _ => .unknown
where
  /-- A list is compared as its first value is. -/
  listCast : List ScalarValue → Cast
    | first :: _ => nonBooleanTypeAsCast (getNonBooleanValueType first)
    | [] => .varchar

mutual
def ApiQueryFilters.truth (notIn : Truth → Truth) (db : Database) (row : Row) :
    ApiQueryFilters → Truth
  | .where fields => .all (fields.map fun field =>
      .all (field.2.map (ApiValueFilter.truth notIn db row field.1)))
  | .and filters => .all (ApiQueryFilters.truths notIn db row filters)
  | .or filters => .any (ApiQueryFilters.truths notIn db row filters)
  | .not filter => (ApiQueryFilters.truth notIn db row filter).not
  | .other _ => .unknown

def ApiQueryFilters.truths (notIn : Truth → Truth) (db : Database) (row : Row) :
    List ApiQueryFilters → List Truth
  | [] => []
  | filter :: filters => ApiQueryFilters.truth notIn db row filter ::
      ApiQueryFilters.truths notIn db row filters
end

/-- The truth value of a filter. -/
def ApiQueryFilters.meaning (db : Database) (row : Row) (filter : ApiQueryFilters) : Truth :=
  filter.truth Truth.not db row

/-- The truth value of a filter in which every `notIn` is read as `in`. -/
def ApiQueryFilters.meaningWithIn (db : Database) (row : Row) (filter : ApiQueryFilters) : Truth :=
  filter.truth id db row

mutual
/-- No field of the filter has a `notIn`. -/
def ApiQueryFilters.WithoutNotIn : ApiQueryFilters → Prop
  | .where fields => ∀ field ∈ fields, ∀ values, .notIn values ∉ field.2
  | .and filters | .or filters => ApiQueryFilters.AllWithoutNotIn filters
  | .not filter => filter.WithoutNotIn
  | .other _ => True

def ApiQueryFilters.AllWithoutNotIn : List ApiQueryFilters → Prop
  | [] => True
  | filter :: filters => filter.WithoutNotIn ∧ ApiQueryFilters.AllWithoutNotIn filters
end

mutual
/-- Every `where` has a field, every field a condition, and every `and` and `or` a child. -/
def ApiQueryFilters.Populated : ApiQueryFilters → Prop
  | .where fields => fields ≠ [] ∧ ∀ field ∈ fields, field.2 ≠ []
  | .and filters | .or filters => filters ≠ [] ∧ ApiQueryFilters.AllPopulated filters
  | .not filter => filter.Populated
  | .other _ => True

def ApiQueryFilters.AllPopulated : List ApiQueryFilters → Prop
  | [] => True
  | filter :: filters => filter.Populated ∧ ApiQueryFilters.AllPopulated filters
end

def RawCondition.truth (db : Database) (row : Row) : RawCondition → Truth
  | .nullCheck field value => Database.isNull row field value
  | .compare field cast op value => db.compareField row field cast op value
  | .membership field cast negated values =>
    Truth.signed negated (db.membership row field cast values)

mutual
/-- A statement without text is left out of its group. -/
def Statement.truth (db : Database) (row : Row) : Statement → Option (Connective × Truth)
  | .raw negated bool condition => some (bool, Truth.signed negated (condition.truth db row))
  | .wrapped negated bool group =>
    match Statement.terms db row group with
    | [] => none
    | term :: rest => some (bool, Truth.signed negated (joined (term :: rest)))

def Statement.terms (db : Database) (row : Row) : List Statement → List (Connective × Truth)
  | [] => []
  | statement :: group =>
    match statement.truth db row with
    | none => Statement.terms db row group
    | some term => term :: Statement.terms db row group
end

/-- The condition as the query for a page asks for it, in a group of its own. -/
def ConvertedQueryFilter.truth (db : Database) (row : Row) (converted : ConvertedQueryFilter) : Truth :=
  joined (Statement.terms db row (DBQuery.where_ [] converted.whereFunc))

variable {db : Database} {row : Row}

theorem truths_ne_nil {notIn : Truth → Truth} {filters : List ApiQueryFilters} (nonempty : filters ≠ []) :
    ApiQueryFilters.truths notIn db row filters ≠ [] := by
  obtain ⟨filter, rest, rfl⟩ := List.exists_cons_of_ne_nil nonempty
  rw [ApiQueryFilters.truths]
  exact List.cons_ne_nil _ _

theorem fields_truth_eq {fields : ApiObjectFilter}
    (absent : ∀ field ∈ fields, ∀ values, .notIn values ∉ field.2) (f g : Truth → Truth) :
    (ApiQueryFilters.where fields).truth f db row = (ApiQueryFilters.where fields).truth g db row := by
  rw [ApiQueryFilters.truth, ApiQueryFilters.truth]
  congr 1
  refine List.map_congr_left fun field member => ?_
  congr 1
  refine List.map_congr_left fun condition conditionMember => ?_
  cases condition with
  | notIn values => exact absurd conditionMember (absent field member values)
  | _ => rfl

mutual
/-- Without `notIn` it does not matter how `notIn` is read. -/
theorem truth_eq_of_withoutNotIn (f g : Truth → Truth) : (filter : ApiQueryFilters) →
    filter.WithoutNotIn → filter.truth f db row = filter.truth g db row
  | .where fields, absent => by
    rw [ApiQueryFilters.WithoutNotIn] at absent
    exact fields_truth_eq absent f g
  | .and filters, absent => by
    rw [ApiQueryFilters.WithoutNotIn] at absent
    rw [ApiQueryFilters.truth, ApiQueryFilters.truth, truths_eq_of_withoutNotIn f g filters absent]
  | .or filters, absent => by
    rw [ApiQueryFilters.WithoutNotIn] at absent
    rw [ApiQueryFilters.truth, ApiQueryFilters.truth, truths_eq_of_withoutNotIn f g filters absent]
  | .not filter, absent => by
    rw [ApiQueryFilters.WithoutNotIn] at absent
    rw [ApiQueryFilters.truth, ApiQueryFilters.truth, truth_eq_of_withoutNotIn f g filter absent]
  | .other _, _ => by rw [ApiQueryFilters.truth, ApiQueryFilters.truth]

theorem truths_eq_of_withoutNotIn (f g : Truth → Truth) : (filters : List ApiQueryFilters) →
    ApiQueryFilters.AllWithoutNotIn filters →
    ApiQueryFilters.truths f db row filters = ApiQueryFilters.truths g db row filters
  | [], _ => rfl
  | filter :: filters, absent => by
    rw [ApiQueryFilters.AllWithoutNotIn] at absent
    rw [ApiQueryFilters.truths, ApiQueryFilters.truths, truth_eq_of_withoutNotIn f g filter absent.1,
      truths_eq_of_withoutNotIn f g filters absent.2]
end

/-- A filter without `notIn` meets the condition of `query_filter_meaning_iff`. -/
theorem meaningWithIn_eq {filter : ApiQueryFilters} (absent : filter.WithoutNotIn)
    (db : Database) (row : Row) : filter.meaningWithIn db row = filter.meaning db row :=
  truth_eq_of_withoutNotIn id Truth.not filter absent

theorem terms_append (front back : List Statement) :
    Statement.terms db row (front ++ back) =
      Statement.terms db row front ++ Statement.terms db row back := by
  induction front with
  | nil => rfl
  | cons statement front ih =>
    rw [List.cons_append, Statement.terms, Statement.terms]
    cases statement.truth db row with
    | none => exact ih
    | some term => exact congrArg (term :: ·) ih

variable (db row) in
/-- A group that has a text, with this truth value. -/
structure States (group : List Statement) (t : Truth) : Prop where
  nonempty : Statement.terms db row group ≠ []
  value : joined (Statement.terms db row group) = t

theorem states_of_terms {group : List Statement} {connective : Connective} {t : Truth}
    (terms : Statement.terms db row group = [(connective, t)]) : States db row group t := by
  refine ⟨?_, ?_⟩
  · rw [terms]
    exact List.cons_ne_nil _ _
  · rw [terms]
    rfl

theorem States.wrapped {group : List Statement} {t : Truth} (stated : States db row group t)
    (negated : Bool) (connective : Connective) :
    Statement.terms db row [.wrapped negated connective group] =
      [(connective, Truth.signed negated t)] := by
  obtain ⟨nonempty, value⟩ := stated
  rw [Statement.terms, Statement.truth]
  cases terms : Statement.terms db row group with
  | nil => exact absurd terms nonempty
  | cons term rest =>
    rw [terms] at value
    simp only [value]
    rfl

namespace QueryFilterConverter

open DBQuery

/-- A condition alone in its group, which is negated around it. -/
theorem handleQuery_states (condition : RawCondition) (negated : Bool) (combinator : Option Connective) :
    States db row (handleQuery [] (fun b => whereRaw b condition) true negated combinator)
      (Truth.signed negated (condition.truth db row)) := by
  have raw : States db row (whereRaw [] condition) (condition.truth db row) :=
    states_of_terms (rfl : _ = [(Connective.and, condition.truth db row)])
  have group : States db row (where_ [] fun b => whereRaw b condition) (condition.truth db row) :=
    states_of_terms (raw.wrapped false .and)
  cases negated with
  | false => exact states_of_terms (group.wrapped false .and)
  | true => exact states_of_terms (group.wrapped true .and)

/-- A condition alone in its group, negated by its operator. -/
theorem handleIn_states (field : String) (tpe : NonBooleanValueFilterType) (values : List ScalarValue)
    (negated : Bool) (combinator : Option Connective) :
    States db row (handleIn [] field tpe values true negated combinator)
      (Truth.signed negated (db.membership row field (nonBooleanTypeAsCast tpe) values)) := by
  have raw : States db row (whereRaw [] (.membership field (nonBooleanTypeAsCast tpe) negated values))
      (Truth.signed negated (db.membership row field (nonBooleanTypeAsCast tpe) values)) :=
    states_of_terms (rfl : _ = [(Connective.and, _)])
  exact states_of_terms (raw.wrapped false .and)

variable (db row) in
/-- However it is combined and negated, the converted filter has this truth value. -/
def Converts (filter : QueryFilters) (t : Truth) : Prop :=
  ∀ combinator negated, ∃ converted, convert combinator negated filter = .ok converted ∧
    States db row (converted.whereFunc []) (Truth.signed negated t)

theorem converts_not {filter : QueryFilters} {t : Truth} (converts : Converts db row filter t) :
    Converts db row (.not filter) t.not := by
  intro combinator negated
  obtain ⟨converted, conversion, stated⟩ := converts combinator (!negated)
  refine ⟨converted, conversion, ?_⟩
  rwa [← Truth.signed_not]

/-- The functions of the children, run one after the other. -/
theorem combined_eq (combinator : Connective) (converted : List ConvertedQueryFilter)
    (old : WhereFunc) (bldr : DBQuery) :
    (converted.foldl (fun old res bldr =>
      if combinator = .or then orWhere (old bldr) res.whereFunc
      else andWhere (old bldr) res.whereFunc) old) bldr =
      old bldr ++ converted.map fun res => .wrapped false combinator (res.whereFunc []) := by
  induction converted generalizing old with
  | nil => simp
  | cons res converted ih =>
    rw [List.foldl_cons, ih]
    cases combinator <;> simp [orWhere, andWhere, where_]

theorem children_terms {converted : List ConvertedQueryFilter} {ts : List Truth}
    (all_stated : List.Forall₂ (fun res t => States db row (res.whereFunc []) t) converted ts)
    (combinator : Connective) :
    Statement.terms db row (converted.map fun res => .wrapped false combinator (res.whereFunc [])) =
      ts.map fun t => (combinator, t) := by
  induction all_stated with
  | nil => rfl
  | @cons res t converted ts first _ ih =>
    have split : (res :: converted).map (fun res => Statement.wrapped false combinator (res.whereFunc [])) =
        [.wrapped false combinator (res.whereFunc [])] ++
          converted.map fun res => .wrapped false combinator (res.whereFunc []) := rfl
    rw [split, terms_append, first.wrapped, ih]
    rfl

theorem handleCombinator_states {converted : List ConvertedQueryFilter} {ts : List Truth}
    (all_stated : List.Forall₂ (fun res t => States db row (res.whereFunc []) t) converted ts)
    (nonempty : ts ≠ []) (combinator : Connective) (negated : Bool) :
    States db row ((handleCombinator combinator converted negated).whereFunc [])
      (Truth.signed negated (joined (ts.map fun t => (combinator, t)))) := by
  have group := combined_eq combinator converted id []
  have children : States db row (converted.map fun res => .wrapped false combinator (res.whereFunc []))
      (joined (ts.map fun t => (combinator, t))) := by
    rw [← children_terms all_stated combinator]
    refine ⟨?_, rfl⟩
    rw [children_terms all_stated combinator]
    simpa using nonempty
  cases negated with
  | false =>
    change States db row ((converted.foldl _ id) []) _
    rw [group]
    exact children
  | true =>
    change States db row (whereNot [] (converted.foldl _ id)) _
    unfold whereNot
    rw [group]
    exact states_of_terms (children.wrapped true .and)

theorem convertAll_states {filters : List QueryFilters} {ts : List Truth}
    (each : List.Forall₂ (Converts db row) filters ts) (combinator : Connective) :
    ∃ converted, convertAll combinator filters = .ok converted ∧
      List.Forall₂ (fun res t => States db row (res.whereFunc []) t) converted ts := by
  induction each with
  | nil => exact ⟨[], rfl, .nil⟩
  | @cons filter t filters ts first _ ih =>
    obtain ⟨res, conversion, stated⟩ := first (some combinator) false
    obtain ⟨converted, conversions, all_stated⟩ := ih
    refine ⟨res :: converted, ?_, .cons stated all_stated⟩
    rw [convertAll]
    exact bind_eq_ok.mpr ⟨res, conversion, bind_eq_ok.mpr ⟨converted, conversions, rfl⟩⟩

theorem converts_and {filters : List QueryFilters} {ts : List Truth}
    (all : List.Forall₂ (Converts db row) filters ts) (nonempty : ts ≠ []) :
    Converts db row (.and filters) (.all ts) := by
  intro combinator negated
  obtain ⟨converted, conversion, all_stated⟩ := convertAll_states all .and
  refine ⟨handleCombinator .and converted negated, ?_, ?_⟩
  · rw [convert]
    exact bind_eq_ok.mpr ⟨converted, conversion, rfl⟩
  · rw [← joined_and]
    exact handleCombinator_states all_stated nonempty .and negated

theorem converts_or {filters : List QueryFilters} {ts : List Truth}
    (all : List.Forall₂ (Converts db row) filters ts) (nonempty : ts ≠ []) :
    Converts db row (.or filters) (.any ts) := by
  intro combinator negated
  obtain ⟨converted, conversion, all_stated⟩ := convertAll_states all .or
  refine ⟨handleCombinator .or converted negated, ?_, ?_⟩
  · rw [convert]
    exact bind_eq_ok.mpr ⟨converted, conversion, rfl⟩
  · obtain ⟨t, rest, rfl⟩ := List.exists_cons_of_ne_nil nonempty
    rw [← joined_or]
    exact handleCombinator_states all_stated nonempty .or negated

end QueryFilterConverter

/-- A parsed condition is converted to what the condition says if `notIn` is read as `in`. -/
theorem converts_of_parseValueFilter {filter : ApiValueFilter} {parsed : AllValueFilter}
    (field : String) (accepted : parseValueFilter filter = .ok parsed) :
    Converts db row (.where [(field, some parsed)]) (filter.truth id db row field) := by
  have compared (type : ValueFilterType) (op : CompareOp) (value : ScalarValue) :
      Converts db row (.where [(field, some (.compare type op value))])
        (db.compareField row field (typeAsCast (getValueType value)) op value) :=
    fun combinator negated => ⟨_, rfl, handleQuery_states _ negated combinator⟩
  cases filter with
  | isNull value =>
    obtain rfl := Except.ok.inj accepted
    exact fun combinator negated => ⟨_, rfl, handleQuery_states _ negated combinator⟩
  | equalTo value =>
    obtain rfl := Except.ok.inj accepted
    exact compared _ .eq value
  | notEqualTo value =>
    obtain rfl := Except.ok.inj accepted
    exact compared _ .ne value
  | lessThan value =>
    obtain rfl := Except.ok.inj accepted
    exact compared _ .lt value
  | lessThanOrEqualTo value =>
    obtain rfl := Except.ok.inj accepted
    exact compared _ .le value
  | greaterThan value =>
    obtain rfl := Except.ok.inj accepted
    exact compared _ .gt value
  | greaterThanOrEqualTo value =>
    obtain rfl := Except.ok.inj accepted
    exact compared _ .ge value
  | inArray values =>
    cases values with
    | nil => cases accepted
    | cons first rest =>
      obtain rfl := Except.ok.inj accepted
      exact fun combinator negated => ⟨_, rfl, handleIn_states field _ _ negated combinator⟩
  | notIn values =>
    cases values with
    | nil => cases accepted
    | cons first rest =>
      obtain rfl := Except.ok.inj accepted
      exact fun combinator negated => ⟨_, rfl, handleIn_states field _ _ negated combinator⟩
  | other key => cases accepted

theorem validateCombinedOps_ok {ops sorted : List ApiValueFilter}
    (accepted : validateCombinedOps ops = .ok sorted) :
    sorted.length = ops.length ∧
      ∀ truth : ApiValueFilter → Truth, Truth.all (sorted.map truth) = Truth.all (ops.map truth) := by
  unfold validateCombinedOps at accepted
  split at accepted
  next first second =>
    by_cases swapped : second.key < first.key
    · rw [if_pos swapped] at accepted
      dsimp only at accepted
      split at accepted
      · cases accepted
      · obtain rfl := Except.ok.inj accepted
        exact ⟨rfl, fun truth => Truth.all_pair_comm _ _⟩
    · rw [if_neg swapped] at accepted
      dsimp only at accepted
      split at accepted
      · cases accepted
      · obtain rfl := Except.ok.inj accepted
        exact ⟨rfl, fun truth => rfl⟩
  next => cases accepted
  next =>
    obtain rfl := Except.ok.inj accepted
    exact ⟨rfl, fun truth => rfl⟩

theorem converts_of_parseField {field : String × List ApiValueFilter}
    {entry : String × List AllValueFilter} (accepted : parseField field = .ok entry)
    (nonempty : field.2 ≠ []) :
    Converts db row (whereOfKey entry) (.all (field.2.map (ApiValueFilter.truth id db row field.1))) := by
  obtain ⟨sorted, validated, rest⟩ := bind_eq_ok.mp accepted
  obtain ⟨values, parsed, returned⟩ := bind_eq_ok.mp rest
  obtain rfl : (field.1, values) = entry := Except.ok.inj returned
  obtain ⟨sameLength, sameTruth⟩ := validateCombinedOps_ok validated
  rw [← sameTruth]
  have each := mapM_ok parsed
  have wheres : List.Forall₂ (Converts db row) (values.map fun value => .where [(field.1, some value)])
      (sorted.map (ApiValueFilter.truth id db row field.1)) := by
    rw [List.forall₂_map_left_iff, List.forall₂_map_right_iff]
    exact each.flip.imp fun value filter accepted => converts_of_parseValueFilter field.1 accepted
  have truths : sorted.map (ApiValueFilter.truth id db row field.1) ≠ [] := by
    rw [← List.length_pos_iff, List.length_map, sameLength, List.length_pos_iff]
    exact nonempty
  cases values with
  | nil => exact absurd (List.forall₂_nil_left_iff.mp wheres) truths
  | cons first values =>
    cases values with
    | nil =>
      obtain ⟨t, ts, converts, none, eq⟩ := List.forall₂_cons_left_iff.mp wheres
      obtain rfl := List.forall₂_nil_left_iff.mp none
      rw [eq, Truth.all_singleton]
      exact converts
    | cons second values => exact converts_and wheres truths

theorem converts_of_combineKeys {filters : List QueryFilters} {ts : List Truth}
    (all : List.Forall₂ (Converts db row) filters ts) (nonempty : ts ≠ []) :
    Converts db row (combineKeys filters) (.all ts) := by
  cases all with
  | nil => exact absurd rfl nonempty
  | @cons filter t filters ts first rest =>
    cases rest with
    | nil => simpa [combineKeys] using first
    | cons second rest => exact converts_and (.cons first (.cons second rest)) nonempty

theorem converts_of_fields {fields : ApiObjectFilter} {entries : List (String × List AllValueFilter)}
    (accepted : parseObjectFilter fields = .ok entries) (nonempty : fields ≠ [])
    (populated : ∀ field ∈ fields, field.2 ≠ []) :
    Converts db row (combineKeys (entries.map whereOfKey)) (.all (fields.map fun field =>
      .all (field.2.map (ApiValueFilter.truth id db row field.1)))) := by
  have each := mapM_ok accepted
  refine converts_of_combineKeys ?_ (by simpa using nonempty)
  rw [List.forall₂_map_left_iff, List.forall₂_map_right_iff]
  clear accepted nonempty
  induction each with
  | nil => exact .nil
  | @cons field entry fields entries first _ ih =>
    refine .cons (converts_of_parseField first (populated field (by simp))) (ih fun other member => ?_)
    exact populated other (List.mem_cons_of_mem _ member)

mutual
/-- Whatever is accepted is converted to what it says if `notIn` is read as `in`. -/
theorem converts_of_parse : (filter : ApiQueryFilters) → {parsed : QueryFilters} →
    parseQueryFilters filter = .ok parsed → filter.Populated →
    Converts db row parsed (filter.truth id db row)
  | .where fields, parsed, accepted, populated => by
    rw [parseQueryFilters] at accepted
    rw [ApiQueryFilters.Populated] at populated
    obtain ⟨entries, found, returned⟩ := bind_eq_ok.mp accepted
    obtain rfl : combineKeys (entries.map whereOfKey) = parsed := Except.ok.inj returned
    rw [ApiQueryFilters.truth]
    exact converts_of_fields found populated.1 populated.2
  | .and filters, parsed, accepted, populated => by
    rw [parseQueryFilters] at accepted
    rw [ApiQueryFilters.Populated] at populated
    obtain ⟨children, found, returned⟩ := bind_eq_ok.mp accepted
    obtain rfl : QueryFilters.and children = parsed := Except.ok.inj returned
    rw [ApiQueryFilters.truth]
    exact converts_and (converts_of_parseAll filters found populated.2)
      (truths_ne_nil populated.1)
  | .or filters, parsed, accepted, populated => by
    rw [parseQueryFilters] at accepted
    rw [ApiQueryFilters.Populated] at populated
    obtain ⟨children, found, returned⟩ := bind_eq_ok.mp accepted
    obtain rfl : QueryFilters.or children = parsed := Except.ok.inj returned
    rw [ApiQueryFilters.truth]
    exact converts_or (converts_of_parseAll filters found populated.2)
      (truths_ne_nil populated.1)
  | .not filter, parsed, accepted, populated => by
    rw [parseQueryFilters] at accepted
    rw [ApiQueryFilters.Populated] at populated
    obtain ⟨child, found, returned⟩ := bind_eq_ok.mp accepted
    obtain rfl : QueryFilters.not child = parsed := Except.ok.inj returned
    rw [ApiQueryFilters.truth]
    exact converts_not (converts_of_parse filter found populated)
  | .other keys, parsed, accepted, _ => by
    rw [parseQueryFilters] at accepted
    split at accepted <;> cases accepted

theorem converts_of_parseAll : (filters : List ApiQueryFilters) → {parsed : List QueryFilters} →
    parseAll filters = .ok parsed → ApiQueryFilters.AllPopulated filters →
    List.Forall₂ (Converts db row) parsed (ApiQueryFilters.truths id db row filters)
  | [], parsed, accepted, _ => by
    rw [parseAll] at accepted
    obtain rfl : [] = parsed := Except.ok.inj accepted
    exact .nil
  | filter :: filters, parsed, accepted, populated => by
    rw [parseAll] at accepted
    rw [ApiQueryFilters.AllPopulated] at populated
    obtain ⟨child, found, rest⟩ := bind_eq_ok.mp accepted
    obtain ⟨children, behind, returned⟩ := bind_eq_ok.mp rest
    obtain rfl : child :: children = parsed := Except.ok.inj returned
    rw [ApiQueryFilters.truths]
    exact .cons (converts_of_parse filter found populated.1)
      (converts_of_parseAll filters behind populated.2)
end

/-- What is converted has a text, so it is not taken for the filter that is missing. -/
theorem convertQueryFilter_truth {parsed : QueryFilters} {t : Truth}
    (converts : Converts db row parsed t) :
    ∃ converted, convertQueryFilter parsed = .ok converted ∧ converted.truth db row = t := by
  obtain ⟨converted, conversion, stated⟩ := converts none false
  have top : Statement.terms db row (DBQuery.where_ [] converted.whereFunc) = [(.and, t)] :=
    stated.wrapped false .and
  refine ⟨converted, ?_, by rw [ConvertedQueryFilter.truth, top]; rfl⟩
  cases parsed with
  | undefined => cases conversion
  | _ => exact conversion

/-- For every filter that is accepted and has no empty part, and every row, the SQL
condition has the filter's truth value exactly when reading each `notIn` as `in` does
not change that value. -/
theorem query_filter_meaning_iff {filter : ApiQueryFilters} {parsed : QueryFilters}
    (accepted : parseQueryFilters filter = .ok parsed) (populated : filter.Populated)
    (db : Database) (row : Row) :
    ∃ converted, convertQueryFilter parsed = .ok converted ∧
      (converted.truth db row = filter.meaning db row ↔
        filter.meaningWithIn db row = filter.meaning db row) := by
  have converts : Converts db row parsed (filter.meaningWithIn db row) :=
    converts_of_parse filter accepted populated
  obtain ⟨converted, conversion, truth⟩ := convertQueryFilter_truth converts
  exact ⟨converted, conversion, by rw [truth]⟩

namespace Database

/-- Texts compared with texts, character by character. -/
def ofTexts : Database where
  compare _ op text
    | .string value =>
      match op with
      | .eq => text == value
      | .ne => text != value
      | .lt => decide (text < value)
      | .le => !decide (value < text)
      | .gt => decide (value < text)
      | .ge => !decide (text < value)
    | _ => false

/-- Not called Ada, and an admin or an owner. -/
def staffFilter : ApiQueryFilters :=
  .and [.not (.where [("name", [.equalTo (.string "ada")])]),
    .where [("role", [.inArray [.string "admin", .string "owner"]])]]

def staffQuery : QueryFilters :=
  .and [.not (.where [("name", some (.compare .string .eq (.string "ada")))]),
    .where [("role", some (.inArray .string [.string "admin", .string "owner"]))]]

def owner : Row
  | "name" => some "bob"
  | "role" => some "owner"
  | _ => none

theorem staffFilter_meaning : ∃ converted, convertQueryFilter staffQuery = .ok converted ∧
    (converted.truth ofTexts owner = staffFilter.meaning ofTexts owner ↔
      staffFilter.meaningWithIn ofTexts owner = staffFilter.meaning ofTexts owner) :=
  query_filter_meaning_iff (rfl : parseQueryFilters staffFilter = .ok staffQuery)
    (by simp [staffFilter, ApiQueryFilters.Populated, ApiQueryFilters.AllPopulated]) ofTexts owner

example : staffFilter.meaning ofTexts owner = .true := by decide

/-- Not in the role of an owner. -/
def nonOwnerFilter : ApiQueryFilters := .where [("role", [.notIn [.string "owner"]])]

def nonOwnerQuery : QueryFilters := .where [("role", some (.nin .string [.string "owner"]))]

/-- The filter is accepted, and its condition holds for the row that the filter rules out. -/
theorem notIn_selects_listed : parseQueryFilters nonOwnerFilter = .ok nonOwnerQuery ∧
    nonOwnerFilter.Populated ∧
    ∃ converted, convertQueryFilter nonOwnerQuery = .ok converted ∧
      converted.truth ofTexts owner = .true ∧ nonOwnerFilter.meaning ofTexts owner = .false :=
  ⟨rfl, by simp [nonOwnerFilter, ApiQueryFilters.Populated], _, rfl, by decide, by decide⟩

end Database

end Ceramic
