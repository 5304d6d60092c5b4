import Ceramic.MatchingPairs
import Ceramic.SchemaValidity

/-! What a comparison without errors says of values: those that are valid under the implementation are valid
under the interface, as far as the schemas are of the forms that the comparison looks at as a whole. -/
namespace Ceramic

namespace Interfaces

open Questions Relation

section Keywords

variable {validator : Validator} {toNumber : JsValue → Option Rat} {expected implemented : Keywords}
  {path : List String}

/-- A value without parts is the constant of a schema that it is valid under. -/
theorem eq_const {value other : JsValue} (lawful : validator.Lawful) (plain : value.isContainer = false)
    (valid : implemented.const.all (fun const => validator.equal value const) = true)
    (isConst : constant implemented = some other) : other = value := by
  obtain ⟨isOther, -⟩ := constant_eq_some.mp isConst
  rw [isOther, Option.all_some] at valid
  exact ((lawful value other (.inl plain)).mp valid).symm

theorem const_valid {value : JsValue} (none : constErrors path expected implemented = [])
    (looked : ∀ other, expected.const = some other → other.isNullish = false)
    (valid : implemented.const.all (fun const => validator.equal value const) = true) :
    expected.const.all (fun const => validator.equal value const) = true := by
  cases isConst : expected.const with
  | none => rfl
  | some other =>
    have isConstant := constant_eq_some.mpr ⟨isConst, looked other isConst⟩
    have own := constant_of_strictEq isConstant (constErrors_eq_nil.mp none other isConstant)
    rw [(constant_eq_some.mp own).1] at valid
    exact valid

/-- A bound that is met by the constant, or by a bound of the implementation's own. -/
theorem bound_valid {property : String} {bound own : Option Rat} {const : Option JsValue} {constFails : JsValue → Rat → Bool}
    {looser : Rat → Rat → Bool} {within : Rat → Bool} {value : JsValue}
    (none : boundErrors path property bound const constFails own looser = [])
    (isConst : ∀ other, const = some other → other = value)
    (byConst : const.isSome → ∀ limit, constFails value limit = false → within limit = true)
    (tighter : ∀ ownLimit limit, looser ownLimit limit = false → within ownLimit = true → within limit = true)
    (valid : own.all within = true) : bound.all within = true := by
  cases isBound : bound with
  | none => rfl
  | some limit =>
    obtain ⟨met, orOwn⟩ := boundErrors_eq_nil.mp none limit isBound
    cases hasConst : const with
    | some other =>
      obtain rfl := isConst other hasConst
      exact byConst (by simp [hasConst]) limit (met other hasConst)
    | none =>
      obtain ⟨ownLimit, isOwn, notLooser⟩ := orOwn hasConst
      rw [isOwn, Option.all_some] at valid
      exact tighter ownLimit limit notLooser valid

theorem numberValid_of {n : Rat} (none : validateNumberSchema toNumber path expected implemented = [])
    (isConst : ∀ other, constant implemented = some other → other = .num n) (valid : implemented.numberValid n = true) :
    expected.numberValid n = true := by
  simp only [validateNumberSchema, List.append_eq_nil_iff] at none
  obtain ⟨⟨⟨⟨-, maximum⟩, minimum⟩, exclusiveMaximum⟩, exclusiveMinimum⟩ := none
  simp only [Keywords.numberValid, Bool.and_eq_true] at valid ⊢
  obtain ⟨⟨⟨low, high⟩, aboveLow⟩, belowHigh⟩ := valid
  refine ⟨⟨⟨bound_valid minimum isConst (fun _ limit met => ?_) (fun own limit notLooser within => ?_) low,
    bound_valid maximum isConst (fun _ limit met => ?_) (fun own limit notLooser within => ?_) high⟩,
    bound_valid exclusiveMinimum isConst (fun _ limit met => ?_) (fun own limit notLooser within => ?_) aboveLow⟩,
    bound_valid exclusiveMaximum isConst (fun _ limit met => ?_) (fun own limit notLooser within => ?_) belowHigh⟩
  all_goals
    simp only [compare, numberOf, greater, less, notLess, notGreater, decide_eq_false_iff_not, not_lt, not_le,
      decide_eq_true_eq] at *
  · exact met
  · exact notLooser.trans within
  · exact met
  · exact within.trans notLooser
  · exact met
  · exact lt_of_le_of_lt notLooser within
  · exact met
  · exact lt_of_lt_of_le within notLooser

theorem bound_map_cast {bound : Option Nat} {within : Rat → Bool} {holds : Nat → Bool}
    (same : ∀ limit : Nat, within limit = holds limit) : (bound.map fun n => (n : Rat)).all within = bound.all holds := by
  cases bound with
  | none => rfl
  | some limit => exact same limit

theorem enum_valid {value : JsValue} (lawful : validator.Lawful) (plain : value.isContainer = false)
    (none : enumErrors path expected implemented = [])
    (constValid : implemented.const.all (fun const => validator.equal value const) = true)
    (valid : implemented.enum.all (fun values => values.any fun other => validator.equal value other) = true) :
    expected.enum.all (fun values => values.any fun other => validator.equal value other) = true := by
  have isEqual (other : JsValue) : validator.equal value other = true ↔ value = other := lawful value other (.inl plain)
  cases isEnum : expected.enum with
  | none => rfl
  | some values =>
    obtain ⟨byConst, byEnum⟩ := enumErrors_eq_nil.mp none values isEnum
    rw [Option.all_some, List.any_eq_true]
    cases isConst : constant implemented with
    | some other =>
      obtain rfl := eq_const lawful plain constValid isConst
      exact ⟨other, mem_of_includes (byConst other isConst), (isEqual other).mpr rfl⟩
    | none =>
      obtain ⟨own, isOwn, -, within⟩ := byEnum isConst
      rw [isOwn, Option.all_some, List.any_eq_true] at valid
      obtain ⟨other, member, equal⟩ := valid
      exact ⟨other, mem_of_includes (List.all_eq_true.mp within other member), equal⟩

theorem lengthOf_str (s : String) : lengthOf (.str s) = .num (JsValue.utf16Length s) := rfl

theorem length_le_utf16 (s : String) : s.toList.length ≤ JsValue.utf16Length s := by
  unfold JsValue.utf16Length
  induction s.toList with
  | nil => exact Nat.le_refl _
  | cons c rest ih =>
    rw [List.map_cons, List.sum_cons, List.length_cons]
    split <;> omega

/-- Constants are measured in UTF-16 code units, of which a text has at least as many as characters. -/
theorem textValid_of {s : String} (none : validateStringSchema toNumber path expected implemented = [])
    (isConst : ∀ other, constant implemented = some other → other = .str s)
    (counted : expected.minLength ≠ .none → (constant implemented).isSome → JsValue.utf16Length s = s.toList.length)
    (valid : implemented.textValid validator s = true) : expected.textValid validator s = true := by
  simp only [validateStringSchema, List.append_eq_nil_iff] at none
  obtain ⟨⟨⟨⟨-, -⟩, pattern⟩, maxLength⟩, minLength⟩ := none
  simp only [Keywords.textValid, Bool.and_eq_true] at valid ⊢
  obtain ⟨⟨long, short⟩, matched⟩ := valid
  have atLeast (bound : Option Nat) : (bound.map fun n => (n : Rat)).all (fun limit => decide (limit ≤ (s.toList.length : Rat))) =
      bound.all fun limit => decide (limit ≤ s.toList.length) := bound_map_cast fun limit => by simp only [Nat.cast_le]
  have atMost (bound : Option Nat) : (bound.map fun n => (n : Rat)).all (fun limit => decide ((s.toList.length : Rat) ≤ limit)) =
      bound.all fun limit => decide (s.toList.length ≤ limit) := bound_map_cast fun limit => by simp only [Nat.cast_le]
  have units : (s.toList.length : Rat) ≤ JsValue.utf16Length s := Nat.cast_le.mpr (length_le_utf16 s)
  rw [← atLeast, ← atMost] at *
  refine ⟨⟨?_, bound_valid maxLength isConst (fun _ limit met => ?_) (fun own limit notLooser within => ?_) short⟩, ?_⟩
  · by_cases unbounded : expected.minLength = .none
    · rw [unbounded]
      rfl
    · refine bound_valid minLength isConst (fun hasConst limit met => ?_) (fun own limit notLooser within => ?_) long
      all_goals
        simp only [compare, lengthOf_str, numberOf, less, decide_eq_false_iff_not, not_lt, decide_eq_true_eq] at *
      · rw [← counted unbounded hasConst]
        exact met
      · exact notLooser.trans within
  · simp only [compare, lengthOf_str, numberOf, greater, decide_eq_false_iff_not, not_lt, decide_eq_true_eq] at *
    exact units.trans met
  · simp only [greater, decide_eq_false_iff_not, not_lt, decide_eq_true_eq] at *
    exact within.trans notLooser
  · cases isPattern : expected.pattern with
    | none => rfl
    | some own =>
      rw [patternErrors_eq_nil.mp pattern own isPattern] at matched
      exact matched

theorem countValid_of {count : Nat}
    (none : itemCountErrors path "maxItems" expected.maxItems implemented.maxItems greater ++
      itemCountErrors path "minItems" expected.minItems implemented.minItems less = [])
    (valid : implemented.countValid count = true) : expected.countValid count = true := by
  obtain ⟨maxItems, minItems⟩ := List.append_eq_nil_iff.mp none
  simp only [Keywords.countValid, Bool.and_eq_true] at valid ⊢
  have atLeast (bound : Option Nat) : (bound.map fun n => (n : Rat)).all (fun limit => decide (limit ≤ (count : Rat))) =
      bound.all fun limit => decide (limit ≤ count) := bound_map_cast fun limit => by simp only [Nat.cast_le]
  have atMost (bound : Option Nat) : (bound.map fun n => (n : Rat)).all (fun limit => decide ((count : Rat) ≤ limit)) =
      bound.all fun limit => decide (count ≤ limit) := bound_map_cast fun limit => by simp only [Nat.cast_le]
  rw [← atLeast, ← atMost] at *
  have noConst : ∀ other, (.none : Option JsValue) = some other → other = .null := nofun
  refine ⟨bound_valid minItems noConst nofun (fun own limit notLooser within => ?_) valid.1,
    bound_valid maxItems noConst nofun (fun own limit notLooser within => ?_) valid.2⟩
  all_goals simp only [less, greater, decide_eq_false_iff_not, not_lt, decide_eq_true_eq] at *
  · exact notLooser.trans within
  · exact within.trans notLooser

theorem requiredValid_of {fields : JsObject} (none : requiredErrors path expected.required implemented.required = [])
    (valid : implemented.requiredValid fields = true) : expected.requiredValid fields = true := by
  unfold Keywords.requiredValid at valid ⊢
  rw [List.all_eq_true] at valid ⊢
  exact fun name member => valid name (requiredErrors_eq_nil.mp none name member)

/-- The keywords whose comparison is left to a type, where both schemas have it. -/
def typeErrors (toNumber : JsValue → Option Rat) (expected implemented : Keywords) : TypeName → List ValidationErrorData
  | .array => itemCountErrors [] "maxItems" expected.maxItems implemented.maxItems greater ++
      itemCountErrors [] "minItems" expected.minItems implemented.minItems less
  | .object => requiredErrors [] expected.required implemented.required
  | .integer | .number => validateNumberSchema toNumber [] expected implemented
  | .string => validateStringSchema toNumber [] expected implemented
  | .boolean => validateBooleanSchema [] expected implemented
  | .null => []

/-- The types whose constants are compared. -/
def hasConstant : TypeName → Bool
  | .boolean | .integer | .number | .string => true
  | _ => false

/-- A constant and a list of values stand only where the comparison looks at them. -/
structure Inspected (keywords : Keywords) (type : TypeName) : Prop where
  const : ∀ value, keywords.const = some value → hasConstant type = true ∧ value.isNullish = false
  enum : keywords.enum ≠ .none → type = .string

/-- The constants of texts have as many UTF-16 code units as characters. -/
def Counted (expected implemented : Keywords) : Prop :=
  expected.minLength ≠ .none → ∀ s, implemented.const = some (.str s) → JsValue.utf16Length s = s.toList.length

theorem keywords_valid {type : TypeName} (lawful : validator.Lawful) (isType : expected.type = some (.one type))
    (isOwn : implemented.type = some (.one type)) (inspected : Inspected expected type) (counted : Counted expected implemented)
    (none : typeErrors toNumber expected implemented type = []) {value : JsValue}
    (valid : implemented.valid validator value = true) : expected.valid validator value = true := by
  simp only [Keywords.valid, isType, isOwn, Bool.and_eq_true, Option.all_some] at valid ⊢
  obtain ⟨⟨⟨typed, ownConst⟩, ownEnum⟩, shape⟩ := valid
  have constNone (plain : hasConstant type = false) :
      expected.const.all (fun const => validator.equal value const) = true := by
    cases isConst : expected.const with
    | none => rfl
    | some other => cases plain.symm.trans (inspected.const other isConst).1
  have enumNone (other : type ≠ .string) :
      expected.enum.all (fun values => values.any fun other => validator.equal value other) = true := by
    cases isEnum : expected.enum with
    | none => rfl
    | some values => exact absurd (inspected.enum (by simp [isEnum])) other
  have constOf (errors : constErrors [] expected implemented = []) :=
    const_valid errors (fun other isConst => (inspected.const other isConst).2) ownConst
  have isConst (plain : value.isContainer = false) (other : JsValue) (own : constant implemented = some other) : other = value :=
    eq_const lawful plain ownConst own
  cases type with
  | array =>
    cases value with
    | arr items => exact ⟨⟨⟨rfl, constNone rfl⟩, enumNone (by decide)⟩, countValid_of none shape⟩
    | _ => cases typed
  | boolean =>
    cases value with
    | bool b => exact ⟨⟨⟨rfl, constOf none⟩, enumNone (by decide)⟩, rfl⟩
    | _ => cases typed
  | integer =>
    cases value with
    | num n =>
      have errors := none
      simp only [typeErrors, validateNumberSchema, List.append_eq_nil_iff] at errors
      exact ⟨⟨⟨typed, constOf errors.1.1.1.1⟩, enumNone (by decide)⟩, numberValid_of none (isConst rfl) shape⟩
    | _ => cases typed
  | null =>
    cases value with
    | null => exact ⟨⟨⟨rfl, constNone rfl⟩, enumNone (by decide)⟩, rfl⟩
    | _ => cases typed
  | number =>
    cases value with
    | num n =>
      have errors := none
      simp only [typeErrors, validateNumberSchema, List.append_eq_nil_iff] at errors
      exact ⟨⟨⟨typed, constOf errors.1.1.1.1⟩, enumNone (by decide)⟩, numberValid_of none (isConst rfl) shape⟩
    | _ => cases typed
  | object =>
    cases value with
    | obj fields => exact ⟨⟨⟨rfl, constNone rfl⟩, enumNone (by decide)⟩, requiredValid_of none shape⟩
    | _ => cases typed
  | string =>
    cases value with
    | str s =>
      have errors := none
      simp only [typeErrors, validateStringSchema, List.append_eq_nil_iff] at errors
      refine ⟨⟨⟨rfl, constOf errors.1.1.1.1⟩, enum_valid lawful rfl errors.1.1.1.2 ownConst ownEnum⟩, ?_⟩
      refine textValid_of none (isConst rfl) (fun bounded hasConst => ?_) shape
      obtain ⟨other, own⟩ := Option.isSome_iff_exists.mp hasConst
      obtain rfl := isConst rfl other own
      exact counted bounded s (constant_eq_some.mp own).1
    | _ => cases typed

/-- Nothing is said beside a title and a reference. -/
def Bare (keywords : Keywords) : Prop := { keywords with title := .none, ref := .none } = ({} : Keywords)

theorem bare_valid (bare : Bare expected) (value : JsValue) : expected.valid validator value = true := by
  have type : expected.type = .none := congrArg Keywords.type bare
  have const : expected.const = .none := congrArg Keywords.const bare
  have enum : expected.enum = .none := congrArg Keywords.enum bare
  have minimum : expected.minimum = .none := congrArg Keywords.minimum bare
  have maximum : expected.maximum = .none := congrArg Keywords.maximum bare
  have exclusiveMinimum : expected.exclusiveMinimum = .none := congrArg Keywords.exclusiveMinimum bare
  have exclusiveMaximum : expected.exclusiveMaximum = .none := congrArg Keywords.exclusiveMaximum bare
  have minLength : expected.minLength = .none := congrArg Keywords.minLength bare
  have maxLength : expected.maxLength = .none := congrArg Keywords.maxLength bare
  have pattern : expected.pattern = .none := congrArg Keywords.pattern bare
  have minItems : expected.minItems = .none := congrArg Keywords.minItems bare
  have maxItems : expected.maxItems = .none := congrArg Keywords.maxItems bare
  have required : expected.required = [] := congrArg Keywords.required bare
  cases value <;> simp [Keywords.valid, Keywords.shapeValid, Keywords.numberValid, Keywords.textValid, Keywords.countValid,
    Keywords.requiredValid, type, const, enum, minimum, maximum, exclusiveMinimum, exclusiveMaximum, minLength, maxLength,
    pattern, minItems, maxItems, required]

end Keywords

section References

variable {validator : Validator} {resolve : String → Except JsError (Option Schema)} {schema target : Schema} {value : JsValue}

/-- The schema that a reference leads to. -/
def lookup (resolve : String → Except JsError (Option Schema)) (ref : String) : Option Schema := (resolve ref).toOption.join

theorem lookup_eq {ref : String} (resolved : resolve ref = .ok (some target)) : lookup resolve ref = some target := by
  rw [lookup, resolved]
  rfl

theorem validTo_resolved {depth : Nat} (resolved : resolveReference resolve schema = .ok (some target))
    (valid : schema.validTo validator (lookup resolve) depth value = some true) :
    target.validTo validator (lookup resolve) depth value = some true := by
  cases schema with
  | boolean =>
    cases resolved
    exact valid
  | object keywords =>
    simp only [resolveReference] at resolved
    cases isRef : keywords.ref with
    | none =>
      rw [isRef] at resolved
      cases resolved
      exact valid
    | some ref =>
      rw [isRef] at resolved
      cases depth with
      | zero => cases valid
      | succ depth =>
        obtain ⟨other, found, held⟩ := (Schema.objectValid_of_validTo valid).followed ref isRef
        rw [lookup_eq resolved] at found
        cases found
        exact Schema.validTo_below validator (lookup resolve) depth target value true held

/-- A reference has nothing beside it that would have to be met as well. -/
def Alone : Schema → Prop
  | .boolean _ => True
  | .object keywords items properties allOf anyOf oneOf => keywords.ref ≠ .none →
    Bare keywords ∧ items = .none ∧ properties = [] ∧ allOf = .none ∧ anyOf = .none ∧ oneOf = .none

theorem valid_of_resolved (alone : Alone schema) (resolved : resolveReference resolve schema = .ok (some target))
    (valid : target.Valid validator (lookup resolve) value) : schema.Valid validator (lookup resolve) value := by
  cases schema with
  | boolean =>
    cases resolved
    exact valid
  | object keywords items properties allOf anyOf oneOf =>
    simp only [resolveReference] at resolved
    cases isRef : keywords.ref with
    | none =>
      rw [isRef] at resolved
      cases resolved
      exact valid
    | some ref =>
      rw [isRef] at resolved
      obtain ⟨bare, rfl, rfl, rfl, rfl, rfl⟩ := alone (by simp [isRef])
      apply Schema.valid_of_objectValid
      refine ⟨bare_valid bare value, fun other isOther => ?_, ?_, ?_, ?_, ?_, ?_⟩
      · obtain rfl : ref = other := Option.some.inj (isRef.symm.trans isOther)
        exact ⟨target, lookup_eq resolved, valid⟩
      · rintro _ _ ⟨⟩
      · rintro _ _ _ ⟨⟩
      · rintro _ ⟨⟩
      · rintro _ ⟨⟩
      · rintro _ ⟨⟩

end References

/-- A schema of one of the forms that the comparison looks at as a whole: a type with its keywords, or one
list of schemas and nothing else. -/
def OneForm : Schema → Prop
  | .boolean _ => True
  | .object keywords items properties allOf anyOf oneOf => keywords.ref = .none ∧
    ((allOf = .none ∧ anyOf = .none ∧ oneOf = .none ∧ ∀ type, keywords.type = some (.one type) → Inspected keywords type) ∨
      (Bare keywords ∧ items = .none ∧ properties = [] ∧
        ((∃ list, allOf = some list ∧ anyOf = .none ∧ oneOf = .none) ∨
          (∃ list, list ≠ [] ∧ allOf = .none ∧ anyOf = some list ∧ oneOf = .none) ∨
          (∃ list, allOf = .none ∧ anyOf = .none ∧ oneOf = some list))))

/-- Whether a text that the implementation fixes is as long as the interface counts it. -/
def CountedIn : Schema → Schema → Prop
  | .object expected .., .object implemented .. => Counted expected implemented
  | _, _ => True

section Pairs

variable (toNumber : JsValue → Option Rat) (validator : Validator) (resolvers : Resolvers)

/-- Every alternative of the implementation matches one of the interface. -/
def Covered (alternatives ownAlternatives : Option (List Schema)) : Prop :=
  ∀ list own, alternatives = some list → ownAlternatives = some own →
    ∀ implemented ∈ own, ∃ expected ∈ list, Holds (schemaRows toNumber resolvers) (expected, implemented)

def CoveredIn : Schema → Schema → Prop
  | .object _ _ _ _ anyOf oneOf, .object _ _ _ _ ownAnyOf ownOneOf =>
    Covered toNumber resolvers anyOf ownAnyOf ∧ Covered toNumber resolvers oneOf ownOneOf
  | _, _ => True

/-- No value is valid under two of the schemas. -/
def Exclusive (list : List Schema) : Prop :=
  list.Pairwise fun first second => ∀ value,
    (first.Valid validator (lookup resolvers.resolveExpected) value → second.Invalid validator (lookup resolvers.resolveExpected) value) ∧
    (second.Valid validator (lookup resolvers.resolveExpected) value → first.Invalid validator (lookup resolvers.resolveExpected) value)

def ExclusiveIn : Schema → Prop
  | .object _ _ _ _ _ (some list) => Exclusive validator resolvers list
  | _ => True

/-- What has to hold of a pair for the comparison to speak of values. -/
structure Faithful (pair : SchemaPair) : Prop where
  oneForm : OneForm pair.1
  alone : ∀ child ∈ pair.1.children, Alone child
  counted : CountedIn pair.1 pair.2
  covered : CoveredIn toNumber resolvers pair.1 pair.2
  exclusive : ExclusiveIn validator resolvers pair.1

/-- The second pair matches and is one that the first is compared by. -/
def MatchedBy (pair other : SchemaPair) : Prop :=
  ∃ row, .ok row ∈ schemaRows toNumber resolvers pair ∧ other ∈ row ∧ Holds (schemaRows toNumber resolvers) other

variable {toNumber validator resolvers} {expected implemented : Keywords} {items ownItems : Option Schema}
  {properties ownProperties : List (String × Schema)} {allOf anyOf oneOf ownAllOf ownAnyOf ownOneOf : Option (List Schema)}

theorem matchedBy_sub {row : List SchemaPair} {pair : SchemaPair} (isRow : .ok row ∈ subschemaRows toNumber resolvers expected
      implemented items ownItems properties ownProperties allOf anyOf oneOf ownAllOf ownAnyOf ownOneOf) (member : pair ∈ row)
    (holds : Holds (schemaRows toNumber resolvers) pair) : MatchedBy toNumber resolvers
      (.object expected items properties allOf anyOf oneOf, .object implemented ownItems ownProperties ownAllOf ownAnyOf ownOneOf)
      pair := by
  refine ⟨row, ?_, member, holds⟩
  rw [schemaRows]
  exact List.mem_append_right _ isRow

theorem mem_allRows_of {list own : List Schema} (sameLength : own.length = list.length) {e : Schema} (member : e ∈ list) :
    .ok (withEach own e) ∈ allRows list own := by
  rw [allRows, if_neg (by simp [sameLength])]
  exact List.mem_map_of_mem member

theorem mem_anyRows_of {list own : List Schema} {e i : Schema} (member : e ∈ list) (isOwn : i ∈ own) :
    ∃ row, .ok row ∈ anyRows list own ∧ (e, i) ∈ row := by
  have notEmpty : ¬list.isEmpty = true := by
    rw [List.isEmpty_iff]
    exact List.ne_nil_of_mem member
  rw [anyRows, if_neg notEmpty]
  exact ⟨_, List.mem_cons_self, List.mem_flatMap.mpr ⟨e, member, List.mem_map_of_mem isOwn⟩⟩

theorem typeErrors_of_met {depth : Nat} {type : TypeName} (isType : expected.type = some (.one type))
    (rows : ∀ row ∈ typeRows toNumber resolvers expected implemented items ownItems properties ownProperties,
      Met toNumber resolvers depth row) : typeErrors toNumber expected implemented type = [] := by
  unfold typeRows at rows
  rw [isType] at rows
  cases type with
  | array | object => exact (met_ownRows.mp rows).1
  | null => rfl
  | _ => exact met_own.mp rows

theorem itemsRow_mem (isType : expected.type = some (.one .array)) : itemsRow resolvers items ownItems ∈
    typeRows toNumber resolvers expected implemented items ownItems properties ownProperties := by
  rw [typeRows, isType]
  exact List.mem_append_right _ List.mem_cons_self

theorem propertyRow_mem (isType : expected.type = some (.one .object)) {property : String × Schema} (member : property ∈ properties) :
    propertyRow resolvers ownProperties property ∈
      typeRows toNumber resolvers expected implemented items ownItems properties ownProperties := by
  rw [typeRows, isType]
  exact List.mem_append_right _ (List.mem_map_of_mem member)

theorem type_of_holds {type : TypeName} {value : JsValue} (holds : type.holds value = true) :
    (∀ values, value = .arr values → type = .array) ∧ ∀ fields, value = .obj fields → type = .object := by
  constructor
  · rintro values rfl
    cases type <;> first | rfl | cases holds
  · rintro fields rfl
    cases type <;> first | rfl | cases holds

/-- The type that two schemas without lists match by. -/
theorem type_of_typed {depth : Nat} (same : sameType expected.type implemented.type = true)
    (rows : ∀ row ∈ typeRows toNumber resolvers expected implemented items ownItems properties ownProperties,
      Met toNumber resolvers depth row) :
    ∃ type, expected.type = some (.one type) ∧ implemented.type = some (.one type) := by
  obtain ⟨equal, notMany⟩ := sameType_eq_true.mp same
  rcases isType : expected.type with _ | (type | types)
  · unfold typeRows at rows
    rw [isType] at rows
    obtain ⟨_, isRow, -⟩ := rows _ List.mem_cons_self
    cases isRow
  · exact ⟨type, rfl, equal.symm.trans isType⟩
  · cases notMany types isType

theorem mem_of_propertyOf_key {key : String} {own : Schema} (found : propertyOf properties key = some own) :
    (key, own) ∈ properties := by
  obtain ⟨property, isFound, rfl⟩ := Option.map_eq_some_iff.mp found
  have sameKey : property.1 = key := by simpa using List.find?_some isFound
  exact sameKey ▸ List.mem_of_find?_eq_some isFound

theorem matchedBy_typeRow (same : sameType expected.type implemented.type = true) {row : List SchemaPair} {pair : SchemaPair}
    (isRow : .ok row ∈ typeRows toNumber resolvers expected implemented items ownItems properties ownProperties)
    (member : pair ∈ row) (holds : Holds (schemaRows toNumber resolvers) pair) :
    MatchedBy toNumber resolvers (.object expected items properties .none .none .none,
      .object implemented ownItems ownProperties ownAllOf ownAnyOf ownOneOf) pair := by
  refine matchedBy_sub ?_ member holds
  rw [subschemaRows, if_pos same]
  exact isRow

/-- Values of the implementation are values of the interface, where both schemas are of a type. -/
theorem objectValid_typed {bound depth : Nat} (lawful : validator.Lawful)
    (faithful : Faithful toNumber validator resolvers (.object expected items properties .none .none .none,
      .object implemented ownItems ownProperties ownAllOf ownAnyOf ownOneOf))
    (inspected : ∀ type, expected.type = some (.one type) → Inspected expected type) (noRef : expected.ref = .none)
    (same : sameType expected.type implemented.type = true)
    (rows : ∀ row ∈ typeRows toNumber resolvers expected implemented items ownItems properties ownProperties,
      Met toNumber resolvers bound row)
    (below : ∀ {e i}, MatchedBy toNumber resolvers (.object expected items properties .none .none .none,
        .object implemented ownItems ownProperties ownAllOf ownAnyOf ownOneOf) (e, i) →
      ∀ value, i.validTo validator (lookup resolvers.resolveImplemented) depth value = some true →
        e.Valid validator (lookup resolvers.resolveExpected) value)
    {value : JsValue} (own : (Schema.object implemented ownItems ownProperties ownAllOf ownAnyOf ownOneOf).validTo validator
      (lookup resolvers.resolveImplemented) (depth + 1) value = some true) :
    (Schema.object expected items properties .none .none .none).Valid validator (lookup resolvers.resolveExpected) value := by
  have own := Schema.objectValid_of_validTo own
  obtain ⟨type, isType, isOwn⟩ := type_of_typed same rows
  have typed : type.holds value = true := by
    have here := own.here
    simp only [Keywords.valid, isOwn, Bool.and_eq_true, Option.all_some] at here
    exact here.1.1.1
  apply Schema.valid_of_objectValid
  constructor
  case here => exact keywords_valid lawful isType isOwn (inspected type isType) faithful.counted (typeErrors_of_met isType rows) own.here
  case followed =>
    intro ref isRef
    cases noRef.symm.trans isRef
  case eachItem =>
    rintro schema values rfl rfl item member
    obtain rfl := (type_of_holds typed).1 values rfl
    obtain ⟨row, isRow, pair, inRow, holds⟩ := rows _ (itemsRow_mem isType)
    obtain ⟨_, ownSchema, isItems, isOwnItems, resolved, ownResolved⟩ := mem_itemsRow isRow inRow
    cases isItems
    have alone : Alone schema := faithful.alone schema (by simp [Schema.children])
    apply valid_of_resolved alone resolved
    apply below (matchedBy_typeRow same (isRow ▸ itemsRow_mem isType) inRow ⟨bound, holds⟩)
    exact validTo_resolved ownResolved (own.eachItem ownSchema values isOwnItems rfl item member)
  case eachProperty =>
    rintro fields rfl property member held isHeld
    obtain rfl := (type_of_holds typed).2 fields rfl
    obtain ⟨row, isRow, pair, inRow, holds⟩ := rows _ (propertyRow_mem isType member)
    obtain ⟨ownSchema, found, resolved, ownResolved⟩ := mem_propertyRow isRow inRow
    have alone : Alone property.2 := faithful.alone property.2 (by simp [Schema.children, List.mem_map_of_mem member])
    apply valid_of_resolved alone resolved
    apply below (matchedBy_typeRow same (isRow ▸ propertyRow_mem isType member) inRow ⟨bound, holds⟩)
    exact validTo_resolved ownResolved (own.eachProperty fields rfl _ (mem_of_propertyOf_key found) held isHeld)
  case everyOne => rintro _ ⟨⟩
  case someOne => rintro _ ⟨⟩
  case exactlyOne => rintro _ ⟨⟩

section Lists

variable {list own : List Schema} {e i : Schema} {value : JsValue}

theorem matchedBy_allOf (sameLength : own.length = list.length) (isExpected : e ∈ list) (isOwn : i ∈ own)
    (holds : Holds (schemaRows toNumber resolvers) (e, i)) : MatchedBy toNumber resolvers
      (.object expected items properties (some list) anyOf oneOf,
        .object implemented ownItems ownProperties (some own) ownAnyOf ownOneOf) (e, i) :=
  matchedBy_sub (mem_allRows_of sameLength isExpected) (List.mem_map_of_mem isOwn) holds

theorem matchedBy_oneOf (sameLength : own.length = list.length) (isExpected : e ∈ list) (isOwn : i ∈ own)
    (holds : Holds (schemaRows toNumber resolvers) (e, i)) : MatchedBy toNumber resolvers
      (.object expected items properties .none .none (some list),
        .object implemented ownItems ownProperties ownAllOf ownAnyOf (some own)) (e, i) :=
  matchedBy_sub (mem_allRows_of sameLength isExpected) (List.mem_map_of_mem isOwn) holds

theorem matchedBy_anyOf (isExpected : e ∈ list)
    (isOwn : i ∈ ownAnyOf.getD [.object implemented ownItems ownProperties ownAllOf ownAnyOf ownOneOf])
    (holds : Holds (schemaRows toNumber resolvers) (e, i)) : MatchedBy toNumber resolvers
      (.object expected items properties .none (some list) oneOf,
        .object implemented ownItems ownProperties ownAllOf ownAnyOf ownOneOf) (e, i) := by
  obtain ⟨row, isRow, member⟩ := mem_anyRows_of isExpected isOwn
  exact matchedBy_sub isRow member holds

/-- Where alternatives exclude one another, one of them that is met is the only one. -/
theorem exactlyOne_of_exclusive (exclusive : Exclusive validator resolvers list) (member : e ∈ list)
    (valid : e.Valid validator (lookup resolvers.resolveExpected) value) :
    ∃ before schema after, list = before ++ schema :: after ∧ schema.Valid validator (lookup resolvers.resolveExpected) value ∧
      ∀ other ∈ before ++ after, other.Invalid validator (lookup resolvers.resolveExpected) value := by
  obtain ⟨before, after, rfl⟩ := List.append_of_mem member
  refine ⟨before, e, after, rfl, valid, fun other isOther => ?_⟩
  obtain ⟨-, behind, across⟩ := List.pairwise_append.mp exclusive
  obtain inBefore | inAfter := List.mem_append.mp isOther
  · exact (across other inBefore e List.mem_cons_self value).2 valid
  · exact ((List.pairwise_cons.mp behind).1 other inAfter value).1 valid

end Lists

/-- A list of schemas alone says nothing else of a value. -/
theorem valid_of_lists {list : Option (List Schema)} {value : JsValue} (bare : Bare expected) (noRef : expected.ref = .none)
    (everyOne : ∀ schemas, allOf = some schemas → ∀ schema ∈ schemas, schema.Valid validator (lookup resolvers.resolveExpected) value)
    (someOne : ∀ schemas, anyOf = some schemas → ∃ schema ∈ schemas, schema.Valid validator (lookup resolvers.resolveExpected) value)
    (exactlyOne : ∀ schemas, list = some schemas → ∃ before schema after, schemas = before ++ schema :: after ∧
      schema.Valid validator (lookup resolvers.resolveExpected) value ∧
      ∀ other ∈ before ++ after, other.Invalid validator (lookup resolvers.resolveExpected) value) :
    (Schema.object expected .none [] allOf anyOf list).Valid validator (lookup resolvers.resolveExpected) value := by
  apply Schema.valid_of_objectValid
  refine ⟨bare_valid bare value, fun ref isRef => ?_, nofun, fun _ _ _ member => absurd member List.not_mem_nil, everyOne, someOne, exactlyOne⟩
  cases noRef.symm.trans isRef

/-- What one step of the comparison says of a value: of its parts, and of the value itself where the
implementation stays the same. -/
theorem valid_step {e i : Schema} {depth : Nat} (lawful : validator.Lawful) (faithful : Faithful toNumber validator resolvers (e, i))
    (holds : Holds (schemaRows toNumber resolvers) (e, i)) {value : JsValue}
    (below : ∀ {e' i'}, MatchedBy toNumber resolvers (e, i) (e', i') →
      ∀ value, i'.validTo validator (lookup resolvers.resolveImplemented) depth value = some true →
        e'.Valid validator (lookup resolvers.resolveExpected) value)
    (alike : ∀ {e'}, sizeOf e' < sizeOf e → MatchedBy toNumber resolvers (e, i) (e', i) →
      e'.Valid validator (lookup resolvers.resolveExpected) value)
    (valid : i.validTo validator (lookup resolvers.resolveImplemented) (depth + 1) value = some true) :
    e.Valid validator (lookup resolvers.resolveExpected) value := by
  obtain ⟨_ | bound, holdsTo⟩ := holds
  · exact holdsTo.elim
  cases e with
  | boolean b =>
    obtain rfl := holdsTo_boolean.mp holdsTo
    exact Schema.valid_of_boolean.mpr (Option.some.inj valid)
  | object expected items properties allOf anyOf oneOf =>
    cases i with
    | boolean => exact absurd holdsTo not_holdsTo_boolean
    | object implemented ownItems ownProperties ownAllOf ownAnyOf ownOneOf =>
      obtain ⟨noRef, ⟨rfl, rfl, rfl, inspected⟩ | ⟨bare, rfl, rfl, lists⟩⟩ := faithful.oneForm
      · obtain ⟨-, same, rows⟩ := holdsTo_typed.mp holdsTo
        exact objectValid_typed lawful faithful inspected noRef same rows below valid
      have own := Schema.objectValid_of_validTo valid
      obtain ⟨list, rfl, rfl, rfl⟩ | ⟨list, notEmpty, rfl, rfl, rfl⟩ | ⟨list, rfl, rfl, rfl⟩ := lists
      · obtain ⟨-, ownList, rfl, sameLength, each⟩ := holdsTo_allOf.mp holdsTo
        refine valid_of_lists bare noRef ?_ nofun nofun
        rintro _ ⟨⟩ schema isExpected
        obtain ⟨other, isOwn, holdsOther⟩ := each schema isExpected
        exact below (matchedBy_allOf sameLength isExpected isOwn ⟨bound, holdsOther⟩) value (own.everyOne ownList rfl other isOwn)
      · refine valid_of_lists bare noRef nofun ?_ nofun
        rintro _ ⟨⟩
        cases ownAnyOf with
        | none =>
          obtain empty | ⟨schema, isExpected, other, isSelf, holdsOther⟩ := (holdsTo_anyOf.mp holdsTo).2
          · exact absurd empty notEmpty
          · obtain rfl := List.mem_singleton.mp isSelf
            refine ⟨schema, isExpected, alike ?_ (matchedBy_anyOf isExpected isSelf ⟨bound, holdsOther⟩)⟩
            exact Schema.sizeOf_children (by simp [Schema.children, isExpected])
        | some ownList =>
          obtain ⟨other, isOwn, isValid⟩ := own.someOne ownList rfl
          obtain ⟨schema, isExpected, holdsOther⟩ := faithful.covered.1 list ownList rfl rfl other isOwn
          exact ⟨schema, isExpected, below (matchedBy_anyOf isExpected isOwn holdsOther) value isValid⟩
      · obtain ⟨-, ownList, rfl, sameLength, -⟩ := holdsTo_oneOf.mp holdsTo
        refine valid_of_lists bare noRef nofun nofun ?_
        rintro _ ⟨⟩
        obtain ⟨before, other, after, rfl, isValid, -⟩ := own.exactlyOne ownList rfl
        have isOwn : other ∈ before ++ other :: after := List.mem_append_right _ List.mem_cons_self
        obtain ⟨schema, isExpected, holdsOther⟩ := faithful.covered.2 list _ rfl rfl other isOwn
        exact exactlyOne_of_exclusive faithful.exclusive isExpected
          (below (matchedBy_oneOf sameLength isExpected isOwn holdsOther) value isValid)

/-- The induction is on the depth that validity under the implementation is decided at, and within it on the
interface, which becomes smaller where the implementation stays the same. -/
theorem valid_of_holds (lawful : validator.Lawful) (depth : Nat) {e i : Schema}
    (faithful : ∀ pair, ReflTransGen (MatchedBy toNumber resolvers) (e, i) pair → Faithful toNumber validator resolvers pair)
    (holds : Holds (schemaRows toNumber resolvers) (e, i)) {value : JsValue}
    (valid : i.validTo validator (lookup resolvers.resolveImplemented) depth value = some true) :
    e.Valid validator (lookup resolvers.resolveExpected) value := by
  induction depth generalizing e i value with
  | zero => cases valid
  | succ depth ih =>
    induction sized : sizeOf e using Nat.strong_induction_on generalizing e with
    | _ size smaller =>
      subst sized
      apply valid_step lawful (faithful _ .refl) holds _ _ valid
      · intro e' i' matched value isValid
        have ⟨_, _, _, holdsOther⟩ := matched
        exact ih (fun pair path => faithful pair (.head matched path)) holdsOther isValid
      · intro e' less matched
        have ⟨_, _, _, holdsOther⟩ := matched
        exact smaller (sizeOf e') less (fun pair path => faithful pair (.head matched path)) holdsOther rfl

end Pairs

section Implementations

variable {validator : Validator} {toNumber : JsValue → Option Rat} {resolve : Resolve} {expected implemented : Schema} {stack : Nat}

theorem holds_of_accepted (accepted : validateSchemaImplementation toNumber resolve stack expected implemented = .ok []) :
    Holds (schemaRows toNumber (createResolvers resolve expected implemented)) (expected, implemented) := by
  have answered := @validateSchemaType_answer toNumber (createResolvers resolve expected implemented) stack [] expected implemented
  exact ⟨stack, holdsTo_of_answer (answered.symm.trans (congrArg (Except.map List.isEmpty) accepted))⟩

/-- The values of an implementation that is found to have no errors are values of the interface, as far as
the schemas that are matched with one another are of forms that the comparison looks at as a whole. -/
theorem validateSchemaImplementation_sound (lawful : validator.Lawful)
    (accepted : validateSchemaImplementation toNumber resolve stack expected implemented = .ok [])
    (faithful : ∀ pair, ReflTransGen (MatchedBy toNumber (createResolvers resolve expected implemented)) (expected, implemented) pair →
      Faithful toNumber validator (createResolvers resolve expected implemented) pair) (value : JsValue)
    (valid : implemented.Valid validator (lookup (resolve implemented)) value) :
    expected.Valid validator (lookup (resolve expected)) value := by
  obtain ⟨depth, decided⟩ := valid
  exact valid_of_holds lawful depth faithful (holds_of_accepted accepted) decided

end Implementations

end Interfaces

namespace RecordSchemas

open Interfaces Relation

def toNumber : JsValue → Option Rat := fun _ => none

def validator : Validator := ⟨fun value other => decide (value = other), fun _ _ => true⟩

theorem validator_lawful : validator.Lawful := fun _ _ _ => decide_eq_true_iff

/-- A type with further keywords. -/
def typed (type : TypeName) (keywords : Keywords) : Schema := .object { keywords with type := some (.one type) } none [] none none none

/-- An object with one field. -/
def record (field : Schema) : Schema := .object { type := some (.one .object) } none [("x", field)] none none none

def allOf (keywords : Keywords) (list : List Schema) : Schema := .object keywords none [] (some list) none none

def anyOf (list : List Schema) : Schema := .object {} none [] none (some list) none

def oneOf (list : List Schema) : Schema := .object {} none [] none none (some list)

def text : Schema := typed .string {}

def number : Schema := typed .number {}

def shortText : Schema := typed .string { maxLength := some 50 }

def numberFrom : Schema := typed .number { minimum := some 1 }

def resolve : Resolve := fun _ ref => .ok (if ref = "#/$defs/Text" then some text else none)

/-- A field that may be a text or a number, and one that is a short text or a number from 1 on. -/
def ofEither : Schema := anyOf [text, number]

def ofShort : Schema := anyOf [shortText, numberFrom]

def resolvers : Resolvers := createResolvers resolve (record ofEither) (record ofShort)

theorem typed_faithful {type ownType : TypeName} {keywords own : Keywords}
    (plain : keywords.ref = none ∧ keywords.const = none ∧ keywords.enum = none ∧ keywords.minLength = none) :
    Faithful toNumber validator resolvers (typed type keywords, typed ownType own) := by
  obtain ⟨noRef, noConst, noEnum, unbounded⟩ := plain
  constructor
  case oneForm =>
    refine ⟨noRef, .inl ⟨rfl, rfl, rfl, fun _ _ => ⟨fun _ isConst => ?_, fun isEnum => absurd noEnum isEnum⟩⟩⟩
    cases noConst.symm.trans isConst
  case alone => nofun
  case counted => exact fun bounded => absurd unbounded bounded
  case covered => exact ⟨nofun, nofun⟩
  case exclusive => trivial

/-- The pairs that the comparison of the two records comes to. -/
inductive Compared : SchemaPair → Prop
  | records : Compared (record ofEither, record ofShort)
  | fields : Compared (ofEither, ofShort)
  | alternatives {expected implemented} : expected ∈ [text, number] → implemented ∈ [shortText, numberFrom] → Compared (expected, implemented)

theorem Compared.next {pair other : SchemaPair} (compared : Compared pair) (matched : MatchedBy toNumber resolvers pair other) :
    Compared other := by
  obtain ⟨row, isRow, member, -⟩ := matched
  cases compared with
  | records =>
    have rows : schemaRows toNumber resolvers (record ofEither, record ofShort) = [.ok [(ofEither, ofShort)]] := rfl
    rw [rows] at isRow
    cases List.mem_singleton.mp isRow
    cases List.mem_singleton.mp member
    exact .fields
  | fields =>
    have isRow : .ok row ∈ anyRows [text, number] [shortText, numberFrom] := isRow
    obtain ⟨isExpected, isImplemented⟩ := mem_anyRows isRow member
    exact .alternatives isExpected isImplemented
  | alternatives isExpected isImplemented =>
    obtain ⟨parent, -⟩ | ⟨⟨child, isChild, -⟩, -⟩ := mem_schemaRows isRow member
    · simp only [List.mem_cons, List.not_mem_nil, or_false] at isExpected
      obtain rfl | rfl := isExpected <;> cases parent
    · simp only [List.mem_cons, List.not_mem_nil, or_false] at isExpected
      obtain rfl | rfl := isExpected <;> cases isChild

theorem compared_of_reached {pair : SchemaPair}
    (reached : ReflTransGen (MatchedBy toNumber resolvers) (record ofEither, record ofShort) pair) : Compared pair := by
  induction reached with
  | refl => exact .records
  | tail _ matched ih => exact ih.next matched

theorem Compared.faithful {pair : SchemaPair} (compared : Compared pair) : Faithful toNumber validator resolvers pair := by
  have plain {schema : Schema} (isAlternative : schema ∈ [text, number]) : Alone schema := by
    simp only [List.mem_cons, List.not_mem_nil, or_false] at isAlternative
    obtain rfl | rfl := isAlternative <;> exact fun isRef => absurd rfl isRef
  cases compared with
  | records =>
    constructor
    case oneForm => exact ⟨rfl, .inl ⟨rfl, rfl, rfl, fun _ _ => ⟨nofun, fun isEnum => absurd rfl isEnum⟩⟩⟩
    case alone =>
      intro child isChild
      obtain rfl := List.mem_singleton.mp isChild
      exact fun isRef => absurd rfl isRef
    case counted => exact fun bounded => absurd rfl bounded
    case covered => exact ⟨nofun, nofun⟩
    case exclusive => trivial
  | fields =>
    constructor
    case oneForm => exact ⟨rfl, .inr ⟨rfl, rfl, rfl, .inr (.inl ⟨_, List.cons_ne_nil _ _, rfl, rfl, rfl⟩)⟩⟩
    case alone => exact fun child isChild => plain isChild
    case counted => exact fun bounded => absurd rfl bounded
    case covered =>
      refine ⟨?_, nofun⟩
      rintro _ _ ⟨⟩ ⟨⟩ implemented isImplemented
      simp only [List.mem_cons, List.not_mem_nil, or_false] at isImplemented
      obtain rfl | rfl := isImplemented
      · exact ⟨text, List.mem_cons_self, 1, fun row isRow => nomatch isRow⟩
      · exact ⟨number, List.mem_cons_of_mem _ List.mem_cons_self, 1, fun row isRow => nomatch isRow⟩
    case exclusive => trivial
  | alternatives isExpected isImplemented =>
    simp only [List.mem_cons, List.not_mem_nil, or_false] at isExpected isImplemented
    obtain rfl | rfl := isExpected <;> obtain rfl | rfl := isImplemented <;> exact typed_faithful ⟨rfl, rfl, rfl, rfl⟩

/-- A record of a short text is one of a text or a number. -/
theorem record_sound : (record ofEither).Valid validator (lookup (resolve (record ofEither))) (.obj [("x", .str "a")]) := by
  apply @validateSchemaImplementation_sound validator toNumber resolve (record ofEither) (record ofShort) 4 validator_lawful rfl
  · intro pair reached
    exact (compared_of_reached reached).faithful
  · exact ⟨4, by decide⟩

/-- The comparison finds no errors, and yet a value of the implementation is none of the interface. -/
def Unsound (expected implemented : Schema) (value : JsValue) : Prop :=
  (∃ stack, validateSchemaImplementation toNumber resolve stack (record expected) (record implemented) = .ok []) ∧
    (record implemented).Valid validator (lookup (resolve (record implemented))) (.obj [("x", value)]) ∧
    (record expected).Invalid validator (lookup (resolve (record expected))) (.obj [("x", value)])

/-- One alternative of `anyOf` is enough, those of `oneOf` may match the same one or hold together, keywords
beside a list, a reference or an array are not compared, and texts are counted in UTF-16. -/
theorem comparison_unsound :
    Unsound (anyOf [text]) (anyOf [number, text]) (.num 5) ∧
    Unsound (oneOf [text, shortText]) (oneOf [shortText, number]) (.num 5) ∧
    Unsound (oneOf [text, typed .string { maxLength := some 5 }])
      (oneOf [typed .string { maxLength := some 2 }, typed .string { minLength := some 3 }]) (.str "a") ∧
    Unsound (allOf { maxLength := some 2 } [text]) (allOf {} [text]) (.str "abc") ∧
    Unsound (typed .string { maxLength := some 2, ref := some "#/$defs/Text" }) text (.str "abc") ∧
    Unsound (typed .null { const := some (.bool true) }) (typed .null {}) .null ∧
    Unsound (typed .string { minLength := some 2 }) (typed .string { const := some (.str "😀") }) (.str "😀") :=
  ⟨⟨⟨4, rfl⟩, ⟨4, by decide⟩, ⟨4, by decide⟩⟩,
    ⟨⟨4, rfl⟩, ⟨4, by decide⟩, ⟨4, by decide⟩⟩,
    ⟨⟨4, rfl⟩, ⟨4, by decide⟩, ⟨4, by decide⟩⟩,
    ⟨⟨4, rfl⟩, ⟨4, by decide⟩, ⟨4, by decide⟩⟩,
    ⟨⟨4, rfl⟩, ⟨4, by decide⟩, ⟨4, by decide⟩⟩,
    ⟨⟨4, rfl⟩, ⟨4, by decide⟩, ⟨4, by decide⟩⟩,
    ⟨⟨4, rfl⟩, ⟨4, by decide⟩, ⟨4, by decide⟩⟩⟩

end RecordSchemas

end Ceramic
