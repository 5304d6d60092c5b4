import Ceramic.InterfaceSoundness

/-! The keywords of schemas under comparison: what passes against keywords that pass passes as well, and keywords
pass against themselves if their constant does. -/
namespace Ceramic

/-- Values that `===` compares by what they are. -/
def JsValue.isScalar : JsValue → Bool
  | .bytes _ | .cid _ | .streamID _ | .arr _ | .obj _ => false
  | _ => true

theorem JsValue.strictEq_self (value : JsValue) : value.strictEq value = value.isScalar := by
  cases value <;> simp [strictEq, isScalar]

namespace Interfaces

variable {toNumber : JsValue → Option Rat} {path : List String} {expected middle implemented keywords : Keywords}

section Chains

theorem titleErrors_trans (first : titleErrors path expected middle = [])
    (second : titleErrors path middle implemented = []) : titleErrors path expected implemented = [] := by
  rw [titleErrors_eq_nil] at first second ⊢
  exact fun title isTitle => second title (first title isTitle)

theorem patternErrors_trans (first : patternErrors path expected middle = [])
    (second : patternErrors path middle implemented = []) : patternErrors path expected implemented = [] := by
  rw [patternErrors_eq_nil] at first second ⊢
  exact fun pattern isPattern => second pattern (first pattern isPattern)

theorem requiredErrors_trans {names others own : List String} (first : requiredErrors path names others = [])
    (second : requiredErrors path others own = []) : requiredErrors path names own = [] := by
  rw [requiredErrors_eq_nil] at first second ⊢
  exact fun name member => second name (first name member)

/-- A constant is met by the same constant only. -/
theorem constant_kept (met : constErrors path expected implemented = []) {value : JsValue}
    (isConstant : constant expected = some value) : constant implemented = some value :=
  constant_of_strictEq isConstant (constErrors_eq_nil.mp met value isConstant)

theorem constErrors_trans (first : constErrors path expected middle = [])
    (second : constErrors path middle implemented = []) : constErrors path expected implemented = [] := by
  rw [constErrors_eq_nil] at second ⊢
  exact fun value isConstant => second value (constant_kept first isConstant)

/-- A bound that is met by way of another: where the one in the middle has a constant, it is the one met last. -/
theorem boundErrors_trans {property : String} {bound between own : Option Rat} {const ownConst : Option JsValue}
    {fails : JsValue → Rat → Bool} {looser : Rat → Rat → Bool}
    (kept : ∀ value, const = some value → ownConst = some value)
    (chains : ∀ n m limit, looser n m = false → looser m limit = false → looser n limit = false)
    (follows : ∀ value m limit, fails value m = false → looser m limit = false → fails value limit = false)
    (first : boundErrors path property bound const fails between looser = [])
    (second : boundErrors path property between ownConst fails own looser = []) :
    boundErrors path property bound ownConst fails own looser = [] := by
  rw [boundErrors_eq_nil] at first second ⊢
  intro limit isLimit
  obtain ⟨ofConst, ofBound⟩ := first limit isLimit
  cases isConst : const with
  | some value =>
    have isOwn := kept value isConst
    constructor
    · intro other isOther
      obtain rfl : value = other := Option.some.inj (isOwn.symm.trans isOther)
      exact ofConst value isConst
    · intro none
      cases none.symm.trans isOwn
  | none =>
    obtain ⟨m, isBetween, within⟩ := ofBound isConst
    obtain ⟨ownOfConst, ownOfBound⟩ := second m isBetween
    constructor
    · intro value isOwn
      exact follows value m limit (ownOfConst value isOwn) within
    · intro none
      obtain ⟨n, isOwn, ownWithin⟩ := ownOfBound none
      exact ⟨n, isOwn, chains n m limit ownWithin within⟩

theorem compare_follows {fails looser : Rat → Rat → Bool}
    (follows : ∀ n m limit, fails n m = false → looser m limit = false → fails n limit = false) (value : JsValue)
    (m limit : Rat) (holds : compare toNumber fails value m = false) (within : looser m limit = false) :
    compare toNumber fails value limit = false := by
  unfold compare at holds ⊢
  cases isNumber : numberOf toNumber value with
  | none => rfl
  | some n =>
    rw [isNumber] at holds
    exact follows n m limit holds within

theorem greater_chains (n m limit : Rat) (first : greater n m = false) (second : greater m limit = false) :
    greater n limit = false := by
  simp only [greater, decide_eq_false_iff_not, not_lt] at first second ⊢
  exact first.trans second

theorem less_chains (n m limit : Rat) (first : less n m = false) (second : less m limit = false) :
    less n limit = false := by
  simp only [less, decide_eq_false_iff_not, not_lt] at first second ⊢
  exact second.trans first

theorem notLess_follows (n m limit : Rat) (first : notLess n m = false) (second : greater m limit = false) :
    notLess n limit = false := by
  simp only [notLess, greater, decide_eq_false_iff_not, not_lt, not_le] at first second ⊢
  exact first.trans_le second

theorem notGreater_follows (n m limit : Rat) (first : notGreater n m = false) (second : less m limit = false) :
    notGreater n limit = false := by
  simp only [notGreater, less, decide_eq_false_iff_not, not_lt, not_le] at first second ⊢
  exact second.trans_lt first

theorem itemCountErrors_trans {property : String} {bound between own : Option Nat} {looser : Rat → Rat → Bool}
    (chains : ∀ n m limit, looser n m = false → looser m limit = false → looser n limit = false)
    (first : itemCountErrors path property bound between looser = [])
    (second : itemCountErrors path property between own looser = []) :
    itemCountErrors path property bound own looser = [] :=
  boundErrors_trans (fun _ isConst => isConst) chains (fun _ _ _ _ _ => rfl) first second

theorem mem_of_all_includes {values own : List JsValue} (all : own.all (includes values) = true) {value : JsValue}
    (member : value ∈ own) : includes values value = true := List.all_eq_true.mp all value member

/-- A list of values that is met by way of another: both have a value in common, as the ones between all are. -/
theorem enumErrors_trans (kept : ∀ value, constant middle = some value → constant implemented = some value)
    (first : enumErrors path expected middle = []) (second : enumErrors path middle implemented = []) :
    enumErrors path expected implemented = [] := by
  rw [enumErrors_eq_nil] at first second ⊢
  intro values isEnum
  obtain ⟨ofConst, ofEnum⟩ := first values isEnum
  cases isConst : constant middle with
  | some value =>
    have isOwn := kept value isConst
    constructor
    · intro other isOther
      obtain rfl : value = other := Option.some.inj (isOwn.symm.trans isOther)
      exact ofConst value isConst
    · intro none
      cases none.symm.trans isOwn
  | none =>
    obtain ⟨between, isBetween, -, inside⟩ := ofEnum isConst
    obtain ⟨ownOfConst, ownOfEnum⟩ := second between isBetween
    constructor
    · intro value isOwn
      exact mem_of_all_includes inside (mem_of_includes (ownOfConst value isOwn))
    · intro none
      obtain ⟨own, isOwn, overlap, ownInside⟩ := ownOfEnum none
      obtain ⟨value, member, isIncluded⟩ := List.any_eq_true.mp overlap
      have expectedValue := mem_of_includes (mem_of_all_includes inside member)
      refine ⟨own, isOwn, List.any_eq_true.mpr ⟨value, expectedValue, isIncluded⟩, ?_⟩
      refine List.all_eq_true.mpr fun other isOther => ?_
      exact mem_of_all_includes inside (mem_of_includes (mem_of_all_includes ownInside isOther))

theorem validateNumberSchema_trans (first : validateNumberSchema toNumber path expected middle = [])
    (second : validateNumberSchema toNumber path middle implemented = []) :
    validateNumberSchema toNumber path expected implemented = [] := by
  simp only [validateNumberSchema, List.append_eq_nil_iff] at first second ⊢
  obtain ⟨⟨⟨⟨const, maximum⟩, minimum⟩, exclusiveMaximum⟩, exclusiveMinimum⟩ := first
  obtain ⟨⟨⟨⟨ownConst, ownMaximum⟩, ownMinimum⟩, ownExclusiveMaximum⟩, ownExclusiveMinimum⟩ := second
  have kept (value : JsValue) (isConstant : constant middle = some value) : constant implemented = some value :=
    constant_kept ownConst isConstant
  refine ⟨⟨⟨⟨constErrors_trans const ownConst, ?_⟩, ?_⟩, ?_⟩, ?_⟩
  · exact boundErrors_trans kept greater_chains (compare_follows greater_chains) maximum ownMaximum
  · exact boundErrors_trans kept less_chains (compare_follows less_chains) minimum ownMinimum
  · exact boundErrors_trans kept greater_chains (compare_follows notLess_follows) exclusiveMaximum ownExclusiveMaximum
  · exact boundErrors_trans kept less_chains (compare_follows notGreater_follows) exclusiveMinimum ownExclusiveMinimum

theorem validateStringSchema_trans (first : validateStringSchema toNumber path expected middle = [])
    (second : validateStringSchema toNumber path middle implemented = []) :
    validateStringSchema toNumber path expected implemented = [] := by
  simp only [validateStringSchema, List.append_eq_nil_iff] at first second ⊢
  obtain ⟨⟨⟨⟨const, enum⟩, pattern⟩, maxLength⟩, minLength⟩ := first
  obtain ⟨⟨⟨⟨ownConst, ownEnum⟩, ownPattern⟩, ownMaxLength⟩, ownMinLength⟩ := second
  have kept (value : JsValue) (isConstant : constant middle = some value) : constant implemented = some value :=
    constant_kept ownConst isConstant
  refine ⟨⟨⟨⟨constErrors_trans const ownConst, ?_⟩, ?_⟩, ?_⟩, ?_⟩
  · exact enumErrors_trans kept enum ownEnum
  · exact patternErrors_trans pattern ownPattern
  · exact boundErrors_trans kept greater_chains (fun value => compare_follows greater_chains (lengthOf value))
      maxLength ownMaxLength
  · exact boundErrors_trans kept less_chains (fun value => compare_follows less_chains (lengthOf value)) minLength
      ownMinLength

theorem typeErrors_trans (type : TypeName) (first : typeErrors toNumber expected middle type = [])
    (second : typeErrors toNumber middle implemented type = []) : typeErrors toNumber expected implemented type = [] := by
  cases type with
  | array =>
    simp only [typeErrors, List.append_eq_nil_iff] at first second ⊢
    exact ⟨itemCountErrors_trans greater_chains first.1 second.1, itemCountErrors_trans less_chains first.2 second.2⟩
  | object => exact requiredErrors_trans first second
  | integer | number => exact validateNumberSchema_trans first second
  | string => exact validateStringSchema_trans first second
  | boolean => exact constErrors_trans first second
  | null => rfl

end Chains

section Reflexive

/-- A constant that its own schema allows, as far as the comparison of its type looks at it. -/
def AllowsConstant (toNumber : JsValue → Option Rat) (keywords : Keywords) (value : JsValue) : TypeName → Prop
  | .integer | .number => ∀ n, numberOf toNumber value = some n → keywords.numberValid n = true
  | .string => (∀ values, keywords.enum = some values → value ∈ values) ∧
    ∀ n, numberOf toNumber (lengthOf value) = some n → (∀ most : Nat, keywords.maxLength = some most → n ≤ most) ∧
      ∀ least : Nat, keywords.minLength = some least → least ≤ n
  | _ => True

/-- Keywords that pass against themselves: the constant is no object and is allowed, and the list of values of a text
is a list of such values and not empty. -/
structure Consistent (toNumber : JsValue → Option Rat) (keywords : Keywords) (type : TypeName) : Prop where
  const : hasConstant type = true → ∀ value, constant keywords = some value →
    value.isScalar = true ∧ AllowsConstant toNumber keywords value type
  enum : type = .string → constant keywords = none → ∀ values, keywords.enum = some values →
    values ≠ [] ∧ ∀ value ∈ values, value.isScalar = true

theorem constErrors_self : constErrors path keywords keywords = [] ↔
    ∀ value, constant keywords = some value → value.isScalar = true := by
  rw [constErrors_eq_nil]
  refine forall₂_congr fun value isConstant => ?_
  rw [(constant_eq_some.mp isConstant).1, Option.getD_some, JsValue.strictEq_self]

theorem boundErrors_self {property : String} {bound : Option Rat} {const : Option JsValue}
    {fails : JsValue → Rat → Bool} {looser : Rat → Rat → Bool} (same : ∀ n, looser n n = false) :
    boundErrors path property bound const fails bound looser = [] ↔
      ∀ value, const = some value → ∀ limit, bound = some limit → fails value limit = false := by
  rw [boundErrors_eq_nil]
  constructor
  · exact fun met value isConst limit isLimit => (met limit isLimit).1 value isConst
  · exact fun met limit isLimit =>
      ⟨fun value isConst => met value isConst limit isLimit, fun _ => ⟨limit, isLimit, same limit⟩⟩

theorem compare_eq_false {fails : Rat → Rat → Bool} {value : JsValue} {limit : Rat} :
    compare toNumber fails value limit = false ↔ ∀ n, numberOf toNumber value = some n → fails n limit = false := by
  unfold compare
  cases numberOf toNumber value with
  | none => simp
  | some n => simp

theorem greater_self (n : Rat) : greater n n = false := decide_eq_false (lt_irrefl n)

theorem less_self (n : Rat) : less n n = false := decide_eq_false (lt_irrefl n)

theorem itemCountErrors_self {property : String} {bound : Option Nat} {looser : Rat → Rat → Bool}
    (same : ∀ n, looser n n = false) : itemCountErrors path property bound bound looser = [] :=
  (boundErrors_self same).mpr nofun

theorem includes_self {values : List JsValue} {value : JsValue} :
    includes values value = true ↔ value ∈ values ∧ value.isScalar = true := by
  constructor
  · intro isIncluded
    have member := mem_of_includes isIncluded
    obtain ⟨other, _, same⟩ := List.any_eq_true.mp isIncluded
    obtain rfl := JsValue.eq_of_strictEq same
    exact ⟨member, other.strictEq_self ▸ same⟩
  · rintro ⟨member, scalar⟩
    exact List.any_eq_true.mpr ⟨value, member, value.strictEq_self.trans scalar⟩

theorem enumErrors_self : enumErrors path keywords keywords = [] ↔
    (∀ value, constant keywords = some value → ∀ values, keywords.enum = some values →
      value ∈ values ∧ value.isScalar = true) ∧
    (constant keywords = none → ∀ values, keywords.enum = some values →
      values ≠ [] ∧ ∀ value ∈ values, value.isScalar = true) := by
  have allScalar {values : List JsValue} :
      values.all (includes values) = true ↔ ∀ value ∈ values, value.isScalar = true := by
    rw [List.all_eq_true]
    exact forall₂_congr fun value member => includes_self.trans (and_iff_right member)
  rw [enumErrors_eq_nil]
  constructor
  · intro met
    constructor
    · exact fun value isConstant values isEnum => includes_self.mp ((met values isEnum).1 value isConstant)
    · intro none values isEnum
      obtain ⟨own, isOwn, overlap, inside⟩ := (met values isEnum).2 none
      obtain rfl : values = own := Option.some.inj (isEnum.symm.trans isOwn)
      obtain ⟨value, member, _⟩ := List.any_eq_true.mp overlap
      exact ⟨List.ne_nil_of_mem member, allScalar.mp inside⟩
  · rintro ⟨ofConst, ofEnum⟩ values isEnum
    constructor
    · exact fun value isConstant => includes_self.mpr (ofConst value isConstant values isEnum)
    · intro none
      obtain ⟨notEmpty, scalars⟩ := ofEnum none values isEnum
      obtain ⟨value, member⟩ := List.exists_mem_of_ne_nil values notEmpty
      have isIncluded := includes_self.mpr ⟨member, scalars value member⟩
      exact ⟨values, isEnum, List.any_eq_true.mpr ⟨value, member, isIncluded⟩, allScalar.mpr scalars⟩

theorem validateNumberSchema_self : validateNumberSchema toNumber path keywords keywords = [] ↔
    ∀ value, constant keywords = some value → value.isScalar = true ∧
      ∀ n, numberOf toNumber value = some n → keywords.numberValid n = true := by
  simp only [validateNumberSchema, numberErrors, List.append_eq_nil_iff, constErrors_self,
    boundErrors_self greater_self, boundErrors_self less_self, compare_eq_false, Keywords.numberValid, Bool.and_eq_true,
    Option.all_eq_true, greater, less, notLess, notGreater, decide_eq_false_iff_not, decide_eq_true_eq, not_lt, not_le]
  constructor
  · rintro ⟨⟨⟨⟨scalar, maximum⟩, minimum⟩, exclusiveMaximum⟩, exclusiveMinimum⟩ value isConstant
    refine ⟨scalar value isConstant, fun n isNumber => ⟨⟨⟨?_, ?_⟩, ?_⟩, ?_⟩⟩
    · exact fun limit isLimit => minimum value isConstant limit isLimit n isNumber
    · exact fun limit isLimit => maximum value isConstant limit isLimit n isNumber
    · exact fun limit isLimit => exclusiveMinimum value isConstant limit isLimit n isNumber
    · exact fun limit isLimit => exclusiveMaximum value isConstant limit isLimit n isNumber
  · intro allowed
    refine ⟨⟨⟨⟨fun value isConstant => (allowed value isConstant).1, ?_⟩, ?_⟩, ?_⟩, ?_⟩
    · exact fun value isConstant limit isLimit n isNumber =>
        ((allowed value isConstant).2 n isNumber).1.1.2 limit isLimit
    · exact fun value isConstant limit isLimit n isNumber =>
        ((allowed value isConstant).2 n isNumber).1.1.1 limit isLimit
    · exact fun value isConstant limit isLimit n isNumber => ((allowed value isConstant).2 n isNumber).2 limit isLimit
    · exact fun value isConstant limit isLimit n isNumber => ((allowed value isConstant).2 n isNumber).1.2 limit isLimit

theorem patternErrors_self : patternErrors path keywords keywords = [] :=
  patternErrors_eq_nil.mpr fun _ isPattern => isPattern

theorem titleErrors_self : titleErrors path keywords keywords = [] := titleErrors_eq_nil.mpr fun _ isTitle => isTitle

theorem requiredErrors_self {names : List String} : requiredErrors path names names = [] :=
  requiredErrors_eq_nil.mpr fun _ member => member

theorem lengthErrors_self {property : String} {bound : Option Nat} {looser : Rat → Rat → Bool}
    (same : ∀ n, looser n n = false) :
    lengthErrors toNumber path property bound bound (constant keywords) looser = [] ↔
      ∀ value, constant keywords = some value → ∀ n, numberOf toNumber (lengthOf value) = some n →
        ∀ limit : Nat, bound = some limit → looser n limit = false := by
  rw [lengthErrors, boundErrors_self same]
  refine forall₂_congr fun value isConstant => ?_
  cases bound with
  | none => simp
  | some most => simp [compare_eq_false]

theorem validateStringSchema_self : validateStringSchema toNumber path keywords keywords = [] ↔
    (∀ value, constant keywords = some value → value.isScalar = true ∧ AllowsConstant toNumber keywords value .string) ∧
    (constant keywords = none → ∀ values, keywords.enum = some values →
      values ≠ [] ∧ ∀ value ∈ values, value.isScalar = true) := by
  simp only [validateStringSchema, List.append_eq_nil_iff, constErrors_self, enumErrors_self, patternErrors_self,
    and_true, lengthErrors_self greater_self, lengthErrors_self less_self, AllowsConstant, greater, less, decide_eq_false_iff_not,
    not_lt]
  constructor
  · rintro ⟨⟨⟨scalar, ofConst, ofEnum⟩, longest⟩, shortest⟩
    refine ⟨fun value isConstant => ⟨scalar value isConstant, ?_, fun n isLength => ⟨?_, ?_⟩⟩, ofEnum⟩
    · exact fun values isEnum => (ofConst value isConstant values isEnum).1
    · exact longest value isConstant n isLength
    · exact shortest value isConstant n isLength
  · rintro ⟨allowed, ofEnum⟩
    refine ⟨⟨⟨fun value isConstant => (allowed value isConstant).1, ?_, ofEnum⟩, ?_⟩, ?_⟩
    · exact fun value isConstant values isEnum =>
        ⟨(allowed value isConstant).2.1 values isEnum, (allowed value isConstant).1⟩
    · exact fun value isConstant n isLength => ((allowed value isConstant).2.2 n isLength).1
    · exact fun value isConstant n isLength => ((allowed value isConstant).2.2 n isLength).2

theorem consistent_of_noConstant {type : TypeName} (noConstant : hasConstant type = false) (other : type ≠ .string) :
    Consistent toNumber keywords type :=
  ⟨fun has => absurd (noConstant.symm.trans has) Bool.false_ne_true, fun isString => absurd isString other⟩

/-- The keywords of a type pass against themselves exactly if they are consistent. -/
theorem typeErrors_self {type : TypeName} : typeErrors toNumber keywords keywords type = [] ↔
    Consistent toNumber keywords type := by
  cases type with
  | array =>
    refine iff_of_true ?_ (consistent_of_noConstant rfl (by decide))
    simp only [typeErrors, itemCountErrors_self greater_self, itemCountErrors_self less_self, List.append_nil]
  | object => exact iff_of_true requiredErrors_self (consistent_of_noConstant rfl (by decide))
  | null => exact iff_of_true rfl (consistent_of_noConstant rfl (by decide))
  | boolean =>
    refine constErrors_self.trans ⟨fun scalar => ⟨fun _ value isConstant => ?_, fun isString => ?_⟩, ?_⟩
    · exact ⟨scalar value isConstant, trivial⟩
    · cases isString
    · exact fun consistent value isConstant => (consistent.const rfl value isConstant).1
  | integer | number =>
    refine validateNumberSchema_self.trans ⟨fun allowed => ⟨fun _ => allowed, fun isString => ?_⟩, ?_⟩
    · cases isString
    · exact fun consistent => consistent.const rfl
  | string =>
    refine validateStringSchema_self.trans ⟨fun allowed => ⟨fun _ => allowed.1, fun _ => allowed.2⟩, ?_⟩
    exact fun consistent => ⟨consistent.const rfl, consistent.enum rfl⟩

end Reflexive

end Interfaces

end Ceramic
