import Ceramic.InterfaceSchemas
import Ceramic.Library.Kleene
import Mathlib.Order.Filter.AtTopBot.Basic
import Mathlib.Order.Filter.Finite
import Mathlib.Data.Set.Finite.Basic

/-! The meaning of a JSON schema: which values are valid under it, as the standard and the validator that
documents are checked with have it. -/
namespace Ceramic

def TypeName.holds : TypeName → JsValue → Bool
  | .array, .arr _ => true
  | .boolean, .bool _ => true
  | .integer, .num n => n.isInt
  | .null, .null => true
  | .number, .num _ => true
  | .object, .obj _ => true
  | .string, .str _ => true
  | _, _ => false

def SchemaType.holds : SchemaType → JsValue → Bool
  | .one type, value => type.holds value
  | .many types, value => types.any fun type => type.holds value

/-- Parts of the validator: its equality of JSON values and its test of a pattern. -/
structure Validator where
  equal : JsValue → JsValue → Bool
  test : String → String → Bool

/-- Arrays and objects. -/
def JsValue.isContainer : JsValue → Bool
  | .arr _ | .obj _ => true
  | _ => false

/-- A value that is no array and no object is equal only to itself. -/
def Validator.Lawful (validator : Validator) : Prop :=
  ∀ value other : JsValue, value.isContainer = false ∨ other.isContainer = false →
    (validator.equal value other = true ↔ value = other)

namespace Keywords

def numberValid (keywords : Keywords) (n : Rat) : Bool :=
  (keywords.minimum.all fun bound => decide (bound ≤ n)) && (keywords.maximum.all fun bound => decide (n ≤ bound)) &&
  (keywords.exclusiveMinimum.all fun bound => decide (bound < n)) &&
  (keywords.exclusiveMaximum.all fun bound => decide (n < bound))

/-- Lengths are counted in characters. -/
def textValid (validator : Validator) (keywords : Keywords) (s : String) : Bool :=
  (keywords.minLength.all fun bound => decide (bound ≤ s.toList.length)) &&
  (keywords.maxLength.all fun bound => decide (s.toList.length ≤ bound)) &&
  (keywords.pattern.all fun pattern => validator.test pattern s)

def countValid (keywords : Keywords) (count : Nat) : Bool :=
  (keywords.minItems.all fun bound => decide (bound ≤ count)) && (keywords.maxItems.all fun bound => decide (count ≤ bound))

def requiredValid (keywords : Keywords) (fields : JsObject) : Bool :=
  keywords.required.all fun name => (JsObject.get? fields name).isSome

/-- The keywords that apply to the values of one type. -/
def shapeValid (validator : Validator) (keywords : Keywords) : JsValue → Bool
  | .num n => keywords.numberValid n
  | .str s => keywords.textValid validator s
  | .arr items => keywords.countValid items.length
  | .obj fields => keywords.requiredValid fields
  | _ => true

def valid (validator : Validator) (keywords : Keywords) (value : JsValue) : Bool :=
  (keywords.type.all fun type => type.holds value) && (keywords.const.all fun const => validator.equal value const) &&
  (keywords.enum.all fun values => values.any fun other => validator.equal value other) &&
  keywords.shapeValid validator value

end Keywords

namespace Schema

variable (validator : Validator) (find : String → Option Schema)

section Parts

variable (holds : Schema → JsValue → Option Bool) (value : JsValue)

def refPart (keywords : Keywords) : Option Bool :=
  match keywords.ref with
  | some ref => (find ref).bind fun target => holds target value
  | none => some true

def itemsPart (items : Option Schema) : Option Bool :=
  match items, value with
  | some schema, .arr values => Kleene.all (values.map (holds schema))
  | _, _ => some true

/-- A property that a value does not have is not looked at. -/
def propertyPart (fields : JsObject) (property : String × Schema) : Option Bool :=
  match JsObject.get? fields property.1 with
  | some held => holds property.2 held
  | none => some true

def propertiesPart (properties : List (String × Schema)) : Option Bool :=
  match value with
  | .obj fields => Kleene.all (properties.map (propertyPart holds fields))
  | _ => some true

/-- A keyword with a list of schemas, joined in the way the keyword joins them. -/
def listPart (join : List (Option Bool) → Option Bool) (list : Option (List Schema)) : Option Bool :=
  match list with
  | some schemas => join (schemas.map fun schema => holds schema value)
  | none => some true

end Parts

/-- Validity as far as it is decided when schemas are followed to some depth. -/
def validTo : Nat → Schema → JsValue → Option Bool
  | 0, _, _ => none
  | _ + 1, .boolean b, _ => some b
  | depth + 1, .object keywords items properties allOf anyOf oneOf, value =>
    Kleene.all [some (keywords.valid validator value), refPart find (validTo depth) value keywords,
      itemsPart (validTo depth) value items, propertiesPart (validTo depth) value properties,
      listPart (validTo depth) value Kleene.all allOf, listPart (validTo depth) value Kleene.any anyOf,
      listPart (validTo depth) value Kleene.one oneOf]

def Valid (schema : Schema) (value : JsValue) : Prop := ∃ depth, validTo validator find depth schema value = some true

def Invalid (schema : Schema) (value : JsValue) : Prop := ∃ depth, validTo validator find depth schema value = some false

section Below

variable {holds more : Schema → JsValue → Option Bool} (below : ∀ schema value, Kleene.Below (holds schema value) (more schema value))
  (value : JsValue)
include below

theorem refPart_below (keywords : Keywords) :
    Kleene.Below (refPart find holds value keywords) (refPart find more value keywords) := by
  unfold refPart
  split
  next ref _ =>
    cases find ref with
    | none => exact Kleene.Below.refl _
    | some target => exact below target value
  next => exact Kleene.Below.refl _

theorem itemsPart_below (items : Option Schema) :
    Kleene.Below (itemsPart holds value items) (itemsPart more value items) := by
  unfold itemsPart
  split
  · exact Kleene.all_map_below fun item _ => below _ item
  · exact Kleene.Below.refl _

theorem propertiesPart_below (properties : List (String × Schema)) :
    Kleene.Below (propertiesPart holds value properties) (propertiesPart more value properties) := by
  unfold propertiesPart
  split
  · refine Kleene.all_map_below fun property _ => ?_
    unfold propertyPart
    split
    · exact below _ _
    · exact Kleene.Below.refl _
  · exact Kleene.Below.refl _

theorem listPart_below {join : List (Option Bool) → Option Bool}
    (joins : ∀ (schemas : List Schema) (f g : Schema → Option Bool), (∀ schema ∈ schemas, Kleene.Below (f schema) (g schema)) →
      Kleene.Below (join (schemas.map f)) (join (schemas.map g))) (list : Option (List Schema)) :
    Kleene.Below (listPart holds value join list) (listPart more value join list) := by
  unfold listPart
  split
  · exact joins _ _ _ fun schema _ => below schema value
  · exact Kleene.Below.refl _

end Below

/-- What is decided at some depth stays so below it. -/
theorem validTo_below (depth : Nat) (schema : Schema) (value : JsValue) :
    Kleene.Below (validTo validator find depth schema value) (validTo validator find (depth + 1) schema value) := by
  induction depth generalizing schema value with
  | zero => simp [Kleene.Below, validTo]
  | succ depth ih =>
    cases schema with
    | boolean b => exact Kleene.Below.refl _
    | object keywords items properties allOf anyOf oneOf =>
      apply Kleene.all_cons_below (Kleene.Below.refl _)
      apply Kleene.all_cons_below (refPart_below find ih value keywords)
      apply Kleene.all_cons_below (itemsPart_below ih value items)
      apply Kleene.all_cons_below (propertiesPart_below ih value properties)
      apply Kleene.all_cons_below (listPart_below ih value (fun _ _ _ below => Kleene.all_map_below below) allOf)
      apply Kleene.all_cons_below (listPart_below ih value (fun _ _ _ below => Kleene.any_map_below below) anyOf)
      apply Kleene.all_cons_below (listPart_below ih value (fun _ _ _ below => Kleene.one_map_below below) oneOf)
      exact Kleene.Below.refl _

theorem validTo_mono {m n : Nat} (deeper : m ≤ n) (schema : Schema) (value : JsValue) :
    Kleene.Below (validTo validator find m schema value) (validTo validator find n schema value) := by
  induction deeper with
  | refl => exact Kleene.Below.refl _
  | step _ ih => exact fun answer decided => validTo_below validator find _ schema value answer (ih answer decided)

/-- What validity under a schema that is no boolean amounts to, in terms of what holds and what fails of its parts. -/
structure ObjectValid (holds fails : Schema → JsValue → Prop) (keywords : Keywords) (items : Option Schema)
    (properties : List (String × Schema)) (allOf anyOf oneOf : Option (List Schema)) (value : JsValue) : Prop where
  here : keywords.valid validator value = true
  followed : ∀ ref, keywords.ref = some ref → ∃ target, find ref = some target ∧ holds target value
  eachItem : ∀ schema values, items = some schema → value = .arr values → ∀ item ∈ values, holds schema item
  eachProperty : ∀ fields, value = .obj fields → ∀ property ∈ properties, ∀ held,
    JsObject.get? fields property.1 = some held → holds property.2 held
  everyOne : ∀ schemas, allOf = some schemas → ∀ schema ∈ schemas, holds schema value
  someOne : ∀ schemas, anyOf = some schemas → ∃ schema ∈ schemas, holds schema value
  exactlyOne : ∀ schemas, oneOf = some schemas → ∃ before schema after, schemas = before ++ schema :: after ∧
    holds schema value ∧ ∀ other ∈ before ++ after, fails other value

variable {validator find} {keywords : Keywords} {items : Option Schema} {properties : List (String × Schema)}
  {allOf anyOf oneOf : Option (List Schema)} {value : JsValue}

theorem valid_of_boolean {b : Bool} : Valid validator find (.boolean b) value ↔ b = true := by
  constructor
  · rintro ⟨_ | depth, decided⟩
    · cases decided
    · exact Option.some.inj decided
  · rintro rfl
    exact ⟨1, rfl⟩

theorem objectValid_of_validTo {depth : Nat}
    (valid : validTo validator find (depth + 1) (.object keywords items properties allOf anyOf oneOf) value = some true) :
    ObjectValid validator find (fun schema value => validTo validator find depth schema value = some true)
      (fun schema value => validTo validator find depth schema value = some false)
      keywords items properties allOf anyOf oneOf value := by
  have parts := Kleene.all_eq_true.mp valid
  simp only [List.forall_mem_cons, List.not_mem_nil, false_imp_iff, implies_true, and_true] at parts
  obtain ⟨keywordsValid, refValid, itemsValid, propertiesValid, allValid, anyValid, oneValid⟩ := parts
  constructor
  case here => exact Option.some.inj keywordsValid
  case followed =>
    intro ref isRef
    rw [refPart, isRef] at refValid
    exact Option.bind_eq_some_iff.mp refValid
  case eachItem =>
    rintro schema values rfl rfl item member
    exact Kleene.all_eq_true.mp itemsValid _ (List.mem_map_of_mem member)
  case eachProperty =>
    rintro fields rfl property member held isHeld
    have isValid := Kleene.all_eq_true.mp propertiesValid _ (List.mem_map_of_mem member)
    rw [propertyPart, isHeld] at isValid
    exact isValid
  case everyOne =>
    rintro schemas rfl schema member
    exact Kleene.all_eq_true.mp allValid _ (List.mem_map_of_mem member)
  case someOne =>
    rintro schemas rfl
    exact List.mem_map.mp (Kleene.any_eq_true.mp anyValid)
  case exactlyOne =>
    rintro schemas rfl
    exact Kleene.one_map_eq_true.mp oneValid

/-- An answer given at some depth is given from there on. -/
theorem eventually_of_decided {schema : Schema} {answer : Bool}
    (decided : ∃ depth, validTo validator find depth schema value = some answer) :
    ∀ᶠ depth in Filter.atTop, validTo validator find depth schema value = some answer := by
  obtain ⟨depth, decided⟩ := decided
  exact Filter.eventually_atTop.mpr ⟨depth, fun n deeper => validTo_mono validator find deeper schema value answer decided⟩

/-- What is decided for each item of a list is so for all of them from one depth on. -/
theorem eventually_forall_mem {α : Type} {list : List α} {holds : α → Nat → Prop}
    (each : ∀ item ∈ list, ∀ᶠ depth in Filter.atTop, holds item depth) :
    ∀ᶠ depth in Filter.atTop, ∀ item ∈ list, holds item depth :=
  (Filter.eventually_all_finite (List.finite_toSet list)).mpr each

theorem eventually_listPart {join : List (Option Bool) → Option Bool} {list : Option (List Schema)}
    (joined : ∀ schemas, list = some schemas →
      ∀ᶠ depth in Filter.atTop, join (schemas.map fun schema => validTo validator find depth schema value) = some true) :
    ∀ᶠ depth in Filter.atTop, listPart (validTo validator find depth) value join list = some true := by
  cases list with
  | none => exact Filter.Eventually.of_forall fun _ => rfl
  | some schemas => exact joined schemas rfl

theorem valid_of_objectValid (valid : ObjectValid validator find (Valid validator find) (Invalid validator find)
      keywords items properties allOf anyOf oneOf value) :
    Valid validator find (.object keywords items properties allOf anyOf oneOf) value := by
  have refs : ∀ᶠ depth in Filter.atTop, refPart find (validTo validator find depth) value keywords = some true := by
    unfold refPart
    cases isRef : keywords.ref with
    | none => exact Filter.Eventually.of_forall fun _ => rfl
    | some ref =>
      obtain ⟨target, found, isValid⟩ := valid.followed ref isRef
      simp only [found, Option.bind_some]
      exact eventually_of_decided isValid
  have ofItems : ∀ᶠ depth in Filter.atTop, itemsPart (validTo validator find depth) value items = some true := by
    unfold itemsPart
    split
    next schema values =>
      refine (eventually_forall_mem fun item member => eventually_of_decided (valid.eachItem schema values rfl rfl item member)).mono
        fun depth every => ?_
      exact Kleene.all_eq_true.mpr (List.forall_mem_map.mpr every)
    next => exact Filter.Eventually.of_forall fun _ => rfl
  have ofProperties : ∀ᶠ depth in Filter.atTop,
      propertiesPart (validTo validator find depth) value properties = some true := by
    unfold propertiesPart
    split
    next fields =>
      have each : ∀ property ∈ properties, ∀ᶠ depth in Filter.atTop,
          propertyPart (validTo validator find depth) fields property = some true := by
        intro property member
        unfold propertyPart
        split
        next held isHeld => exact eventually_of_decided (valid.eachProperty fields rfl property member held isHeld)
        next => exact Filter.Eventually.of_forall fun _ => rfl
      refine (eventually_forall_mem each).mono fun depth every => ?_
      exact Kleene.all_eq_true.mpr (List.forall_mem_map.mpr every)
    next => exact Filter.Eventually.of_forall fun _ => rfl
  have ofAll : ∀ᶠ depth in Filter.atTop, listPart (validTo validator find depth) value Kleene.all allOf = some true := by
    refine eventually_listPart fun schemas isList => ?_
    refine (eventually_forall_mem fun schema member => eventually_of_decided (valid.everyOne schemas isList schema member)).mono
      fun depth every => ?_
    exact Kleene.all_eq_true.mpr (List.forall_mem_map.mpr every)
  have ofAny : ∀ᶠ depth in Filter.atTop, listPart (validTo validator find depth) value Kleene.any anyOf = some true := by
    refine eventually_listPart fun schemas isList => ?_
    obtain ⟨schema, member, isValid⟩ := valid.someOne schemas isList
    refine (eventually_of_decided isValid).mono fun depth holds => ?_
    exact Kleene.any_eq_true.mpr (List.mem_map.mpr ⟨schema, member, holds⟩)
  have ofOne : ∀ᶠ depth in Filter.atTop, listPart (validTo validator find depth) value Kleene.one oneOf = some true := by
    refine eventually_listPart fun schemas isList => ?_
    obtain ⟨before, schema, after, split, isValid, others⟩ := valid.exactlyOne schemas isList
    refine ((eventually_of_decided isValid).and (eventually_forall_mem fun other member =>
      eventually_of_decided (others other member))).mono fun depth decided => ?_
    exact Kleene.one_map_eq_true.mpr ⟨before, schema, after, split, decided⟩
  obtain ⟨depth, onRef, onItems, onProperties, onAll, onAny, onOne⟩ :=
    (refs.and (ofItems.and (ofProperties.and (ofAll.and (ofAny.and ofOne))))).exists
  refine ⟨depth + 1, Kleene.all_eq_true.mpr ?_⟩
  simp only [List.forall_mem_cons, List.not_mem_nil, false_imp_iff, implies_true, and_true]
  exact ⟨congrArg some valid.here, onRef, onItems, onProperties, onAll, onAny, onOne⟩

end Schema

end Ceramic
