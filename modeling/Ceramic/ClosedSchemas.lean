import Ceramic.JsonPatch
import Ceramic.SchemaValidity

/-! Which schemas of models are accepted, and what acceptance says of the fields of documents. -/
namespace Ceramic

namespace JsValue

/-- Own properties. -/
def entries : JsValue → JsObject
  | .obj fields => fields
  | _ => []

def elements : JsValue → List JsValue
  | .arr items => items
  | _ => []

end JsValue

/-- The JSON schema validator. `valid root schema value` is that it finds `value` valid under `schema`, a
part of `root`, and `resolve` leads from a root and a reference to the schema that is meant. -/
structure Ajv where
  validateSchema : JsValue → Except JsError Bool
  removeSchema : JsValue → Except JsError Unit
  errorsText : JsValue → String
  valid : JsValue → JsValue → JsValue → Prop
  test : String → String → Bool
  resolve : JsValue → String → Option JsValue

section Walk

variable (fn : JsValue → Except JsError Unit)

mutual
/-- Schemas are JSON: only arrays and objects have properties that are gone into. -/
def recursiveMap : JsValue → Except JsError Unit
  | .obj fields => do
    fn (.obj fields)
    recursiveMapFields fields
  | .arr items => do
    fn (.arr items)
    recursiveMapItems items
  | schema => fn schema

def recursiveMapFields : JsObject → Except JsError Unit
  | [] => pure ()
  | (_, schemaProperty) :: fields => do
    (if schemaProperty.isContainer then recursiveMap schemaProperty else pure ())
    recursiveMapFields fields

def recursiveMapItems : List JsValue → Except JsError Unit
  | [] => pure ()
  | schemaProperty :: items => do
    (if schemaProperty.isContainer then recursiveMap schemaProperty else pure ())
    recursiveMapItems items
end

end Walk

def isObjectJSONSchema (schema : JsValue) : Bool := schema.truthy && decide (schema.fieldOf "type" = .str "object")

def openObject : JsError := ⟨"All objects in schema need to have additional properties disabled"⟩

def validateAdditionalProperties (schema : JsValue) : Except JsError Unit :=
  if isObjectJSONSchema schema then
    if schema.fieldOf "additionalProperties" ≠ .bool false then throw openObject else pure ()
  else pure ()

namespace Ajv

variable (ajv : Ajv)

def requireValid (schema : JsValue) (isValid : Bool) : Except JsError Unit :=
  if isValid then pure () else throw ⟨"Validation Error: " ++ ajv.errorsText schema⟩

def assertSchemaIsValid (schema : JsValue) : Except JsError Unit := do
  if !schema.truthy then throw ⟨"Validation Error: schema must be defined"⟩
  let isValid ← ajv.validateSchema schema
  ajv.removeSchema schema
  ajv.requireValid schema isValid
  recursiveMap validateAdditionalProperties schema

end Ajv

/-- The values a walk comes by: the schema itself, and the arrays and objects in it. -/
inductive Visited : JsValue → JsValue → Prop
  | here (schema : JsValue) : Visited schema schema
  | field {fields name inner value} : (name, inner) ∈ fields → inner.isContainer → Visited inner value →
    Visited (.obj fields) value
  | item {items inner value} : inner ∈ items → inner.isContainer → Visited inner value → Visited (.arr items) value

namespace Visited

theorem trans {schema middle value : JsValue} (first : Visited schema middle) (second : Visited middle value) :
    Visited schema value := by
  induction first with
  | here => exact second
  | field member container _ ih => exact .field member container (ih second)
  | item member container _ ih => exact .item member container (ih second)

theorem obj_iff {fields : JsObject} {value : JsValue} : Visited (.obj fields) value ↔
    value = .obj fields ∨ ∃ field ∈ fields, field.2.isContainer ∧ Visited field.2 value := by
  constructor
  · intro visited
    cases visited with
    | here => exact .inl rfl
    | field member container within => exact .inr ⟨_, member, container, within⟩
  · rintro (rfl | ⟨field, member, container, within⟩)
    · exact .here _
    · exact .field member container within

theorem arr_iff {items : List JsValue} {value : JsValue} : Visited (.arr items) value ↔
    value = .arr items ∨ ∃ item ∈ items, item.isContainer ∧ Visited item value := by
  constructor
  · intro visited
    cases visited with
    | here => exact .inl rfl
    | item member container within => exact .inr ⟨_, member, container, within⟩
  · rintro (rfl | ⟨item, member, container, within⟩)
    · exact .here _
    · exact .item member container within

end Visited

section Walk

variable {fn : JsValue → Except JsError Unit}

theorem whenContainer_eq_ok {schema : JsValue} {walked : Except JsError Unit} :
    (if schema.isContainer then walked else pure ()) = .ok () ↔ (schema.isContainer → walked = .ok ()) := by
  cases schema.isContainer <;> simp [pure, Except.pure]

mutual
/-- The walk comes through where the function accepts all that it comes by. -/
theorem recursiveMap_eq_ok : (schema : JsValue) →
    (recursiveMap fn schema = .ok () ↔ ∀ value, Visited schema value → fn value = .ok ())
  | .obj fields => by
    rw [recursiveMap, then_eq_ok, recursiveMapFields_eq_ok fields]
    constructor
    · rintro ⟨here, below⟩ value visited
      obtain rfl | ⟨field, member, container, within⟩ := Visited.obj_iff.mp visited
      · exact here
      · exact below field member container value within
    · intro passed
      exact ⟨passed _ (.here _), fun field member container value within =>
        passed value (Visited.obj_iff.mpr (.inr ⟨field, member, container, within⟩))⟩
  | .arr items => by
    rw [recursiveMap, then_eq_ok, recursiveMapItems_eq_ok items]
    constructor
    · rintro ⟨here, below⟩ value visited
      obtain rfl | ⟨item, member, container, within⟩ := Visited.arr_iff.mp visited
      · exact here
      · exact below item member container value within
    · intro passed
      exact ⟨passed _ (.here _), fun item member container value within =>
        passed value (Visited.arr_iff.mpr (.inr ⟨item, member, container, within⟩))⟩
  | .undefined | .null | .bool _ | .num _ | .str _ | .bytes _ | .cid _ | .streamID _ => by
    rw [recursiveMap]
    · constructor
      · intro here value visited
        cases visited
        exact here
      · exact fun passed => passed _ (.here _)
    · simp
    · simp

theorem recursiveMapFields_eq_ok : (fields : JsObject) → (recursiveMapFields fn fields = .ok () ↔
    ∀ field ∈ fields, field.2.isContainer → ∀ value, Visited field.2 value → fn value = .ok ())
  | [] => by simp [recursiveMapFields, pure, Except.pure]
  | (_, schemaProperty) :: fields => by
    rw [recursiveMapFields, then_eq_ok, whenContainer_eq_ok, recursiveMap_eq_ok schemaProperty,
      recursiveMapFields_eq_ok fields, List.forall_mem_cons]

theorem recursiveMapItems_eq_ok : (items : List JsValue) → (recursiveMapItems fn items = .ok () ↔
    ∀ item ∈ items, item.isContainer → ∀ value, Visited item value → fn value = .ok ())
  | [] => by simp [recursiveMapItems, pure, Except.pure]
  | schemaProperty :: items => by
    rw [recursiveMapItems, then_eq_ok, whenContainer_eq_ok, recursiveMap_eq_ok schemaProperty,
      recursiveMapItems_eq_ok items, List.forall_mem_cons]
end

end Walk

def Closed (schema : JsValue) : Prop := schema.fieldOf "additionalProperties" = .bool false

instance (schema : JsValue) : Decidable (Closed schema) := inferInstanceAs (Decidable (_ = _))

theorem validateAdditionalProperties_eq_ok {schema : JsValue} :
    validateAdditionalProperties schema = .ok () ↔ (isObjectJSONSchema schema = true → Closed schema) := by
  unfold validateAdditionalProperties Closed
  by_cases object : isObjectJSONSchema schema = true
  · by_cases closed : schema.fieldOf "additionalProperties" = .bool false
    · simp [object, closed, pure, Except.pure]
    · simp [object, closed, throw, throwThe, MonadExceptOf.throw]
  · simp [object, pure, Except.pure]

theorem isContainer_of_object {schema : JsValue} (object : isObjectJSONSchema schema = true) : schema.isContainer := by
  cases schema with
  | obj => rfl
  | arr => rfl
  | _ => simp [isObjectJSONSchema, JsValue.fieldOf] at object

/-- The schemas in a schema, at any depth. -/
inductive Subschema (root : JsValue) : JsValue → Prop
  | root : Subschema root root
  | single {fields keyword sub} : Subschema root (.obj fields) → keyword ∈ ["items", "contains", "additionalProperties",
      "propertyNames", "unevaluatedItems", "unevaluatedProperties", "not", "if", "then", "else"] →
    (keyword, sub) ∈ fields → Subschema root sub
  | listed {fields keyword items sub} : Subschema root (.obj fields) → keyword ∈ ["allOf", "anyOf", "oneOf", "prefixItems"] →
    (keyword, .arr items) ∈ fields → sub ∈ items → Subschema root sub
  | named {fields keyword members name sub} : Subschema root (.obj fields) →
    keyword ∈ ["properties", "patternProperties", "$defs", "definitions", "dependentSchemas"] →
    (keyword, .obj members) ∈ fields → (name, sub) ∈ members → Subschema root sub

/-- A subschema that is an object is come by. -/
theorem Subschema.visited {root sub : JsValue} (within : Subschema root sub) (container : sub.isContainer) :
    Visited root sub := by
  induction within with
  | root => exact .here root
  | single _ _ member above => exact (above rfl).trans (.field member container (.here _))
  | listed _ _ member listed above => exact (above rfl).trans (.field member rfl (.item listed container (.here _)))
  | named _ _ member named above => exact (above rfl).trans (.field member rfl (.field named container (.here _)))

namespace Ajv

variable (ajv : Ajv)

theorem assertSchemaIsValid_eq_ok {schema : JsValue} : ajv.assertSchemaIsValid schema = .ok () ↔
    schema.truthy ∧ ajv.validateSchema schema = .ok true ∧ ajv.removeSchema schema = .ok () ∧
      ∀ value, Visited schema value → isObjectJSONSchema value = true → Closed value := by
  have walk : recursiveMap validateAdditionalProperties schema = .ok () ↔
      ∀ value, Visited schema value → isObjectJSONSchema value = true → Closed value := by
    rw [recursiveMap_eq_ok]
    exact forall₂_congr fun value _ => validateAdditionalProperties_eq_ok
  rw [← walk]
  unfold assertSchemaIsValid
  rw [guard_eq_ok]
  constructor
  · rintro ⟨defined, rest⟩
    obtain ⟨isValid, validated, rest⟩ := bind_eq_ok.mp rest
    obtain ⟨removed, rest⟩ := then_eq_ok.mp rest
    obtain ⟨passed, walked⟩ := then_eq_ok.mp rest
    cases isValid with
    | true => exact ⟨by simpa using defined, validated, removed, walked⟩
    | false => cases passed
  · rintro ⟨defined, validated, removed, walked⟩
    refine ⟨by simpa using defined, bind_eq_ok.mpr ⟨true, validated, ?_⟩⟩
    exact then_eq_ok.mpr ⟨removed, then_eq_ok.mpr ⟨rfl, walked⟩⟩

section Applied

variable (root schema value : JsValue)

def propertiesApplied : List (JsValue × JsValue) :=
  (schema.fieldOf "properties").entries.filterMap fun (name, sub) =>
    if value.fieldOf name = .undefined then none else some (sub, value.fieldOf name)

def patternsApplied : List (JsValue × JsValue) :=
  (schema.fieldOf "patternProperties").entries.flatMap fun (pattern, sub) =>
    (value.entries.filter fun field => ajv.test pattern field.1).map fun field => (sub, field.2)

def itemsApplied : List (JsValue × JsValue) :=
  let prefixed := (schema.fieldOf "prefixItems").elements
  let sub := schema.fieldOf "items"
  prefixed.zip value.elements ++
    if sub = .undefined then [] else (value.elements.drop prefixed.length).map fun item => (sub, item)

def refApplied : List (JsValue × JsValue) :=
  match schema.fieldOf "$ref" with
  | .str ref => (ajv.resolve root ref).toList.map fun sub => (sub, value)
  | _ => []

/-- The schemas that a value and the values in it must be valid under to be valid under a schema. -/
def applied : List (JsValue × JsValue) :=
  propertiesApplied schema value ++ ajv.patternsApplied schema value ++ itemsApplied schema value ++
    (schema.fieldOf "allOf").elements.map (fun sub => (sub, value)) ++ ajv.refApplied root schema value

end Applied

/-- A property that a schema says something about. -/
def Declares (schema : JsValue) (name : String) : Prop :=
  (∃ sub, (name, sub) ∈ (schema.fieldOf "properties").entries) ∨
  ∃ pattern sub, (pattern, sub) ∈ (schema.fieldOf "patternProperties").entries ∧ ajv.test pattern name = true

/-- What the standard says of validity. -/
structure Standard : Prop where
  closed : ∀ root schema fields, ajv.valid root schema (.obj fields) → Closed schema → ∀ field ∈ fields, ajv.Declares schema field.1
  applied : ∀ root schema value, ajv.valid root schema value → ∀ pair ∈ ajv.applied root schema value, ajv.valid root pair.1 pair.2

/-- The schemas that a document is checked against, each with the value in it that they are for. -/
inductive Checked (root document : JsValue) : JsValue → JsValue → Prop
  | document : Checked root document root document
  | applied {schema value sub inner} : Checked root document schema value → (sub, inner) ∈ ajv.applied root schema value →
    Checked root document sub inner
  | branch {schema value keyword sub} : Checked root document schema value → keyword ∈ ["anyOf", "oneOf"] →
    sub ∈ (schema.fieldOf keyword).elements → ajv.valid root sub value → Checked root document sub value

variable {ajv}

theorem Checked.valid (standard : ajv.Standard) {root document sub inner : JsValue}
    (accepted : ajv.valid root root document) (checked : ajv.Checked root document sub inner) : ajv.valid root sub inner := by
  induction checked with
  | document => exact accepted
  | applied _ pair above => exact standard.applied root _ _ above _ pair
  | branch _ _ _ holds => exact holds

theorem closed_of_accepted {schema : JsValue} (accepted : ajv.assertSchemaIsValid schema = .ok ()) {sub : JsValue}
    (within : Subschema schema sub) (object : isObjectJSONSchema sub = true) : Closed sub := by
  obtain ⟨-, -, -, visits⟩ := ajv.assertSchemaIsValid_eq_ok.mp accepted
  exact visits sub (within.visited (isContainer_of_object object)) object

def Admits (ajv : Ajv) (root schema : JsValue) : Prop := ∃ fields, ajv.valid root schema (.obj fields)

/-- What acceptance leaves open: the schemas that admit objects and do not say `type: "object"`. -/
theorem admitted_closed_iff {schema : JsValue} (accepted : ajv.assertSchemaIsValid schema = .ok ()) :
    (∀ sub, Subschema schema sub → ajv.Admits schema sub → Closed sub) ↔
      ∀ sub, Subschema schema sub → ajv.Admits schema sub → isObjectJSONSchema sub = false → Closed sub := by
  constructor
  · exact fun closed sub within admits _ => closed sub within admits
  · intro others sub within admits
    cases object : isObjectJSONSchema sub with
    | true => exact closed_of_accepted accepted within object
    | false => exact others sub within admits object

/-- Where a schema is accepted, the schemas in it that say `type: "object"` are closed, and an object that
a document has where such a schema is for it has no other properties than the declared ones. -/
theorem objectSchemas_closed (standard : ajv.Standard) {schema : JsValue} (accepted : ajv.assertSchemaIsValid schema = .ok ()) :
    (∀ sub, Subschema schema sub → isObjectJSONSchema sub = true → Closed sub) ∧
    ∀ document, ajv.valid schema schema document → ∀ sub fields, Subschema schema sub →
      ajv.Checked schema document sub (.obj fields) → isObjectJSONSchema sub = true →
      ∀ field ∈ fields, ajv.Declares sub field.1 := by
  refine ⟨fun sub => closed_of_accepted accepted, fun document valid sub fields within checked object => ?_⟩
  exact standard.closed schema sub fields (checked.valid standard valid) (closed_of_accepted accepted within object)

end Ajv

namespace ProfileModel

def hasType (value type : JsValue) : Bool :=
  [TypeName.array, .boolean, .integer, .null, .number, .object, .string].any fun name =>
    decide (type = .str name.name) && name.holds value

def typeValid (schema value : JsValue) : Bool :=
  match schema.fieldOf "type" with
  | .undefined => true
  | .arr types => types.any (hasType value)
  | type => hasType value type

def parts : Ajv where
  validateSchema := fun _ => .ok true
  removeSchema := fun _ => .ok ()
  errorsText := fun _ => "No errors"
  valid := fun _ _ _ => True
  test := fun pattern name => decide (pattern = name)
  resolve := fun root ref =>
    if ref = "#/$defs/Address" then JsObject.get? (root.fieldOf "$defs").entries "Address" else none

def declares (schema : JsValue) (name : String) : Bool :=
  (schema.fieldOf "properties").entries.any (fun property => decide (property.1 = name)) ||
  (schema.fieldOf "patternProperties").entries.any fun property => parts.test property.1 name

def fieldsValid (schema value : JsValue) : Bool :=
  decide (schema.fieldOf "additionalProperties" ≠ .bool false) || value.entries.all fun field => declares schema field.1

/-- Validity as far as it shows when schemas are applied to some depth. -/
def validTo (root : JsValue) : Nat → JsValue → JsValue → Bool
  | 0, _, _ => true
  | depth + 1, schema, value => decide (schema ≠ .bool false) && typeValid schema value && fieldsValid schema value &&
    (parts.applied root schema value).all fun pair => validTo root depth pair.1 pair.2

def ajv : Ajv := { parts with valid := fun root schema value => ∀ depth, validTo root depth schema value = true }

theorem standard : ajv.Standard where
  closed := by
    intro root schema fields valid closed field member
    have here := valid 1
    simp only [validTo, fieldsValid, Bool.and_eq_true, Bool.or_eq_true, decide_eq_true_eq] at here
    obtain unclosed | declared := here.1.2
    · exact absurd closed unclosed
    · have known := List.all_eq_true.mp declared field member
      unfold declares at known
      rw [Bool.or_eq_true, List.any_eq_true, List.any_eq_true] at known
      obtain ⟨property, property_mem, same⟩ | ⟨property, property_mem, matched⟩ := known
      · exact .inl ⟨property.2, (of_decide_eq_true same) ▸ property_mem⟩
      · exact .inr ⟨property.1, property.2, property_mem, matched⟩
  applied := by
    intro root schema value valid pair member depth
    have here := valid (depth + 1)
    simp only [validTo, Bool.and_eq_true, List.all_eq_true] at here
    exact here.2 pair member

def text : JsValue := .obj [("type", .str "string")]

def address : JsValue :=
  .obj [("type", .str "object"), ("properties", .obj [("street", text)]), ("additionalProperties", .bool false)]

def reference : JsValue := .obj [("$ref", .str "#/$defs/Address")]

/-- An object, or nothing. -/
def nullable : JsValue := .obj [("type", .arr [.str "object", .str "null"])]

def profile : JsValue :=
  .obj [("type", .str "object"), ("properties", .obj [("address", reference), ("note", nullable)]),
    ("$defs", .obj [("Address", address)]), ("additionalProperties", .bool false)]

def home : JsObject := [("street", .str "Main")]

def note : JsObject := [("extra", .num 1)]

def document : JsValue := .obj [("address", .obj home), ("note", .obj note)]

theorem profile_accepted : ajv.assertSchemaIsValid profile = .ok () := by decide

theorem document_valid : ajv.valid profile profile document
  | 0 | 1 | 2 | 3 => by decide
  | _ + 4 => by rfl

theorem address_below : Subschema profile address :=
  .named .root (by decide) (List.mem_of_getElem? (i := 2) rfl) List.mem_cons_self

theorem nullable_below : Subschema profile nullable :=
  .named .root (by decide) (List.mem_of_getElem? (i := 1) rfl) (List.mem_of_getElem? (i := 1) rfl)

theorem reference_below : Subschema profile reference :=
  .named .root (by decide) (List.mem_of_getElem? (i := 1) rfl) List.mem_cons_self

theorem reference_checked : ajv.Checked profile document reference (.obj home) := .applied .document (by decide)

theorem address_checked : ajv.Checked profile document address (.obj home) := .applied reference_checked (by decide)

theorem note_checked : ajv.Checked profile document nullable (.obj note) := .applied .document (by decide)

theorem objectSchemas_closed_profile : Closed address ∧ ∀ field ∈ home, ajv.Declares address field.1 :=
  ⟨(Ajv.objectSchemas_closed standard profile_accepted).1 address address_below (by decide),
    (Ajv.objectSchemas_closed standard profile_accepted).2 document document_valid address home address_below address_checked
      (by decide)⟩

/-- A reference to a closed schema says nothing of other properties itself. A schema with two types is
not closed, and an accepted document has an undeclared property. -/
theorem profile_open : ajv.assertSchemaIsValid profile = .ok () ∧
    (Subschema profile reference ∧ ajv.Admits profile reference ∧ ¬Closed reference) ∧
    (Subschema profile nullable ∧ ajv.Admits profile nullable ∧ ¬Closed nullable) ∧
    ajv.valid profile profile document ∧ ajv.Checked profile document nullable (.obj note) ∧
    ¬ajv.Declares nullable "extra" := by
  have valid {sub value : JsValue} (checked : ajv.Checked profile document sub value) : ajv.valid profile sub value :=
    checked.valid standard document_valid
  refine ⟨profile_accepted, ⟨reference_below, ⟨home, valid reference_checked⟩, by decide⟩,
    ⟨nullable_below, ⟨note, valid note_checked⟩, by decide⟩, document_valid, note_checked, ?_⟩
  rintro (⟨sub, declared⟩ | ⟨pattern, sub, declared, -⟩)
  · cases declared
  · cases declared

end ProfileModel

end Ceramic
