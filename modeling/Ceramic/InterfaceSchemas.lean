import Ceramic.Js

/-! Whether the schema of a model implements that of an interface: the two are compared keyword by
keyword, down into their items, properties and subschemas. -/
namespace Ceramic

inductive TypeName where
  | array | boolean | integer | null | number | object | string
  deriving DecidableEq, Repr

def TypeName.name : TypeName → String
  | .array => "array"
  | .boolean => "boolean"
  | .integer => "integer"
  | .null => "null"
  | .number => "number"
  | .object => "object"
  | .string => "string"

/-- One type, or a list of types. -/
inductive SchemaType where
  | one (type : TypeName)
  | many (types : List TypeName)
  deriving DecidableEq, Repr

def SchemaType.value : SchemaType → JsValue
  | .one type => .str type.name
  | .many types => .arr (types.map fun type => .str type.name)

/-- The keywords of a schema whose values hold no schemas. -/
structure Keywords where
  title : Option String := none
  type : Option SchemaType := none
  const : Option JsValue := none
  enum : Option (List JsValue) := none
  pattern : Option String := none
  minimum : Option Rat := none
  maximum : Option Rat := none
  exclusiveMinimum : Option Rat := none
  exclusiveMaximum : Option Rat := none
  minLength : Option Nat := none
  maxLength : Option Nat := none
  minItems : Option Nat := none
  maxItems : Option Nat := none
  required : List String := []
  ref : Option String := none
  deriving DecidableEq, Repr

inductive Schema where
  | boolean (b : Bool)
  | object (keywords : Keywords) (items : Option Schema) (properties : List (String × Schema))
      (allOf anyOf oneOf : Option (List Schema))

/-- `expected` and `actual` of an error: a value, schemas, or nothing. -/
inductive Detail where
  | missing
  | value (value : JsValue)
  | schema (schema : Schema)
  | schemas (list : List Schema)

structure ValidationErrorData where
  path : List String
  property : Option String := none
  index : Option Nat := none
  expected : Detail
  actual : Detail := .missing

namespace Detail

def ofNat (n : Nat) : Detail := .value (.num n)

def ofOption (make : α → Detail) : Option α → Detail
  | some a => make a
  | none => .missing

/-- A schema that a reference did or did not lead to. -/
def ofResolved : Option Schema → Detail
  | some found => .schema found
  | none => .value .null

end Detail

namespace Interfaces

/-- `const`, where it is not `null`. -/
def constant (keywords : Keywords) : Option JsValue := keywords.const.filter fun value => !value.isNullish

variable (toNumber : JsValue → Option Rat)

/-- `Number(value)`, with `none` for `NaN`. -/
def numberOf : JsValue → Option Rat
  | .num n => some n
  | value => toNumber value

/-- A comparison with a bound is false of what is no number. -/
def compare (holds : Rat → Rat → Bool) (value : JsValue) (bound : Rat) : Bool :=
  match numberOf toNumber value with
  | some n => holds n bound
  | none => false

/-- `value.length`. -/
def lengthOf (value : JsValue) : JsValue := (value.prop "length").toOption.getD .undefined

def includes (list : List JsValue) (value : JsValue) : Bool := list.any fun other => other.strictEq value

def constErrors (path : List String) (expected implemented : Keywords) : List ValidationErrorData :=
  match constant expected with
  | none => []
  | some value =>
    if (implemented.const.getD .undefined).strictEq value then []
    else [{ path, property := some "const", expected := .value value, actual := .ofOption .value implemented.const }]

/-- A bound has to hold of the constant if there is one, and else be met by the implementation's own. -/
def boundErrors (path : List String) (property : String) (expected : Option Rat) (const : Option JsValue)
    (constFails : JsValue → Rat → Bool) (implemented : Option Rat) (looser : Rat → Rat → Bool) :
    List ValidationErrorData :=
  match expected with
  | none => []
  | some bound =>
    match const with
    | some value =>
      if constFails value bound then
        [{ path, property := some property, expected := .value (.num bound), actual := .value value }]
      else []
    | none =>
      if implemented.any fun own => !looser own bound then []
      else [{ path, property := some property, expected := .value (.num bound)
              actual := .ofOption (fun own => .value (.num own)) implemented }]

def greater (m n : Rat) : Bool := decide (n < m)
def less (m n : Rat) : Bool := decide (m < n)
def notLess (m n : Rat) : Bool := decide (n ≤ m)
def notGreater (m n : Rat) : Bool := decide (m ≤ n)

def itemCountErrors (path : List String) (property : String) (expected implemented : Option Nat)
    (looser : Rat → Rat → Bool) : List ValidationErrorData :=
  boundErrors path property (expected.map fun n => n) none (fun _ _ => false) (implemented.map fun n => n) looser

def numberErrors (path : List String) (property : String) (expected implemented : Option Rat) (const : Option JsValue)
    (constFails looser : Rat → Rat → Bool) : List ValidationErrorData :=
  boundErrors path property expected const (compare toNumber constFails) implemented looser

def lengthErrors (path : List String) (property : String) (expected implemented : Option Nat) (const : Option JsValue)
    (looser : Rat → Rat → Bool) : List ValidationErrorData :=
  boundErrors path property (expected.map fun n => n) const
    (fun value bound => compare toNumber looser (lengthOf value) bound) (implemented.map fun n => n) looser

def validateBooleanSchema (path : List String) (expected implemented : Keywords) : List ValidationErrorData :=
  constErrors path expected implemented

def validateNumberSchema (path : List String) (expected implemented : Keywords) : List ValidationErrorData :=
  constErrors path expected implemented ++
  numberErrors toNumber path "maximum" expected.maximum implemented.maximum (constant implemented) greater greater ++
  numberErrors toNumber path "minimum" expected.minimum implemented.minimum (constant implemented) less less ++
  numberErrors toNumber path "exclusiveMaximum" expected.exclusiveMaximum implemented.exclusiveMaximum
    (constant implemented) notLess greater ++
  numberErrors toNumber path "exclusiveMinimum" expected.exclusiveMinimum implemented.exclusiveMinimum
    (constant implemented) notGreater less

/-- The values of the implementation have to be some of those expected. -/
def enumErrors (path : List String) (expected implemented : Keywords) : List ValidationErrorData :=
  match expected.enum with
  | none => []
  | some values =>
    match constant implemented, implemented.enum with
    | some value, _ =>
      if includes values value then []
      else [{ path, property := some "enum", expected := .value (.arr values), actual := .value value }]
    | none, some own =>
      if values.any (includes own) && own.all (includes values) then []
      else [{ path, property := some "enum", expected := .value (.arr values), actual := .value (.arr own) }]
    | none, none => [{ path, property := some "enum", expected := .value (.arr values) }]

def patternErrors (path : List String) (expected implemented : Keywords) : List ValidationErrorData :=
  match expected.pattern with
  | none => []
  | some pattern =>
    if implemented.pattern = some pattern then []
    else [{ path, property := some "pattern", expected := .value (.str pattern)
            actual := .ofOption (fun own => .value (.str own)) implemented.pattern }]

def validateStringSchema (path : List String) (expected implemented : Keywords) : List ValidationErrorData :=
  constErrors path expected implemented ++ enumErrors path expected implemented ++
  patternErrors path expected implemented ++
  lengthErrors toNumber path "maxLength" expected.maxLength implemented.maxLength (constant implemented) greater ++
  lengthErrors toNumber path "minLength" expected.minLength implemented.minLength (constant implemented) less

structure Resolvers where
  resolveExpected : String → Except JsError (Option Schema)
  resolveImplemented : String → Except JsError (Option Schema)

/-- What a reference of a schema leads to from the root; another schema is itself. -/
def resolveReference (resolve : String → Except JsError (Option Schema)) (schema : Schema) :
    Except JsError (Option Schema) :=
  match schema with
  | .boolean b => .ok (some (.boolean b))
  | .object keywords _ _ _ _ _ =>
    match keywords.ref with
    | some ref => resolve ref
    | none => .ok (some schema)

section Subschemas

variable (resolvers : Resolvers) (validateSchemaType : List String → Schema → Schema → Except JsError (List ValidationErrorData))

/-- Reading a keyword of `null` throws; a boolean schema is told apart from it. -/
def validateResolved (path : List String) : Option Schema → Option Schema → Except JsError (List ValidationErrorData)
  | some expected, some implemented => validateSchemaType path expected implemented
  | some (.boolean b), none => .ok [{ path, expected := .schema (.boolean b), actual := .value .null }]
  | _, _ => .error ⟨"Cannot read properties of null"⟩

def validateItems (path : List String) (expected implemented : Option Schema) :
    Except JsError (List ValidationErrorData) :=
  match expected, implemented with
  | some expectedItems, some implementedItems => do
    let resolvedExpected ← resolveReference resolvers.resolveExpected expectedItems
    let resolvedImplemented ← resolveReference resolvers.resolveImplemented implementedItems
    match resolvedExpected, resolvedImplemented with
    | some e, some i => validateSchemaType (path ++ ["items"]) e i
    | e, i => return [{ path, property := some "items", expected := .ofResolved e, actual := .ofResolved i }]
  | _, _ => .ok [{ path, property := some "items", expected := .ofOption .schema expected
                   actual := .ofOption .schema implemented }]

def validateArraySchema (path : List String) (expected implemented : Keywords) (expectedItems implementedItems : Option Schema) :
    Except JsError (List ValidationErrorData) := do
  let errors := itemCountErrors path "maxItems" expected.maxItems implemented.maxItems greater ++
    itemCountErrors path "minItems" expected.minItems implemented.minItems less
  return errors ++ (← validateItems resolvers validateSchemaType path expectedItems implementedItems)

def requiredErrors (path : List String) (expected implemented : List String) : List ValidationErrorData :=
  (expected.filter fun name => !implemented.contains name).map fun name =>
    { path, property := some "required", expected := .value (.str name) }

def propertyOf (properties : List (String × Schema)) (key : String) : Option Schema :=
  (properties.find? fun property => property.1 == key).map (·.2)

def validateProperty (path : List String) (implementedProperties : List (String × Schema)) (property : String × Schema) :
    Except JsError (List ValidationErrorData) :=
  match propertyOf implementedProperties property.1 with
  | none => .ok [{ path, property := some "properties", expected := .value (.str property.1) }]
  | some implementedValue => do
    let resolvedExpected ← resolveReference resolvers.resolveExpected property.2
    let resolvedImplemented ← resolveReference resolvers.resolveImplemented implementedValue
    validateResolved validateSchemaType (path ++ [property.1]) resolvedExpected resolvedImplemented

def validateObjectSchema (path : List String) (expected implemented : Keywords)
    (expectedProperties implementedProperties : List (String × Schema)) : Except JsError (List ValidationErrorData) := do
  let propertyErrors ← expectedProperties.mapM
    (validateProperty resolvers validateSchemaType path implementedProperties)
  return requiredErrors path expected.required implemented.required ++ propertyErrors.flatten

/-- Whether some implemented schema matches; the ones behind it are not looked at. -/
def someMatch (path : List String) (expected : Schema) : List Schema → Except JsError Bool
  | [] => .ok false
  | implemented :: rest => do
    if (← validateSchemaType path expected implemented).isEmpty then return true
    someMatch path expected rest

/-- The expected schemas without a match, from an index on. -/
def unmatched (path : List String) (implementedList : List Schema) : Nat → List Schema →
    Except JsError (List ValidationErrorData)
  | _, [] => .ok []
  | index, expected :: rest => do
    let found ← someMatch validateSchemaType path expected implementedList
    let behind ← unmatched path implementedList (index + 1) rest
    return if found then behind else { path, index := some index, expected := .schema expected } :: behind

def validateAllSchemaTypes (path : List String) (expectedList implementedList : List Schema) :
    Except JsError (List ValidationErrorData) :=
  if implementedList.length ≠ expectedList.length then
    .ok [{ path, property := some "length", expected := .ofNat expectedList.length
           actual := .ofNat implementedList.length }]
  else unmatched validateSchemaType path implementedList 0 expectedList

/-- The first match makes the whole list valid. -/
def validateAnyFrom (path : List String) (implementedList : List Schema) (errors : List ValidationErrorData) :
    Nat → List Schema → Except JsError (List ValidationErrorData)
  | _, [] => .ok errors
  | index, expected :: rest => do
    if ← someMatch validateSchemaType path expected implementedList then return []
    validateAnyFrom path implementedList (errors ++ [{ path, index := some index, expected := .schema expected }])
      (index + 1) rest

def validateAnySchemaTypes (path : List String) (expectedList implementedList : List Schema) :
    Except JsError (List ValidationErrorData) :=
  validateAnyFrom validateSchemaType path implementedList [] 0 expectedList

end Subschemas

def titleErrors (path : List String) (expected implemented : Keywords) : List ValidationErrorData :=
  match expected.title with
  | none => []
  | some title =>
    if implemented.title = some title then []
    else [{ path, property := some "title", expected := .value (.str title)
            actual := .ofOption (fun own => .value (.str own)) implemented.title }]

/-- Two lists of types are never the same object. -/
def sameType : Option SchemaType → Option SchemaType → Bool
  | some (.one expected), some (.one implemented) => expected == implemented
  | none, none => true
  | _, _ => false

/-- A list of subschemas is missing from the implementation. -/
def missingList (path : List String) (property : String) (expectedList : List Schema) : List ValidationErrorData :=
  [{ path, property := some property, expected := .schemas expectedList }]

def validateByType (resolvers : Resolvers)
    (validateSchemaType : List String → Schema → Schema → Except JsError (List ValidationErrorData)) (path : List String)
    (expected implemented : Keywords) (expectedItems implementedItems : Option Schema)
    (expectedProperties implementedProperties : List (String × Schema)) : Except JsError (List ValidationErrorData) :=
  match expected.type with
  | some (.one .array) => validateArraySchema resolvers validateSchemaType path expected implemented expectedItems implementedItems
  | some (.one .object) =>
    validateObjectSchema resolvers validateSchemaType path expected implemented expectedProperties implementedProperties
  | some (.one .integer) | some (.one .number) => .ok (validateNumberSchema toNumber path expected implemented)
  | some (.one .string) => .ok (validateStringSchema toNumber path expected implemented)
  | some (.one .boolean) => .ok (validateBooleanSchema path expected implemented)
  | some (.one .null) => .ok []
  | type => .error ⟨"Unsupported schema type: " ++ if type.isSome then "array" else "undefined"⟩

/-- The calls of the source nest until the stack is full. -/
def validateSchemaType (resolvers : Resolvers) : Nat → List String → Schema → Schema →
    Except JsError (List ValidationErrorData)
  | 0, _, _, _ => .error ⟨"Maximum call stack size exceeded"⟩
  | _ + 1, path, .boolean b, implemented =>
    match implemented with
    | .boolean c => .ok (if b = c then [] else [{ path, expected := .schema (.boolean b), actual := .schema (.boolean c) }])
    | implemented => .ok [{ path, expected := .schema (.boolean b), actual := .schema implemented }]
  | _ + 1, path, expected, .boolean c => .ok [{ path, expected := .schema expected, actual := .schema (.boolean c) }]
  | depth + 1, path, .object expected items properties allOf anyOf oneOf,
      .object implemented ownItems ownProperties ownAllOf ownAnyOf ownOneOf => do
    let errors := titleErrors path expected implemented
    match allOf, anyOf, oneOf with
    | some expectedList, _, _ =>
      match ownAllOf with
      | some implementedList => return errors ++
          (← validateAllSchemaTypes (validateSchemaType resolvers depth) (path ++ ["allOf"]) expectedList implementedList)
      | none => return errors ++ missingList path "allOf" expectedList
    | none, some expectedList, _ => return errors ++
        (← validateAnySchemaTypes (validateSchemaType resolvers depth) (path ++ ["anyOf"]) expectedList
          (ownAnyOf.getD [.object implemented ownItems ownProperties ownAllOf ownAnyOf ownOneOf]))
    | none, none, some expectedList =>
      match ownOneOf with
      | some implementedList => return errors ++
          (← validateAllSchemaTypes (validateSchemaType resolvers depth) (path ++ ["oneOf"]) expectedList implementedList)
      | none => return errors ++ missingList path "oneOf" expectedList
    | none, none, none =>
      if sameType expected.type implemented.type then return errors ++
        (← validateByType toNumber resolvers (validateSchemaType resolvers depth) path expected implemented items
          ownItems properties ownProperties)
      else return errors ++ [{ path, property := some "type", expected := .ofOption (fun type => .value type.value) expected.type
                               actual := .ofOption (fun type => .value type.value) implemented.type }]

/-- How references are found in a root schema. -/
abbrev Resolve := Schema → String → Except JsError (Option Schema)

def createResolvers (resolve : Resolve) (expected implemented : Schema) : Resolvers :=
  ⟨resolve expected, resolve implemented⟩

def validateSchemaImplementation (resolve : Resolve) (stack : Nat) (expected implemented : Schema) :
    Except JsError (List ValidationErrorData) :=
  validateSchemaType toNumber (createResolvers resolve expected implemented) stack [] expected implemented

end Interfaces

end Ceramic
