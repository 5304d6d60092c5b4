import Ceramic.InterfaceMatching
import Ceramic.Library.Questions

/-! The comparison of two schemas without its errors: the pairs of schemas that a pair is compared by, in
rows that each need one that matches. -/
namespace Ceramic.Interfaces

open Questions

def stackExceeded : JsError := ⟨"Maximum call stack size exceeded"⟩

abbrev SchemaPair := Schema × Schema

/-- Errors of the schemas themselves count as one more row that is not met. -/
def ownRows (errors : List ValidationErrorData) : List (Except JsError (List SchemaPair)) :=
  if errors.isEmpty then [] else [.ok []]

def withEach (implementedList : List Schema) (expected : Schema) : List SchemaPair :=
  implementedList.map fun implemented => (expected, implemented)

def allRows (expectedList implementedList : List Schema) : List (Except JsError (List SchemaPair)) :=
  if implementedList.length ≠ expectedList.length then [.ok []]
  else expectedList.map fun expected => .ok (withEach implementedList expected)

def anyRows (expectedList implementedList : List Schema) : List (Except JsError (List SchemaPair)) :=
  if expectedList.isEmpty then [] else [.ok (expectedList.flatMap (withEach implementedList))]

section Rows

variable (toNumber : JsValue → Option Rat) (resolvers : Resolvers)

def itemsRow (expected implemented : Option Schema) : Except JsError (List SchemaPair) :=
  match expected, implemented with
  | some expectedItems, some implementedItems => do
    let resolvedExpected ← resolveReference resolvers.resolveExpected expectedItems
    let resolvedImplemented ← resolveReference resolvers.resolveImplemented implementedItems
    match resolvedExpected, resolvedImplemented with
    | some e, some i => return [(e, i)]
    | _, _ => return []
  | _, _ => .ok []

def resolvedRow : Option Schema → Option Schema → Except JsError (List SchemaPair)
  | some expected, some implemented => .ok [(expected, implemented)]
  | some (.boolean _), none => .ok []
  | _, _ => .error ⟨"Cannot read properties of null"⟩

def propertyRow (implementedProperties : List (String × Schema)) (property : String × Schema) : Except JsError (List SchemaPair) :=
  match propertyOf implementedProperties property.1 with
  | none => .ok []
  | some implementedValue => do
    let resolvedExpected ← resolveReference resolvers.resolveExpected property.2
    let resolvedImplemented ← resolveReference resolvers.resolveImplemented implementedValue
    resolvedRow resolvedExpected resolvedImplemented

def typeRows (expected implemented : Keywords) (expectedItems implementedItems : Option Schema)
    (expectedProperties implementedProperties : List (String × Schema)) : List (Except JsError (List SchemaPair)) :=
  match expected.type with
  | some (.one .array) =>
    ownRows (itemCountErrors [] "maxItems" expected.maxItems implemented.maxItems greater ++
      itemCountErrors [] "minItems" expected.minItems implemented.minItems less) ++
    [itemsRow resolvers expectedItems implementedItems]
  | some (.one .object) =>
    ownRows (requiredErrors [] expected.required implemented.required) ++
    expectedProperties.map (propertyRow resolvers implementedProperties)
  | some (.one .integer) | some (.one .number) => ownRows (validateNumberSchema toNumber [] expected implemented)
  | some (.one .string) => ownRows (validateStringSchema toNumber [] expected implemented)
  | some (.one .boolean) => ownRows (validateBooleanSchema [] expected implemented)
  | some (.one .null) => []
  | type => [.error ⟨"Unsupported schema type: " ++ if type.isSome then "array" else "undefined"⟩]

def subschemaRows (expected implemented : Keywords) (items ownItems : Option Schema) (properties ownProperties : List (String × Schema))
    (allOf anyOf oneOf ownAllOf ownAnyOf ownOneOf : Option (List Schema)) : List (Except JsError (List SchemaPair)) :=
  match allOf, anyOf, oneOf with
  | some expectedList, _, _ => ownAllOf.elim [.ok []] (allRows expectedList)
  | none, some expectedList, _ =>
    anyRows expectedList (ownAnyOf.getD [.object implemented ownItems ownProperties ownAllOf ownAnyOf ownOneOf])
  | none, none, some expectedList => ownOneOf.elim [.ok []] (allRows expectedList)
  | none, none, none =>
    if sameType expected.type implemented.type then
      typeRows toNumber resolvers expected implemented items ownItems properties ownProperties
    else [.ok []]

/-- The pairs that two schemas are compared by: each row has to have one that matches. -/
def schemaRows : SchemaPair → List (Except JsError (List SchemaPair))
  | (.boolean b, .boolean c) => if b = c then [] else [.ok []]
  | (.boolean _, .object _ _ _ _ _ _) | (.object _ _ _ _ _ _, .boolean _) => [.ok []]
  | (.object expected items properties allOf anyOf oneOf,
      .object implemented ownItems ownProperties ownAllOf ownAnyOf ownOneOf) =>
    ownRows (titleErrors [] expected implemented) ++
      subschemaRows toNumber resolvers expected implemented items ownItems properties ownProperties allOf anyOf oneOf
        ownAllOf ownAnyOf ownOneOf

end Rows

section Answers

variable {toNumber : JsValue → Option Rat} {resolvers : Resolvers} {ask : SchemaPair → Except JsError Bool}
  {validate : List String → Schema → Schema → Except JsError (List ValidationErrorData)} {path : List String}

theorem every_unmet (rows : List (Except JsError (List SchemaPair))) :
    every ask (.ok [] :: rows) = (every ask rows).map fun _ => false := by
  rw [every_cons]
  rfl

theorem every_ownRows (errors : List ValidationErrorData) (rows : List (Except JsError (List SchemaPair))) :
    every ask (ownRows errors ++ rows) = (every ask rows).map fun others => errors.isEmpty && others := by
  cases errors with
  | nil => cases behind : every ask rows <;> simp [ownRows, behind, Except.map]
  | cons => exact every_unmet rows

theorem every_own (errors : List ValidationErrorData) : every ask (ownRows errors) = .ok errors.isEmpty := by
  cases errors <;> rfl

theorem every_single (row : Except JsError (List SchemaPair)) : every ask [row] = row.bind (meets ask) := by
  rw [every_cons]
  cases row with
  | error => rfl
  | ok questions => rcases answered : meets ask questions with _ | _ | _ <;> simp [Except.bind, Except.map, every, answered]

theorem isEmpty_append (errors behind : List ValidationErrorData) :
    (errors ++ behind).isEmpty = (errors.isEmpty && behind.isEmpty) := by
  cases errors <;> rfl

theorem isEmpty_bind (errors : List ValidationErrorData) (more : Except JsError (List ValidationErrorData)) :
    (do return errors ++ (← more)).map List.isEmpty =
      (more.map List.isEmpty).map fun others => errors.isEmpty && others := by
  cases more with
  | error => rfl
  | ok more => cases errors <;> rfl

variable (answers : ∀ path expected implemented,
  (validate path expected implemented).map List.isEmpty = ask (expected, implemented))
include answers

theorem someMatch_answer (expected : Schema) (list : List Schema) :
    someMatch validate path expected list = meets ask (withEach list expected) := by
  induction list with
  | nil => rfl
  | cons first list ih =>
    rw [withEach, List.map_cons, meets_cons, someMatch, ← answers path]
    cases validate path expected first with
    | error => rfl
    | ok errors => cases errors with
      | nil => rfl
      | cons => exact ih

theorem unmatched_answer (implementedList expectedList : List Schema) (index : Nat) :
    (unmatched validate path implementedList index expectedList).map List.isEmpty =
      every ask (expectedList.map fun expected => .ok (withEach implementedList expected)) := by
  induction expectedList generalizing index with
  | nil => rfl
  | cons first expectedList ih =>
    rw [List.map_cons, every_ok_cons, ← ih (index + 1), unmatched, someMatch_answer answers]
    cases meets ask (withEach implementedList first) with
    | error => rfl
    | ok found =>
      cases unmatched validate path implementedList (index + 1) expectedList with
      | error => rfl
      | ok behind => cases found <;> rfl

theorem validateAllSchemaTypes_answer (expectedList implementedList : List Schema) :
    (validateAllSchemaTypes validate path expectedList implementedList).map List.isEmpty =
      every ask (allRows expectedList implementedList) := by
  unfold validateAllSchemaTypes allRows
  split
  · rfl
  · exact unmatched_answer answers implementedList expectedList 0

theorem validateAnyFrom_answer (implementedList expectedList : List Schema) (errors : List ValidationErrorData) (index : Nat) :
    (validateAnyFrom validate path implementedList errors index expectedList).map List.isEmpty =
      (meets ask (expectedList.flatMap (withEach implementedList))).map fun met =>
        met || (errors.isEmpty && expectedList.isEmpty) := by
  induction expectedList generalizing errors index with
  | nil => cases errors <;> rfl
  | cons first expectedList ih =>
    rw [List.flatMap_cons, meets_append, validateAnyFrom, someMatch_answer answers]
    rcases meets ask (withEach implementedList first) with _ | _ | _
    · rfl
    · have behind := ih (errors ++ [{ path, index := some index, expected := .schema first }]) (index + 1)
      have notEmpty : (errors ++ [({ path, index := some index, expected := .schema first } : ValidationErrorData)]).isEmpty = false := by
        cases errors <;> rfl
      rw [notEmpty] at behind
      simpa [Except.bind, bind] using behind
    · rfl

theorem validateAnySchemaTypes_answer (expectedList implementedList : List Schema) :
    (validateAnySchemaTypes validate path expectedList implementedList).map List.isEmpty =
      every ask (anyRows expectedList implementedList) := by
  rw [validateAnySchemaTypes, validateAnyFrom_answer answers]
  cases expectedList with
  | nil => rfl
  | cons first expectedList =>
    rw [anyRows, if_neg (by simp), every_single]
    generalize (first :: expectedList).flatMap (withEach implementedList) = row
    cases answered : meets ask row <;> simp [Except.bind, Except.map, answered]

theorem validateItems_answer (expected implemented : Option Schema) :
    (validateItems resolvers validate path expected implemented).map List.isEmpty =
      (itemsRow resolvers expected implemented).bind (meets ask) := by
  cases expected with
  | none => rfl
  | some expectedItems =>
    cases implemented with
    | none => rfl
    | some implementedItems =>
      simp only [validateItems, itemsRow]
      cases resolveReference resolvers.resolveExpected expectedItems with
      | error => rfl
      | ok e =>
        cases resolveReference resolvers.resolveImplemented implementedItems with
        | error => cases e <;> rfl
        | ok i =>
          cases e with
          | none => cases i <;> rfl
          | some e =>
            cases i with
            | none => rfl
            | some i => exact (answers _ e i).trans (meets_single _).symm

theorem validateProperty_answer (implementedProperties : List (String × Schema)) (property : String × Schema) :
    (validateProperty resolvers validate path implementedProperties property).map List.isEmpty =
      (propertyRow resolvers implementedProperties property).bind (meets ask) := by
  unfold validateProperty propertyRow
  cases propertyOf implementedProperties property.1 with
  | none => rfl
  | some own =>
    dsimp only
    cases resolveReference resolvers.resolveExpected property.2 with
    | error => rfl
    | ok e =>
      cases resolveReference resolvers.resolveImplemented own with
      | error => cases e <;> rfl
      | ok i =>
        cases e with
        | none => cases i <;> rfl
        | some e =>
          cases i with
          | none => cases e <;> rfl
          | some i => exact (answers _ e i).trans (meets_single _).symm

theorem mapM_answer (implementedProperties properties : List (String × Schema)) :
    (properties.mapM (validateProperty resolvers validate path implementedProperties)).map
        (fun results => results.flatten.isEmpty) =
      every ask (properties.map (propertyRow resolvers implementedProperties)) := by
  induction properties with
  | nil => rfl
  | cons first properties ih =>
    rw [List.map_cons, every_cons, ← ih, ← validateProperty_answer answers, List.mapM_cons]
    cases validateProperty resolvers validate path implementedProperties first with
    | error => rfl
    | ok errors =>
      cases properties.mapM (validateProperty resolvers validate path implementedProperties) with
      | error => rfl
      | ok results => cases errors <;> rfl

end Answers

section Paths

variable {toNumber : JsValue → Option Rat} {path : List String} {expected implemented : Keywords}

theorem isEmpty_eq {α β : Type} {xs : List α} {ys : List β} (same : xs = [] ↔ ys = []) : xs.isEmpty = ys.isEmpty := by
  rw [Bool.eq_iff_iff, List.isEmpty_iff, List.isEmpty_iff, same]

theorem titleErrors_isEmpty : (titleErrors path expected implemented).isEmpty = (titleErrors [] expected implemented).isEmpty :=
  isEmpty_eq (titleErrors_eq_nil.trans titleErrors_eq_nil.symm)

theorem requiredErrors_isEmpty {names own : List String} :
    (requiredErrors path names own).isEmpty = (requiredErrors [] names own).isEmpty :=
  isEmpty_eq (requiredErrors_eq_nil.trans requiredErrors_eq_nil.symm)

theorem itemCountErrors_isEmpty :
    (itemCountErrors path "maxItems" expected.maxItems implemented.maxItems greater ++
      itemCountErrors path "minItems" expected.minItems implemented.minItems less).isEmpty =
    (itemCountErrors [] "maxItems" expected.maxItems implemented.maxItems greater ++
      itemCountErrors [] "minItems" expected.minItems implemented.minItems less).isEmpty :=
  isEmpty_eq (by simp only [itemCountErrors, List.append_eq_nil_iff, boundErrors_eq_nil])

theorem validateBooleanSchema_isEmpty :
    (validateBooleanSchema path expected implemented).isEmpty = (validateBooleanSchema [] expected implemented).isEmpty :=
  isEmpty_eq (constErrors_eq_nil.trans constErrors_eq_nil.symm)

theorem validateNumberSchema_isEmpty : (validateNumberSchema toNumber path expected implemented).isEmpty =
    (validateNumberSchema toNumber [] expected implemented).isEmpty :=
  isEmpty_eq (by simp only [validateNumberSchema, numberErrors, List.append_eq_nil_iff, constErrors_eq_nil, boundErrors_eq_nil])

theorem validateStringSchema_isEmpty : (validateStringSchema toNumber path expected implemented).isEmpty =
    (validateStringSchema toNumber [] expected implemented).isEmpty :=
  isEmpty_eq (by simp only [validateStringSchema, lengthErrors, List.append_eq_nil_iff, constErrors_eq_nil, enumErrors_eq_nil,
    patternErrors_eq_nil, boundErrors_eq_nil])

end Paths

section Refinement

variable {toNumber : JsValue → Option Rat} {resolvers : Resolvers}

theorem validateByType_answer {ask : SchemaPair → Except JsError Bool}
    {validate : List String → Schema → Schema → Except JsError (List ValidationErrorData)} {path : List String}
    (answers : ∀ path expected implemented, (validate path expected implemented).map List.isEmpty = ask (expected, implemented))
    (expected implemented : Keywords) (items ownItems : Option Schema) (properties ownProperties : List (String × Schema)) :
    (validateByType toNumber resolvers validate path expected implemented items ownItems properties ownProperties).map List.isEmpty =
      every ask (typeRows toNumber resolvers expected implemented items ownItems properties ownProperties) := by
  unfold validateByType typeRows
  rcases expected.type with _ | (type | types)
  · rfl
  · cases type with
    | array =>
      dsimp only
      rw [every_ownRows, every_single, ← validateItems_answer answers, ← itemCountErrors_isEmpty, validateArraySchema]
      exact isEmpty_bind _ _
    | object =>
      dsimp only
      rw [every_ownRows, ← mapM_answer answers, ← @requiredErrors_isEmpty path, validateObjectSchema]
      cases properties.mapM (validateProperty resolvers validate path ownProperties) with
      | error => rfl
      | ok results => exact congrArg Except.ok (isEmpty_append _ _)
    | integer | number => exact (congrArg _ validateNumberSchema_isEmpty).trans (every_own _).symm
    | string => exact (congrArg _ validateStringSchema_isEmpty).trans (every_own _).symm
    | boolean => exact (congrArg _ validateBooleanSchema_isEmpty).trans (every_own _).symm
    | null => rfl
  · rfl

/-- The comparison answers whether two schemas match, as their rows have it. -/
theorem validateSchemaType_answer (depth : Nat) (path : List String) (expected implemented : Schema) :
    (validateSchemaType toNumber resolvers depth path expected implemented).map List.isEmpty =
      answer (schemaRows toNumber resolvers) stackExceeded depth (expected, implemented) := by
  induction depth generalizing path expected implemented with
  | zero => rfl
  | succ depth ih =>
    rw [answer]
    cases expected with
    | boolean b =>
      cases implemented with
      | boolean c => by_cases same : b = c <;> simp [validateSchemaType, schemaRows, same, every, Except.map, meets, bind, Except.bind, pure, Except.pure]
      | object => rfl
    | object expected items properties allOf anyOf oneOf =>
      cases implemented with
      | boolean c => rfl
      | object implemented ownItems ownProperties ownAllOf ownAnyOf ownOneOf =>
        rw [schemaRows, every_ownRows, ← @titleErrors_isEmpty path]
        have missing (property : String) (list : List Schema) : Except.map List.isEmpty
            (pure (titleErrors path expected implemented ++ missingList path property list) : Except JsError _) =
              .ok ((titleErrors path expected implemented).isEmpty && false) := congrArg Except.ok (isEmpty_append _ _)
        cases allOf with
        | some expectedList =>
          cases ownAllOf with
          | none => exact missing "allOf" expectedList
          | some implementedList =>
            simp only [validateSchemaType, isEmpty_bind, validateAllSchemaTypes_answer ih]
            rfl
        | none =>
          cases anyOf with
          | some expectedList =>
            simp only [validateSchemaType, isEmpty_bind, validateAnySchemaTypes_answer ih]
            rfl
          | none =>
            cases oneOf with
            | some expectedList =>
              cases ownOneOf with
              | none => exact missing "oneOf" expectedList
              | some implementedList =>
                simp only [validateSchemaType, isEmpty_bind, validateAllSchemaTypes_answer ih]
                rfl
            | none =>
              simp only [validateSchemaType, subschemaRows]
              by_cases same : sameType expected.type implemented.type = true
              · rw [if_pos same, if_pos same, isEmpty_bind, validateByType_answer ih]
              · rw [if_neg same, if_neg same]
                exact congrArg Except.ok (isEmpty_append _ _)

end Refinement

end Ceramic.Interfaces
