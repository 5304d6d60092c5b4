import Ceramic.CidParsing

/-! What becomes of a value that is written as JSON text and parsed again. -/
namespace Ceramic

namespace JsValue

/-- The object that `JSON.stringify` makes of a byte array: one property for each index. -/
def indexed (bytes : List UInt8) : JsValue :=
  .obj (bytes.zipIdx.map fun (b, index) => (toString index, .num b.toNat))

/-- `CID.toJSON`. -/
def cidJson (cid : Cid) : JsValue := .obj [("/", .str cid.toString)]

mutual
/-- `JSON.parse(JSON.stringify(value))`. -/
def jsonCopy : JsValue → JsValue
  | .bytes b => indexed b
  | .cid c => cidJson c
  | .streamID id => .obj [("_type", .num id.type), ("_cid", cidJson id.cid)]
  | .arr items => .arr (jsonItems items)
  | .obj fields => .obj (jsonFields fields)
  | value => value

/-- In an array `undefined` is written as `null`. -/
def jsonItems : List JsValue → List JsValue
  | [] => []
  | value :: items => (if value = .undefined then .null else jsonCopy value) :: jsonItems items

/-- A property that is `undefined` is left out. -/
def jsonFields : JsObject → JsObject
  | [] => []
  | (key, value) :: fields =>
    if value = .undefined then jsonFields fields else (key, jsonCopy value) :: jsonFields fields
end

mutual
/-- A value without the properties that are `undefined`. -/
def defined : JsValue → JsValue
  | .arr items => .arr (definedItems items)
  | .obj fields => .obj (definedFields fields)
  | value => value

def definedItems : List JsValue → List JsValue
  | [] => []
  | value :: items => defined value :: definedItems items

def definedFields : JsObject → JsObject
  | [] => []
  | (key, value) :: fields =>
    if value = .undefined then definedFields fields else (key, defined value) :: definedFields fields
end

mutual
/-- Values of JSON's own kinds, and properties that are `undefined`. -/
def isJson : JsValue → Bool
  | .undefined | .null | .bool _ | .num _ | .str _ => true
  | .bytes _ | .cid _ | .streamID _ => false
  | .arr items => itemsAreJson items
  | .obj fields => fieldsAreJson fields

def itemsAreJson : List JsValue → Bool
  | [] => true
  | value :: items => value != .undefined && isJson value && itemsAreJson items

def fieldsAreJson : JsObject → Bool
  | [] => true
  | (_, value) :: fields => isJson value && fieldsAreJson fields
end

/-- Equality up to properties that are `undefined`. -/
def SameDefined (a b : JsValue) : Prop := a.defined = b.defined

instance (a b : JsValue) : Decidable (SameDefined a b) := inferInstanceAs (Decidable (_ = _))

@[simp] theorem defined_eq_undefined {value : JsValue} : value.defined = .undefined ↔ value = .undefined := by
  cases value <;> simp [defined]

mutual
/-- A value survives JSON text exactly if it is of JSON's own kinds. -/
theorem jsonCopy_same : (value : JsValue) → (SameDefined value.jsonCopy value ↔ value.isJson = true)
  | .undefined | .null | .bool _ | .num _ | .str _ => by simp [SameDefined, jsonCopy, isJson]
  | .bytes _ | .cid _ | .streamID _ => by
    simp [SameDefined, jsonCopy, indexed, cidJson, defined, isJson]
  | .arr items => by
    simp only [SameDefined, jsonCopy, defined, isJson, JsValue.arr.injEq]
    exact jsonItems_same items
  | .obj fields => by
    simp only [SameDefined, jsonCopy, defined, isJson, JsValue.obj.injEq]
    exact jsonFields_same fields

theorem jsonItems_same : (items : List JsValue) →
    (definedItems (jsonItems items) = definedItems items ↔ itemsAreJson items = true)
  | [] => by simp [jsonItems, definedItems, itemsAreJson]
  | value :: items => by
    have first := jsonCopy_same value
    have rest := jsonItems_same items
    unfold SameDefined at first
    by_cases absent : value = .undefined
    · subst absent
      simp [jsonItems, definedItems, itemsAreJson, defined]
    · simp [jsonItems, definedItems, itemsAreJson, absent, first, rest]

theorem jsonFields_same : (fields : JsObject) →
    (definedFields (jsonFields fields) = definedFields fields ↔ fieldsAreJson fields = true)
  | [] => by simp [jsonFields, definedFields, fieldsAreJson]
  | (key, value) :: fields => by
    have first := jsonCopy_same value
    have rest := jsonFields_same fields
    unfold SameDefined at first
    by_cases absent : value = .undefined
    · subst absent
      simp [jsonFields, definedFields, fieldsAreJson, isJson, rest]
    · have kept : value.jsonCopy ≠ .undefined := by cases value <;> simp [jsonCopy, indexed, cidJson] at absent ⊢
      simp [jsonFields, definedFields, fieldsAreJson, absent, kept, first, rest]
end

mutual
theorem defined_defined : (value : JsValue) → value.defined.defined = value.defined
  | .undefined | .null | .bool _ | .num _ | .str _ | .bytes _ | .cid _ | .streamID _ => rfl
  | .arr items => congrArg JsValue.arr (definedItems_defined items)
  | .obj fields => congrArg JsValue.obj (definedFields_defined fields)

theorem definedItems_defined : (items : List JsValue) → definedItems (definedItems items) = definedItems items
  | [] => rfl
  | value :: items => by
    rw [definedItems, definedItems, defined_defined value, definedItems_defined items]

theorem definedFields_defined : (fields : JsObject) → definedFields (definedFields fields) = definedFields fields
  | [] => rfl
  | (key, value) :: fields => by
    by_cases absent : value = .undefined
    · rw [definedFields, if_pos absent, definedFields_defined fields]
    · have kept : value.defined ≠ .undefined := fun none => absent (defined_eq_undefined.mp none)
      rw [definedFields, if_neg absent, definedFields, if_neg kept, defined_defined value,
        definedFields_defined fields]
end

/-- Leaving out properties that are `undefined` makes no difference. -/
theorem definedFields_filter (fields : JsObject) :
    definedFields (fields.filter (·.2 != .undefined)) = definedFields fields := by
  induction fields with
  | nil => rfl
  | cons field fields ih =>
    obtain ⟨key, value⟩ := field
    by_cases absent : value = .undefined <;> simp [definedFields, absent, ih]

/-- Objects with the same names are the same exactly if their properties are. -/
theorem definedFields_cons_iff {key : String} {a b : JsValue} {fields others : JsObject}
    (absent : a = .undefined ↔ b = .undefined) :
    definedFields ((key, a) :: fields) = definedFields ((key, b) :: others) ↔
      SameDefined a b ∧ definedFields fields = definedFields others := by
  unfold SameDefined
  by_cases none : b = .undefined
  · simp [definedFields, absent.mpr none, none]
  · have some : a ≠ .undefined := fun isNone => none (absent.mp isNone)
    simp [definedFields, none, some]

theorem definedItems_map_defined (items : List JsValue) : definedItems (items.map defined) = definedItems items := by
  induction items with
  | nil => rfl
  | cons value items ih => rw [List.map_cons, definedItems, definedItems, defined_defined, ih]

end JsValue

end Ceramic
