import Ceramic.InterfaceSchemas

/-! When the comparison of two schemas finds no error, keyword by keyword. -/
namespace Ceramic.Interfaces

section Values

variable {path : List String} {expected implemented : Keywords}

theorem titleErrors_eq_nil :
    titleErrors path expected implemented = [] ↔ ∀ title, expected.title = some title → implemented.title = some title := by
  unfold titleErrors
  cases expected.title with
  | none => simp
  | some title => by_cases same : implemented.title = some title <;> simp [same]

theorem patternErrors_eq_nil :
    patternErrors path expected implemented = [] ↔
      ∀ pattern, expected.pattern = some pattern → implemented.pattern = some pattern := by
  unfold patternErrors
  cases expected.pattern with
  | none => simp
  | some pattern => by_cases same : implemented.pattern = some pattern <;> simp [same]

theorem constErrors_eq_nil :
    constErrors path expected implemented = [] ↔
      ∀ value, constant expected = some value → (implemented.const.getD .undefined).strictEq value = true := by
  unfold constErrors
  cases constant expected with
  | none => simp
  | some value => by_cases same : (implemented.const.getD .undefined).strictEq value = true <;> simp [same]

theorem constant_eq_some {value : JsValue} :
    constant expected = some value ↔ expected.const = some value ∧ value.isNullish = false := by
  simp [constant, Option.filter_eq_some_iff]

/-- A constant that is met is the same constant. -/
theorem constant_of_strictEq {value : JsValue} (isConstant : constant expected = some value)
    (same : (implemented.const.getD .undefined).strictEq value = true) : constant implemented = some value := by
  obtain ⟨-, notNullish⟩ := constant_eq_some.mp isConstant
  have isValue := JsValue.eq_of_strictEq same
  cases own : implemented.const with
  | none =>
    rw [own] at isValue
    obtain rfl : JsValue.undefined = value := isValue
    cases notNullish
  | some other =>
    rw [own] at isValue
    obtain rfl : other = value := isValue
    exact constant_eq_some.mpr ⟨own, notNullish⟩

theorem boundErrors_eq_nil {property : String} {bound own : Option Rat} {const : Option JsValue}
    {constFails : JsValue → Rat → Bool} {looser : Rat → Rat → Bool} :
    boundErrors path property bound const constFails own looser = [] ↔ ∀ limit, bound = some limit →
      (∀ value, const = some value → constFails value limit = false) ∧
      (const = none → ∃ ownLimit, own = some ownLimit ∧ looser ownLimit limit = false) := by
  unfold boundErrors
  cases bound with
  | none => simp
  | some limit =>
    cases const with
    | some value => cases fails : constFails value limit <;> simp [fails]
    | none =>
      cases own with
      | none => simp
      | some ownLimit => cases isLooser : looser ownLimit limit <;> simp [isLooser]

theorem enumErrors_eq_nil :
    enumErrors path expected implemented = [] ↔ ∀ values, expected.enum = some values →
      (∀ value, constant implemented = some value → includes values value = true) ∧
      (constant implemented = none → ∃ own, implemented.enum = some own ∧
        values.any (includes own) = true ∧ own.all (includes values) = true) := by
  unfold enumErrors
  cases expected.enum with
  | none => simp
  | some values =>
    cases constant implemented with
    | some value => cases isIncluded : includes values value <;> simp [isIncluded]
    | none =>
      cases implemented.enum with
      | none => simp
      | some own =>
        dsimp only
        by_cases overlap : (values.any (includes own) && own.all (includes values)) = true
        · rw [if_pos overlap]
          simpa using overlap
        · rw [if_neg overlap]
          simpa using overlap

theorem mem_of_includes {list : List JsValue} {value : JsValue} (isIncluded : includes list value = true) :
    value ∈ list := by
  obtain ⟨other, member, same⟩ := List.any_eq_true.mp isIncluded
  exact JsValue.eq_of_strictEq same ▸ member

theorem requiredErrors_eq_nil {names own : List String} : requiredErrors path names own = [] ↔ ∀ name ∈ names, name ∈ own := by
  simp [requiredErrors, List.filter_eq_nil_iff]

end Values

theorem sameType_eq_true {type ownType : Option SchemaType} :
    sameType type ownType = true ↔ type = ownType ∧ ∀ types, type ≠ some (.many types) := by
  match type, ownType with
  | none, none => simp [sameType]
  | some (.one _), none => simp [sameType]
  | some (.one _), some (.one _) => simp [sameType]
  | some (.one _), some (.many _) => simp [sameType]
  | some (.many _), _ => simp [sameType]
  | none, some _ => simp [sameType]

end Ceramic.Interfaces
