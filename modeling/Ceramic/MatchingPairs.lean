import Ceramic.InterfaceTermination

/-! When two schemas match: the rows of their comparison taken apart, keyword by keyword. -/
namespace Ceramic.Interfaces

open Questions

section Matches

variable (toNumber : JsValue → Option Rat) (resolvers : Resolvers)

/-- A row that has a pair that matches. -/
def Met (depth : Nat) (row : Except JsError (List SchemaPair)) : Prop :=
  ∃ others, row = .ok others ∧ ∃ other ∈ others, HoldsTo (schemaRows toNumber resolvers) depth other

variable {toNumber resolvers} {depth : Nat}

theorem not_met_nil : ¬Met toNumber resolvers depth (.ok []) := by
  rintro ⟨_, same, other, member, -⟩
  cases same
  cases member

theorem met_single {e i : Schema} : Met toNumber resolvers depth (.ok [(e, i)]) ↔
    HoldsTo (schemaRows toNumber resolvers) depth (e, i) := by
  simp [Met]

theorem met_withEach {list : List Schema} {expected : Schema} : Met toNumber resolvers depth (.ok (withEach list expected)) ↔
    ∃ own ∈ list, HoldsTo (schemaRows toNumber resolvers) depth (expected, own) := by
  simp [Met, withEach]

theorem met_ownRows {errors : List ValidationErrorData} {rest : List (Except JsError (List SchemaPair))} :
    (∀ row ∈ ownRows errors ++ rest, Met toNumber resolvers depth row) ↔
      errors = [] ∧ ∀ row ∈ rest, Met toNumber resolvers depth row := by
  cases errors with
  | nil => simp [ownRows]
  | cons => simp [ownRows, not_met_nil]

theorem met_own {errors : List ValidationErrorData} : (∀ row ∈ ownRows errors, Met toNumber resolvers depth row) ↔ errors = [] := by
  cases errors with
  | nil => simp [ownRows]
  | cons => simp [ownRows, not_met_nil]

theorem met_allRows {expectedList implementedList : List Schema} :
    (∀ row ∈ allRows expectedList implementedList, Met toNumber resolvers depth row) ↔
      implementedList.length = expectedList.length ∧ ∀ expected ∈ expectedList, ∃ own ∈ implementedList,
        HoldsTo (schemaRows toNumber resolvers) depth (expected, own) := by
  unfold allRows
  by_cases sameLength : implementedList.length = expectedList.length
  · simp [sameLength, met_withEach]
  · simp [sameLength, not_met_nil]

theorem met_anyRows {expectedList implementedList : List Schema} :
    (∀ row ∈ anyRows expectedList implementedList, Met toNumber resolvers depth row) ↔
      expectedList = [] ∨ ∃ expected ∈ expectedList, ∃ own ∈ implementedList,
        HoldsTo (schemaRows toNumber resolvers) depth (expected, own) := by
  cases expectedList with
  | nil => simp [anyRows]
  | cons first expectedList =>
    rw [anyRows, if_neg (by simp)]
    simp only [List.mem_singleton, forall_eq, reduceCtorEq, false_or]
    constructor
    · rintro ⟨_, same, pair, member, holds⟩
      cases same
      obtain ⟨expected, isExpected, inEach⟩ := List.mem_flatMap.mp member
      obtain ⟨own, isOwn, rfl⟩ := List.mem_map.mp inEach
      exact ⟨expected, isExpected, own, isOwn, holds⟩
    · rintro ⟨expected, isExpected, own, isOwn, holds⟩
      exact ⟨_, rfl, _, List.mem_flatMap.mpr ⟨expected, isExpected, List.mem_map_of_mem isOwn⟩, holds⟩

theorem itemsRow_resolved {items own e i : Schema} (resolved : resolveReference resolvers.resolveExpected items = .ok (some e))
    (ownResolved : resolveReference resolvers.resolveImplemented own = .ok (some i)) :
    itemsRow resolvers (some items) (some own) = .ok [(e, i)] := by
  simp [itemsRow, resolved, ownResolved, bind, Except.bind, pure, Except.pure]

theorem propertyRow_resolved {properties : List (String × Schema)} {property : String × Schema} {own e i : Schema}
    (found : propertyOf properties property.1 = some own)
    (resolved : resolveReference resolvers.resolveExpected property.2 = .ok (some e))
    (ownResolved : resolveReference resolvers.resolveImplemented own = .ok (some i)) :
    propertyRow resolvers properties property = .ok [(e, i)] := by
  simp [propertyRow, found, resolved, ownResolved, resolvedRow, bind, Except.bind]

theorem met_itemsRow {expected implemented : Option Schema} :
    Met toNumber resolvers depth (itemsRow resolvers expected implemented) ↔
    ∃ items own e i, expected = some items ∧ implemented = some own ∧
      resolveReference resolvers.resolveExpected items = .ok (some e) ∧
      resolveReference resolvers.resolveImplemented own = .ok (some i) ∧ HoldsTo (schemaRows toNumber resolvers) depth (e, i) := by
  constructor
  · rintro ⟨row, isRow, pair, member, holds⟩
    obtain ⟨items, own, isItems, isOwn, resolved, ownResolved⟩ := mem_itemsRow isRow member
    exact ⟨items, own, pair.1, pair.2, isItems, isOwn, resolved, ownResolved, holds⟩
  · rintro ⟨items, own, e, i, rfl, rfl, resolved, ownResolved, holds⟩
    rw [itemsRow_resolved resolved ownResolved]
    exact met_single.mpr holds

theorem met_propertyRow {properties : List (String × Schema)} {property : String × Schema} :
    Met toNumber resolvers depth (propertyRow resolvers properties property) ↔
      ∃ own e i, propertyOf properties property.1 = some own ∧ resolveReference resolvers.resolveExpected property.2 = .ok (some e) ∧
        resolveReference resolvers.resolveImplemented own = .ok (some i) ∧ HoldsTo (schemaRows toNumber resolvers) depth (e, i) := by
  constructor
  · rintro ⟨row, isRow, pair, member, holds⟩
    obtain ⟨own, found, resolved, ownResolved⟩ := mem_propertyRow isRow member
    exact ⟨own, pair.1, pair.2, found, resolved, ownResolved, holds⟩
  · rintro ⟨own, e, i, found, resolved, ownResolved, holds⟩
    rw [propertyRow_resolved found resolved ownResolved]
    exact met_single.mpr holds

section Nodes

variable {expected implemented : Keywords} {items ownItems : Option Schema} {properties ownProperties : List (String × Schema)}
  {allOf anyOf oneOf ownAllOf ownAnyOf ownOneOf : Option (List Schema)} {expectedList : List Schema}

theorem holdsTo_boolean {b : Bool} {schema : Schema} :
    HoldsTo (schemaRows toNumber resolvers) (depth + 1) (.boolean b, schema) ↔ schema = .boolean b := by
  change (∀ row ∈ schemaRows toNumber resolvers (.boolean b, schema), Met toNumber resolvers depth row) ↔ _
  cases schema with
  | boolean c => by_cases same : b = c <;> simp [schemaRows, same, not_met_nil, eq_comm]
  | object => simp [schemaRows, not_met_nil]

theorem not_holdsTo_boolean {c : Bool} : ¬HoldsTo (schemaRows toNumber resolvers) (depth + 1)
    (.object expected items properties allOf anyOf oneOf, .boolean c) := by
  intro holds
  exact not_met_nil (holds (.ok []) List.mem_cons_self)

theorem holdsTo_object : HoldsTo (schemaRows toNumber resolvers) (depth + 1)
    (.object expected items properties allOf anyOf oneOf, .object implemented ownItems ownProperties ownAllOf ownAnyOf ownOneOf) ↔
      titleErrors [] expected implemented = [] ∧ ∀ row ∈ subschemaRows toNumber resolvers expected implemented items ownItems
        properties ownProperties allOf anyOf oneOf ownAllOf ownAnyOf ownOneOf, Met toNumber resolvers depth row := by
  rw [← met_ownRows, ← schemaRows]
  exact Iff.rfl

theorem met_list {own : Option (List Schema)} : (∀ row ∈ own.elim [.ok []] (allRows expectedList), Met toNumber resolvers depth row) ↔
    ∃ implementedList, own = some implementedList ∧ implementedList.length = expectedList.length ∧
      ∀ expected ∈ expectedList, ∃ own ∈ implementedList, HoldsTo (schemaRows toNumber resolvers) depth (expected, own) := by
  cases own with
  | none => simp [not_met_nil]
  | some implementedList => simp only [Option.elim_some, met_allRows, Option.some.injEq, exists_eq_left']

theorem holdsTo_allOf : HoldsTo (schemaRows toNumber resolvers) (depth + 1)
    (.object expected items properties (some expectedList) anyOf oneOf,
      .object implemented ownItems ownProperties ownAllOf ownAnyOf ownOneOf) ↔
      titleErrors [] expected implemented = [] ∧ ∃ implementedList, ownAllOf = some implementedList ∧
        implementedList.length = expectedList.length ∧ ∀ expected ∈ expectedList, ∃ own ∈ implementedList,
          HoldsTo (schemaRows toNumber resolvers) depth (expected, own) := by
  rw [holdsTo_object, subschemaRows, met_list]

theorem holdsTo_anyOf : HoldsTo (schemaRows toNumber resolvers) (depth + 1)
    (.object expected items properties none (some expectedList) oneOf,
      .object implemented ownItems ownProperties ownAllOf ownAnyOf ownOneOf) ↔
      titleErrors [] expected implemented = [] ∧ (expectedList = [] ∨ ∃ expected ∈ expectedList,
        ∃ own ∈ ownAnyOf.getD [.object implemented ownItems ownProperties ownAllOf ownAnyOf ownOneOf],
          HoldsTo (schemaRows toNumber resolvers) depth (expected, own)) := by
  rw [holdsTo_object, subschemaRows, met_anyRows]

theorem holdsTo_oneOf : HoldsTo (schemaRows toNumber resolvers) (depth + 1)
    (.object expected items properties none none (some expectedList),
      .object implemented ownItems ownProperties ownAllOf ownAnyOf ownOneOf) ↔
      titleErrors [] expected implemented = [] ∧ ∃ implementedList, ownOneOf = some implementedList ∧
        implementedList.length = expectedList.length ∧ ∀ expected ∈ expectedList, ∃ own ∈ implementedList,
          HoldsTo (schemaRows toNumber resolvers) depth (expected, own) := by
  rw [holdsTo_object, subschemaRows, met_list]

theorem holdsTo_typed : HoldsTo (schemaRows toNumber resolvers) (depth + 1)
    (.object expected items properties none none none, .object implemented ownItems ownProperties ownAllOf ownAnyOf ownOneOf) ↔
      titleErrors [] expected implemented = [] ∧ sameType expected.type implemented.type = true ∧
        ∀ row ∈ typeRows toNumber resolvers expected implemented items ownItems properties ownProperties,
          Met toNumber resolvers depth row := by
  rw [holdsTo_object, subschemaRows]
  by_cases same : sameType expected.type implemented.type = true
  · rw [if_pos same]
    simp [same]
  · rw [if_neg same]
    simp [same, not_met_nil]

end Nodes

end Matches

end Ceramic.Interfaces
