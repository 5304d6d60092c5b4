import Ceramic.ComparisonRows
import Mathlib.Data.Finite.Prod
import Mathlib.Data.Set.Finite.Lattice

/-! Whether the comparison of two schemas comes to an end. References are followed on both sides, so that
schemas that are recursive in step are compared for ever. -/
namespace Ceramic

namespace Schema

def children : Schema → List Schema
  | .boolean _ => []
  | .object _ items properties allOf anyOf oneOf =>
    items.toList ++ properties.map (·.2) ++ allOf.getD [] ++ anyOf.getD [] ++ oneOf.getD []

theorem sizeOf_getD {list : Option (List Schema)} {child : Schema} (member : child ∈ list.getD []) : sizeOf child < sizeOf list := by
  cases list with
  | none => cases member
  | some schemas =>
    have below := List.sizeOf_lt_of_mem member
    simp only [Option.getD_some, Option.some.sizeOf_spec] at below ⊢
    omega

theorem sizeOf_children {schema child : Schema} (member : child ∈ schema.children) : sizeOf child < sizeOf schema := by
  cases schema with
  | boolean => cases member
  | object keywords items properties allOf anyOf oneOf =>
    simp only [children, List.mem_append, List.mem_map] at member
    rw [object.sizeOf_spec]
    rcases member with (((inItems | ⟨property, inProperties, rfl⟩) | inAllOf) | inAnyOf) | inOneOf
    · rw [Option.mem_toList] at inItems
      subst inItems
      simp only [Option.some.sizeOf_spec]
      omega
    · have below := List.sizeOf_lt_of_mem inProperties
      have inPair : sizeOf property.2 < sizeOf property := by
        cases property
        simp only [Prod.mk.sizeOf_spec]
        omega
      omega
    · have below := sizeOf_getD inAllOf
      omega
    · have below := sizeOf_getD inAnyOf
      omega
    · have below := sizeOf_getD inOneOf
      omega

open Relation

def Parent (schema child : Schema) : Prop := child ∈ schema.children

/-- A schema has finitely many schemas in it. -/
theorem finite_within (schema : Schema) : {within | ReflTransGen Parent schema within}.Finite := by
  induction sized : sizeOf schema using Nat.strong_induction_on generalizing schema with
  | _ size ih =>
    subst sized
    have below : (⋃ child ∈ {child | child ∈ schema.children}, {within | ReflTransGen Parent child within}).Finite :=
      (List.finite_toSet schema.children).biUnion fun child member => ih _ (sizeOf_children member) child rfl
    refine ((Set.finite_singleton schema).union below).subset fun within reached => ?_
    obtain rfl | ⟨child, isChild, further⟩ := ReflTransGen.cases_head reached
    · exact .inl rfl
    · exact .inr (Set.mem_biUnion isChild further)

end Schema

namespace Interfaces

open Questions Relation

/-- A schema in another, or what it refers to. -/
def Unfolds (resolve : String → Except JsError (Option Schema)) (schema next : Schema) : Prop :=
  ∃ child ∈ schema.children, next = child ∨ resolveReference resolve child = .ok (some next)

/-- What the comparison may read of a schema: the entries of its lists, and what the items or the properties of its
type lead to. -/
def Reads (resolve : String → Except JsError (Option Schema)) : Schema → Schema → Prop
  | .boolean _, _ => False
  | .object keywords items properties allOf anyOf oneOf, next =>
    next ∈ allOf.getD [] ∨ next ∈ anyOf.getD [] ∨ next ∈ oneOf.getD [] ∨
      ∃ child, resolveReference resolve child = .ok (some next) ∧
        (keywords.type = some (.one .array) ∧ items = some child ∨
          keywords.type = some (.one .object) ∧ child ∈ properties.map (·.2))

theorem Reads.unfolds {resolve : String → Except JsError (Option Schema)} {schema next : Schema}
    (reads : Reads resolve schema next) : Unfolds resolve schema next := by
  cases schema with
  | boolean => exact reads.elim
  | object keywords items properties allOf anyOf oneOf =>
    have listed (member : next ∈ allOf.getD [] ∨ next ∈ anyOf.getD [] ∨ next ∈ oneOf.getD []) :
        Unfolds resolve (.object keywords items properties allOf anyOf oneOf) next := by
      refine ⟨next, ?_, .inl rfl⟩
      simp only [Schema.children, List.mem_append]
      tauto
    rcases reads with inAllOf | inAnyOf | inOneOf | ⟨child, resolved, isChild⟩
    · exact listed (.inl inAllOf)
    · exact listed (.inr (.inl inAnyOf))
    · exact listed (.inr (.inr inOneOf))
    · refine ⟨child, ?_, .inr resolved⟩
      simp only [Schema.children, List.mem_append, Option.mem_toList]
      tauto

section Members

variable {toNumber : JsValue → Option Rat} {resolvers : Resolvers} {row : List SchemaPair} {pair : SchemaPair}

theorem not_mem_ownRows {errors : List ValidationErrorData} (isRow : .ok row ∈ ownRows errors) : pair ∉ row := by
  unfold ownRows at isRow
  split at isRow
  · cases isRow
  · obtain rfl : row = [] := by simpa using isRow
    exact List.not_mem_nil

theorem mem_allRows {expectedList implementedList : List Schema} (isRow : .ok row ∈ allRows expectedList implementedList)
    (member : pair ∈ row) : pair.1 ∈ expectedList ∧ pair.2 ∈ implementedList := by
  unfold allRows at isRow
  split at isRow
  · obtain rfl : row = [] := by simpa using isRow
    cases member
  · obtain ⟨expected, isExpected, same⟩ := List.mem_map.mp isRow
    cases same
    obtain ⟨implemented, isImplemented, rfl⟩ := List.mem_map.mp member
    exact ⟨isExpected, isImplemented⟩

theorem mem_anyRows {expectedList implementedList : List Schema} (isRow : .ok row ∈ anyRows expectedList implementedList)
    (member : pair ∈ row) : pair.1 ∈ expectedList ∧ pair.2 ∈ implementedList := by
  unfold anyRows at isRow
  split at isRow
  · cases isRow
  · obtain rfl : row = _ := by simpa using isRow
    obtain ⟨expected, isExpected, inEach⟩ := List.mem_flatMap.mp member
    obtain ⟨implemented, isImplemented, rfl⟩ := List.mem_map.mp inEach
    exact ⟨isExpected, isImplemented⟩

theorem mem_itemsRow {expected implemented : Option Schema} (isRow : itemsRow resolvers expected implemented = .ok row)
    (member : pair ∈ row) : ∃ items own, expected = some items ∧ implemented = some own ∧
      resolveReference resolvers.resolveExpected items = .ok (some pair.1) ∧
      resolveReference resolvers.resolveImplemented own = .ok (some pair.2) := by
  cases expected with
  | none =>
    cases isRow
    cases member
  | some items =>
    cases implemented with
    | none =>
      cases isRow
      cases member
    | some own =>
      simp only [itemsRow] at isRow
      obtain ⟨e, isExpected, rest⟩ := bind_eq_ok.mp isRow
      obtain ⟨i, isImplemented, returned⟩ := bind_eq_ok.mp rest
      cases e with
      | none =>
        cases returned
        cases member
      | some e =>
        cases i with
        | none =>
          cases returned
          cases member
        | some i =>
          cases returned
          obtain rfl := List.mem_singleton.mp member
          exact ⟨items, own, rfl, rfl, isExpected, isImplemented⟩

theorem mem_resolvedRow {expected implemented : Option Schema} (isRow : resolvedRow expected implemented = .ok row)
    (member : pair ∈ row) : expected = some pair.1 ∧ implemented = some pair.2 := by
  cases expected with
  | none => cases isRow
  | some e =>
    cases implemented with
    | none =>
      cases e with
      | boolean =>
        cases isRow
        cases member
      | object => cases isRow
    | some i =>
      cases isRow
      obtain rfl := List.mem_singleton.mp member
      exact ⟨rfl, rfl⟩

theorem mem_of_propertyOf {properties : List (String × Schema)} {key : String} {own : Schema}
    (found : propertyOf properties key = some own) : own ∈ properties.map (·.2) := by
  obtain ⟨property, isFound, rfl⟩ := Option.map_eq_some_iff.mp found
  exact List.mem_map_of_mem (List.mem_of_find?_eq_some isFound)

theorem mem_propertyRow {properties : List (String × Schema)} {property : String × Schema}
    (isRow : propertyRow resolvers properties property = .ok row) (member : pair ∈ row) :
    ∃ own, propertyOf properties property.1 = some own ∧ resolveReference resolvers.resolveExpected property.2 = .ok (some pair.1) ∧
      resolveReference resolvers.resolveImplemented own = .ok (some pair.2) := by
  unfold propertyRow at isRow
  cases found : propertyOf properties property.1 with
  | none =>
    rw [found] at isRow
    cases isRow
    cases member
  | some own =>
    rw [found] at isRow
    obtain ⟨e, isExpected, rest⟩ := bind_eq_ok.mp isRow
    obtain ⟨i, isImplemented, resolved⟩ := bind_eq_ok.mp rest
    obtain ⟨rfl, rfl⟩ := mem_resolvedRow resolved member
    exact ⟨own, rfl, isExpected, isImplemented⟩

theorem mem_typeRows {expected implemented : Keywords} {items ownItems : Option Schema} {properties ownProperties : List (String × Schema)}
    (isRow : .ok row ∈ typeRows toNumber resolvers expected implemented items ownItems properties ownProperties)
    (member : pair ∈ row) : ∃ child own, resolveReference resolvers.resolveExpected child = .ok (some pair.1) ∧
      resolveReference resolvers.resolveImplemented own = .ok (some pair.2) ∧
      (expected.type = some (.one .array) ∧ items = some child ∧ ownItems = some own ∨
        expected.type = some (.one .object) ∧ child ∈ properties.map (·.2) ∧ own ∈ ownProperties.map (·.2)) := by
  unfold typeRows at isRow
  split at isRow
  next isType =>
    obtain isOwn | isItems := List.mem_append.mp isRow
    · exact absurd member (not_mem_ownRows isOwn)
    · obtain ⟨child, own, isChild, isOwn, resolved, ownResolved⟩ := mem_itemsRow (List.mem_singleton.mp isItems).symm member
      exact ⟨child, own, resolved, ownResolved, .inl ⟨isType, isChild, isOwn⟩⟩
  next isType =>
    obtain isOwn | isProperty := List.mem_append.mp isRow
    · exact absurd member (not_mem_ownRows isOwn)
    · obtain ⟨property, isProperty, same⟩ := List.mem_map.mp isProperty
      obtain ⟨own, found, resolved, ownResolved⟩ := mem_propertyRow same member
      exact ⟨property.2, own, resolved, ownResolved,
        .inr ⟨isType, List.mem_map_of_mem isProperty, mem_of_propertyOf found⟩⟩
  · exact absurd member (not_mem_ownRows isRow)
  · exact absurd member (not_mem_ownRows isRow)
  · exact absurd member (not_mem_ownRows isRow)
  · exact absurd member (not_mem_ownRows isRow)
  · cases isRow
  · cases List.mem_singleton.mp isRow

/-- The pairs that a pair is compared by: an entry of `anyOf` with the implementation itself, or what the comparison
reads of the two schemas. -/
theorem reads_of_row {expected implemented : Schema} (isRow : .ok row ∈ schemaRows toNumber resolvers (expected, implemented))
    (member : pair ∈ row) : Reads resolvers.resolveExpected expected pair.1 ∧
      (Schema.Parent expected pair.1 ∧ pair.2 = implemented ∨ Reads resolvers.resolveImplemented implemented pair.2) := by
  have unmet {rest : List SchemaPair} (isUnmet : (.ok rest : Except JsError _) ∈ [.ok []]) (inRow : pair ∈ rest) : False := by
    obtain rfl : rest = [] := by simpa using isUnmet
    cases inRow
  cases expected with
  | boolean b =>
    cases implemented with
    | boolean c =>
      rw [schemaRows] at isRow
      split at isRow
      · cases isRow
      · exact (unmet isRow member).elim
    | object => exact (unmet isRow member).elim
  | object keywords items properties allOf anyOf oneOf =>
    cases implemented with
    | boolean c => exact (unmet isRow member).elim
    | object own ownItems ownProperties ownAllOf ownAnyOf ownOneOf =>
      rw [schemaRows] at isRow
      obtain isOwn | isSub := List.mem_append.mp isRow
      · exact absurd member (not_mem_ownRows isOwn)
      · cases allOf with
        | some expectedList =>
          cases ownAllOf with
          | none => exact (unmet isSub member).elim
          | some implementedList =>
            obtain ⟨isExpected, isImplemented⟩ := mem_allRows isSub member
            exact ⟨.inl isExpected, .inr (.inl isImplemented)⟩
        | none =>
          cases anyOf with
          | some expectedList =>
            obtain ⟨isExpected, isImplemented⟩ := mem_anyRows isSub member
            refine ⟨.inr (.inl isExpected), ?_⟩
            cases ownAnyOf with
            | none => exact .inl ⟨by simp [Schema.Parent, Schema.children, isExpected], List.mem_singleton.mp isImplemented⟩
            | some implementedList => exact .inr (.inr (.inl isImplemented))
          | none =>
            cases oneOf with
            | some expectedList =>
              cases ownOneOf with
              | none => exact (unmet isSub member).elim
              | some implementedList =>
                obtain ⟨isExpected, isImplemented⟩ := mem_allRows isSub member
                exact ⟨.inr (.inr (.inl isExpected)), .inr (.inr (.inr (.inl isImplemented)))⟩
            | none =>
              rw [subschemaRows] at isSub
              split at isSub
              next same =>
                obtain ⟨equal, -⟩ := sameType_eq_true.mp same
                obtain ⟨child, ownChild, resolved, ownResolved, isType⟩ := mem_typeRows isSub member
                rcases isType with ⟨isArray, isItems, isOwnItems⟩ | ⟨isObject, isProperty, isOwnProperty⟩
                · exact ⟨.inr (.inr (.inr ⟨child, resolved, .inl ⟨isArray, isItems⟩⟩)),
                    .inr (.inr (.inr (.inr ⟨ownChild, ownResolved, .inl ⟨equal ▸ isArray, isOwnItems⟩⟩)))⟩
                · exact ⟨.inr (.inr (.inr ⟨child, resolved, .inr ⟨isObject, isProperty⟩⟩)),
                    .inr (.inr (.inr (.inr ⟨ownChild, ownResolved, .inr ⟨equal ▸ isObject, isOwnProperty⟩⟩)))⟩
              · exact (unmet isSub member).elim

theorem mem_schemaRows {expected implemented : Schema} (isRow : .ok row ∈ schemaRows toNumber resolvers (expected, implemented))
    (member : pair ∈ row) : (Schema.Parent expected pair.1 ∧ pair.2 = implemented) ∨
      (Unfolds resolvers.resolveExpected expected pair.1 ∧ Unfolds resolvers.resolveImplemented implemented pair.2) := by
  obtain ⟨reads, same | ownReads⟩ := reads_of_row isRow member
  · exact .inl same
  · exact .inr ⟨reads.unfolds, ownReads.unfolds⟩

end Members

section Errors

variable {toNumber : JsValue → Option Rat} {resolvers : Resolvers} {e : JsError}

theorem error_notMem_ownRows {errors : List ValidationErrorData} : .error e ∉ ownRows errors := by
  unfold ownRows
  split <;> simp

theorem error_notMem_allRows {expectedList implementedList : List Schema} : .error e ∉ allRows expectedList implementedList := by
  unfold allRows
  split <;> simp

theorem error_notMem_listRows {expectedList : List Schema} {own : Option (List Schema)} :
    .error e ∉ own.elim [.ok []] (allRows expectedList) := by
  cases own with
  | none => simp
  | some => exact error_notMem_allRows

theorem error_notMem_anyRows {expectedList implementedList : List Schema} : .error e ∉ anyRows expectedList implementedList := by
  unfold anyRows
  split <;> simp

/-- References are followed without running out of stack. -/
def Resolvers.Shallow (resolvers : Resolvers) : Prop :=
  ∀ ref, resolvers.resolveExpected ref ≠ .error stackExceeded ∧ resolvers.resolveImplemented ref ≠ .error stackExceeded

theorem resolveReference_error {resolve : String → Except JsError (Option Schema)} (shallow : ∀ ref, resolve ref ≠ .error stackExceeded)
    {schema : Schema} (failed : resolveReference resolve schema = .error e) : e ≠ stackExceeded := by
  rintro rfl
  cases schema with
  | boolean => cases failed
  | object keywords =>
    simp only [resolveReference] at failed
    cases isRef : keywords.ref with
    | none =>
      rw [isRef] at failed
      cases failed
    | some ref =>
      rw [isRef] at failed
      exact shallow ref failed

theorem error_of_bind {α β : Type} {x : Except JsError α} {rest : α → Except JsError β} (failed : (x >>= rest) = .error e) :
    x = .error e ∨ ∃ a, x = .ok a ∧ rest a = .error e := by
  cases x with
  | error => exact .inl (congrArg _ (Except.error.inj failed))
  | ok a => exact .inr ⟨a, rfl, failed⟩

theorem resolvedRow_error {expected implemented : Option Schema} (failed : resolvedRow expected implemented = .error e) :
    e ≠ stackExceeded := by
  unfold resolvedRow at failed
  split at failed
  · cases failed
  · cases failed
  · cases failed
    decide

theorem itemsRow_error (shallow : resolvers.Shallow) {expected implemented : Option Schema}
    (failed : itemsRow resolvers expected implemented = .error e) : e ≠ stackExceeded := by
  unfold itemsRow at failed
  split at failed
  · obtain isError | ⟨e, -, failed⟩ := error_of_bind failed
    · exact resolveReference_error (fun ref => (shallow ref).1) isError
    · obtain isError | ⟨i, -, failed⟩ := error_of_bind failed
      · exact resolveReference_error (fun ref => (shallow ref).2) isError
      · cases e <;> cases i <;> cases failed
  · cases failed

theorem propertyRow_error (shallow : resolvers.Shallow) {properties : List (String × Schema)} {property : String × Schema}
    (failed : propertyRow resolvers properties property = .error e) : e ≠ stackExceeded := by
  unfold propertyRow at failed
  split at failed
  · cases failed
  · obtain isError | ⟨e, -, failed⟩ := error_of_bind failed
    · exact resolveReference_error (fun ref => (shallow ref).1) isError
    · obtain isError | ⟨i, -, failed⟩ := error_of_bind failed
      · exact resolveReference_error (fun ref => (shallow ref).2) isError
      · exact resolvedRow_error failed

theorem typeRows_error (shallow : resolvers.Shallow) {expected implemented : Keywords} {items ownItems : Option Schema}
    {properties ownProperties : List (String × Schema)}
    (missing : .error e ∈ typeRows toNumber resolvers expected implemented items ownItems properties ownProperties) :
    e ≠ stackExceeded := by
  unfold typeRows at missing
  split at missing
  · obtain isOwn | isItems := List.mem_append.mp missing
    · exact absurd isOwn error_notMem_ownRows
    · exact itemsRow_error shallow (List.mem_singleton.mp isItems).symm
  · obtain isOwn | isProperty := List.mem_append.mp missing
    · exact absurd isOwn error_notMem_ownRows
    · obtain ⟨property, -, failed⟩ := List.mem_map.mp isProperty
      exact propertyRow_error shallow failed
  · exact absurd missing error_notMem_ownRows
  · exact absurd missing error_notMem_ownRows
  · exact absurd missing error_notMem_ownRows
  · exact absurd missing error_notMem_ownRows
  · cases missing
  · cases List.mem_singleton.mp missing
    split <;> decide

theorem schemaRows_error (shallow : resolvers.Shallow) {pair : SchemaPair} (missing : .error e ∈ schemaRows toNumber resolvers pair) :
    e ≠ stackExceeded := by
  unfold schemaRows at missing
  split at missing
  · split at missing
    · cases missing
    · cases List.mem_singleton.mp missing
  · cases List.mem_singleton.mp missing
  · cases List.mem_singleton.mp missing
  · obtain isOwn | isSub := List.mem_append.mp missing
    · exact absurd isOwn error_notMem_ownRows
    · unfold subschemaRows at isSub
      split at isSub
      · exact absurd isSub error_notMem_listRows
      · exact absurd isSub error_notMem_anyRows
      · exact absurd isSub error_notMem_listRows
      · split at isSub
        · exact typeRows_error shallow isSub
        · cases List.mem_singleton.mp isSub

end Errors

section Termination

variable (toNumber : JsValue → Option Rat) (resolve : Resolve) (expected implemented : Schema)

/-- One pair is compared to compare the other. -/
def Compares : SchemaPair → SchemaPair → Prop := Asks (schemaRows toNumber (createResolvers resolve expected implemented))

variable {toNumber resolve expected implemented}

theorem Compares.unfolds {pair other : SchemaPair} (compares : Compares toNumber resolve expected implemented pair other) :
    (Schema.Parent pair.1 other.1 ∧ other.2 = pair.2) ∨
      (Unfolds (resolve expected) pair.1 other.1 ∧ Unfolds (resolve implemented) pair.2 other.2) := by
  obtain ⟨above, before, after, below, split, -, -⟩ := compares
  have isRow : .ok (before ++ other :: after) ∈ schemaRows toNumber (createResolvers resolve expected implemented) (pair.1, pair.2) :=
    split ▸ List.mem_append_right above List.mem_cons_self
  exact mem_schemaRows isRow (List.mem_append_right before List.mem_cons_self)

/-- The schemas in a root and in what its references lead to. -/
def parts (resolve : Resolve) (root : Schema) : Set Schema :=
  {part | ∃ start, (start = root ∨ ∃ ref, resolve root ref = .ok (some start)) ∧ ReflTransGen Schema.Parent start part}

theorem parts_of_parent {root part child : Schema} (isPart : part ∈ parts resolve root) (parent : Schema.Parent part child) :
    child ∈ parts resolve root := by
  obtain ⟨start, isStart, within⟩ := isPart
  exact ⟨start, isStart, within.tail parent⟩

theorem parts_of_unfolds {root part next : Schema} (isPart : part ∈ parts resolve root) (unfolds : Unfolds (resolve root) part next) :
    next ∈ parts resolve root := by
  obtain ⟨child, isChild, rfl | resolved⟩ := unfolds
  · exact parts_of_parent isPart isChild
  · have childPart : child ∈ parts resolve root := parts_of_parent isPart isChild
    cases child with
    | boolean =>
      cases resolved
      exact childPart
    | object keywords =>
      simp only [resolveReference] at resolved
      cases isRef : keywords.ref with
      | none =>
        rw [isRef] at resolved
        cases resolved
        exact childPart
      | some ref =>
        rw [isRef] at resolved
        exact ⟨next, .inr ⟨ref, resolved⟩, .refl⟩

theorem finite_parts (targets : ∀ root, {target | ∃ ref, resolve root ref = .ok (some target)}.Finite) (root : Schema) :
    (parts resolve root).Finite := by
  have starts : ({root} ∪ {target | ∃ ref, resolve root ref = .ok (some target)}).Finite :=
    (Set.finite_singleton root).union (targets root)
  refine (starts.biUnion fun start _ => Schema.finite_within start).subset ?_
  rintro part ⟨start, isStart, within⟩
  exact Set.mem_biUnion isStart within

theorem finite_compared (targets : ∀ root, {target | ∃ ref, resolve root ref = .ok (some target)}.Finite) :
    {pair | ReflTransGen (Compares toNumber resolve expected implemented) (expected, implemented) pair}.Finite := by
  refine ((finite_parts targets expected).prod (finite_parts targets implemented)).subset fun pair reached => ?_
  induction reached with
  | refl => exact ⟨⟨expected, .inl rfl, .refl⟩, ⟨implemented, .inl rfl, .refl⟩⟩
  | tail _ compares ih =>
    obtain ⟨parent, same⟩ | ⟨unfolds, ownUnfolds⟩ := compares.unfolds
    · exact ⟨parts_of_parent ih.1 parent, same ▸ ih.2⟩
    · exact ⟨parts_of_unfolds ih.1 unfolds, parts_of_unfolds ih.2 ownUnfolds⟩

/-- A comparison within itself unfolds both schemas to themselves. -/
theorem Compares.both_recur {pair : SchemaPair}
    (cycle : TransGen (Compares toNumber resolve expected implemented) pair pair) :
    TransGen (Unfolds (resolve expected)) pair.1 pair.1 ∧ TransGen (Unfolds (resolve implemented)) pair.2 pair.2 := by
  have unfolded {other : SchemaPair} (path : TransGen (Compares toNumber resolve expected implemented) pair other) :
      TransGen (Unfolds (resolve expected)) pair.1 other.1 := by
    refine path.lift (fun pair => pair.1) fun _ _ compares => ?_
    obtain ⟨parent, -⟩ | ⟨unfolds, -⟩ := compares.unfolds
    · exact ⟨_, parent, .inl rfl⟩
    · exact unfolds
  have ownUnfolded {other : SchemaPair} (path : TransGen (Compares toNumber resolve expected implemented) pair other) :
      (sizeOf other.1 < sizeOf pair.1 ∧ other.2 = pair.2) ∨ TransGen (Unfolds (resolve implemented)) pair.2 other.2 := by
    induction path with
    | single compares =>
      obtain ⟨parent, same⟩ | ⟨-, unfolds⟩ := compares.unfolds
      · exact .inl ⟨Schema.sizeOf_children parent, same⟩
      · exact .inr (.single unfolds)
    | tail _ compares ih =>
      obtain ⟨parent, same⟩ | ⟨-, unfolds⟩ := compares.unfolds
      · have smaller := Schema.sizeOf_children parent
        obtain ⟨before, isOwn⟩ | path := ih
        · exact .inl ⟨smaller.trans before, same.trans isOwn⟩
        · exact .inr (same ▸ path)
      · obtain ⟨-, isOwn⟩ | path := ih
        · exact .inr (.single (isOwn ▸ unfolds))
        · exact .inr (path.tail unfolds)
  refine ⟨unfolded cycle, ?_⟩
  obtain ⟨smaller, -⟩ | path := ownUnfolded cycle
  · exact absurd smaller (Nat.lt_irrefl _)
  · exact path

theorem terminates_iff_answer : (∃ stack, validateSchemaImplementation toNumber resolve stack expected implemented ≠ .error stackExceeded) ↔
    Terminates (schemaRows toNumber (createResolvers resolve expected implemented)) stackExceeded (expected, implemented) := by
  refine exists_congr fun stack => not_congr ?_
  rw [← validateSchemaType_answer stack []]
  unfold validateSchemaImplementation
  cases validateSchemaType toNumber (createResolvers resolve expected implemented) stack [] expected implemented <;>
    simp [Except.map]

theorem terminates_iff_acyclic (targets : ∀ root, {target | ∃ ref, resolve root ref = .ok (some target)}.Finite)
    (ownErrors : ∀ root ref, resolve root ref ≠ .error stackExceeded) :
    Terminates (schemaRows toNumber (createResolvers resolve expected implemented)) stackExceeded (expected, implemented) ↔
      ¬∃ pair, ReflTransGen (Compares toNumber resolve expected implemented) (expected, implemented) pair ∧
        TransGen (Compares toNumber resolve expected implemented) pair pair := by
  rw [terminates_iff_acc fun _ _ => schemaRows_error fun ref => ⟨ownErrors _ ref, ownErrors _ ref⟩,
    ← acc_iff_no_cycle (finite_compared targets)]
  rfl

/-- No schema that a root unfolds to unfolds to itself. -/
def Nonrecursive (resolve : Resolve) (root : Schema) : Prop :=
  ∀ part, ReflTransGen (Unfolds (resolve root)) root part → ¬TransGen (Unfolds (resolve root)) part part

theorem Compares.reached {pair : SchemaPair}
    (path : ReflTransGen (Compares toNumber resolve expected implemented) (expected, implemented) pair) :
    ReflTransGen (Unfolds (resolve expected)) expected pair.1 ∧ ReflTransGen (Unfolds (resolve implemented)) implemented pair.2 := by
  induction path with
  | refl => exact ⟨.refl, .refl⟩
  | tail _ compares ih =>
    obtain ⟨parent, same⟩ | ⟨unfolds, ownUnfolds⟩ := compares.unfolds
    · exact ⟨ih.1.tail ⟨_, parent, .inl rfl⟩, same ▸ ih.2⟩
    · exact ⟨ih.1.tail unfolds, ih.2.tail ownUnfolds⟩

/-- Recursion in one of the schemas alone does no harm. -/
theorem ends_of_nonrecursive (targets : ∀ root, {target | ∃ ref, resolve root ref = .ok (some target)}.Finite)
    (ownErrors : ∀ root ref, resolve root ref ≠ .error stackExceeded)
    (nonrecursive : Nonrecursive resolve expected ∨ Nonrecursive resolve implemented) :
    ∃ stack, validateSchemaImplementation toNumber resolve stack expected implemented ≠ .error stackExceeded := by
  apply terminates_iff_answer.mpr
  apply (terminates_iff_acyclic targets ownErrors).mpr
  rintro ⟨pair, path, cycle⟩
  obtain ⟨unfolded, ownUnfolded⟩ := Compares.reached path
  obtain ⟨recurs, ownRecurs⟩ := Compares.both_recur cycle
  obtain here | there := nonrecursive
  · exact here pair.1 unfolded recurs
  · exact there pair.2 ownUnfolded ownRecurs

end Termination

end Interfaces

namespace LinkedNodes

open Interfaces Questions

def toNumber : JsValue → Option Rat := fun _ => none

def text : Schema := .object { type := some (.one .string) } none [] none none none

/-- A property that is a node again. -/
def next : String × Schema := ("next", .object { ref := some "#/$defs/Node" } none [] none none none)

def node : Schema := .object { type := some (.one .object) } none [next] none none none

def resolve : Resolve := fun _ ref => .ok (if ref = "#/$defs/Node" then some node else none)

theorem resolve_targets (root : Schema) : {target | ∃ ref, resolve root ref = .ok (some target)}.Finite := by
  refine (Set.finite_singleton node).subset ?_
  rintro target ⟨ref, isTarget⟩
  have found := Except.ok.inj isTarget
  split at found
  · exact (Option.some.inj found).symm
  · cases found

theorem resolve_shallow (root : Schema) (ref : String) : resolve root ref ≠ .error stackExceeded := nofun

/-- An interface that asks for a name, and a model of named nodes. -/
def named : Schema := .object { type := some (.one .object) } none [("name", text)] none none none

def namedNode : Schema := .object { type := some (.one .object) } none [("name", text), next] none none none

end LinkedNodes

end Ceramic
