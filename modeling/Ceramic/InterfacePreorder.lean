import Ceramic.KeywordOrder

/-! Interfaces that implement one another: a schema implements itself, and what implements an implementation
implements the interface, as far as the schemas are of the forms that the comparison looks at as a whole. -/
namespace Ceramic

namespace Interfaces

open Questions Relation

section Forms

variable (toNumber : JsValue → Option Rat) (resolve : String → Except JsError (Option Schema))

def Leads (schema : Schema) : Prop := ∃ target, resolveReference resolve schema = .ok (some target)

/-- A schema that is compared without an exception: it has one type if it has no list of schemas, and the references
of its type lead somewhere. -/
def Supported : Schema → Prop
  | .boolean _ => True
  | .object keywords items properties allOf anyOf oneOf =>
    (allOf = none → anyOf = none → oneOf = none → ∃ type, keywords.type = some (.one type)) ∧
    (keywords.type = some (.one .array) → ∀ child, items = some child → Leads resolve child) ∧
    (keywords.type = some (.one .object) → ∀ property ∈ properties, Leads resolve property.2)

/-- A schema whose own keywords pass against themselves: its items are given and its properties have names of their
own. -/
def SelfMatching : Schema → Prop
  | .boolean _ => True
  | .object keywords items properties allOf anyOf oneOf =>
    allOf = none → anyOf = none → oneOf = none → ∀ type, keywords.type = some (.one type) →
      Consistent toNumber keywords type ∧ (type = .array → items.isSome) ∧
        (type = .object → (properties.map (·.1)).Nodup)

/-- A schema of a type or of one list of schemas, but not of both. -/
def SingleForm : Schema → Prop
  | .boolean _ => True
  | .object keywords _ _ allOf anyOf oneOf =>
    [keywords.type.isSome, allOf.isSome, anyOf.isSome, oneOf.isSome].count true ≤ 1

/-- What the comparison may read of a schema, down to its ends. -/
def Throughout (holds : Schema → Prop) (schema : Schema) : Prop :=
  ∀ part, ReflTransGen (Reads resolve) schema part → holds part

/-- Every alternative of the second schema matches one of the first. -/
def AlternativesCovered (resolvers : Resolvers) : SchemaPair → Prop
  | (.object _ _ _ _ anyOf _, .object _ _ _ _ ownAnyOf _) => Covered toNumber resolvers anyOf ownAnyOf
  | _ => True

end Forms

section Throughout

variable {resolve : String → Except JsError (Option Schema)} {holds : Schema → Prop} {schema next : Schema}

theorem Throughout.here (throughout : Throughout resolve holds schema) : holds schema := throughout schema .refl

theorem Throughout.below (throughout : Throughout resolve holds schema) (reads : Reads resolve schema next) :
    Throughout resolve holds next := fun part path => throughout part (.head reads path)

end Throughout

section Matching

variable {toNumber : JsValue → Option Rat} {resolvers : Resolvers} {expected implemented : Keywords}
  {items ownItems : Option Schema} {properties ownProperties : List (String × Schema)}
  {allOf anyOf oneOf ownAllOf ownAnyOf ownOneOf : Option (List Schema)} {list own : List Schema}

theorem Met.mono {m n : Nat} (deeper : m ≤ n) {row : Except JsError (List SchemaPair)}
    (met : Met toNumber resolvers m row) : Met toNumber resolvers n row := by
  obtain ⟨others, isRow, other, member, holds⟩ := met
  exact ⟨others, isRow, other, member, holds.mono deeper⟩

/-- Schemas that each have a match have one up to the same depth. -/
theorem holdsTo_each (each : ∀ e ∈ list, ∃ i ∈ own, Holds (schemaRows toNumber resolvers) (e, i)) :
    ∃ depth, ∀ e ∈ list, ∃ i ∈ own, HoldsTo (schemaRows toNumber resolvers) depth (e, i) := by
  refine exists_common (fun m n e deeper met => ?_) fun e member => ?_
  · obtain ⟨i, isOwn, holds⟩ := met
    exact ⟨i, isOwn, holds.mono deeper⟩
  · obtain ⟨i, isOwn, depth, holds⟩ := each e member
    exact ⟨depth, i, isOwn, holds⟩

theorem holds_allOf (title : titleErrors [] expected implemented = []) (sameLength : own.length = list.length)
    (each : ∀ e ∈ list, ∃ i ∈ own, Holds (schemaRows toNumber resolvers) (e, i)) :
    Holds (schemaRows toNumber resolvers) (.object expected items properties (some list) anyOf oneOf,
      .object implemented ownItems ownProperties (some own) ownAnyOf ownOneOf) := by
  obtain ⟨depth, eachTo⟩ := holdsTo_each each
  exact ⟨depth + 1, holdsTo_allOf.mpr ⟨title, own, rfl, sameLength, eachTo⟩⟩

theorem holds_oneOf (title : titleErrors [] expected implemented = []) (sameLength : own.length = list.length)
    (each : ∀ e ∈ list, ∃ i ∈ own, Holds (schemaRows toNumber resolvers) (e, i)) :
    Holds (schemaRows toNumber resolvers) (.object expected items properties none none (some list),
      .object implemented ownItems ownProperties ownAllOf ownAnyOf (some own)) := by
  obtain ⟨depth, eachTo⟩ := holdsTo_each each
  exact ⟨depth + 1, holdsTo_oneOf.mpr ⟨title, own, rfl, sameLength, eachTo⟩⟩

theorem holds_anyOf (title : titleErrors [] expected implemented = [])
    (anyOne : list = [] ∨ ∃ e ∈ list,
      ∃ i ∈ ownAnyOf.getD [.object implemented ownItems ownProperties ownAllOf ownAnyOf ownOneOf],
        Holds (schemaRows toNumber resolvers) (e, i)) :
    Holds (schemaRows toNumber resolvers) (.object expected items properties none (some list) oneOf,
      .object implemented ownItems ownProperties ownAllOf ownAnyOf ownOneOf) := by
  obtain empty | ⟨e, isExpected, i, isOwn, depth, holds⟩ := anyOne
  · exact ⟨1, holdsTo_anyOf.mpr ⟨title, .inl empty⟩⟩
  · exact ⟨depth + 1, holdsTo_anyOf.mpr ⟨title, .inr ⟨e, isExpected, i, isOwn, holds⟩⟩⟩

/-- Rows of a type: its keywords pass, and its items or its properties match. -/
theorem met_typeRows {depth : Nat} {type : TypeName} (isType : expected.type = some (.one type)) :
    (∀ row ∈ typeRows toNumber resolvers expected implemented items ownItems properties ownProperties,
      Met toNumber resolvers depth row) ↔
    typeErrors toNumber expected implemented type = [] ∧
      (type = .array → Met toNumber resolvers depth (itemsRow resolvers items ownItems)) ∧
      (type = .object → ∀ property ∈ properties,
        Met toNumber resolvers depth (propertyRow resolvers ownProperties property)) := by
  unfold typeRows
  rw [isType]
  cases type with
  | array =>
    dsimp only
    rw [met_ownRows]
    simp [typeErrors]
  | object =>
    dsimp only
    rw [met_ownRows, List.forall_mem_map]
    simp [typeErrors]
  | null => simp [typeErrors]
  | boolean | integer | number | string => simp [met_own, typeErrors]

theorem holds_typed {type : TypeName} (title : titleErrors [] expected implemented = [])
    (isType : expected.type = some (.one type)) (isOwn : implemented.type = some (.one type))
    (errors : typeErrors toNumber expected implemented type = [])
    (ofItems : type = .array → ∃ depth, Met toNumber resolvers depth (itemsRow resolvers items ownItems))
    (ofProperties : type = .object → ∀ property ∈ properties, ∃ depth,
      Met toNumber resolvers depth (propertyRow resolvers ownProperties property)) :
    Holds (schemaRows toNumber resolvers) (.object expected items properties none none none,
      .object implemented ownItems ownProperties ownAllOf ownAnyOf ownOneOf) := by
  have same : sameType expected.type implemented.type = true := by
    rw [isType, isOwn]
    exact beq_self_eq_true type
  obtain ⟨depth, itemsMet, propertiesMet⟩ : ∃ depth, (type = .array → Met toNumber resolvers depth
      (itemsRow resolvers items ownItems)) ∧ (type = .object → ∀ property ∈ properties,
        Met toNumber resolvers depth (propertyRow resolvers ownProperties property)) := by
    by_cases isArray : type = .array
    · obtain ⟨depth, met⟩ := ofItems isArray
      refine ⟨depth, fun _ => met, fun isObject => ?_⟩
      cases isArray.symm.trans isObject
    · by_cases isObject : type = .object
      · have eachMet (m n : Nat) (property : String × Schema) (deeper : m ≤ n)
            (met : Met toNumber resolvers m (propertyRow resolvers ownProperties property)) :
            Met toNumber resolvers n (propertyRow resolvers ownProperties property) := met.mono deeper
        obtain ⟨depth, met⟩ := exists_common eachMet (ofProperties isObject)
        exact ⟨depth, fun isItems => absurd isItems isArray, fun _ => met⟩
      · exact ⟨0, fun isItems => absurd isItems isArray, fun isProperty => absurd isProperty isObject⟩
  exact ⟨depth + 1, holdsTo_typed.mpr ⟨title, same, (met_typeRows isType).mpr ⟨errors, itemsMet, propertiesMet⟩⟩⟩

end Matching

section Exceptions

variable {toNumber : JsValue → Option Rat} {resolvers : Resolvers} {expected implemented : Schema} {e : JsError}

theorem propertyRow_ne_error {properties : List (String × Schema)} {property : String × Schema}
    (leads : Leads resolvers.resolveExpected property.2)
    (ownLeads : ∀ own, propertyOf properties property.1 = some own → Leads resolvers.resolveImplemented own) :
    propertyRow resolvers properties property ≠ .error e := by
  unfold propertyRow
  cases found : propertyOf properties property.1 with
  | none => nofun
  | some own =>
    obtain ⟨target, resolved⟩ := leads
    obtain ⟨ownTarget, ownResolved⟩ := ownLeads own found
    simp [resolved, ownResolved, resolvedRow, bind, Except.bind]

theorem itemsRow_ne_error {items ownItems : Option Schema}
    (leads : ∀ child, items = some child → Leads resolvers.resolveExpected child)
    (ownLeads : ∀ child, ownItems = some child → Leads resolvers.resolveImplemented child) :
    itemsRow resolvers items ownItems ≠ .error e := by
  cases items with
  | none => nofun
  | some child =>
    cases ownItems with
    | none => nofun
    | some own =>
      obtain ⟨target, resolved⟩ := leads child rfl
      obtain ⟨ownTarget, ownResolved⟩ := ownLeads own rfl
      simp [itemsRow, resolved, ownResolved, bind, Except.bind, pure, Except.pure]

theorem error_notMem_typeRows {expected implemented : Keywords} {items ownItems : Option Schema}
    {properties ownProperties : List (String × Schema)} {type : TypeName} (isType : expected.type = some (.one type))
    (leads : type = .array → ∀ child, items = some child → Leads resolvers.resolveExpected child)
    (ownLeads : type = .array → ∀ child, ownItems = some child → Leads resolvers.resolveImplemented child)
    (eachLeads : type = .object → ∀ property ∈ properties, Leads resolvers.resolveExpected property.2)
    (ownEachLeads : type = .object → ∀ property ∈ ownProperties, Leads resolvers.resolveImplemented property.2) :
    .error e ∉ typeRows toNumber resolvers expected implemented items ownItems properties ownProperties := by
  unfold typeRows
  rw [isType]
  intro missing
  cases type with
  | array =>
    obtain isOwn | isItems := List.mem_append.mp missing
    · exact error_notMem_ownRows isOwn
    · exact itemsRow_ne_error (leads rfl) (ownLeads rfl) (List.mem_singleton.mp isItems).symm
  | object =>
    obtain isOwn | isProperty := List.mem_append.mp missing
    · exact error_notMem_ownRows isOwn
    · obtain ⟨property, member, failed⟩ := List.mem_map.mp isProperty
      refine propertyRow_ne_error (eachLeads rfl property member) (fun own found => ?_) failed
      exact ownEachLeads rfl _ (mem_of_propertyOf_key found)
  | null => cases missing
  | boolean | integer | number | string => exact error_notMem_ownRows missing

theorem error_notMem_schemaRows (supported : Supported resolvers.resolveExpected expected)
    (ownSupported : Supported resolvers.resolveImplemented implemented) :
    .error e ∉ schemaRows toNumber resolvers (expected, implemented) := by
  intro missing
  cases expected with
  | boolean b =>
    cases implemented with
    | boolean c =>
      rw [schemaRows] at missing
      split at missing <;> simp at missing
    | object => cases List.mem_singleton.mp missing
  | object keywords items properties allOf anyOf oneOf =>
    cases implemented with
    | boolean c => cases List.mem_singleton.mp missing
    | object own ownItems ownProperties ownAllOf ownAnyOf ownOneOf =>
      rw [schemaRows] at missing
      obtain isOwn | isSub := List.mem_append.mp missing
      · exact error_notMem_ownRows isOwn
      unfold subschemaRows at isSub
      split at isSub
      · exact error_notMem_listRows isSub
      · exact error_notMem_anyRows isSub
      · exact error_notMem_listRows isSub
      · split at isSub
        next same =>
          obtain ⟨oneType, leads, eachLeads⟩ := supported
          obtain ⟨-, ownLeads, ownEachLeads⟩ := ownSupported
          obtain ⟨type, isType⟩ := oneType rfl rfl rfl
          have ownType : own.type = some (.one type) := (sameType_eq_true.mp same).1.symm.trans isType
          refine error_notMem_typeRows isType ?_ ?_ ?_ ?_ isSub
          all_goals rintro rfl
          · exact leads isType
          · exact ownLeads ownType
          · exact eachLeads isType
          · exact ownEachLeads ownType
        · cases List.mem_singleton.mp isSub

/-- Nothing is thrown below schemas that are supported down to their ends. -/
theorem not_fails_of_supported
    (supported : Throughout resolvers.resolveExpected (Supported resolvers.resolveExpected) expected)
    (ownSupported : Throughout resolvers.resolveImplemented (Supported resolvers.resolveImplemented) implemented) :
    ¬Fails (schemaRows toNumber resolvers) (expected, implemented) := by
  intro fails
  generalize same : (expected, implemented) = pair at fails
  induction fails generalizing expected implemented with
  | here missing =>
    subst same
    exact error_notMem_schemaRows supported.here ownSupported.here missing
  | further isRow reached _ ih =>
    subst same
    obtain ⟨before, after, rfl, -⟩ := reached
    obtain ⟨reads, ⟨-, kept⟩ | ownReads⟩ := reads_of_row isRow (List.mem_append_right before List.mem_cons_self)
    · exact ih (supported.below reads) (kept ▸ ownSupported) rfl
    · exact ih (supported.below reads) (ownSupported.below ownReads) rfl

end Exceptions

section Reflexivity

variable {toNumber : JsValue → Option Rat} {resolve : String → Except JsError (Option Schema)} {schema : Schema}

theorem propertyOf_self {properties : List (String × Schema)} (distinct : (properties.map (·.1)).Nodup)
    {property : String × Schema} (member : property ∈ properties) :
    propertyOf properties property.1 = some property.2 := by
  induction properties with
  | nil => cases member
  | cons first properties ih =>
    rw [List.map_cons, List.nodup_cons] at distinct
    unfold propertyOf
    obtain rfl | behind := List.mem_cons.mp member
    · simp
    · have other : ¬first.1 = property.1 := fun same => distinct.1 (same ▸ List.mem_map_of_mem behind)
      rw [List.find?_cons_of_neg (by simpa using other)]
      exact ih distinct.2 behind

/-- By induction along what the comparison reads of the schema: each entry of a list matches itself. -/
theorem holds_self (accessible : Acc (fun next part => Reads resolve part next) schema)
    (supported : Throughout resolve (Supported resolve) schema)
    (selfMatching : Throughout resolve (SelfMatching toNumber) schema) :
    Holds (schemaRows toNumber ⟨resolve, resolve⟩) (schema, schema) := by
  induction accessible with
  | intro schema _ ih =>
    have below {next : Schema} (reads : Reads resolve schema next) :
        Holds (schemaRows toNumber ⟨resolve, resolve⟩) (next, next) :=
      ih next reads (supported.below reads) (selfMatching.below reads)
    cases schema with
    | boolean b => exact ⟨1, holdsTo_boolean.mpr rfl⟩
    | object keywords items properties allOf anyOf oneOf =>
      cases allOf with
      | some list => exact holds_allOf titleErrors_self rfl fun e member => ⟨e, member, below (.inl member)⟩
      | none =>
      cases anyOf with
      | some list =>
        refine holds_anyOf titleErrors_self ?_
        cases list with
        | nil => exact .inl rfl
        | cons first list =>
          exact .inr ⟨first, List.mem_cons_self, first, List.mem_cons_self, below (.inr (.inl List.mem_cons_self))⟩
      | none =>
      cases oneOf with
      | some list =>
        refine holds_oneOf titleErrors_self rfl fun e member => ⟨e, member, below (.inr (.inr (.inl member)))⟩
      | none =>
        obtain ⟨oneType, leads, eachLeads⟩ := supported.here
        obtain ⟨type, isType⟩ := oneType rfl rfl rfl
        obtain ⟨consistent, hasItems, distinct⟩ := selfMatching.here rfl rfl rfl type isType
        refine holds_typed titleErrors_self isType isType (typeErrors_self.mpr consistent) ?_ ?_
        · rintro rfl
          obtain ⟨child, isItems⟩ := Option.isSome_iff_exists.mp (hasItems rfl)
          obtain ⟨target, resolved⟩ := leads isType child isItems
          obtain ⟨depth, holds⟩ := below (.inr (.inr (.inr ⟨child, resolved, .inl ⟨isType, isItems⟩⟩)))
          exact ⟨depth, met_itemsRow.mpr ⟨child, child, target, target, isItems, isItems, resolved, resolved, holds⟩⟩
        · rintro rfl property member
          obtain ⟨target, resolved⟩ := eachLeads isType property member
          obtain ⟨depth, holds⟩ :=
            below (.inr (.inr (.inr ⟨property.2, resolved, .inr ⟨isType, List.mem_map_of_mem member⟩⟩)))
          exact ⟨depth, met_propertyRow.mpr
            ⟨property.2, target, target, propertyOf_self (distinct rfl) member, resolved, resolved, holds⟩⟩

theorem nonrecursive_iff_acc {resolve : Resolve} {root : Schema}
    (targets : ∀ root, {target | ∃ ref, resolve root ref = .ok (some target)}.Finite) :
    Nonrecursive resolve root ↔ Acc (fun next part => Unfolds (resolve root) part next) root := by
  have within {part : Schema} (path : ReflTransGen (Unfolds (resolve root)) root part) : part ∈ parts resolve root := by
    induction path with
    | refl => exact ⟨root, .inl rfl, .refl⟩
    | tail _ unfolds ih => exact parts_of_unfolds ih unfolds
  have finite : {part | ReflTransGen (Unfolds (resolve root)) root part}.Finite :=
    (finite_parts targets root).subset fun _ path => within path
  rw [acc_iff_no_cycle finite]
  simp only [Nonrecursive, not_exists, not_and]

theorem reads_acc {resolve : Resolve} {root : Schema}
    (targets : ∀ root, {target | ∃ ref, resolve root ref = .ok (some target)}.Finite)
    (nonrecursive : Nonrecursive resolve root) : Acc (fun next part => Reads (resolve root) part next) root :=
  Subrelation.accessible (fun reads => reads.unfolds) ((nonrecursive_iff_acc targets).mp nonrecursive)

end Reflexivity

section Transitivity

variable {toNumber : JsValue → Option Rat}
  {resolveFirst resolveSecond resolveThird : String → Except JsError (Option Schema)} {a b c : Schema} {m n : Nat}

theorem MatchedBy.reads {resolvers : Resolvers} {pair : SchemaPair}
    (matched : MatchedBy toNumber resolvers (a, b) pair) :
    Reads resolvers.resolveExpected a pair.1 ∧ (pair.2 = b ∨ Reads resolvers.resolveImplemented b pair.2) := by
  obtain ⟨row, isRow, member, -⟩ := matched
  obtain ⟨reads, ⟨-, kept⟩ | ownReads⟩ := reads_of_row isRow member
  · exact ⟨reads, .inl kept⟩
  · exact ⟨reads, .inr ownReads⟩

theorem SingleForm.of_type {keywords : Keywords} {items : Option Schema} {properties : List (String × Schema)}
    {allOf anyOf oneOf : Option (List Schema)} {type : SchemaType}
    (single : SingleForm (.object keywords items properties allOf anyOf oneOf)) (isType : keywords.type = some type) :
    allOf = none ∧ anyOf = none ∧ oneOf = none := by
  cases allOf <;> cases anyOf <;> cases oneOf <;> simp [SingleForm, isType] at single ⊢

theorem SingleForm.of_anyOf {keywords : Keywords} {items : Option Schema} {properties : List (String × Schema)}
    {allOf oneOf : Option (List Schema)} {list : List Schema}
    (single : SingleForm (.object keywords items properties allOf (some list) oneOf)) :
    keywords.type = none ∧ allOf = none ∧ oneOf = none := by
  cases isType : keywords.type <;> cases allOf <;> cases oneOf <;> simp [SingleForm, isType] at single ⊢

theorem SingleForm.of_oneOf {keywords : Keywords} {items : Option Schema} {properties : List (String × Schema)}
    {allOf anyOf : Option (List Schema)} {list : List Schema}
    (single : SingleForm (.object keywords items properties allOf anyOf (some list))) :
    keywords.type = none ∧ allOf = none ∧ anyOf = none := by
  cases isType : keywords.type <;> cases allOf <;> cases anyOf <;> simp [SingleForm, isType] at single ⊢

/-- What has no alternatives is not implemented by alternatives alone. -/
theorem anyOf_eq_none {resolvers : Resolvers} {expected implemented : Keywords} {items ownItems : Option Schema}
    {properties ownProperties : List (String × Schema)} {allOf oneOf ownAllOf ownAnyOf ownOneOf : Option (List Schema)}
    (single : SingleForm (.object implemented ownItems ownProperties ownAllOf ownAnyOf ownOneOf))
    (holds : HoldsTo (schemaRows toNumber resolvers) (m + 1) (.object expected items properties allOf none oneOf,
      .object implemented ownItems ownProperties ownAllOf ownAnyOf ownOneOf)) : ownAnyOf = none := by
  cases ownAnyOf with
  | none => rfl
  | some own =>
    obtain ⟨noType, rfl, rfl⟩ := single.of_anyOf
    cases allOf with
    | some list =>
      obtain ⟨-, _, same, -⟩ := holdsTo_allOf.mp holds
      cases same
    | none =>
    cases oneOf with
    | some list =>
      obtain ⟨-, _, same, -⟩ := holdsTo_oneOf.mp holds
      cases same
    | none =>
      obtain ⟨-, same, rows⟩ := holdsTo_typed.mp holds
      obtain ⟨type, -, isType⟩ := type_of_typed same rows
      cases noType.symm.trans isType

section Types

variable {resolvers : Resolvers} {expected implemented : Keywords} {items ownItems : Option Schema}
  {properties ownProperties : List (String × Schema)} {ownAllOf ownAnyOf ownOneOf : Option (List Schema)}
  {own e i : Schema}

theorem matchedBy_items {child : Schema} (same : sameType expected.type implemented.type = true)
    (isType : expected.type = some (.one .array))
    (resolved : resolveReference resolvers.resolveExpected child = .ok (some e))
    (ownResolved : resolveReference resolvers.resolveImplemented own = .ok (some i))
    (holds : Holds (schemaRows toNumber resolvers) (e, i)) : MatchedBy toNumber resolvers
      (.object expected (some child) properties none none none,
        .object implemented (some own) ownProperties ownAllOf ownAnyOf ownOneOf) (e, i) :=
  matchedBy_typeRow same (itemsRow_resolved resolved ownResolved ▸ itemsRow_mem isType) List.mem_cons_self holds

theorem matchedBy_property {property : String × Schema} (same : sameType expected.type implemented.type = true)
    (isType : expected.type = some (.one .object)) (member : property ∈ properties)
    (found : propertyOf ownProperties property.1 = some own)
    (resolved : resolveReference resolvers.resolveExpected property.2 = .ok (some e))
    (ownResolved : resolveReference resolvers.resolveImplemented own = .ok (some i))
    (holds : Holds (schemaRows toNumber resolvers) (e, i)) : MatchedBy toNumber resolvers
      (.object expected items properties none none none,
        .object implemented ownItems ownProperties ownAllOf ownAnyOf ownOneOf) (e, i) :=
  matchedBy_typeRow same (propertyRow_resolved found resolved ownResolved ▸ propertyRow_mem isType member)
    List.mem_cons_self holds

end Types

/-- One step of a chain of two comparisons: where the one in the middle is compared with its parts, so is the last;
else only the first becomes smaller. -/
theorem holds_step (covered : AlternativesCovered toNumber ⟨resolveFirst, resolveSecond⟩ (a, b)) (single : SingleForm b)
    (ownSingle : SingleForm c) (first : HoldsTo (schemaRows toNumber ⟨resolveFirst, resolveSecond⟩) (n + 1) (a, b))
    (second : HoldsTo (schemaRows toNumber ⟨resolveSecond, resolveThird⟩) (m + 1) (b, c))
    (below : ∀ {a' b' c'}, MatchedBy toNumber ⟨resolveFirst, resolveSecond⟩ (a, b) (a', b') →
      MatchedBy toNumber ⟨resolveSecond, resolveThird⟩ (b, c) (b', c') →
      HoldsTo (schemaRows toNumber ⟨resolveSecond, resolveThird⟩) m (b', c') →
      Holds (schemaRows toNumber ⟨resolveFirst, resolveThird⟩) (a', c'))
    (alike : ∀ {a'}, MatchedBy toNumber ⟨resolveFirst, resolveSecond⟩ (a, b) (a', b) →
      HoldsTo (schemaRows toNumber ⟨resolveFirst, resolveSecond⟩) n (a', b) →
      Holds (schemaRows toNumber ⟨resolveFirst, resolveThird⟩) (a', c)) :
    Holds (schemaRows toNumber ⟨resolveFirst, resolveThird⟩) (a, c) := by
  cases a with
  | boolean value =>
    obtain rfl := holdsTo_boolean.mp first
    obtain rfl := holdsTo_boolean.mp second
    exact ⟨1, holdsTo_boolean.mpr rfl⟩
  | object expected items properties allOf anyOf oneOf =>
  cases b with
  | boolean => exact absurd first not_holdsTo_boolean
  | object middle midItems midProperties midAllOf midAnyOf midOneOf =>
  cases c with
  | boolean => exact absurd second not_holdsTo_boolean
  | object implemented ownItems ownProperties ownAllOf ownAnyOf ownOneOf =>
  have title : titleErrors [] expected implemented = [] :=
    titleErrors_trans (holdsTo_object.mp first).1 (holdsTo_object.mp second).1
  cases allOf with
  | some list =>
    obtain ⟨-, midList, rfl, sameLength, each⟩ := holdsTo_allOf.mp first
    obtain ⟨-, own, rfl, ownLength, ownEach⟩ := holdsTo_allOf.mp second
    refine holds_allOf title (ownLength.trans sameLength) fun e isExpected => ?_
    obtain ⟨b', isMiddle, holds⟩ := each e isExpected
    obtain ⟨c', isOwn, ownHolds⟩ := ownEach b' isMiddle
    exact ⟨c', isOwn, below (matchedBy_allOf sameLength isExpected isMiddle ⟨n, holds⟩)
      (matchedBy_allOf ownLength isMiddle isOwn ⟨m, ownHolds⟩) ownHolds⟩
  | none =>
  cases anyOf with
  | some list =>
    refine holds_anyOf title ?_
    obtain empty | ⟨e, isExpected, b', isMiddle, holds⟩ := (holdsTo_anyOf.mp first).2
    · exact .inl empty
    refine .inr ?_
    cases midAnyOf with
    | none =>
      obtain rfl := List.mem_singleton.mp isMiddle
      obtain rfl := anyOf_eq_none ownSingle second
      exact ⟨e, isExpected, _, List.mem_cons_self, alike (matchedBy_anyOf isExpected isMiddle ⟨n, holds⟩) holds⟩
    | some midList =>
      obtain ⟨-, rfl, rfl⟩ := single.of_anyOf
      obtain empty | ⟨between, isBetween, c', isOwn, ownHolds⟩ := (holdsTo_anyOf.mp second).2
      · exact absurd empty (List.ne_nil_of_mem isMiddle)
      · obtain ⟨e', isAlternative, holdsOther⟩ := covered list midList rfl rfl between isBetween
        exact ⟨e', isAlternative, c', isOwn, below (matchedBy_anyOf isAlternative isBetween holdsOther)
          (matchedBy_anyOf isBetween isOwn ⟨m, ownHolds⟩) ownHolds⟩
  | none =>
  cases oneOf with
  | some list =>
    obtain ⟨-, midList, rfl, sameLength, each⟩ := holdsTo_oneOf.mp first
    obtain ⟨-, rfl, rfl⟩ := single.of_oneOf
    obtain ⟨-, own, rfl, ownLength, ownEach⟩ := holdsTo_oneOf.mp second
    refine holds_oneOf title (ownLength.trans sameLength) fun e isExpected => ?_
    obtain ⟨b', isMiddle, holds⟩ := each e isExpected
    obtain ⟨c', isOwn, ownHolds⟩ := ownEach b' isMiddle
    exact ⟨c', isOwn, below (matchedBy_oneOf sameLength isExpected isMiddle ⟨n, holds⟩)
      (matchedBy_oneOf ownLength isMiddle isOwn ⟨m, ownHolds⟩) ownHolds⟩
  | none =>
    obtain ⟨-, same, rows⟩ := holdsTo_typed.mp first
    obtain ⟨type, isType, midType⟩ := type_of_typed same rows
    obtain ⟨rfl, rfl, rfl⟩ := single.of_type midType
    obtain ⟨-, ownSame, ownRows⟩ := holdsTo_typed.mp second
    have ownType : implemented.type = some (.one type) := (sameType_eq_true.mp ownSame).1.symm.trans midType
    obtain ⟨errors, itemsMet, propertiesMet⟩ := (met_typeRows isType).mp rows
    obtain ⟨ownErrors, ownItemsMet, ownPropertiesMet⟩ := (met_typeRows midType).mp ownRows
    refine holds_typed title isType ownType (typeErrors_trans type errors ownErrors) ?_ ?_
    · rintro rfl
      obtain ⟨child, midChild, e, b', rfl, rfl, resolved, midResolved, holds⟩ := met_itemsRow.mp (itemsMet rfl)
      obtain ⟨_, ownChild, _, c', ⟨⟩, rfl, sameResolved, ownResolved, ownHolds⟩ := met_itemsRow.mp (ownItemsMet rfl)
      cases midResolved.symm.trans sameResolved
      obtain ⟨depth, chained⟩ := below (matchedBy_items same isType resolved midResolved ⟨n, holds⟩)
        (matchedBy_items ownSame midType midResolved ownResolved ⟨m, ownHolds⟩) ownHolds
      exact ⟨depth, met_itemsRow.mpr ⟨child, ownChild, e, c', rfl, rfl, resolved, ownResolved, chained⟩⟩
    · rintro rfl property member
      obtain ⟨midChild, e, b', found, resolved, midResolved, holds⟩ :=
        met_propertyRow.mp (propertiesMet rfl property member)
      have midMember : (property.1, midChild) ∈ midProperties := mem_of_propertyOf_key found
      obtain ⟨ownChild, _, c', ownFound, sameResolved, ownResolved, ownHolds⟩ :=
        met_propertyRow.mp (ownPropertiesMet rfl _ midMember)
      cases midResolved.symm.trans sameResolved
      obtain ⟨depth, chained⟩ := below (matchedBy_property same isType member found resolved midResolved ⟨n, holds⟩)
        (matchedBy_property ownSame midType midMember ownFound midResolved ownResolved ⟨m, ownHolds⟩) ownHolds
      exact ⟨depth, met_propertyRow.mpr ⟨ownChild, e, c', ownFound, resolved, ownResolved, chained⟩⟩

/-- The induction is on the depth of the second comparison, and within it on that of the first. -/
theorem holds_trans (covered : ∀ pair, ReflTransGen (MatchedBy toNumber ⟨resolveFirst, resolveSecond⟩) (a, b) pair →
      AlternativesCovered toNumber ⟨resolveFirst, resolveSecond⟩ pair)
    (single : Throughout resolveSecond SingleForm b) (ownSingle : Throughout resolveThird SingleForm c)
    (first : HoldsTo (schemaRows toNumber ⟨resolveFirst, resolveSecond⟩) n (a, b))
    (second : HoldsTo (schemaRows toNumber ⟨resolveSecond, resolveThird⟩) m (b, c)) :
    Holds (schemaRows toNumber ⟨resolveFirst, resolveThird⟩) (a, c) := by
  induction m generalizing a b c n with
  | zero => exact second.elim
  | succ m ih =>
    induction n generalizing a with
    | zero => exact first.elim
    | succ n smaller =>
      apply holds_step (covered _ .refl) single.here ownSingle.here first second
      · intro a' b' c' matched ownMatched ownHolds
        have ⟨_, _, _, depth, holds⟩ := matched
        have ownBelow : Throughout resolveThird SingleForm c' := by
          obtain kept | reads := ownMatched.reads.2
          · obtain rfl : c' = c := kept
            exact ownSingle
          · exact ownSingle.below reads
        exact ih (fun pair path => covered pair (.head matched path)) (single.below ownMatched.reads.1) ownBelow holds
          ownHolds
      · intro a' matched holds
        exact smaller (fun pair path => covered pair (.head matched path)) holds

end Transitivity

section Implementations

variable {toNumber : JsValue → Option Rat} {resolve : Resolve} {expected middle implemented : Schema}

/-- A comparison that ends and does not throw finds no error where the schemas match. -/
theorem accepted_of_holds (targets : ∀ root, {target | ∃ ref, resolve root ref = .ok (some target)}.Finite)
    (ownErrors : ∀ root ref, resolve root ref ≠ .error stackExceeded) (nonrecursive : Nonrecursive resolve expected)
    (supported : Throughout (resolve expected) (Supported (resolve expected)) expected)
    (ownSupported : Throughout (resolve implemented) (Supported (resolve implemented)) implemented)
    (holds : Holds (schemaRows toNumber (createResolvers resolve expected implemented)) (expected, implemented)) :
    ∃ stack, validateSchemaImplementation toNumber resolve stack expected implemented = .ok [] := by
  obtain ⟨stack, ends⟩ :=
    @ends_of_nonrecursive toNumber resolve expected implemented targets ownErrors (.inl nonrecursive)
  have answered :=
    @validateSchemaType_answer toNumber (createResolvers resolve expected implemented) stack [] expected implemented
  change (validateSchemaImplementation toNumber resolve stack expected implemented).map List.isEmpty = _ at answered
  refine ⟨stack, ?_⟩
  cases returned : validateSchemaImplementation toNumber resolve stack expected implemented with
  | error e =>
    rw [returned] at ends answered
    have thrown : Fails (schemaRows toNumber (createResolvers resolve expected implemented)) (expected, implemented) :=
      fails_of_error answered.symm fun same => ends (congrArg _ same)
    exact absurd thrown (not_fails_of_supported supported ownSupported)
  | ok errors =>
    rw [returned] at answered
    have noErrors : errors.isEmpty = true := (holds_iff answered.symm).mp holds
    rw [List.isEmpty_iff.mp noErrors]

/-- A schema implements itself; and what implements an implementation of a schema implements the schema. -/
theorem validateSchemaImplementation_preorder
    (targets : ∀ root, {target | ∃ ref, resolve root ref = .ok (some target)}.Finite)
    (ownErrors : ∀ root ref, resolve root ref ≠ .error stackExceeded) :
    (∀ schema, Nonrecursive resolve schema →
      Throughout (resolve schema) (fun part => Supported (resolve schema) part ∧ SelfMatching toNumber part) schema →
      ∃ stack, validateSchemaImplementation toNumber resolve stack schema schema = .ok []) ∧
    ∀ expected middle implemented stack ownStack, Nonrecursive resolve expected →
      Throughout (resolve expected) (Supported (resolve expected)) expected →
      Throughout (resolve middle) SingleForm middle →
      Throughout (resolve implemented) (fun part => Supported (resolve implemented) part ∧ SingleForm part)
        implemented →
      (∀ pair, ReflTransGen (MatchedBy toNumber (createResolvers resolve expected middle)) (expected, middle) pair →
        AlternativesCovered toNumber (createResolvers resolve expected middle) pair) →
      validateSchemaImplementation toNumber resolve stack expected middle = .ok [] →
      validateSchemaImplementation toNumber resolve ownStack middle implemented = .ok [] →
      ∃ stack, validateSchemaImplementation toNumber resolve stack expected implemented = .ok [] := by
  constructor
  · intro schema nonrecursive throughout
    have supported : Throughout (resolve schema) (Supported (resolve schema)) schema :=
      fun part path => (throughout part path).1
    exact accepted_of_holds targets ownErrors nonrecursive supported supported
      (holds_self (reads_acc targets nonrecursive) supported fun part path => (throughout part path).2)
  · intro expected middle implemented stack ownStack nonrecursive supported single ownForms covered accepted ownAccepted
    obtain ⟨m, first⟩ := holds_of_accepted accepted
    obtain ⟨n, second⟩ := holds_of_accepted ownAccepted
    exact accepted_of_holds targets ownErrors nonrecursive supported (fun part path => (ownForms part path).1)
      (holds_trans covered single (fun part path => (ownForms part path).2) first second)

end Implementations

end Interfaces

namespace RecordSchemas

open Interfaces Relation

theorem resolve_targets (root : Schema) : {target | ∃ ref, resolve root ref = .ok (some target)}.Finite := by
  refine (Set.finite_singleton text).subset ?_
  rintro target ⟨ref, isTarget⟩
  obtain ⟨-, isText⟩ := Option.ite_some_none_eq_some.mp (Except.ok.inj isTarget)
  exact isText.symm

theorem resolve_shallow (root : Schema) (ref : String) : resolve root ref ≠ .error stackExceeded := nofun

section Records

variable {root field next : Schema} {list : List Schema} {type : TypeName} {keywords : Keywords} {holds : Schema → Prop}

theorem throughout_of_reads (here : holds field)
    (below : ∀ next, Reads (resolve root) field next → Throughout (resolve root) holds next) :
    Throughout (resolve root) holds field := by
  intro part path
  obtain rfl | ⟨next, reads, further⟩ := ReflTransGen.cases_head path
  · exact here
  · exact below next reads part further

theorem throughout_typed (here : holds (typed type keywords)) : Throughout (resolve root) holds (typed type keywords) :=
  throughout_of_reads here fun next reads => by simp [Reads, typed] at reads

theorem throughout_anyOf (here : holds (anyOf list))
    (each : ∀ schema ∈ list, Throughout (resolve root) holds schema) :
    Throughout (resolve root) holds (anyOf list) := by
  refine throughout_of_reads here fun next reads => each next ?_
  simpa [Reads, anyOf] using reads

theorem throughout_record (direct : resolveReference (resolve root) field = .ok (some field))
    (here : holds (record field)) (ofField : Throughout (resolve root) holds field) :
    Throughout (resolve root) holds (record field) := by
  refine throughout_of_reads here fun next reads => ?_
  have resolved : resolveReference (resolve root) field = .ok (some next) := by simpa [Reads, record] using reads
  obtain rfl : field = next := by simpa [direct] using resolved
  exact ofField

/-- Where the schemas in a schema are no references, it leads to them alone. -/
theorem acc_of_children {schema : Schema}
    (direct : ∀ child ∈ schema.children, resolveReference (resolve root) child = .ok (some child))
    (below : ∀ child ∈ schema.children, Acc (fun next part => Unfolds (resolve root) part next) child) :
    Acc (fun next part => Unfolds (resolve root) part next) schema := by
  refine .intro _ fun next unfolds => ?_
  obtain ⟨child, isChild, rfl | resolved⟩ := unfolds
  · exact below next isChild
  · obtain rfl : child = next := by simpa [direct child isChild] using resolved
    exact below child isChild

theorem ofEither_nonrecursive : Nonrecursive resolve (record ofEither) := by
  apply (nonrecursive_iff_acc resolve_targets).mpr
  refine acc_of_children (List.forall_mem_singleton.mpr rfl) (List.forall_mem_singleton.mpr ?_)
  refine acc_of_children (List.forall_mem_cons.mpr ⟨rfl, List.forall_mem_singleton.mpr rfl⟩) ?_
  refine List.forall_mem_cons.mpr ⟨?_, List.forall_mem_singleton.mpr ?_⟩
  · exact acc_of_children nofun nofun
  · exact acc_of_children nofun nofun

end Records

def tinyText : Schema := typed .string { maxLength := some 20 }

theorem record_supported {root field : Schema} (direct : resolveReference (resolve root) field = .ok (some field)) :
    Supported (resolve root) (record field) :=
  ⟨fun _ _ _ => ⟨_, rfl⟩, nofun, fun _ => List.forall_mem_singleton.mpr ⟨field, direct⟩⟩

theorem typed_supported {root : Schema} {type : TypeName} {keywords : Keywords} :
    Supported (resolve root) (typed type keywords) := ⟨fun _ _ _ => ⟨type, rfl⟩, fun _ => nofun, fun _ => nofun⟩

theorem typed_selfMatching {type : TypeName} {keywords : Keywords} (notArray : type ≠ .array)
    (noConst : keywords.const = none) (noEnum : keywords.enum = none) :
    SelfMatching toNumber (typed type keywords) := by
  rintro - - - _ ⟨⟩
  refine ⟨⟨fun _ value isConstant => ?_, fun _ _ values isEnum => ?_⟩, fun isArray => ?_, fun _ => ?_⟩
  · cases noConst.symm.trans (constant_eq_some.mp isConstant).1
  · cases noEnum.symm.trans isEnum
  · exact absurd isArray notArray
  · exact List.nodup_nil

theorem ofEither_forms : Throughout (resolve (record ofEither))
    (fun part => Supported (resolve (record ofEither)) part ∧ SelfMatching toNumber part) (record ofEither) := by
  refine throughout_record rfl ⟨record_supported rfl, ?_⟩ ?_
  · rintro - - - _ ⟨⟩
    exact ⟨⟨nofun, nofun⟩, nofun, fun _ => List.nodup_singleton _⟩
  · refine throughout_anyOf ⟨⟨fun _ => nofun, nofun, nofun⟩, fun _ => nofun⟩ ?_
    refine List.forall_mem_cons.mpr ⟨throughout_typed ?_, List.forall_mem_singleton.mpr (throughout_typed ?_)⟩
    · exact ⟨typed_supported, typed_selfMatching nofun rfl rfl⟩
    · exact ⟨typed_supported, typed_selfMatching nofun rfl rfl⟩

theorem ofShort_single : Throughout (resolve (record ofShort)) SingleForm (record ofShort) := by
  have short : SingleForm shortText := Nat.le_refl 1
  have numbered : SingleForm numberFrom := Nat.le_refl 1
  refine throughout_record rfl (Nat.le_refl 1) (throughout_anyOf (Nat.le_refl 1) ?_)
  exact List.forall_mem_cons.mpr ⟨throughout_typed short, List.forall_mem_singleton.mpr (throughout_typed numbered)⟩

theorem tinyText_forms : Throughout (resolve (record tinyText))
    (fun part => Supported (resolve (record tinyText)) part ∧ SingleForm part) (record tinyText) := by
  refine throughout_record rfl ⟨record_supported rfl, ?_⟩ ?_
  · exact Nat.le_refl 1
  · exact throughout_typed ⟨typed_supported, Nat.le_refl 1⟩

theorem ofShort_covered (pair : SchemaPair)
    (reached : ReflTransGen (MatchedBy toNumber resolvers) (record ofEither, record ofShort) pair) :
    AlternativesCovered toNumber resolvers pair := by
  have compared := compared_of_reached reached
  have covered := compared.faithful.covered
  cases compared with
  | records => exact covered.1
  | fields => exact covered.1
  | alternatives isExpected isImplemented =>
    simp only [List.mem_cons, List.not_mem_nil, or_false] at isExpected isImplemented
    obtain rfl | rfl := isExpected <;> obtain rfl | rfl := isImplemented <;> exact covered.1

/-- What has a text or a number has, by way of what has a short text or a number from 1 on, a very short text. -/
theorem record_preorder :
    (∃ stack, validateSchemaImplementation toNumber resolve stack (record ofEither) (record ofEither) = .ok []) ∧
    ∃ stack, validateSchemaImplementation toNumber resolve stack (record ofEither) (record tinyText) = .ok [] := by
  obtain ⟨reflexive, transitive⟩ :=
    @validateSchemaImplementation_preorder toNumber resolve resolve_targets resolve_shallow
  constructor
  · exact reflexive _ ofEither_nonrecursive ofEither_forms
  · exact transitive (record ofEither) (record ofShort) (record tinyText) 4 4 ofEither_nonrecursive
      (fun part path => (ofEither_forms part path).1) ofShort_single tinyText_forms ofShort_covered rfl rfl

/-- No comparison of the records is without errors. -/
def Refused (expected implemented : Schema) : Prop := ∃ stack,
  (validateSchemaImplementation toNumber resolve stack (record expected) (record implemented)).map List.isEmpty =
    .ok false ∨
  ∃ e, e ≠ stackExceeded ∧
    validateSchemaImplementation toNumber resolve stack (record expected) (record implemented) = .error e

/-- The comparison accepts one record for another and a third for that, and refuses the third for the first. -/
def Untransitive (expected middle implemented : Schema) : Prop :=
  (∃ stack, validateSchemaImplementation toNumber resolve stack (record expected) (record middle) = .ok []) ∧
  (∃ stack, validateSchemaImplementation toNumber resolve stack (record middle) (record implemented) = .ok []) ∧
  Refused expected implemented

/-- A list of types, no type, a reference in a list or to nothing, an array without items and a constant or a list of
values that do not pass are not their own implementation; and one matching alternative, or a list beside a type, is not
carried on. -/
theorem comparison_no_preorder :
    (Refused (.object { type := some (.many [.string, .null]) } none [] none none none)
        (.object { type := some (.many [.string, .null]) } none [] none none none) ∧
      Refused (.object {} none [] none none none) (.object {} none [] none none none) ∧
      Refused (allOf {} [.object { ref := some "#/$defs/Text" } none [] none none none])
        (allOf {} [.object { ref := some "#/$defs/Text" } none [] none none none]) ∧
      Refused (.object { ref := some "#/$defs/Missing" } none [] none none none)
        (.object { ref := some "#/$defs/Missing" } none [] none none none) ∧
      Refused (typed .array {}) (typed .array {}) ∧
      Refused (typed .string { const := some (.arr []) }) (typed .string { const := some (.arr []) }) ∧
      Refused (typed .number { const := some (.num 5), maximum := some 3 })
        (typed .number { const := some (.num 5), maximum := some 3 }) ∧
      Refused (typed .string { enum := some [] }) (typed .string { enum := some [] })) ∧
    Untransitive (anyOf [text]) (anyOf [text, number]) (anyOf [number]) ∧
    Untransitive text (allOf { type := some (.one .string) } [text]) (allOf {} [text]) ∧
    Untransitive (anyOf [text]) text (.object { type := some (.one .string) } none [] none (some [number]) none) ∧
    Untransitive (anyOf [.object {} none [] none none none, text]) (anyOf [text])
      (anyOf [.object {} none [] none none none, text]) :=
  ⟨⟨⟨4, .inl rfl⟩, ⟨4, .inr ⟨_, by decide, rfl⟩⟩, ⟨4, .inr ⟨_, by decide, rfl⟩⟩, ⟨4, .inr ⟨_, by decide, rfl⟩⟩,
      ⟨4, .inl rfl⟩, ⟨4, .inl rfl⟩, ⟨4, .inl rfl⟩, ⟨4, .inl rfl⟩⟩,
    ⟨⟨4, rfl⟩, ⟨4, rfl⟩, ⟨4, .inl rfl⟩⟩,
    ⟨⟨4, rfl⟩, ⟨4, rfl⟩, ⟨4, .inl rfl⟩⟩,
    ⟨⟨4, rfl⟩, ⟨4, rfl⟩, ⟨4, .inl rfl⟩⟩,
    ⟨⟨4, rfl⟩, ⟨4, rfl⟩, ⟨4, .inr ⟨_, by decide, rfl⟩⟩⟩⟩

end RecordSchemas

end Ceramic
