import Ceramic.ImmutableFields
import Ceramic.RejectedCommit
import Ceramic.StoredStates
import Ceramic.Library.Separated

/-! The SET account relation. The values of the set fields are joined to one text, which the genesis
fixes; whether they are fixed too depends on how far the text tells them apart. -/
namespace Ceramic

namespace AccountRelations

def SUPPORTED_FIELD_TYPES : List String := ["boolean", "integer", "number", "string"]

variable (resolve : JsValue → JsValue → Except JsError JsValue) (stringOf : JsValue → String)

/-- The schema of a field, behind its reference if it has one. -/
def fieldSchema (modelSchema : JsValue) (field : String) : Except JsError JsValue := do
  let schema ← (← modelSchema.prop "properties").prop field
  let ref := schema.fieldOf "$ref"
  if ref.isNullish then return schema
  resolve ref modelSchema

def requiredFields (modelSchema : JsValue) : List JsValue :=
  match modelSchema.fieldOf "required" with
  | .arr fields => fields
  | _ => []

def typeErrors (field : String) (fieldType : JsValue) : List String :=
  if fieldType.isNullish then ["Missing type for field: " ++ field]
  else if !SUPPORTED_FIELD_TYPES.any (fun type => fieldType == .str type) then
    ["Unsupported type " ++ stringOf fieldType ++ " for field " ++ field ++
      " set in the account relation, only the following types are supported: " ++
      ", ".intercalate SUPPORTED_FIELD_TYPES]
  else []

def fieldErrors (modelSchema : JsValue) (field : String) : Except JsError (List String) := do
  let schema ← fieldSchema resolve modelSchema field
  if schema.isNullish then return ["Field not found in schema: " ++ field]
  let fieldType ← schema.prop "type"
  return typeErrors stringOf field fieldType ++
    if (requiredFields modelSchema).contains (.str field) then []
    else ["Field " ++ field ++ " must be required to be used for the SET account relation"]

/-- The single errors are the `errors` of the one that is thrown. -/
def validateSetFields (fields : List String) (modelSchema : JsValue) : Except JsError Unit := do
  if fields.isEmpty then throw ⟨"At least one field must be defined for the SET account relation"⟩
  let errors ← fields.mapM (fieldErrors resolve stringOf modelSchema)
  if !errors.flatten.isEmpty then throw ⟨"Invalid schema fields for SET account relation"⟩

/-- A value of one of the types of JSON schema that a set field can have. -/
def HasType : String → JsValue → Prop
  | "boolean", value => ∃ b, value = .bool b
  | "integer", value => ∃ n : Rat, value = .num n ∧ n.isInt = true
  | "number", value => ∃ n, value = .num n
  | "string", value => ∃ s, value = .str s
  | _, _ => True

/-- The type that the schema gives a required field. -/
structure Declares (modelSchema : JsValue) (field type : String) : Prop where
  required : (requiredFields modelSchema).contains (.str field) = true
  type : ∃ schema, fieldSchema resolve modelSchema field = .ok schema ∧ schema.prop "type" = .ok (.str type)

variable {resolve stringOf} {fields : List String} {modelSchema : JsValue}

theorem supported_of_noErrors {field : String} {fieldType : JsValue} (none : typeErrors stringOf field fieldType = []) :
    ∃ type ∈ SUPPORTED_FIELD_TYPES, fieldType = .str type := by
  unfold typeErrors at none
  split at none
  · cases none
  split at none
  · cases none
  next supported => simpa using supported

theorem fieldErrors_nil {field : String} (none : fieldErrors resolve stringOf modelSchema field = .ok []) :
    ∃ type ∈ SUPPORTED_FIELD_TYPES, Declares resolve modelSchema field type := by
  obtain ⟨schema, isSchema, none⟩ := bind_eq_ok.mp none
  split at none
  · cases none
  obtain ⟨fieldType, isType, none⟩ := bind_eq_ok.mp none
  obtain ⟨noTypeErrors, noOther⟩ := List.append_eq_nil_iff.mp (Except.ok.inj none)
  obtain ⟨type, supported, rfl⟩ := supported_of_noErrors noTypeErrors
  have required : (requiredFields modelSchema).contains (.str field) = true := by
    by_contra missing
    rw [if_neg missing] at noOther
    cases noOther
  exact ⟨type, supported, required, schema, isSchema, isType⟩

theorem each_of_flatten_nil {f : String → Except JsError (List String)} {errors : List (List String)}
    (found : List.Forall₂ (fun field own => f field = .ok own) fields errors) (none : errors.flatten = []) :
    ∀ field ∈ fields, f field = .ok [] := by
  induction found with
  | nil => simp
  | cons here _ ih =>
    obtain ⟨rfl, behind⟩ := List.append_eq_nil_iff.mp none
    rintro field (_ | ⟨_, member⟩)
    · exact here
    · exact ih behind field member

/-- Every field of an accepted SET relation is required and has one of the supported types. -/
theorem declares_of_valid (valid : validateSetFields resolve stringOf fields modelSchema = .ok ()) :
    fields ≠ [] ∧ ∀ field ∈ fields, ∃ type ∈ SUPPORTED_FIELD_TYPES, Declares resolve modelSchema field type := by
  unfold validateSetFields at valid
  dsimp only at valid
  obtain ⟨some, valid⟩ := guard_eq_ok.mp valid
  obtain ⟨errors, found, valid⟩ := bind_eq_ok.mp valid
  obtain ⟨none, _⟩ := guard_eq_ok.mp valid
  have noErrors : errors.flatten = [] := by simpa using none
  refine ⟨by simpa using some, fun field member => ?_⟩
  exact fieldErrors_nil (each_of_flatten_nil (mapM_ok found) noErrors field member)

end AccountRelations

/-- `String(value)` of the values a set field can have. -/
structure ScalarTexts (stringOf : JsValue → String) : Prop where
  text : ∀ s, s ≠ "" → stringOf (.str s) = s
  true : stringOf (.bool true) = "true"
  number_ne : ∀ n, n ≠ 0 → stringOf (.num n) ≠ ""
  number_plain : ∀ n, n ≠ 0 → '|' ∉ (stringOf (.num n)).toList
  number_injective : ∀ m n, m ≠ 0 → n ≠ 0 → stringOf (.num m) = stringOf (.num n) → m = n

namespace ModelInstanceDocumentHandler

open AccountRelations

/-- What a value adds to the text of its document. -/
def uniquePart (stringOf : JsValue → String) (value : JsValue) : String :=
  if value.truthy then stringOf value else ""

section Parts

variable {stringOf : JsValue → String}

theorem uniquePart_num {n : Rat} (nonzero : n ≠ 0) : uniquePart stringOf (.num n) = stringOf (.num n) := by
  have truthy : JsValue.truthy (.num n) = true := by simpa [JsValue.truthy] using nonzero
  rw [uniquePart, if_pos truthy]

variable (texts : ScalarTexts stringOf) {v w : JsValue}
include texts

theorem uniquePart_bool (b : Bool) : uniquePart stringOf (.bool b) = if b then "true" else "" := by
  cases b with
  | false => rfl
  | true => exact texts.true

theorem uniquePart_str (s : String) : uniquePart stringOf (.str s) = s := by
  by_cases empty : s = ""
  · subst empty
    rfl
  · have truthy : JsValue.truthy (.str s) = true := by simpa [JsValue.truthy] using empty
    rw [uniquePart, if_pos truthy, texts.text s empty]

theorem uniquePart_num_injective {m n : Rat} (same : uniquePart stringOf (.num m) = uniquePart stringOf (.num n)) :
    m = n := by
  by_cases zeroM : m = 0
  · subst zeroM
    by_contra other
    rw [uniquePart_num (Ne.symm other)] at same
    exact texts.number_ne n (Ne.symm other) same.symm
  · by_cases zeroN : n = 0
    · subst zeroN
      rw [uniquePart_num zeroM] at same
      exact absurd same (texts.number_ne m zeroM)
    · rw [uniquePart_num zeroM, uniquePart_num zeroN] at same
      exact texts.number_injective m n zeroM zeroN same

/-- A value is determined by its type and what it adds to the text. -/
theorem uniquePart_injective {type : String} (supported : type ∈ SUPPORTED_FIELD_TYPES) (isV : HasType type v)
    (isW : HasType type w) (same : uniquePart stringOf v = uniquePart stringOf w) : v = w := by
  simp only [SUPPORTED_FIELD_TYPES, List.mem_cons, List.not_mem_nil, or_false] at supported
  rcases supported with rfl | rfl | rfl | rfl
  · obtain ⟨a, rfl⟩ := isV
    obtain ⟨b, rfl⟩ := isW
    rw [uniquePart_bool texts, uniquePart_bool texts] at same
    cases a <;> cases b <;> simp_all
  · obtain ⟨m, rfl, _⟩ := isV
    obtain ⟨n, rfl, _⟩ := isW
    rw [uniquePart_num_injective texts same]
  · obtain ⟨m, rfl⟩ := isV
    obtain ⟨n, rfl⟩ := isW
    rw [uniquePart_num_injective texts same]
  · obtain ⟨s, rfl⟩ := isV
    obtain ⟨t, rfl⟩ := isW
    rw [uniquePart_str texts, uniquePart_str texts] at same
    rw [same]

/-- Only a text can bring bars of its own. -/
theorem uniquePart_plain {type : String} (supported : type ∈ SUPPORTED_FIELD_TYPES) (noText : type ≠ "string")
    (isV : HasType type v) : '|' ∉ (uniquePart stringOf v).toList := by
  have number (n : Rat) : '|' ∉ (uniquePart stringOf (.num n)).toList := by
    by_cases zero : n = 0
    · subst zero
      exact List.not_mem_nil
    · rw [uniquePart_num zero]
      exact texts.number_plain n zero
  simp only [SUPPORTED_FIELD_TYPES, List.mem_cons, List.not_mem_nil, or_false] at supported
  rcases supported with rfl | rfl | rfl | rfl
  · obtain ⟨b, rfl⟩ := isV
    rw [uniquePart_bool texts]
    cases b <;> decide
  · obtain ⟨n, rfl, _⟩ := isV
    exact number n
  · obtain ⟨n, rfl⟩ := isV
    exact number n
  · exact absurd rfl noText

end Parts

theorem uniqueText_object (env : Environment) (fields : List String) (o : JsObject) :
    uniqueText env (.obj o) fields =
      .ok ("|".intercalate (fields.map fun field => uniquePart env.stringOf (JsValue.fieldOf (.obj o) field))) := by
  have values : (fields.mapM fun field => do
      let value ← JsValue.prop (.obj o) field
      return if value.truthy then env.stringOf value else "" : Except JsError (List String)) =
      .ok (fields.map fun field => uniquePart env.stringOf (JsValue.fieldOf (.obj o) field)) := by
    induction fields with
    | nil => rfl
    | cons field fields ih =>
      rw [List.mapM_cons, ih]
      rfl
  unfold uniqueText
  rw [values]
  rfl

/-- What the schema validator promises about the fields a schema declares. -/
def ChecksFields (ajvValidate : JsValue → JsValue → Except String Unit)
    (resolve : JsValue → JsValue → Except JsError JsValue) : Prop :=
  ∀ schema content field type, ajvValidate schema content = .ok () → schema.fieldOf "type" = .str "object" →
    Declares resolve schema field type → HasType type (content.fieldOf field)

/-- The schema of the model is one of objects, and its relation is a SET over fields that were accepted. -/
structure SetModel (env : Environment) (resolve : JsValue → JsValue → Except JsError JsValue) (model : Model)
    (fields : List String) : Prop where
  relation : model.content.accountRelation = .set fields
  schema : model.content.schema.fieldOf "type" = .str "object"
  accepted : validateSetFields resolve env.stringOf fields model.content.schema = .ok ()

def isTextField (resolve : JsValue → JsValue → Except JsError JsValue) (model : Model) (field : String) : Bool :=
  match fieldSchema resolve model.content.schema field >>= (·.prop "type") with
  | .ok type => type == .str "string"
  | .error _ => false

/-- The text tells the values apart: it has no bars but those between the values, or only one of
the fields holds a text. -/
def TellsApart (env : Environment) (resolve : JsValue → JsValue → Except JsError JsValue) (model : Model)
    (fields : List String) (unique : JsValue) : Prop :=
  (env.bytesToString unique).toList.count '|' + 1 = fields.length ∨
    (fields.filter (isTextField resolve model)).length ≤ 1

/-- Content that a signed commit of such a document can have. -/
structure SetContent (env : Environment) (model : Model) (fields : List String) (unique content : JsValue) : Prop where
  valid : env.ajvValidate model.content.schema content = .ok ()
  text : uniqueText env content fields = .ok (env.bytesToString unique)

theorem noText_of_declares {resolve : JsValue → JsValue → Except JsError JsValue}
    {model : Model} {field type : String} (declares : Declares resolve model.content.schema field type)
    (noText : (!isTextField resolve model field) = true) : type ≠ "string" := by
  rintro rfl
  obtain ⟨_, schema, isSchema, isType⟩ := declares
  have typed : fieldSchema resolve model.content.schema field >>= (·.prop "type") = .ok (.str "string") :=
    bind_eq_ok.mpr ⟨schema, isSchema, isType⟩
  simp [isTextField, typed] at noText

section Values

variable {env : Environment} {resolve : JsValue → JsValue → Except JsError JsValue} {model : Model}
  {fields : List String} {unique v w : JsValue}

theorem hasType_of_valid (checks : ChecksFields env.ajvValidate resolve) (isSet : SetModel env resolve model fields)
    {content : JsValue} (valid : env.ajvValidate model.content.schema content = .ok ()) {field : String}
    (member : field ∈ fields) : ∃ type ∈ SUPPORTED_FIELD_TYPES, Declares resolve model.content.schema field type ∧
      HasType type (content.fieldOf field) := by
  obtain ⟨type, supported, declares⟩ := (declares_of_valid isSet.accepted).2 field member
  exact ⟨type, supported, declares, checks _ _ _ _ valid isSet.schema declares⟩

theorem no_type_of_undefined {type : String} (supported : type ∈ SUPPORTED_FIELD_TYPES) : ¬HasType type .undefined := by
  simp only [SUPPORTED_FIELD_TYPES, List.mem_cons, List.not_mem_nil, or_false] at supported
  rcases supported with rfl | rfl | rfl | rfl <;> simp [HasType]

/-- Valid content is an object: it has the first of the fields. -/
theorem object_of_valid (checks : ChecksFields env.ajvValidate resolve) (isSet : SetModel env resolve model fields)
    {content : JsValue} (valid : env.ajvValidate model.content.schema content = .ok ()) : ∃ o, content = .obj o := by
  obtain ⟨field, member⟩ := List.exists_mem_of_ne_nil fields (declares_of_valid isSet.accepted).1
  obtain ⟨type, supported, _, hasType⟩ := hasType_of_valid checks isSet valid member
  cases content with
  | obj o => exact ⟨o, rfl⟩
  | _ => exact absurd hasType (no_type_of_undefined supported)

theorem text_eq (checks : ChecksFields env.ajvValidate resolve) (isSet : SetModel env resolve model fields)
    (content : SetContent env model fields unique v) :
    (env.bytesToString unique).toList =
      ['|'].intercalate (fields.map fun field => (uniquePart env.stringOf (v.fieldOf field)).toList) := by
  obtain ⟨o, rfl⟩ := object_of_valid checks isSet content.valid
  have joined := content.text
  rw [uniqueText_object] at joined
  rw [← Except.ok.inj joined, String.toList_intercalate, List.map_map]
  rfl

/-- A text that tells the values apart leaves only one choice of them. -/
theorem values_of_text (texts : ScalarTexts env.stringOf) (checks : ChecksFields env.ajvValidate resolve)
    (isSet : SetModel env resolve model fields) (tells : TellsApart env resolve model fields unique)
    (contentV : SetContent env model fields unique v) (contentW : SetContent env model fields unique w) :
    ∀ field ∈ fields, v.fieldOf field = w.fieldOf field := by
  have partsV := text_eq checks isSet contentV
  have partsW := text_eq checks isSet contentW
  have same := partsV.symm.trans partsW
  have sameParts : ∀ field ∈ fields, (uniquePart env.stringOf (v.fieldOf field)).toList =
      (uniquePart env.stringOf (w.fieldOf field)).toList := by
    rcases tells with least | oneText
    · -- No value brings bars of its own.
      have noBars {content : JsValue} (parts : (env.bytesToString unique).toList =
          ['|'].intercalate (fields.map fun field => (uniquePart env.stringOf (content.fieldOf field)).toList)) :
          ∀ field ∈ fields, '|' ∉ (uniquePart env.stringOf (content.fieldOf field)).toList := by
        rw [parts] at least
        intro field member
        have plain := Separated.not_mem_of_count (least.trans (List.length_map _).symm)
        exact plain _ (List.mem_map_of_mem member)
      exact Separated.intercalate_injective (fun _ => true) (by simp) (fun field member _ => noBars partsV field member)
        (fun field member _ => noBars partsW field member) same
    · have plain {content : JsValue} (valid : env.ajvValidate model.content.schema content = .ok ()) :
          ∀ field ∈ fields, (!isTextField resolve model field) = true →
            '|' ∉ (uniquePart env.stringOf (content.fieldOf field)).toList := by
        intro field member noText
        obtain ⟨type, supported, declares, hasType⟩ := hasType_of_valid checks isSet valid member
        exact uniquePart_plain texts supported (noText_of_declares declares noText) hasType
      exact Separated.intercalate_injective _ (by simpa using oneText) (plain contentV.valid) (plain contentW.valid) same
  intro field member
  obtain ⟨type, supported, declares, isV⟩ := hasType_of_valid checks isSet contentV.valid member
  have isW := checks _ _ _ _ contentW.valid isSet.schema declares
  exact uniquePart_injective texts supported isV isW (String.toList_injective (sameParts field member))

end Values

/-- What `_applyLog` goes on with, or returns, after a commit. -/
def afterCommit (env : Environment) (state : StreamState) (c : CommitData) : StreamState :=
  match applyCommit env c (some state) with
  | .applied next => next
  | .threw _ left => left.getD state

def step (env : Environment) (state : StreamState) : StreamState.Change → Option StreamState
  | .commit c => some (afterCommit env state c)
  | .anchorStatus status => some { state with anchorStatus := status }

/-- A commit that is accepted, or whose patch left the content as it was when it was refused. -/
def KeepsContent (env : Environment) (state : StreamState) : StreamState.Change → Prop
  | .commit c => (∃ next, applyCommit env c (some state) = .applied next) ∨
      StreamUtils.isAnchorCommitData c = true ∨ (∃ e, checkSigned env c state = .error e) ∨
      state.content.isNullish = true ∨ (env.applyPatch (oldContent state) c.commit.data).document = state.content
  | .anchorStatus _ => True

def hasDataCommit (state : StreamState) : Bool := state.log.toList.any fun entry => entry.type = .DATA

/-- A document of the model, as its genesis commit creates it. -/
structure Document (env : Environment) (model : Model) (genesis : CommitData) (header : StreamMetadata)
    (start : StreamState) : Prop where
  header : genesis.commit.header = some header
  created : applyCommit env genesis none = .applied start
  model : env.loadModel (JsObject.get start.metadata "model") = .ok model

/-- What holds of the states of a document. -/
structure Settled (env : Environment) (model : Model) (fields : List String) (genesis : CommitData)
    (unique : JsValue) (state : StreamState) : Prop where
  isInstance : state.type = MODEL_INSTANCE_TYPE_ID
  first : (state.log.toList.map (·.cid)).head? = some genesis.cid
  nothingPending : state.next = none
  ofModel : env.loadModel (JsObject.get state.metadata "model") = .ok model
  uniqueKept : JsObject.get state.metadata "unique" = unique
  content : hasDataCommit state = true → SetContent env model fields unique state.content

section Runs

variable {env : Environment} {model : Model} {fields : List String} {genesis c : CommitData} {unique : JsValue}
  {header : StreamMetadata} {start state next : StreamState}

theorem readMetadata_unique : Ensures (fun found => JsObject.get found.2.2 "unique" = JsObject.get header "unique")
    (readMetadata env header) :=
  .andThen fun _ _ => .andThen fun _ _ =>
    .either (.andThen fun _ _ => .returned rfl) (.andThen fun _ _ => .returned rfl)

theorem checkGenesis_unique {metadata : StreamMetadata} (given : genesis.commit.header = some header)
    (checked : checkGenesis env genesis = .ok metadata) :
    JsObject.get metadata "unique" = JsObject.get header "unique" := by
  have checks : Ensures (fun metadata => JsObject.get metadata "unique" = JsObject.get header "unique")
      (checkGenesis env genesis) := by
    refine .andThen fun read isHeader => .andThen fun found isRead => ?_
    obtain rfl := Option.some.inj (given.symm.trans (headerOf_ok isHeader))
    have kept := readMetadata_unique found isRead
    -- Whichever of the other checks are made, what they return is this metadata.
    repeat' first
      | exact .returned kept
      | exact .thrown _
      | refine .either ?_ ?_
      | refine .andThen fun _ _ => ?_
  exact checks metadata checked

theorem settled_of_created (document : Document env model genesis header start) :
    Settled env model fields genesis (JsObject.get header "unique") start := by
  obtain ⟨given, created, ofModel⟩ := document
  obtain ⟨metadata, checked, rfl⟩ := map_eq_ok.mp (outcome_of_except created)
  refine ⟨rfl, rfl, rfl, ofModel, checkGenesis_unique given checked, fun signed => ?_⟩
  cases signed

theorem hasDataCommit_anchored : hasDataCommit (anchoredState c state) = hasDataCommit state := by
  have types (log : List LogEntry) : (log.any fun entry => entry.type = .DATA) =
      ((log.map (·.type)).any fun type => type = .DATA) := by simp [List.any_map, Function.comp_def]
  unfold hasDataCommit
  rw [types, types]
  simp [anchoredState, anchorEntry, applyAnchorTimestampsToLog_map (·.type) (fun _ _ => rfl)]

theorem head?_append_cid (log : List Cid) {cid : Cid} (first : log.head? = some cid) (last : Cid) :
    (log ++ [last]).head? = some cid := by
  rw [List.head?_append, first]
  rfl

theorem settled_of_anchor (settled : Settled env model fields genesis unique state) :
    Settled env model fields genesis unique (anchoredState c state) where
  isInstance := settled.isInstance
  first := by
    simpa [anchoredState, anchorEntry, applyAnchorTimestampsToLog_map (·.cid) (fun _ _ => rfl)] using
      head?_append_cid _ settled.first c.cid
  nothingPending := rfl
  ofModel := by simpa [anchoredState, settled.nothingPending] using settled.ofModel
  uniqueKept := by simpa [anchoredState, settled.nothingPending] using settled.uniqueKept
  content := by
    rw [hasDataCommit_anchored]
    simpa [anchoredState, settled.nothingPending] using settled.content

/-- What the checks of a signed commit say about its content. -/
theorem setContent_of_valid {payload : Commit} {new : JsValue} (relation : model.content.accountRelation = .set fields)
    (ofModel : env.loadModel (JsObject.get state.metadata "model") = .ok model)
    (valid : validateSigned env payload state new = .ok ()) :
    SetContent env model fields (JsObject.get state.metadata "unique") new := by
  obtain ⟨found, isFound, valid⟩ := bind_eq_ok.mp valid
  obtain rfl := Except.ok.inj (ofModel.symm.trans isFound)
  obtain ⟨_, validContent, validUnique⟩ := bind_eq_ok.mp valid
  constructor
  case valid =>
    unfold validateContent at validContent
    rw [Bool.false_and, if_neg Bool.false_ne_true] at validContent
    obtain ⟨_, _, validContent⟩ := bind_eq_ok.mp validContent
    obtain ⟨_, validSchema, _⟩ := bind_eq_ok.mp validContent
    unfold validateSchema at validSchema
    split at validSchema
    next checked => exact checked
    next => cases validSchema
  case text =>
    unfold validateUnique at validUnique
    rw [relation] at validUnique
    dsimp only at validUnique
    obtain ⟨_, validUnique⟩ := guard_eq_ok.mp validUnique
    obtain ⟨_, validUnique⟩ := guard_eq_ok.mp validUnique
    obtain ⟨text, isText, validUnique⟩ := bind_eq_ok.mp validUnique
    split at validUnique
    · cases validUnique
    next same => exact isText.trans (congrArg Except.ok (not_not.mp same))

theorem writeShouldIndex_content (state : StreamState) (index : JsValue) :
    (writeShouldIndex state index).content = state.content := by
  unfold writeShouldIndex
  split <;> rfl

theorem settled_of_index (settled : Settled env model fields genesis unique state) (index : JsValue) :
    Settled env model fields genesis unique (writeShouldIndex state index) := by
  unfold writeShouldIndex
  split
  · exact settled
  · refine ⟨settled.isInstance, settled.first, settled.nothingPending, ?_, ?_, settled.content⟩
    · rw [JsObject.get_set_other state.metadata (by decide)]
      exact settled.ofModel
    · rw [JsObject.get_set_other state.metadata (by decide)]
      exact settled.uniqueKept

theorem settled_of_signed (settled : Settled env model fields genesis unique state)
    (relation : model.content.accountRelation = .set fields) (applied : applySigned env c state = .applied next) :
    Settled env model fields genesis unique next := by
  obtain ⟨index, new, _, _, valid, rfl⟩ := applySigned_applied.mp applied
  have indexed := settled_of_index settled index
  have content := setContent_of_valid relation indexed.ofModel valid
  refine ⟨indexed.isInstance, ?_, indexed.nothingPending, indexed.ofModel, indexed.uniqueKept,
    fun _ => indexed.uniqueKept ▸ content⟩
  rw [NonEmptyArray.toList_push, List.map_append]
  exact head?_append_cid _ settled.first _

/-- A refused commit leaves the state, or what it wrote before it was refused. -/
theorem settled_of_refused (settled : Settled env model fields genesis unique state) {e : JsError}
    {left : Option StreamState} (refused : applyCommit env c (some state) = .threw e left)
    (keeps : KeepsContent env state (.commit c)) : Settled env model fields genesis unique (left.getD state) := by
  rcases dispatch_threw refused with ⟨_, rfl⟩ | ⟨other, threw⟩
  · exact settled
  rcases applySigned_cases env c state with ⟨e', failed, eq⟩ | ⟨index, e', checked, eq⟩ |
    ⟨index, content, checked, eq⟩
  · rw [eq] at threw
    cases threw
    exact settled
  · rw [eq] at threw
    cases threw
    have indexed := settled_of_index settled index
    have sameContent : leftover env c state index = writeShouldIndex state index := by
      have nowhere : (writeShouldIndex state index).content = state.content := writeShouldIndex_content state index
      unfold leftover patchContent
      split
      · rfl
      next edited =>
        rw [nowhere] at edited
        rcases keeps with ⟨_, applied⟩ | anchor | ⟨_, failed⟩ | nullish | unchanged
        · cases refused.symm.trans applied
        · cases anchor.symm.trans other
        · cases failed.symm.trans checked
        · exact absurd nullish edited
        · rw [unchanged, ← nowhere]
    rw [Option.getD_some, sameContent]
    exact indexed
  · rw [eq] at threw
    cases threw

theorem settled_of_step {change : StreamState.Change} (relation : model.content.accountRelation = .set fields)
    (settled : Settled env model fields genesis unique state) (keeps : KeepsContent env state change)
    (stepped : step env state change = some next) : Settled env model fields genesis unique next := by
  cases change with
  | anchorStatus status =>
    obtain rfl := Option.some.inj stepped
    exact ⟨settled.isInstance, settled.first, settled.nothingPending, settled.ofModel, settled.uniqueKept,
      settled.content⟩
  | commit c =>
    obtain rfl := Option.some.inj stepped
    unfold afterCommit
    split
    next applied =>
      unfold applyCommit dispatch at applied
      dsimp only at applied
      split at applied
      · obtain ⟨_, _, rfl⟩ := applyAnchorCommit_ok.mp (outcome_of_except applied)
        exact settled_of_anchor settled
      · exact settled_of_signed settled relation applied
    next refused => exact settled_of_refused settled refused keeps

theorem Settled.streamId (settled : Settled env model fields genesis unique state) :
    StreamUtils.streamIdFromState state = ⟨MODEL_INSTANCE_TYPE_ID, genesis.cid⟩ := by
  have first := settled.first
  rw [List.head?_map, NonEmptyArray.head?_toList] at first
  have sameCid : state.log.first.cid = genesis.cid := Option.some.inj first
  rw [StreamUtils.streamIdFromState, settled.isInstance, sameCid]

theorem settled_of_reached (relation : model.content.accountRelation = .set fields)
    (document : Document env model genesis header start)
    (reached : Transition.Reaches (step env) (KeepsContent env) start state) :
    Settled env model fields genesis (JsObject.get header "unique") state :=
  reached.invariant (settled_of_created document)
    fun _ _ _ settled keeps stepped => settled_of_step relation settled keeps stepped

end Runs

/-- Documents of a SET model whose texts tell the values apart: once there was a data commit the values of
the set fields stay, and documents with other values have other metadata, other genesis commits and,
where identifiers tell commits apart, other identifiers. -/
theorem set_fields_settled {env : Environment} {resolve : JsValue → JsValue → Except JsError JsValue}
    (texts : ScalarTexts env.stringOf) (checks : ChecksFields env.ajvValidate resolve) {model : Model}
    {fields : List String} (isSet : SetModel env resolve model fields) {genesis : CommitData} {header : StreamMetadata}
    {start : StreamState} (document : Document env model genesis header start)
    (tells : TellsApart env resolve model fields (JsObject.get header "unique")) {state : StreamState}
    (reached : Transition.Reaches (step env) (KeepsContent env) start state) (signed : hasDataCommit state = true) :
    (∀ later, Transition.Reaches (step env) (KeepsContent env) state later → hasDataCommit later = true →
      ∀ field ∈ fields, later.content.fieldOf field = state.content.fieldOf field) ∧
    ∀ otherGenesis otherHeader otherStart other, Document env model otherGenesis otherHeader otherStart →
      Transition.Reaches (step env) (KeepsContent env) otherStart other → hasDataCommit other = true →
      (∃ field ∈ fields, other.content.fieldOf field ≠ state.content.fieldOf field) →
      JsObject.get otherHeader "unique" ≠ JsObject.get header "unique" ∧ otherGenesis.commit ≠ genesis.commit ∧
      ((otherGenesis.cid = genesis.cid → otherGenesis.commit = genesis.commit) →
        StreamUtils.streamIdFromState other ≠ StreamUtils.streamIdFromState state) := by
  have here := settled_of_reached isSet.relation document reached
  constructor
  case left =>
    intro later behind signedLater
    have there := settled_of_reached isSet.relation document (reached.trans behind)
    exact values_of_text texts checks isSet tells (there.content signedLater) (here.content signed)
  case right =>
    rintro otherGenesis otherHeader otherStart other otherDocument otherReached otherSigned ⟨field, member, differs⟩
    have there := settled_of_reached isSet.relation otherDocument otherReached
    have otherUnique : JsObject.get otherHeader "unique" ≠ JsObject.get header "unique" := by
      intro same
      have content := there.content otherSigned
      rw [same] at content
      exact differs (values_of_text texts checks isSet tells content (here.content signed) field member)
    have otherCommit : otherGenesis.commit ≠ genesis.commit := by
      intro same
      have sameHeader := otherDocument.header.symm.trans ((congrArg Commit.header same).trans document.header)
      exact otherUnique (by rw [Option.some.inj sameHeader])
    refine ⟨otherUnique, otherCommit, fun addressed sameId => otherCommit (addressed ?_)⟩
    rw [here.streamId, there.streamId] at sameId
    exact congrArg StreamID.cid sameId

namespace SetFixture

/-- Numbers are written with as many letters as they count. -/
def stringOf : JsValue → String
  | .str s => s
  | .bool b => if b then "true" else "false"
  | .num n => String.ofList ((if n.num < 0 then '-' else '+') ::
      (List.replicate n.num.natAbs 'a' ++ List.replicate n.den 'b'))
  | _ => ""

theorem stringOf_num_injective {m n : Rat} (same : stringOf (.num m) = stringOf (.num n)) : m = n := by
  have lists := congrArg String.toList same
  simp only [stringOf, String.toList_ofList, List.cons.injEq] at lists
  obtain ⟨sign, letters⟩ := lists
  have magnitude : m.num.natAbs = n.num.natAbs := by
    simpa [List.count_replicate] using congrArg (List.count 'a') letters
  have denominator : m.den = n.den := by
    simpa [List.count_replicate] using congrArg (List.count 'b') letters
  have numerator : m.num = n.num := by
    split at sign <;> split at sign
    all_goals first
      | omega
      | exact absurd sign (by decide)
  exact Rat.ext numerator denominator

theorem texts : ScalarTexts stringOf where
  text := fun s _ => rfl
  true := rfl
  number_ne := by simp [stringOf]
  number_plain := by
    intro n _
    simp only [stringOf, String.toList_ofList]
    split <;> simp
  number_injective := fun m n _ _ => stringOf_num_injective

def hasType : String → JsValue → Bool
  | "boolean", .bool _ => true
  | "integer", .num n => n.isInt
  | "number", .num _ => true
  | "string", .str _ => true
  | type, _ => !SUPPORTED_FIELD_TYPES.contains type

theorem hasType_sound {type : String} {value : JsValue} (has : hasType type value = true) : HasType type value := by
  unfold hasType at has
  split at has
  · exact ⟨_, rfl⟩
  · exact ⟨_, rfl, has⟩
  · exact ⟨_, rfl⟩
  · exact ⟨_, rfl⟩
  · unfold HasType
    split
    all_goals first
      | exact trivial
      | exact absurd has (by decide)

/-- A schema without references. -/
def resolve : JsValue → JsValue → Except JsError JsValue := fun _ _ => .error ⟨""⟩

def fieldIsValid (schema content field : JsValue) : Bool :=
  match field with
  | .str field => match fieldSchema resolve schema field >>= (·.prop "type") with
    | .ok (.str type) => hasType type (content.fieldOf field)
    | _ => true
  | _ => true

/-- The required fields of a schema of objects have the types it gives them. -/
def ajvValidate (schema content : JsValue) : Except String Unit :=
  if (requiredFields schema).all (fieldIsValid schema content) then .ok () else .error "data must have the required type"

theorem checks : ChecksFields ajvValidate resolve := by
  rintro schema content field type valid - ⟨required, fieldSchema, isSchema, isType⟩
  have passed : (requiredFields schema).all (fieldIsValid schema content) = true := by
    unfold ajvValidate at valid
    split at valid
    next passed => exact passed
    next => cases valid
  have here := List.all_eq_true.mp passed (.str field) (List.contains_iff_mem.mp required)
  have typed : AccountRelations.fieldSchema resolve schema field >>= (·.prop "type") = .ok (.str type) :=
    bind_eq_ok.mpr ⟨fieldSchema, isSchema, isType⟩
  unfold fieldIsValid at here
  simp only [typed] at here
  exact hasType_sound here

def textSchema : JsValue := .obj [("type", .str "string")]

/-- A model whose documents are told apart by two texts. -/
def favourites : Model :=
  ⟨⟨MODEL_TYPE_ID, ⟨[5]⟩⟩, ⟨MODEL_TYPE_ID, ⟨[5]⟩, none⟩,
    { version := "2.0", name := "Favourite", accountRelation := .set ["kind", "name"]
      schema := .obj [("type", .str "object"), ("properties", .obj [("kind", textSchema), ("name", textSchema)]),
        ("required", .arr [.str "kind", .str "name"])] }⟩

/-- Bytes of plain letters. -/
def bytesToString : JsValue → String
  | .bytes b => String.ofList (b.map fun byte => Char.ofNat byte.toNat)
  | _ => ""

def node : Environment :=
  { Environment.permissive with
    stringOf, ajvValidate, bytesToString, applyPatch := ImmutableFixture.applyPatch
    streamIDFromBytes := fun _ => .ok favourites.id, loadModel := fun _ => .ok favourites }

theorem favourites_set : SetModel node resolve favourites ["kind", "name"] := ⟨rfl, rfl, rfl⟩

/-- A header whose unique bytes are the letters of a text. -/
def headerOf (unique : List UInt8) : StreamMetadata :=
  [("controllers", .arr [.str "did:key:z6Mk"]), ("model", .bytes [5]), ("unique", .bytes unique)]

def genesisOf (unique : List UInt8) : CommitData :=
  { cid := ⟨[1]⟩, type := .INIT, commit := { header := some (headerOf unique), data := .null } }

def startOf (unique : List UInt8) : StreamState :=
  genesisState node (genesisOf unique) [("controllers", .arr [.str "did:key:z6Mk"]),
    ("model", .streamID favourites.id), ("unique", .bytes unique)]

theorem document (unique : List UInt8) :
    Document node favourites (genesisOf unique) (headerOf unique) (startOf unique) := ⟨rfl, rfl, rfl⟩

/-- A signed commit that gives the document new content. -/
def contentUpdate (prev next : UInt8) (kind name : String) : StreamState.Change :=
  .commit
    { cid := ⟨[next]⟩, type := .DATA, envelope := some ⟨⟨[next]⟩, "", ""⟩
      commit :=
        { prev := some ⟨[prev]⟩, id := some ⟨[1]⟩
          data := .arr [.obj [("op", .str "replace"), ("path", .str ""),
            ("value", .obj [("kind", .str kind), ("name", .str name)])]] } }

/-- The document after its first data commit. -/
def firstUpdated (unique : List UInt8) (kind name : String) : StreamState :=
  ((step node (startOf unique) (contentUpdate 1 2 kind name)).getD (startOf unique))

end SetFixture

open SetFixture

theorem favourite_settled : ∃ state later,
    Transition.Reaches (step node) (KeepsContent node) (startOf [97, 124, 99]) state ∧
    Transition.Reaches (step node) (KeepsContent node) state later ∧
    later.content.fieldOf "kind" = state.content.fieldOf "kind" := by
  have reached : Transition.Reaches (step node) (KeepsContent node) (startOf [97, 124, 99])
      (firstUpdated [97, 124, 99] "a" "c") :=
    .next (a := contentUpdate 1 2 "a" "c") .start (.inl ⟨_, rfl⟩) rfl
  have again : Transition.Reaches (step node) (KeepsContent node) (firstUpdated [97, 124, 99] "a" "c") _ :=
    .next (a := contentUpdate 2 3 "a" "c") .start (.inl ⟨_, rfl⟩) rfl
  have tells : TellsApart node resolve favourites ["kind", "name"] (.bytes [97, 124, 99]) := .inl rfl
  have settled := set_fields_settled texts checks favourites_set (document [97, 124, 99]) tells reached rfl
  exact ⟨_, _, reached, again, settled.1 _ again rfl "kind" List.mem_cons_self⟩

/-- A bar in a value can stand for the one between two values. -/
theorem set_fields_not_settled : ¬∀ (env : Environment) (resolve : JsValue → JsValue → Except JsError JsValue)
    (model : Model) (fields : List String), ScalarTexts env.stringOf → ChecksFields env.ajvValidate resolve →
    SetModel env resolve model fields → ∀ (genesis : CommitData) (header : StreamMetadata) (start state later : StreamState),
    Document env model genesis header start → Transition.Reaches (step env) (KeepsContent env) start state →
    hasDataCommit state = true → Transition.Reaches (step env) (KeepsContent env) state later →
    ∀ field ∈ fields, later.content.fieldOf field = state.content.fieldOf field := by
  intro settled
  have reached : Transition.Reaches (step node) (KeepsContent node) (startOf [97, 124, 98, 124, 99])
      (firstUpdated [97, 124, 98, 124, 99] "a|b" "c") :=
    .next (a := contentUpdate 1 2 "a|b" "c") .start (.inl ⟨_, rfl⟩) rfl
  have changed : Transition.Reaches (step node) (KeepsContent node)
      (firstUpdated [97, 124, 98, 124, 99] "a|b" "c") _ :=
    .next (a := contentUpdate 2 3 "a" "b|c") .start (.inl ⟨_, rfl⟩) rfl
  have same := settled node resolve favourites ["kind", "name"] texts checks favourites_set _ _ _ _ _
    (document [97, 124, 98, 124, 99]) reached rfl changed "kind" List.mem_cons_self
  exact absurd (JsValue.str.inj same) (by decide)

end ModelInstanceDocumentHandler

end Ceramic
