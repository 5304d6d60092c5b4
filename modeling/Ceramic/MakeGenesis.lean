import Ceramic.CommitSerialization

/-! The genesis commits the stream types make, and which of the unsigned ones survive being sent. -/
namespace Ceramic

/-- What a signer makes of a payload: the envelope, the payload's block and that of a capability. -/
structure DagJWSResult where
  jws : JwsEnvelope
  linkedBlock : List UInt8
  cacaoBlock : Option (List UInt8)

structure CeramicSigner where
  asController : String
  createDagJWS : JsObject → DagJWSResult

def CeramicSigner.sign (signer : CeramicSigner) (payload : JsObject) : StreamCommit :=
  let result := signer.createDagJWS payload
  .container result.jws result.linkedBlock result.cacaoBlock

open StreamCommit

namespace TileDocument

structure TileMetadataArgs where
  controllers : Option (List String) := none
  family : Option String := none
  tags : Option (List String) := none
  schema : Option (CommitID ⊕ String) := none
  deterministic : Option Bool := none
  forbidControllerChange : Option Bool := none

def stringArray (items : List String) : JsValue := .arr (items.map .str)

/-- `metadata?.schema?.toString()`; a text has to be that of a commit. -/
def schemaText : Option (CommitID ⊕ String) → Except JsError JsValue
  | none => .ok .undefined
  | some (.inl id) => id.toText.map .str
  | some (.inr text) => match CommitID.fromString (fun text => (Cid.parse text).toOption) text with
    | .ok _ => .ok (.str text)
    | .error _ => .error ⟨"Schema must be a CommitID"⟩

/-- The properties that can only be set on a genesis; `random` are the twelve bytes drawn for it. -/
def genesisFields (random : List UInt8) (metadata : TileMetadataArgs) : Bool → Except JsError JsObject
  | true => .ok [("unique", if metadata.deterministic = some true then .undefined else .str (base64Encode random)),
      ("forbidControllerChange", if metadata.forbidControllerChange = some true then .bool true else .undefined)]
  | false =>
    if metadata.deterministic.isSome then
      .error ⟨"Cannot change 'deterministic' or 'unique' properties on existing Streams"⟩
    else if metadata.forbidControllerChange.isSome then
      .error ⟨"Cannot change 'forbidControllerChange' property on existing Streams"⟩
    else .ok []

def headerFromMetadata (random : List UInt8) (metadata : TileMetadataArgs) (genesis : Bool) :
    Except JsError JsObject := do
  let schema ← schemaText metadata.schema
  let fields ← genesisFields random metadata genesis
  let header := [("controllers", property metadata.controllers stringArray),
    ("family", property metadata.family .str), ("schema", schema),
    ("tags", property metadata.tags stringArray)] ++ fields
  return header.filter fun field => field.2 != .undefined

/-- The controllers given, by default that of the signer. -/
def controllersOf (signer : CeramicSigner) (metadata : TileMetadataArgs) : List String :=
  match metadata.controllers with
  | none | some [] => [signer.asController]
  | some controllers => controllers

def makeGenesis (signer : CeramicSigner) (random : List UInt8) (content : JsValue) (metadata : TileMetadataArgs) :
    Except JsError StreamCommit := do
  let controllers := controllersOf signer metadata
  if controllers.length ≠ 1 then throw ⟨"Exactly one controller must be specified"⟩
  let header ← headerFromMetadata random { metadata with controllers := some controllers } true
  if metadata.deterministic = some true && content.truthy then
    throw ⟨"Initial content must be null when creating a deterministic Tile document"⟩
  if content.isNullish then return .plain .undefined (some header) none none
  return signer.sign [("data", content), ("header", .obj header)]

theorem stringArray_isJson (items : List String) : (stringArray items).isJson = true := by
  unfold stringArray JsValue.isJson
  induction items with
  | nil => rfl
  | cons item items ih => simp [JsValue.itemsAreJson, JsValue.isJson, ih]

theorem schemaText_isJson {schema : Option (CommitID ⊕ String)} {text : JsValue}
    (succeeded : schemaText schema = .ok text) : text.isJson = true := by
  unfold schemaText at succeeded
  split at succeeded
  · obtain rfl := Except.ok.inj succeeded
    rfl
  · obtain ⟨_, _, rfl⟩ := map_eq_ok.mp succeeded
    rfl
  · split at succeeded
    · obtain rfl := Except.ok.inj succeeded
      rfl
    · cases succeeded

theorem property_isJson {α : Type} (value : Option α) {make : α → JsValue} (json : ∀ a, (make a).isJson = true) :
    (property value make).isJson = true := by
  cases value with
  | none => rfl
  | some a => exact json a

theorem header_names_nodup {random : List UInt8} {metadata : TileMetadataArgs} {header : JsObject}
    (made : headerFromMetadata random metadata true = .ok header) : (JsObject.names header).Nodup := by
  obtain ⟨schema, _, made⟩ := bind_eq_ok.mp made
  obtain ⟨fields, fieldsMade, made⟩ := bind_eq_ok.mp made
  obtain rfl := Except.ok.inj fieldsMade
  obtain rfl := Except.ok.inj made
  refine List.Nodup.sublist (List.filter_sublist.map Prod.fst) ?_
  simp

/-- A header survives unless a random identity was drawn for it: that is a text, and would be encoded
as if it were bytes. -/
theorem header_survives_iff {random : List UInt8} (drawn : random ≠ []) {metadata : TileMetadataArgs}
    {header : JsObject} (made : headerFromMetadata random metadata true = .ok header) :
    header.all StreamUtils.headerFieldSurvives = true ↔ metadata.deterministic = some true := by
  obtain ⟨schema, schemaMade, made⟩ := bind_eq_ok.mp made
  obtain ⟨fields, fieldsMade, made⟩ := bind_eq_ok.mp made
  obtain rfl := Except.ok.inj fieldsMade
  obtain rfl := Except.ok.inj made
  have text : base64Encode random ≠ "" := fun empty => drawn (base64Encode_eq_empty.mp empty)
  have controllers := property_isJson metadata.controllers stringArray_isJson
  have tags := property_isJson metadata.tags stringArray_isJson
  have family := property_isJson metadata.family fun text => (rfl : (JsValue.str text).isJson = true)
  have schemaJson := schemaText_isJson schemaMade
  rw [List.all_filter]
  by_cases deterministic : metadata.deterministic = some true <;>
    by_cases forbidden : metadata.forbidControllerChange = some true <;>
    simp [StreamUtils.headerFieldSurvives, StreamUtils.HEADER_BYTES, StreamUtils.byteFieldSurvives, JsValue.truthy,
      controllers, tags, family, schemaJson, deterministic, forbidden, text, JsValue.isJson]

/-- An unsigned genesis comes back exactly if it is deterministic. -/
theorem makeGenesis_roundTrips_iff (stringOf : JsValue → String) {signer : CeramicSigner} {random : List UInt8}
    (drawn : random ≠ []) {content data : JsValue} {metadata : TileMetadataArgs} {header : Option JsObject}
    {prev id : Option Cid} (made : makeGenesis signer random content metadata = .ok (.plain data header prev id)) :
    (StreamCommit.plain data header prev id).RoundTrips stringOf ↔ metadata.deterministic = some true := by
  unfold makeGenesis at made
  dsimp only at made
  split at made
  · cases made
  obtain ⟨given, headerMade, made⟩ := bind_eq_ok.mp made
  split at made
  · cases made
  split at made
  · cases made
    have wellFormed : (StreamCommit.plain .undefined (some given) none none).WellFormed := by
      refine ⟨?_, by simp⟩
      rintro h isHeader
      obtain rfl := Option.some.inj isHeader
      exact header_names_nodup headerMade
    rw [plain_roundTrips_iff wellFormed, ← header_survives_iff drawn headerMade]
    simp [survives, JsValue.isJson]
  · cases made

namespace GenesisFixture

def signer : CeramicSigner := ⟨"did:key:z6Mk", fun _ => ⟨⟨"", [], ⟨[]⟩⟩, [], none⟩⟩

def random : List UInt8 := [0, 1, 2, 3, 4, 5, 6, 7, 8, 9, 10, 11]

def tileGenesis : StreamCommit :=
  .plain .undefined (some [("controllers", .arr [.str "did:key:z6Mk"]), ("unique", .str "AAECAwQFBgcICQoL")]) none none

end GenesisFixture

open GenesisFixture

/-- The genesis of a document without content cannot even be serialized. -/
theorem tile_genesis_not_sent : makeGenesis signer random .null {} = .ok tileGenesis ∧
    StreamUtils.serializeCommit (fun _ => "") tileGenesis.toObject = .error ⟨"Unknown type, must be binary type"⟩ ∧
    ¬tileGenesis.RoundTrips (fun _ => "") := by
  have refused : StreamUtils.serializeCommit (fun _ => "") tileGenesis.toObject =
      .error ⟨"Unknown type, must be binary type"⟩ := rfl
  refine ⟨rfl, refused, ?_⟩
  rintro ⟨serialized, _, succeeded, _⟩
  cases refused.symm.trans succeeded

end TileDocument

namespace Caip10Link

structure AccountId where
  address : String
  nameSpace : String
  reference : String

def makeGenesis (toLowerCase : String → String) (accountId : AccountId) : StreamCommit :=
  let address := if accountId.nameSpace = "eip155" then toLowerCase accountId.address else accountId.address
  let chainId := accountId.nameSpace ++ ":" ++ accountId.reference
  .plain .undefined (some [("controllers", .arr [.str (address ++ "@" ++ chainId)]),
    ("family", .str ("caip10-" ++ chainId))]) none none

theorem makeGenesis_survives (toLowerCase : String → String) (accountId : AccountId) :
    (makeGenesis toLowerCase accountId).survives = true := by
  simp [makeGenesis, survives, StreamUtils.headerFieldSurvives, StreamUtils.HEADER_BYTES, JsValue.isJson,
    JsValue.itemsAreJson]

end Caip10Link

namespace ModelInstanceDocument

structure ModelInstanceDocumentMetadataArgs where
  controller : Option String := none
  model : Option StreamID
  context : Option StreamID := none
  deterministic : Bool := false

def streamIDBytes (id : StreamID) : Except JsError JsValue := do
  return .bytes (← id.encode)

/-- The bytes of a document's identity: given ones for a deterministic document, random ones otherwise. -/
def uniqueField (random : List UInt8) (deterministic : Bool) (unique : Option (List String)) : JsValue :=
  if deterministic then property unique fun values => .bytes ("|".intercalate values).toUTF8.data.toList
  else .bytes random

/-- `validateContentLength` is left to the handler that applies the commit. -/
def makeRawGenesis (signer : CeramicSigner) (random : List UInt8) (metadata : ModelInstanceDocumentMetadataArgs)
    (unique : Option (List String)) : Except JsError JsObject := do
  match metadata.model with
  | none => throw ⟨"Must specify a 'model' when creating a ModelInstanceDocument"⟩
  | some model =>
    let header := [("controllers", .arr [.str (metadata.controller.getD signer.asController)]),
      ("model", ← streamIDBytes model), ("sep", .str "model"),
      ("unique", uniqueField random metadata.deterministic unique)]
    match metadata.context with
    | none => return header
    | some context => return header ++ [("context", ← streamIDBytes context)]

def makeGenesis (signer : CeramicSigner) (random : List UInt8) (content : JsValue)
    (metadata : ModelInstanceDocumentMetadataArgs) (unique : Option (List String)) :
    Except JsError StreamCommit := do
  let header ← makeRawGenesis signer random metadata unique
  if metadata.deterministic then return .plain content (some header) none none
  return signer.sign [("data", content), ("header", .obj header)]

theorem utf8_eq_nil (s : String) : s.toUTF8.data.toList = [] ↔ s = "" := by
  constructor
  · intro empty
    have size : s.utf8ByteSize = 0 := by simpa using congrArg List.length empty
    simpa using size
  · rintro rfl
    rfl

/-- An identifier that is encoded is not empty. -/
theorem streamIDBytes_survives {id : StreamID} {value : JsValue} (encoded : streamIDBytes id = .ok value) :
    StreamUtils.byteFieldSurvives value = true := by
  obtain ⟨bytes, encoded, made⟩ := bind_eq_ok.mp encoded
  obtain ⟨_, _, same⟩ := bind_eq_ok.mp encoded
  obtain rfl := Except.ok.inj made
  obtain rfl := Except.ok.inj same
  have front : varintEncode STREAMID_CODEC = [0xCE, 0x01] := by decide
  simp [StreamUtils.byteFieldSurvives, StreamID.bytes, front]

/-- The header of a document survives unless it was given no text for its identity. -/
theorem header_survives_iff {signer : CeramicSigner} {random : List UInt8}
    {metadata : ModelInstanceDocumentMetadataArgs} (deterministic : metadata.deterministic = true)
    {unique : Option (List String)} {header : JsObject}
    (made : makeRawGenesis signer random metadata unique = .ok header) :
    header.all StreamUtils.headerFieldSurvives = true ↔ ∀ values ∈ unique, "|".intercalate values ≠ "" := by
  unfold makeRawGenesis at made
  cases given : metadata.model with
  | none =>
    rw [given] at made
    cases made
  | some model =>
    rw [given] at made
    obtain ⟨modelBytes, encoded, made⟩ := bind_eq_ok.mp made
    have modelSurvives := streamIDBytes_survives encoded
    have identity : StreamUtils.byteFieldSurvives (uniqueField random metadata.deterministic unique) = true ↔
        ∀ values ∈ unique, "|".intercalate values ≠ "" := by
      rw [deterministic]
      cases unique with
      | none => simp [uniqueField, property, StreamUtils.byteFieldSurvives, JsValue.truthy]
      | some values =>
        have empty := utf8_eq_nil ("|".intercalate values)
        rw [uniqueField, if_pos rfl, property, StreamUtils.byteFieldSurvives, bne_iff_ne, ne_eq, empty]
        simp
    have others : StreamUtils.headerFieldSurvives
          ("controllers", .arr [.str (metadata.controller.getD signer.asController)]) = true ∧
        StreamUtils.headerFieldSurvives ("sep", .str "model") = true := by
      simp [StreamUtils.headerFieldSurvives, StreamUtils.HEADER_BYTES, JsValue.isJson, JsValue.itemsAreJson]
    have special (key : String) (value : JsValue) (isSpecial : key ∈ StreamUtils.HEADER_BYTES) :
        StreamUtils.headerFieldSurvives (key, value) = StreamUtils.byteFieldSurvives value := if_pos isSpecial
    dsimp only at made
    split at made
    · obtain rfl := Except.ok.inj made
      simp only [List.all_cons, List.all_nil, others, special "model" _ (by decide), special "unique" _ (by decide),
        modelSurvives, Bool.true_and, Bool.and_true]
      exact identity
    · obtain ⟨contextBytes, contextEncoded, made⟩ := bind_eq_ok.mp made
      have contextSurvives := streamIDBytes_survives contextEncoded
      obtain rfl := Except.ok.inj made
      simp only [List.cons_append, List.nil_append, List.all_cons, List.all_nil, others,
        special "model" _ (by decide), special "unique" _ (by decide), special "context" _ (by decide),
        modelSurvives, contextSurvives, Bool.true_and, Bool.and_true]
      exact identity

/-- An unsigned genesis comes back unless the text for its identity is empty. -/
theorem makeGenesis_survives_iff {signer : CeramicSigner} {random : List UInt8} {content data : JsValue}
    (json : content.isJson = true) {metadata : ModelInstanceDocumentMetadataArgs} {unique : Option (List String)}
    {header : Option JsObject} {prev id : Option Cid}
    (made : makeGenesis signer random content metadata unique = .ok (.plain data header prev id)) :
    (StreamCommit.plain data header prev id).survives = true ↔ ∀ values ∈ unique, "|".intercalate values ≠ "" := by
  obtain ⟨given, headerMade, made⟩ := bind_eq_ok.mp made
  split at made
  next deterministic =>
    cases made
    rw [← header_survives_iff deterministic headerMade]
    simp [survives, json]
  next => cases made

end ModelInstanceDocument

end Ceramic
