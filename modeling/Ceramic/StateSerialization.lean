import Ceramic.CommitSerialization
import Ceramic.StateManipulator

/-! Stream states as they are stored: identifiers as text, names for types and for the status of an
anchor request. What is pending of a state is stored as it is. -/
namespace Ceramic

namespace StreamType

def registry : List (String × Nat) :=
  [("tile", 0), ("caip10-link", 1), ("model", 2), ("MID", 3), ("UNLOADABLE", 4)]

def codeByName (name : String) : Except JsError Nat :=
  match registry.find? (·.1 == name) with
  | some pair => .ok pair.2
  | none => .error ⟨"No stream type registered for name " ++ name⟩

def nameByCode (index : Nat) : Except JsError String :=
  match registry.find? (·.2 == index) with
  | some pair => .ok pair.1
  | none => .error ⟨"No stream type registered for index " ++ toString index⟩

/-- A name that was found is that of the type. -/
theorem codeByName_nameByCode {index : Nat} {name : String} (found : nameByCode index = .ok name) :
    codeByName name = .ok index ∧ name ≠ "" := by
  unfold nameByCode at found
  split at found
  next pair isPair =>
    obtain rfl := Except.ok.inj found
    have member := List.mem_of_find?_eq_some isPair
    have same : pair.2 = index := by simpa using List.find?_some isPair
    subst same
    simp only [registry, List.mem_cons, List.not_mem_nil, or_false] at member
    rcases member with rfl | rfl | rfl | rfl | rfl <;> exact ⟨rfl, by decide⟩
  next => cases found

end StreamType

namespace AnchorStatus

/-- The numbers of the enumeration. -/
def number : AnchorStatus → Nat
  | .NOT_REQUESTED => 0
  | .PENDING => 1
  | .PROCESSING => 2
  | .ANCHORED => 3
  | .FAILED => 4
  | .REPLACED => 5

def name : AnchorStatus → String
  | .NOT_REQUESTED => "NOT_REQUESTED"
  | .PENDING => "PENDING"
  | .PROCESSING => "PROCESSING"
  | .ANCHORED => "ANCHORED"
  | .FAILED => "FAILED"
  | .REPLACED => "REPLACED"

def all : List AnchorStatus := [.NOT_REQUESTED, .PENDING, .PROCESSING, .ANCHORED, .FAILED, .REPLACED]

/-- `AnchorStatus[value]`. -/
def lookup : JsValue → JsValue
  | .str text => match all.find? (·.name == text) with
    | some status => .num status.number
    | none => .undefined
  | .num n => match all.find? (fun status => (status.number : Rat) == n) with
    | some status => .str status.name
    | none => .undefined
  | _ => .undefined

theorem lookup_name (status : AnchorStatus) : lookup (.str status.name) = .num status.number := by
  cases status <;> rfl

theorem name_ne_empty (status : AnchorStatus) : status.name ≠ "" := by
  cases status <;> decide

end AnchorStatus

def SignatureStatus.number : SignatureStatus → Nat
  | .GENESIS => 0
  | .PARTIAL => 1
  | .SIGNED => 2

def EventType.number : EventType → Nat
  | .INIT => 0
  | .DATA => 1
  | .TIME => 2

def Timestamp.value : Timestamp → JsValue
  | .undefined => .undefined
  | .null => .null
  | .seconds n => .num n

open StreamCommit (property)

namespace LogEntry

/-- A log entry with its CID in some form. -/
def fields (entry : LogEntry) (cid : JsValue) : JsObject :=
  [("cid", cid), ("type", .num entry.type.number), ("timestamp", entry.timestamp.value),
    ("expirationTime", property entry.expirationTime fun t => .num t)]

def value (entry : LogEntry) : JsValue := .obj (entry.fields (.cid entry.cid))

/-- The entry as it is stored. -/
def stored (entry : LogEntry) : JsValue := .obj (entry.fields (.str entry.cid.toString))

end LogEntry

namespace AnchorProof

/-- A proof with its CIDs in some form. -/
def fields (proof : AnchorProof) (txHash root : JsValue) : JsObject :=
  [("chainId", .str proof.chainId), ("txHash", txHash), ("root", root),
    ("txType", property proof.txType .str)]

def value (proof : AnchorProof) : JsValue := .obj (proof.fields (.cid proof.txHash) (.cid proof.root))

/-- The proof as it is stored. -/
def stored (proof : AnchorProof) : JsValue :=
  .obj (proof.fields (.str proof.txHash.toString) (.str proof.root.toString))

end AnchorProof

def StreamNext.value (next : StreamNext) : JsValue :=
  .obj [("content", next.content.getD .undefined), ("metadata", property next.metadata .obj)]

def StreamState.toObject (state : StreamState) : JsObject :=
  [("type", .num state.type), ("content", state.content), ("next", property state.next StreamNext.value),
    ("metadata", .obj state.metadata), ("signature", .num state.signature.number),
    ("anchorStatus", .num state.anchorStatus.number),
    ("anchorProof", property state.anchorProof AnchorProof.value),
    ("log", .arr (state.log.toList.map LogEntry.value))]

namespace StreamUtils

open JsObject JsValue

section

variable (stringOf : JsValue → String) (elementsOf : JsValue → List UInt8)

/-- `Uint8Array.from(value)`; `elementsOf` are the elements of values other than byte arrays. -/
def uint8ArrayFrom : JsValue → List UInt8
  | .bytes b => b
  | value => elementsOf value

def arrayToBase64 (value : JsValue) : Except JsError JsValue :=
  .ok (.str (base64Encode (uint8ArrayFrom elementsOf value)))

/-- The text a value is taken for. -/
def textOf : JsValue → String
  | .str s => s
  | value => stringOf value

def valueToStreamID (value : JsValue) : Except JsError JsValue :=
  (StreamID.fromString (fun text => (Cid.parse text).toOption) (textOf stringOf value)).map .streamID

/-- The properties of metadata that are identifiers of streams. -/
def METADATA_STREAMS : List String := ["model", "context"]

/-- The metadata of a state, converted: the two identifiers, and the bytes of `unique` unless it is
that of a tile. -/
def convertMetadata (ofStreamID ofUnique : JsValue → Except JsError JsValue) (isTile : Bool)
    (metadata : JsObject) : Except JsError JsObject := do
  let metadata ← METADATA_STREAMS.foldlM (fun metadata key => convertField ofStreamID metadata key) metadata
  if isTile then return metadata else convertField ofUnique metadata "unique"

def serializeMetadata : Bool → JsObject → Except JsError JsObject :=
  convertMetadata (valueToString stringOf) (arrayToBase64 elementsOf)

def deserializeMetadata : Bool → JsObject → Except JsError JsObject :=
  convertMetadata (valueToStreamID stringOf) (fromBase64 stringOf)

/-- The clone of a state, with its fields replaced one after the other. -/
def serializeState (state : StreamState) : Except JsError JsObject := do
  let metadata ← serializeMetadata stringOf elementsOf (state.type == TILE_TYPE_ID) state.metadata
  let doctype ← StreamType.nameByCode state.type
  return [("type", .num state.type), ("content", state.content), ("next", property state.next StreamNext.value),
    ("metadata", .obj metadata), ("signature", .num state.signature.number),
    ("anchorStatus", .str state.anchorStatus.name),
    ("anchorProof", property state.anchorProof AnchorProof.stored),
    ("log", .arr (state.log.toList.map LogEntry.stored)),
    ("doctype", .str doctype)]

def deserializeEntry : JsValue → Except JsError JsValue
  | .obj entry => do return .obj (set entry "cid" (.cid (← toCID (get entry "cid"))))
  | _ => .error ⟨"Cannot read properties of undefined (reading 'cid')"⟩

def deserializeProof : JsValue → Except JsError JsValue
  | .obj proof => do
    let proof ← setField valueToCID proof "txHash"
    return .obj (← setField valueToCID proof "root")
  | _ => .error ⟨"undefined cannot be converted to a CID"⟩

/-- The type is read from its name, if there is one. -/
def readDoctype (state : JsObject) : Except JsError JsObject :=
  match get state "doctype" with
  | .str doctype =>
    if doctype = "" then .ok state
    else do return delete (set state "type" (.num (← StreamType.codeByName doctype))) "doctype"
  | value => if value.truthy then .error ⟨"No stream type registered for name " ++ stringOf value⟩ else .ok state

def readLog (state : JsObject) : Except JsError JsObject :=
  match get state "log" with
  | .arr entries => do return set state "log" (.arr (← entries.mapM deserializeEntry))
  | _ => .error ⟨"cloned.log.map is not a function"⟩

def readMetadata (isTile : Bool) (state : JsObject) : Except JsError JsObject :=
  match get state "metadata" with
  | .obj metadata => do return set state "metadata" (.obj (← deserializeMetadata stringOf isTile metadata))
  | _ => .ok state

def deserializeState (state : JsObject) : Except JsError JsObject := do
  let cloned ← readDoctype stringOf state
  let cloned ← readLog cloned
  let cloned ← convertField deserializeProof cloned "anchorProof"
  let cloned ← convertField (fun status => .ok (AnchorStatus.lookup status)) cloned "anchorStatus"
  readMetadata stringOf (get state "type" == .num TILE_TYPE_ID) cloned

end

/-- What a conversion makes of a property of the metadata. -/
def metadataChange (ofStreamID ofUnique : JsValue → Except JsError JsValue) (isTile : Bool) (key : String)
    (value : JsValue) : JsValue :=
  if key ∈ METADATA_STREAMS then converted ofStreamID value
  else if key = "unique" ∧ isTile = false then converted ofUnique value else value

section

variable {ofStreamID ofUnique : JsValue → Except JsError JsValue} {isTile : Bool} {metadata result : JsObject}

theorem convertField_iff {key : String} (distinct : (names metadata).Nodup) :
    convertField ofUnique metadata key = .ok result ↔
      ((get metadata key).truthy = true → ∃ value, ofUnique (get metadata key) = .ok value) ∧
      result = edit [key] (converted ofUnique) metadata := by
  have single : [key].foldlM (fun o key => convertField ofUnique o key) metadata = convertField ofUnique metadata key := by
    simp
  rw [← single, convertFields_iff (by simp) distinct]
  simp

/-- Metadata is converted exactly if each of its special properties is. -/
theorem convertMetadata_iff (distinct : (names metadata).Nodup) :
    convertMetadata ofStreamID ofUnique isTile metadata = .ok result ↔
      (∀ key ∈ METADATA_STREAMS, (get metadata key).truthy = true →
        ∃ value, ofStreamID (get metadata key) = .ok value) ∧
      (isTile = false → (get metadata "unique").truthy = true →
        ∃ value, ofUnique (get metadata "unique") = .ok value) ∧
      result = metadata.map fun field => (field.1, metadataChange ofStreamID ofUnique isTile field.1 field.2) := by
  have streams (r : JsObject) := @convertFields_iff ofStreamID METADATA_STREAMS (by decide) metadata r distinct
  unfold convertMetadata
  rw [bind_eq_ok]
  cases isTile with
  | true =>
    have whole : edit METADATA_STREAMS (converted ofStreamID) metadata =
        metadata.map fun field => (field.1, metadataChange ofStreamID ofUnique true field.1 field.2) := by
      unfold edit metadataChange
      apply List.map_congr_left
      intro field _
      split <;> simp
    rw [← whole]
    constructor
    · rintro ⟨middle, first, same⟩
      obtain rfl := Except.ok.inj same
      obtain ⟨converts, rfl⟩ := (streams _).mp first
      exact ⟨converts, fun other => (nomatch other), rfl⟩
    · rintro ⟨converts, _, rfl⟩
      exact ⟨_, (streams _).mpr ⟨converts, rfl⟩, rfl⟩
  | false =>
    have whole : edit ["unique"] (converted ofUnique) (edit METADATA_STREAMS (converted ofStreamID) metadata) =
        metadata.map fun field => (field.1, metadataChange ofStreamID ofUnique false field.1 field.2) := by
      unfold edit metadataChange
      rw [List.map_map]
      apply List.map_congr_left
      intro field _
      by_cases stream : field.1 ∈ METADATA_STREAMS
      · have other : field.1 ≠ "unique" := by
          intro same
          rw [same] at stream
          exact absurd stream (by decide)
        simp [stream, other]
      · by_cases isUnique : field.1 = "unique"
        · rw [isUnique] at stream
          simp [isUnique, stream]
        · simp [stream, isUnique]
    have unique (r : JsObject) := @convertField_iff ofUnique
      (edit METADATA_STREAMS (converted ofStreamID) metadata) r "unique" (by simpa using distinct)
    have same : get (edit METADATA_STREAMS (converted ofStreamID) metadata) "unique" = get metadata "unique" :=
      get_edit_other (by decide) metadata
    rw [same] at unique
    rw [← whole]
    constructor
    · rintro ⟨middle, first, second⟩
      obtain ⟨converts, rfl⟩ := (streams _).mp first
      obtain ⟨convertsUnique, rfl⟩ := (unique _).mp second
      exact ⟨converts, fun _ => convertsUnique, rfl⟩
    · rintro ⟨converts, convertsUnique, rfl⟩
      exact ⟨_, (streams _).mpr ⟨converts, rfl⟩, (unique _).mpr ⟨convertsUnique rfl, rfl⟩⟩

end

/-- An identifier of a stream whose text can be read, or nothing at all. -/
def streamFieldSurvives : JsValue → Bool
  | .streamID id => decide (id.type ≤ MAX_SAFE_INTEGER) && !id.cid.isV0
  | value => !value.truthy

/-- A property of metadata that comes back. -/
def metadataFieldSurvives (isTile : Bool) (field : String × JsValue) : Bool :=
  if field.1 ∈ METADATA_STREAMS then streamFieldSurvives field.2
  else if field.1 = "unique" ∧ isTile = false then byteFieldSurvives field.2 else field.2.isJson

theorem byteFieldSurvives_falsy {value : JsValue} (falsy : value.truthy = false) : byteFieldSurvives value = true := by
  cases value <;> simp [byteFieldSurvives, JsValue.truthy] at falsy ⊢ <;> exact falsy

theorem streamFieldSurvives_falsy {value : JsValue} (falsy : value.truthy = false) :
    streamFieldSurvives value = true := by
  cases value <;> simp [streamFieldSurvives, JsValue.truthy] at falsy ⊢ <;> exact falsy

/-- Conversions of a value that holds nothing keep it. -/
theorem falsy_sent {there back : JsValue → Except JsError JsValue} {value : JsValue} (falsy : value.truthy = false) :
    converted back (converted there value).jsonCopy = value := by
  rw [converted_falsy there falsy, jsonCopy_of_falsy falsy, converted_falsy back falsy]

section

variable (stringOf : JsValue → String) (elementsOf : JsValue → List UInt8)

theorem valueToString_str {value text : JsValue} (written : valueToString stringOf value = .ok text) :
    ∃ s, text = .str s := by
  unfold valueToString at written
  split at written
  · cases written
  · cases written
  · exact ⟨_, (Except.ok.inj written).symm⟩
  · obtain ⟨s, _, same⟩ := bind_eq_ok.mp written
    exact ⟨s, (Except.ok.inj same).symm⟩
  · exact ⟨_, (Except.ok.inj written).symm⟩
  · exact ⟨_, (Except.ok.inj written).symm⟩

theorem valueToString_present (value : JsValue) : valueToString stringOf value ≠ .ok .undefined := by
  intro none
  obtain ⟨s, same⟩ := valueToString_str stringOf none
  cases same

theorem arrayToBase64_present (value : JsValue) : arrayToBase64 elementsOf value ≠ .ok .undefined := by
  intro none
  cases none

theorem valueToStreamID_present (value : JsValue) : valueToStreamID stringOf value ≠ .ok .undefined := by
  intro none
  obtain ⟨_, _, same⟩ := map_eq_ok.mp none
  cases same

theorem fromBase64_present (value : JsValue) : fromBase64 stringOf value ≠ .ok .undefined := by
  intro none
  unfold fromBase64 at none
  split at none
  all_goals
    obtain ⟨_, _, same⟩ := bind_eq_ok.mp none
    cases same

theorem fromBase64_encode (b : List UInt8) : fromBase64 stringOf (.str (base64Encode b)) = .ok (.bytes b) := by
  simp [fromBase64, base64Decode_encode, bind, Except.bind, pure, Except.pure]

theorem array_written {value : JsValue} (truthy : value.truthy = true) :
    converted (arrayToBase64 elementsOf) value = .str (base64Encode (uint8ArrayFrom elementsOf value)) :=
  converted_ok truthy rfl

/-- The bytes of `unique` come back exactly if they were some bytes, or nothing at all. -/
theorem unique_sent {value : JsValue} :
    SameDefined (converted (fromBase64 stringOf) (converted (arrayToBase64 elementsOf) value).jsonCopy) value ↔
      byteFieldSurvives value = true := by
  cases truthy : value.truthy with
  | false =>
    rw [falsy_sent truthy]
    exact iff_of_true rfl (byteFieldSurvives_falsy truthy)
  | true =>
    simp only [array_written elementsOf truthy, jsonCopy]
    by_cases empty : uint8ArrayFrom elementsOf value = []
    · have nothing : (JsValue.str (base64Encode (uint8ArrayFrom elementsOf value))).truthy = false := by
        rw [empty]
        decide
      have lost : ¬SameDefined (.str (base64Encode (uint8ArrayFrom elementsOf value))) value := by
        intro same
        cases value <;> simp [SameDefined, defined] at same
        rw [same, truthy] at nothing
        cases nothing
      rw [converted_falsy _ nothing]
      refine iff_of_false lost fun survives => ?_
      cases value <;> simp [byteFieldSurvives, truthy, uint8ArrayFrom] at survives empty
      exact survives empty
    · have something : (JsValue.str (base64Encode (uint8ArrayFrom elementsOf value))).truthy = true := by
        simpa [JsValue.truthy, base64Encode_eq_empty] using empty
      rw [converted_ok something (fromBase64_encode stringOf _)]
      cases value with
      | bytes b => simpa [SameDefined, byteFieldSurvives, uint8ArrayFrom] using empty
      | _ => simp [SameDefined, defined, byteFieldSurvives, truthy]

theorem defined_eq_streamID {value : JsValue} {id : StreamID} (same : SameDefined (.streamID id) value) :
    value = .streamID id := by
  cases value <;> simp [SameDefined, defined] at same
  rw [same]

theorem defined_eq_str {value : JsValue} {s : String} (same : SameDefined (.str s) value) : value = .str s := by
  cases value <;> simp [SameDefined, defined] at same
  rw [same]

/-- The text of an identifier that survives is read as the identifier. -/
theorem stream_reads {id : StreamID} (wellFormed : id.cid.WellFormed)
    (survives : streamFieldSurvives (.streamID id) = true) :
    ∃ s, valueToString stringOf (.streamID id) = .ok (.str s) ∧ s ≠ "" ∧
      valueToStreamID stringOf (.str s) = .ok (.streamID id) := by
  have condition : id.type ≤ MAX_SAFE_INTEGER ∧ id.cid.isV0 = false := by simpa [streamFieldSurvives] using survives
  obtain ⟨s, written, read⟩ := bind_eq_ok.mp
    ((StreamID.text_roundTrips_iff wellFormed).mpr condition : _ >>= StreamID.fromString
      (fun text => (Cid.parse text).toOption) = _)
  refine ⟨s, ?_, ?_, ?_⟩
  · unfold valueToString
    dsimp only
    rw [written]
    rfl
  · rintro rfl
    cases read
  · exact map_eq_ok.mpr ⟨id, read, rfl⟩

/-- Only an identifier that survives is read from the text of what was there. -/
theorem stream_kept {value text : JsValue} (wellFormed : ∀ id, value = .streamID id → id.cid.WellFormed)
    (truthy : value.truthy = true) (written : valueToString stringOf value = .ok text)
    (read : text.truthy = true → ∃ result, valueToStreamID stringOf text = .ok result)
    (same : SameDefined (converted (valueToStreamID stringOf) text) value) : streamFieldSurvives value = true := by
  obtain ⟨s, rfl⟩ := valueToString_str stringOf written
  cases something : (JsValue.str s).truthy with
  | false =>
    rw [converted_falsy _ something] at same
    rw [defined_eq_str same, something] at truthy
    cases truthy
  | true =>
    obtain ⟨result, ok⟩ := read something
    rw [converted_ok something ok] at same
    obtain ⟨id, parsed, rfl⟩ := map_eq_ok.mp ok
    obtain rfl := defined_eq_streamID same
    obtain ⟨text, encoded, isText⟩ := bind_eq_ok.mp written
    obtain rfl := JsValue.str.inj (Except.ok.inj isText)
    have back := bind_eq_ok.mpr ⟨_, encoded, parsed⟩
    have condition := (StreamID.text_roundTrips_iff (wellFormed id rfl)).mp back
    simpa [streamFieldSurvives] using condition

/-- A value that survives holds nothing or is an identifier. -/
theorem streamFieldSurvives_cases {value : JsValue} (survives : streamFieldSurvives value = true) :
    value.truthy = false ∨ ∃ id, value = .streamID id := by
  cases value with
  | streamID id => exact .inr ⟨id, rfl⟩
  | _ => exact .inl (by simpa [streamFieldSurvives] using survives)

theorem stream_sent {value : JsValue} (wellFormed : ∀ id, value = .streamID id → id.cid.WellFormed)
    (survives : streamFieldSurvives value = true) :
    converted (valueToStreamID stringOf) (converted (valueToString stringOf) value).jsonCopy = value := by
  rcases streamFieldSurvives_cases survives with nothing | ⟨id, rfl⟩
  · exact falsy_sent nothing
  · obtain ⟨s, written, nonempty, read⟩ := stream_reads stringOf (wellFormed id rfl) survives
    have something : (JsValue.str s).truthy = true := by simpa [JsValue.truthy] using nonempty
    rw [converted_ok rfl written]
    exact converted_ok something read

/-- The metadata of a state comes back when it is stored and read. -/
def MetadataRoundTrips (isTile : Bool) (metadata : JsObject) : Prop :=
  ∃ stored read, serializeMetadata stringOf elementsOf isTile metadata = .ok stored ∧
    deserializeMetadata stringOf isTile (jsonFields stored) = .ok read ∧
    definedFields read = definedFields metadata

theorem metadataChange_eq_undefined {ofStreamID ofUnique : JsValue → Except JsError JsValue}
    (streams : ∀ value, ofStreamID value ≠ .ok .undefined) (uniques : ∀ value, ofUnique value ≠ .ok .undefined)
    (isTile : Bool) (key : String) (value : JsValue) :
    metadataChange ofStreamID ofUnique isTile key value = .undefined ↔ value = .undefined := by
  have kept {convert : JsValue → Except JsError JsValue} (never : ∀ value, convert value ≠ .ok .undefined) :
      converted convert value = .undefined ↔ value = .undefined := by
    refine ⟨fun none => ?_, fun absent => ?_⟩
    · unfold converted at none
      split at none
      next =>
        split at none
        next result ok => exact absurd (none ▸ ok) (never value)
        next => exact none
      next => exact none
    · rw [absent]
      rfl
  unfold metadataChange
  split
  · exact kept streams
  split
  · exact kept uniques
  · exact Iff.rfl

theorem metadata_roundTrips_iff {isTile : Bool} {metadata : JsObject} (distinct : (names metadata).Nodup)
    (wellFormed : ∀ field ∈ metadata, ∀ id, field.2 = .streamID id → id.cid.WellFormed) :
    MetadataRoundTrips stringOf elementsOf isTile metadata ↔
      metadata.all (metadataFieldSurvives isTile) = true := by
  have encoded := metadataChange_eq_undefined (valueToString_present stringOf) (arrayToBase64_present elementsOf) isTile
  have decoded := metadataChange_eq_undefined (valueToStreamID_present stringOf) (fromBase64_present stringOf) isTile
  have sent := definedFields_sent (metadataChange (valueToString stringOf) (arrayToBase64 elementsOf) isTile)
    (metadataChange (valueToStreamID stringOf) (fromBase64 stringOf) isTile) encoded decoded metadata
  have storedNames : (names (jsonFields (metadata.map fun field =>
      (field.1, metadataChange (valueToString stringOf) (arrayToBase64 elementsOf) isTile field.1 field.2)))).Nodup := by
    refine names_jsonFields_nodup ?_
    unfold names at distinct ⊢
    rwa [List.map_map]
  have stream {key : String} (isStream : key ∈ METADATA_STREAMS) {f g : JsValue → Except JsError JsValue}
      (value : JsValue) : metadataChange f g isTile key value = converted f value := if_pos isStream
  rw [List.all_eq_true]
  constructor
  · rintro ⟨stored, read, serialized, deserialized, same⟩ field member
    obtain ⟨writes, _, rfl⟩ := (convertMetadata_iff distinct).mp serialized
    obtain ⟨reads, _, rfl⟩ := (convertMetadata_iff storedNames).mp deserialized
    have kept := sent.mp same field member
    unfold metadataFieldSurvives
    split
    next isStream =>
      cases truthy : field.2.truthy with
      | false => exact streamFieldSurvives_falsy truthy
      | true =>
        have held := get_of_mem distinct member
        obtain ⟨text, written⟩ := writes field.1 isStream (held ▸ truthy)
        rw [held] at written
        obtain ⟨s, rfl⟩ := valueToString_str stringOf written
        rw [stream isStream, stream isStream, converted_ok truthy written] at kept
        refine stream_kept stringOf (wellFormed field member) truthy written (fun something => ?_) kept
        have there := jsonFields_of_mem (List.mem_map_of_mem (f := fun field : String × JsValue =>
          (field.1, metadataChange (valueToString stringOf) (arrayToBase64 elementsOf) isTile field.1 field.2)) member)
          (by rw [stream isStream, converted_ok truthy written]; simp)
        have found := get_of_mem storedNames there
        rw [stream isStream, converted_ok truthy written] at found
        have readable := reads field.1 isStream (by rw [found]; exact something)
        rwa [found] at readable
    next other =>
      unfold metadataChange at kept
      rw [if_neg other, if_neg other] at kept
      split
      next isUnique =>
        rw [if_pos isUnique, if_pos isUnique] at kept
        exact (unique_sent stringOf elementsOf).mp kept
      next notUnique =>
        rw [if_neg notUnique, if_neg notUnique] at kept
        exact (jsonCopy_same field.2).mp kept
  · intro survives
    have streamSurvives {key : String} (isStream : key ∈ METADATA_STREAMS) {value : JsValue}
        (member : (key, value) ∈ metadata) : streamFieldSurvives value = true := by
      have kept := survives _ member
      unfold metadataFieldSurvives at kept
      rwa [if_pos isStream] at kept
    have present {o : JsObject} {key : String} (truthy : (get o key).truthy = true) : (key, get o key) ∈ o := by
      refine (get_cases o key).resolve_left fun absent => ?_
      rw [absent] at truthy
      cases truthy
    refine ⟨_, _, (convertMetadata_iff distinct).mpr ⟨fun key isStream truthy => ?_, fun _ _ => ⟨_, rfl⟩, rfl⟩,
      (convertMetadata_iff storedNames).mpr ⟨fun key isStream truthy => ?_, fun notTile truthy => ?_, rfl⟩,
      sent.mpr fun field member => ?_⟩
    · have member := present truthy
      rcases streamFieldSurvives_cases (streamSurvives isStream member) with nothing | ⟨id, isId⟩
      · rw [nothing] at truthy
        cases truthy
      · obtain ⟨s, written, _⟩ := stream_reads stringOf (wellFormed _ member id isId)
          (isId ▸ streamSurvives isStream member)
        exact ⟨_, isId ▸ written⟩
    · obtain ⟨original, given, held⟩ := mem_sent _ (present truthy)
      rw [stream isStream] at held
      rw [held] at truthy ⊢
      rcases streamFieldSurvives_cases (streamSurvives isStream given) with nothing | ⟨id, rfl⟩
      · rw [converted_falsy _ nothing, jsonCopy_of_falsy nothing, nothing] at truthy
        cases truthy
      · obtain ⟨s, written, _, read⟩ := stream_reads stringOf (wellFormed _ given id rfl) (streamSurvives isStream given)
        rw [converted_ok rfl written]
        exact ⟨_, read⟩
    · obtain ⟨original, given, held⟩ := mem_sent _ (present truthy)
      have change : metadataChange (valueToString stringOf) (arrayToBase64 elementsOf) isTile "unique" original =
          converted (arrayToBase64 elementsOf) original := by
        unfold metadataChange
        rw [if_neg (by decide), if_pos ⟨rfl, notTile⟩]
      rw [change] at held
      rw [held] at truthy ⊢
      cases holds : original.truthy with
      | false =>
        rw [converted_falsy _ holds, jsonCopy_of_falsy holds, holds] at truthy
        cases truthy
      | true =>
        rw [array_written elementsOf holds]
        exact ⟨_, fromBase64_encode stringOf _⟩
    · have kept := survives field member
      unfold metadataFieldSurvives at kept
      by_cases isStream : field.1 ∈ METADATA_STREAMS
      · rw [if_pos isStream] at kept
        rw [stream isStream, stream isStream, stream_sent stringOf (wellFormed field member) kept]
        rfl
      · unfold metadataChange
        rw [if_neg isStream, if_neg isStream]
        rw [if_neg isStream] at kept
        by_cases isUnique : field.1 = "unique" ∧ isTile = false
        · rw [if_pos isUnique, if_pos isUnique]
          rw [if_pos isUnique] at kept
          exact (unique_sent stringOf elementsOf).mpr kept
        · rw [if_neg isUnique, if_neg isUnique]
          rw [if_neg isUnique] at kept
          exact (jsonCopy_same field.2).mpr kept

/-- An entry of the log is read as it was, without properties that are `undefined`. -/
theorem entry_sent {entry : LogEntry} (wellFormed : entry.cid.WellFormed) :
    deserializeEntry entry.stored.jsonCopy = .ok entry.value.defined := by
  have read : toCID (.str entry.cid.toString) = .ok entry.cid := Cid.parse_toString wellFormed
  obtain ⟨cid, type, timestamp, expirationTime⟩ := entry
  dsimp only at read
  cases timestamp <;> cases expirationTime <;>
    simp [LogEntry.stored, LogEntry.value, LogEntry.fields, Timestamp.value, property, jsonCopy, jsonFields, deserializeEntry, JsObject.get,
      JsObject.get?, JsObject.set, read, defined, definedFields, bind, Except.bind, pure, Except.pure]

theorem log_sent {log : List LogEntry} (wellFormed : ∀ entry ∈ log, entry.cid.WellFormed) :
    (jsonItems (log.map LogEntry.stored)).mapM deserializeEntry =
      .ok (log.map fun entry => entry.value.defined) := by
  induction log with
  | nil => rfl
  | cons entry log ih =>
    have first := entry_sent (wellFormed entry List.mem_cons_self)
    have rest := ih fun other member => wellFormed other (List.mem_cons_of_mem entry member)
    rw [List.map_cons, jsonItems, if_neg (by simp [LogEntry.stored]), List.mapM_cons, first]
    simp only [bind, Except.bind]
    rw [rest]
    rfl

theorem proof_sent {proof : AnchorProof} (txHash : proof.txHash.WellFormed) (root : proof.root.WellFormed) :
    deserializeProof proof.stored.jsonCopy = .ok proof.value.defined := by
  have readTx := StreamCommit.valueToCID_toString txHash
  have readRoot := StreamCommit.valueToCID_toString root
  obtain ⟨chainId, tx, root, txType⟩ := proof
  dsimp only at readTx readRoot
  cases txType <;>
    simp [AnchorProof.stored, AnchorProof.value, AnchorProof.fields, property, jsonCopy, jsonFields, deserializeProof, setField, JsObject.get,
      JsObject.get?, JsObject.set, readTx, readRoot, defined, definedFields, bind, Except.bind, pure, Except.pure]

/-- The fields of a state that was read, of which those that are `undefined` are absent. -/
def readFields (type : Nat) (content next : JsValue) (metadata : JsObject) (signature : JsValue) (status : AnchorStatus)
    (proof : JsValue) (log : List JsValue) : JsObject :=
  [("type", .num type), ("content", content), ("next", next), ("metadata", .obj metadata), ("signature", signature),
    ("anchorStatus", .num status.number), ("anchorProof", proof), ("log", .arr log)]

/-- What is read from the fields of a stored state. -/
theorem deserializeState_stored {type : Nat} {doctype : String} (named : StreamType.nameByCode type = .ok doctype)
    (content next : JsValue) (metadata : JsObject) (signature : Nat) (status : AnchorStatus) {proof proofRead : JsValue}
    (proofs : proof = .undefined ∧ proofRead = .undefined ∨
      ∃ fields, proof = .obj fields ∧ proofRead ≠ .undefined ∧ deserializeProof proof.jsonCopy = .ok proofRead)
    {log logRead : List JsValue} (logs : (jsonItems log).mapM deserializeEntry = .ok logRead) :
    deserializeState stringOf (jsonFields [("type", .num type), ("content", content), ("next", next),
        ("metadata", .obj metadata), ("signature", .num signature), ("anchorStatus", .str status.name),
        ("anchorProof", proof), ("log", .arr log), ("doctype", .str doctype)]) =
      (deserializeMetadata stringOf (type == TILE_TYPE_ID) (jsonFields metadata)).map fun read =>
        (readFields type content.jsonCopy next.jsonCopy read (.num signature) status proofRead logRead).filter
          (·.2 != .undefined) := by
  obtain ⟨code, nonempty⟩ := StreamType.codeByName_nameByCode named
  have statusName := status.name_ne_empty
  have lookup := status.lookup_name
  have tile : (JsValue.num (type : Rat) == .num (TILE_TYPE_ID : Rat)) = (type == TILE_TYPE_ID) := by
    by_cases isTile : type = TILE_TYPE_ID <;> simp [isTile]
  rcases proofs with ⟨rfl, rfl⟩ | ⟨fields, rfl, present, proofs⟩
  · by_cases noContent : content = .undefined <;> by_cases noNext : next = .undefined <;>
      simp [noContent, noNext, jsonFields, jsonCopy, jsonCopy_eq_undefined, deserializeState, readDoctype, nonempty,
        code, JsObject.get, JsObject.get?, JsObject.set, JsObject.delete, readLog, logs, convertField, JsValue.truthy,
        statusName, lookup, readMetadata, tile, readFields, bind, Except.bind, pure, Except.pure]
    all_goals cases deserializeMetadata stringOf (type == TILE_TYPE_ID) (jsonFields metadata) <;> rfl
  · rw [jsonCopy] at proofs
    by_cases noContent : content = .undefined <;> by_cases noNext : next = .undefined <;>
      simp [noContent, noNext, jsonFields, jsonCopy, jsonCopy_eq_undefined, deserializeState, readDoctype, nonempty,
        code, JsObject.get, JsObject.get?, JsObject.set, JsObject.delete, readLog, logs, convertField, JsValue.truthy,
        statusName, lookup, readMetadata, tile, readFields, present, proofs, bind, Except.bind, pure, Except.pure]
    all_goals cases deserializeMetadata stringOf (type == TILE_TYPE_ID) (jsonFields metadata) <;> rfl

end

end StreamUtils

namespace StreamState

open StreamUtils JsObject JsValue

/-- Metadata as an object holds it: no two properties of one name, and identifiers that are real ones. -/
structure MetadataWellFormed (metadata : StreamMetadata) : Prop where
  names : (names metadata).Nodup
  streams : ∀ field ∈ metadata, ∀ id, field.2 = .streamID id → id.cid.WellFormed

/-- All identifiers in a state are real ones. -/
structure WellFormed (state : StreamState) : Prop where
  log : ∀ entry ∈ state.log.toList, entry.cid.WellFormed
  proof : ∀ proof ∈ state.anchorProof, proof.txHash.WellFormed ∧ proof.root.WellFormed
  metadata : MetadataWellFormed state.metadata
  next : ∀ next ∈ state.next, ∀ metadata ∈ next.metadata, MetadataWellFormed metadata

/-- A stored state is read as it was, up to properties that are `undefined`. -/
def RoundTrips (stringOf : JsValue → String) (elementsOf : JsValue → List UInt8) (state : StreamState) : Prop :=
  ∃ stored read, serializeState stringOf elementsOf state = .ok stored ∧
    deserializeState stringOf (jsonFields stored) = .ok read ∧ SameDefined (.obj read) (.obj state.toObject)

/-- The type has a name, the metadata survives, and all else, what is pending included, is JSON. -/
def survives (state : StreamState) : Bool :=
  (StreamType.nameByCode state.type).toOption.isSome && state.content.isJson &&
    (property state.next StreamNext.value).isJson &&
    state.metadata.all (metadataFieldSurvives (state.type == TILE_TYPE_ID))

variable {stringOf : JsValue → String} {elementsOf : JsValue → List UInt8}

/-- Of what is read, only content, what is pending and metadata can differ from the state. -/
theorem readFields_same (state : StreamState) (metadata : JsObject) :
    definedFields (readFields state.type state.content.jsonCopy (property state.next StreamNext.value).jsonCopy metadata
        (.num state.signature.number) state.anchorStatus
        (property state.anchorProof AnchorProof.value).defined
        (state.log.toList.map fun entry => entry.value.defined)) =
      definedFields state.toObject ↔
    state.content.isJson = true ∧ (property state.next StreamNext.value).isJson = true ∧
      definedFields metadata = definedFields state.metadata := by
  have log : SameDefined (.arr (state.log.toList.map fun entry => entry.value.defined))
      (.arr (state.log.toList.map LogEntry.value)) := by
    have each := definedItems_map_defined (state.log.toList.map LogEntry.value)
    rw [List.map_map] at each
    exact congrArg JsValue.arr each
  have proof := defined_defined (property state.anchorProof AnchorProof.value)
  have metadataSame : SameDefined (.obj metadata) (.obj state.metadata) ↔
      definedFields metadata = definedFields state.metadata :=
    ⟨fun same => JsValue.obj.inj same, fun same => congrArg JsValue.obj same⟩
  unfold readFields toObject
  rw [definedFields_cons_iff Iff.rfl, definedFields_cons_iff jsonCopy_eq_undefined,
    definedFields_cons_iff jsonCopy_eq_undefined, definedFields_cons_iff (by simp), definedFields_cons_iff Iff.rfl,
    definedFields_cons_iff Iff.rfl, definedFields_cons_iff defined_eq_undefined, definedFields_cons_iff (by simp),
    jsonCopy_same, jsonCopy_same, metadataSame]
  constructor
  · rintro ⟨_, content, next, same, _⟩
    exact ⟨content, next, same⟩
  · rintro ⟨content, next, same⟩
    exact ⟨rfl, content, next, same, rfl, rfl, proof, log, rfl⟩

/-- A well-formed state comes back exactly if its parts survive. -/
theorem roundTrips_iff {state : StreamState} (wellFormed : state.WellFormed) :
    state.RoundTrips stringOf elementsOf ↔ state.survives = true := by
  have metadataIff : MetadataRoundTrips stringOf elementsOf (state.type == TILE_TYPE_ID) state.metadata ↔ _ :=
    metadata_roundTrips_iff stringOf elementsOf wellFormed.metadata.names wellFormed.metadata.streams
  have proofs : property state.anchorProof AnchorProof.stored = .undefined ∧
      (property state.anchorProof AnchorProof.value).defined = .undefined ∨
      ∃ fields, property state.anchorProof AnchorProof.stored = .obj fields ∧
        (property state.anchorProof AnchorProof.value).defined ≠ .undefined ∧
        deserializeProof (property state.anchorProof AnchorProof.stored).jsonCopy =
          .ok (property state.anchorProof AnchorProof.value).defined := by
    cases given : state.anchorProof with
    | none => exact .inl ⟨rfl, rfl⟩
    | some proof =>
      obtain ⟨txHash, root⟩ := wellFormed.proof proof given
      exact .inr ⟨_, rfl, by simp [property, AnchorProof.value, defined], proof_sent txHash root⟩
  have logs := log_sent wellFormed.log
  unfold RoundTrips survives serializeState
  constructor
  · rintro ⟨stored, read, serialized, deserialized, same⟩
    obtain ⟨metadata, written, rest⟩ := bind_eq_ok.mp serialized
    obtain ⟨doctype, named, made⟩ := bind_eq_ok.mp rest
    obtain rfl := Except.ok.inj made
    rw [deserializeState_stored stringOf named state.content _ metadata _ _ proofs logs] at deserialized
    obtain ⟨metadataRead, readBack, rfl⟩ := map_eq_ok.mp deserialized
    have fields := JsValue.obj.inj same
    rw [definedFields_filter] at fields
    obtain ⟨content, next, metadataSame⟩ := (readFields_same state metadataRead).mp fields
    have kept := metadataIff.mp ⟨metadata, metadataRead, written, readBack, metadataSame⟩
    simp [named, content, next, kept, Except.toOption]
  · intro kept
    simp only [Bool.and_eq_true] at kept
    obtain ⟨⟨⟨isNamed, content⟩, next⟩, metadataKept⟩ := kept
    obtain ⟨doctype, named⟩ := ok_of_isSome isNamed
    obtain ⟨metadata, metadataRead, written, readBack, metadataSame⟩ := metadataIff.mpr metadataKept
    have deserialized := deserializeState_stored stringOf named state.content (property state.next StreamNext.value)
      metadata state.signature.number state.anchorStatus proofs logs
    rw [readBack] at deserialized
    refine ⟨_, _, bind_eq_ok.mpr ⟨metadata, written, bind_eq_ok.mpr ⟨doctype, named, rfl⟩⟩, deserialized, ?_⟩
    refine congrArg JsValue.obj ?_
    rw [definedFields_filter]
    exact (readFields_same state metadataRead).mpr ⟨content, next, metadataSame⟩

end StreamState

end Ceramic
