import Ceramic.JsonCopy

/-! Commits as they are sent in JSON: identifiers as text, blocks and byte fields of a header in
base64. The two directions branch on the same shapes. -/
namespace Ceramic

namespace JsObject

/-- A property is converted if it holds anything. -/
def convertField (convert : JsValue → Except JsError JsValue) (o : JsObject) (key : String) :
    Except JsError JsObject :=
  if (get o key).truthy then do return set o key (← convert (get o key)) else return o

/-- A property is converted, whatever it holds. -/
def setField (convert : JsValue → Except JsError JsValue) (o : JsObject) (key : String) :
    Except JsError JsObject := do
  return set o key (← convert (get o key))

/-- The properties of the given names, edited. -/
def edit (keys : List String) (change : JsValue → JsValue) (o : JsObject) : JsObject :=
  o.map fun field => (field.1, if field.1 ∈ keys then change field.2 else field.2)

/-- The names of the properties. -/
def names (o : JsObject) : List String := o.map Prod.fst

@[simp] theorem names_edit (keys : List String) (change : JsValue → JsValue) (o : JsObject) :
    names (edit keys change o) = names o := by
  simp [names, edit]

theorem get_cons (field : String × JsValue) (o : JsObject) (key : String) :
    get (field :: o) key = if field.1 = key then field.2 else get o key := by
  by_cases same : field.1 = key <;> simp [get, get?, same]

/-- A property is absent or one of the fields. -/
theorem get_cases (o : JsObject) (key : String) : get o key = .undefined ∨ (key, get o key) ∈ o := by
  induction o with
  | nil => exact .inl rfl
  | cons field o ih =>
    rw [get_cons]
    split
    next same =>
      subst same
      exact .inr List.mem_cons_self
    next => exact ih.imp_right (List.mem_cons_of_mem field)

theorem get_of_mem {o : JsObject} (distinct : (names o).Nodup) {field : String × JsValue} (member : field ∈ o) :
    get o field.1 = field.2 := by
  induction o with
  | nil => cases member
  | cons first o ih =>
    obtain ⟨fresh, rest⟩ := List.nodup_cons.mp distinct
    rw [get_cons]
    rcases List.mem_cons.mp member with rfl | behind
    · exact if_pos rfl
    · have other : first.1 ≠ field.1 := fun same => fresh (same ▸ List.mem_map_of_mem behind)
      rw [if_neg other]
      exact ih rest behind

theorem get_edit_other {keys : List String} {change : JsValue → JsValue} {key : String} (other : key ∉ keys)
    (o : JsObject) : get (edit keys change o) key = get o key := by
  induction o with
  | nil => rfl
  | cons field o ih =>
    rw [edit, List.map_cons, get_cons, get_cons]
    dsimp only
    split
    next same => exact if_neg (same ▸ other)
    next => exact ih

theorem edit_edit {key : String} {keys : List String} (other : key ∉ keys) (change : JsValue → JsValue)
    (o : JsObject) : edit keys change (edit [key] change o) = edit (key :: keys) change o := by
  unfold edit
  rw [List.map_map]
  apply List.map_congr_left
  intro field _
  by_cases same : field.1 = key
  · simp [same, other]
  · simp [same]

/-- Setting a property that is there edits it. -/
theorem set_eq_edit {o : JsObject} (distinct : (names o).Nodup) {key : String} {value : JsValue}
    {change : JsValue → JsValue} (present : get o key ≠ .undefined) (changed : value = change (get o key)) :
    set o key value = edit [key] change o := by
  have member : (key, get o key) ∈ o := (get_cases o key).resolve_left present
  unfold set edit
  rw [if_pos (List.any_eq_true.mpr ⟨_, member, beq_self_eq_true key⟩)]
  apply List.map_congr_left
  intro field inside
  by_cases same : field.1 = key
  · obtain rfl := same
    rw [if_pos (beq_self_eq_true field.1), if_pos (List.mem_singleton_self _), changed,
      get_of_mem distinct inside]
  · have other : field.1 ∉ [key] := fun isKey => same (List.mem_singleton.mp isKey)
    rw [if_neg (by simpa using same), if_neg other]

section

variable {convert : JsValue → Except JsError JsValue} {change : JsValue → JsValue}

/-- A property whose value the change keeps stays as it is. -/
theorem edit_of_fixed {o : JsObject} (distinct : (names o).Nodup) {key : String}
    (fixed : change (get o key) = get o key) : edit [key] change o = o := by
  unfold edit
  conv_rhs => rw [← List.map_id o]
  apply List.map_congr_left
  intro field inside
  by_cases same : field.1 = key
  · obtain rfl := same
    rw [get_of_mem distinct inside] at fixed
    rw [if_pos (List.mem_singleton_self _), fixed]
    rfl
  · have other : field.1 ∉ [key] := fun isKey => same (List.mem_singleton.mp isKey)
    rw [if_neg other]
    rfl

/-- A conversion that succeeds edits the property. -/
theorem convertField_edit {o : JsObject} (distinct : (names o).Nodup) {key : String}
    (kept : ∀ value : JsValue, value.truthy = false → change value = value)
    (converts : (get o key).truthy = true → convert (get o key) = .ok (change (get o key))) :
    convertField convert o key = .ok (edit [key] change o) := by
  unfold convertField
  split
  next truthy =>
    have present : get o key ≠ .undefined := by
      intro absent
      rw [absent] at truthy
      cases truthy
    rw [converts truthy]
    exact congrArg Except.ok (set_eq_edit distinct present rfl)
  next falsy =>
    have unchanged := edit_of_fixed distinct (kept _ (Bool.eq_false_of_not_eq_true falsy))
    exact congrArg Except.ok unchanged.symm

/-- Conversions that all succeed edit all properties. -/
theorem convertFields_edit {keys : List String} (each : keys.Nodup)
    (kept : ∀ value : JsValue, value.truthy = false → change value = value) {o : JsObject}
    (distinct : (names o).Nodup)
    (converts : ∀ key ∈ keys, (get o key).truthy = true → convert (get o key) = .ok (change (get o key))) :
    keys.foldlM (fun o key => convertField convert o key) o = .ok (edit keys change o) := by
  induction keys generalizing o with
  | nil => simp [edit, pure, Except.pure]
  | cons key keys ih =>
    obtain ⟨fresh, rest⟩ := List.nodup_cons.mp each
    have first := convertField_edit distinct kept (converts key List.mem_cons_self)
    rw [List.foldlM_cons, first, ← edit_edit fresh]
    refine ih rest (by simpa using distinct) fun other member truthy => ?_
    have apart : other ∉ [key] := fun same => fresh (List.mem_singleton.mp same ▸ member)
    rw [get_edit_other apart] at truthy ⊢
    exact converts other (List.mem_cons_of_mem key member) truthy

/-- If the conversions succeed, then each property holds nothing or is converted. -/
theorem converts_of_convertFields {keys : List String} (each : keys.Nodup) {o result : JsObject}
    (distinct : (names o).Nodup)
    (succeeded : keys.foldlM (fun o key => convertField convert o key) o = .ok result) :
    ∀ key ∈ keys, (get o key).truthy = true → ∃ value, convert (get o key) = .ok value := by
  induction keys generalizing o with
  | nil => exact fun _ member => nomatch member
  | cons first keys ih =>
    obtain ⟨fresh, rest⟩ := List.nodup_cons.mp each
    obtain ⟨next, converted, behind⟩ := bind_eq_ok.mp succeeded
    change convertField convert o first = .ok next at converted
    intro key member truthy
    rcases List.mem_cons.mp member with rfl | later
    · unfold convertField at converted
      rw [if_pos truthy] at converted
      obtain ⟨value, ok, _⟩ := bind_eq_ok.mp converted
      exact ⟨value, ok⟩
    · have apart : key ∉ [first] := fun same => fresh (List.mem_singleton.mp same ▸ later)
      unfold convertField at converted
      split at converted
      next present =>
        obtain ⟨value, _, isNext⟩ := bind_eq_ok.mp converted
        have defined : get o first ≠ .undefined := by
          intro absent
          rw [absent] at present
          cases present
        have edited : set o first value = edit [first] (fun _ => value) o := set_eq_edit distinct defined rfl
        obtain rfl : edit [first] (fun _ => value) o = next := edited ▸ Except.ok.inj isNext
        have later_ok := ih rest (by simpa using distinct) behind key later
        rw [get_edit_other apart] at later_ok
        exact later_ok truthy
      next =>
        obtain rfl := Except.ok.inj converted
        exact ih rest distinct behind key later truthy

/-- What a conversion makes of a value: one that holds nothing, or cannot be converted, is kept. -/
def converted (convert : JsValue → Except JsError JsValue) (value : JsValue) : JsValue :=
  if value.truthy then match convert value with
    | .ok result => result
    | .error _ => value
  else value

theorem converted_falsy (convert : JsValue → Except JsError JsValue) {value : JsValue}
    (falsy : value.truthy = false) : converted convert value = value := by
  unfold converted
  rw [falsy]
  exact if_neg (by decide)

theorem converted_ok {value result : JsValue} (truthy : value.truthy = true) (ok : convert value = .ok result) :
    converted convert value = result := by
  unfold converted
  rw [if_pos truthy, ok]

/-- Conversions succeed exactly if each of them does, and then they edit the properties. -/
theorem convertFields_iff {keys : List String} (each : keys.Nodup) {o result : JsObject}
    (distinct : (names o).Nodup) :
    keys.foldlM (fun o key => convertField convert o key) o = .ok result ↔
      (∀ key ∈ keys, (get o key).truthy = true → ∃ value, convert (get o key) = .ok value) ∧
      result = edit keys (converted convert) o := by
  have explicit (converts : ∀ key ∈ keys, (get o key).truthy = true → ∃ value, convert (get o key) = .ok value) :
      keys.foldlM (fun o key => convertField convert o key) o = .ok (edit keys (converted convert) o) := by
    refine convertFields_edit each (fun value => converted_falsy convert) distinct fun key member truthy => ?_
    obtain ⟨value, ok⟩ := converts key member truthy
    rw [converted_ok truthy ok, ok]
  constructor
  · intro succeeded
    have converts := converts_of_convertFields each distinct succeeded
    exact ⟨converts, Except.ok.inj (succeeded.symm.trans (explicit converts))⟩
  · rintro ⟨converts, rfl⟩
    exact explicit converts

end

end JsObject

namespace StreamUtils

/-- `value.toString()`. -/
def valueToString (stringOf : JsValue → String) : JsValue → Except JsError JsValue
  | .undefined => .error ⟨"Cannot read properties of undefined (reading 'toString')"⟩
  | .null => .error ⟨"Cannot read properties of null (reading 'toString')"⟩
  | .cid c => .ok (.str c.toString)
  | .streamID id => do return .str (← id.toText)
  | .str s => .ok (.str s)
  | value => .ok (.str (stringOf value))

def valueToCID (value : JsValue) : Except JsError JsValue := do
  return .cid (← toCID value)

/-- `uint8arrays.toString(value, 'base64')`. -/
def toBase64 : JsValue → Except JsError JsValue
  | .bytes b => .ok (.str (base64Encode b))
  | _ => .error ⟨"Unknown type, must be binary type"⟩

/-- `uint8arrays.fromString(value, 'base64')`. -/
def fromBase64 (stringOf : JsValue → String) : JsValue → Except JsError JsValue
  | .str s => do return .bytes (← base64Decode s)
  | value => do return .bytes (← base64Decode (stringOf value))

def isSignedCommitContainer (commit : JsObject) : Bool := JsObject.get commit "jws" != .undefined

def isSignedCommit (commit : JsObject) : Bool := JsObject.get commit "link" != .undefined

def isAnchorCommit (commit : JsObject) : Bool := JsObject.get commit "proof" != .undefined

/-- The properties of a header that are converted as bytes. -/
def HEADER_BYTES : List String := ["model", "context", "unique"]

section

variable (ofLink ofBytes : JsValue → Except JsError JsValue)

def convertJws (commit : JsObject) : Except JsError JsObject :=
  match JsObject.get commit "jws" with
  | .obj jws => do return JsObject.set commit "jws" (.obj (← JsObject.setField ofLink jws "link"))
  | _ => .error ⟨"Cannot read properties of undefined (reading 'toString')"⟩

def convertHeader (commit : JsObject) : Except JsError JsObject :=
  match JsObject.get commit "header" with
  | .obj header => do
    let header ← HEADER_BYTES.foldlM (fun header key => JsObject.convertField ofBytes header key) header
    return JsObject.set commit "header" (.obj header)
  | _ => return commit

/-- What serializing and deserializing a commit have in common. -/
def convertCommit (commit : JsObject) : Except JsError JsObject :=
  if isSignedCommitContainer commit then do
    let cloned ← convertJws ofLink commit
    let cloned ← JsObject.setField ofBytes cloned "linkedBlock"
    JsObject.convertField ofBytes cloned "cacaoBlock"
  else do
    let cloned ← if isSignedCommit commit then JsObject.setField ofLink commit "link" else pure commit
    let cloned ← if isAnchorCommit commit then JsObject.setField ofLink cloned "proof" else pure cloned
    let cloned ← JsObject.convertField ofLink cloned "id"
    let cloned ← JsObject.convertField ofLink cloned "prev"
    convertHeader ofBytes cloned

end

def serializeCommit (stringOf : JsValue → String) : JsObject → Except JsError JsObject :=
  convertCommit (valueToString stringOf) toBase64

def deserializeCommit (stringOf : JsValue → String) : JsObject → Except JsError JsObject :=
  convertCommit valueToCID (fromBase64 stringOf)

end StreamUtils

/-- The envelope of a signed commit: the link is the identifier of the payload. -/
structure JwsEnvelope where
  payload : String
  signatures : List (String × String)
  link : Cid
  deriving DecidableEq, Repr

namespace JwsEnvelope

def signaturesValue (jws : JwsEnvelope) : JsValue :=
  .arr (jws.signatures.map fun (header, signature) =>
    .obj [("protected", .str header), ("signature", .str signature)])

def toObject (jws : JwsEnvelope) : JsObject :=
  [("payload", .str jws.payload), ("signatures", jws.signaturesValue), ("link", .cid jws.link)]

end JwsEnvelope

/-- The commits of all stream types. A plain commit is an unsigned genesis or the unsigned data
commit of a link, of which a genesis has neither `prev` nor `id`. -/
inductive StreamCommit where
  | container (jws : JwsEnvelope) (linkedBlock : List UInt8) (cacaoBlock : Option (List UInt8))
  | signed (jws : JwsEnvelope)
  | anchor (id prev proof : Cid) (path : String)
  | plain (data : JsValue) (header : Option JsObject) (prev id : Option Cid)
  deriving DecidableEq

namespace StreamCommit

/-- A property that may be absent. -/
def property (value : Option α) (make : α → JsValue) : JsValue :=
  match value with
  | none => .undefined
  | some value => make value

def toObject : StreamCommit → JsObject
  | .container jws linkedBlock cacaoBlock =>
    [("jws", .obj jws.toObject), ("linkedBlock", .bytes linkedBlock),
      ("cacaoBlock", property cacaoBlock .bytes)]
  | .signed jws => jws.toObject
  | .anchor id prev proof path =>
    [("id", .cid id), ("prev", .cid prev), ("proof", .cid proof), ("path", .str path)]
  | .plain data header prev id =>
    [("data", data), ("header", property header .obj), ("prev", property prev .cid),
      ("id", property id .cid)]

end StreamCommit

namespace JsValue

/-- The objects among the values, edited. -/
def onObject (change : JsObject → JsObject) : JsValue → JsValue
  | .obj fields => .obj (change fields)
  | value => value

def encodeBytes : JsValue → JsValue
  | .bytes b => .str (base64Encode b)
  | value => value

/-- The inverse of `encodeBytes` on texts that are not empty. -/
def decodeBytes : JsValue → JsValue
  | .str s => if s = "" then .str s else match base64Decode s with
    | .ok b => .bytes b
    | .error _ => .str s
  | value => value

def encodeLink : JsValue → JsValue
  | .cid c => .str c.toString
  | value => value

def decodeLink : JsValue → JsValue
  | .str s => match Cid.parse s with
    | .ok c => .cid c
    | .error _ => .str s
  | value => value

section

attribute [local simp] truthy encodeBytes decodeBytes encodeLink decodeLink

theorem encodeBytes_falsy (value : JsValue) (falsy : value.truthy = false) : value.encodeBytes = value := by
  cases value <;> simp at falsy ⊢

theorem decodeBytes_falsy (value : JsValue) (falsy : value.truthy = false) : value.decodeBytes = value := by
  cases value <;> simp at falsy ⊢
  simp [falsy]

theorem encodeLink_falsy (value : JsValue) (falsy : value.truthy = false) : value.encodeLink = value := by
  cases value <;> simp at falsy ⊢

theorem decodeLink_falsy (value : JsValue) (falsy : value.truthy = false) : value.decodeLink = value := by
  cases value <;> simp at falsy ⊢
  subst falsy
  rfl

theorem encodeLink_eq_undefined (value : JsValue) : value.encodeLink = .undefined ↔ value = .undefined := by
  cases value <;> simp

theorem decodeLink_eq_undefined (value : JsValue) : value.decodeLink = .undefined ↔ value = .undefined := by
  cases value <;> simp
  split <;> simp

theorem jsonCopy_of_falsy {value : JsValue} (falsy : value.truthy = false) : value.jsonCopy = value := by
  cases value <;> simp [jsonCopy] at falsy ⊢

end

theorem jsonFields_eq (fields : JsObject) : jsonFields fields =
    (fields.filter (·.2 != .undefined)).map fun field => (field.1, field.2.jsonCopy) := by
  induction fields with
  | nil => rfl
  | cons field fields ih =>
    by_cases absent : field.2 = .undefined <;> simp [jsonFields, absent, ih]

theorem mem_jsonFields {fields : JsObject} {field : String × JsValue} (member : field ∈ jsonFields fields) :
    ∃ value, (field.1, value) ∈ fields ∧ field.2 = value.jsonCopy := by
  rw [jsonFields_eq] at member
  obtain ⟨original, kept, rfl⟩ := List.mem_map.mp member
  exact ⟨original.2, (List.mem_filter.mp kept).1, rfl⟩

theorem jsonFields_of_mem {fields : JsObject} {key : String} {value : JsValue} (member : (key, value) ∈ fields)
    (present : value ≠ .undefined) : (key, value.jsonCopy) ∈ jsonFields fields := by
  rw [jsonFields_eq]
  exact List.mem_map.mpr ⟨_, List.mem_filter.mpr ⟨member, bne_iff_ne.mpr present⟩, rfl⟩

/-- Where a property of a sent object comes from. -/
theorem mem_sent (encode : String → JsValue → JsValue) {fields : JsObject} {key : String} {value : JsValue}
    (member : (key, value) ∈ jsonFields (fields.map fun field => (field.1, encode field.1 field.2))) :
    ∃ original, (key, original) ∈ fields ∧ value = (encode key original).jsonCopy := by
  obtain ⟨encoded, inside, rfl⟩ := mem_jsonFields member
  obtain ⟨field, given, same⟩ := List.mem_map.mp inside
  cases same
  exact ⟨field.2, given, rfl⟩

theorem names_jsonFields_nodup {fields : JsObject} (distinct : (JsObject.names fields).Nodup) :
    (JsObject.names (jsonFields fields)).Nodup := by
  rw [jsonFields_eq]
  unfold JsObject.names at distinct ⊢
  rw [List.map_map]
  exact distinct.sublist (List.filter_sublist.map Prod.fst)

theorem jsonCopy_eq_undefined {value : JsValue} : value.jsonCopy = .undefined ↔ value = .undefined := by
  cases value <;> simp [jsonCopy, indexed, cidJson]

/-- Fields that are encoded, sent and decoded one by one come back exactly if each of them does. -/
theorem definedFields_sent (encode decode : String → JsValue → JsValue)
    (encoded : ∀ key value, encode key value = .undefined ↔ value = .undefined)
    (decoded : ∀ key value, decode key value = .undefined ↔ value = .undefined) (fields : JsObject) :
    definedFields ((jsonFields (fields.map fun field => (field.1, encode field.1 field.2))).map
        fun field => (field.1, decode field.1 field.2)) = definedFields fields ↔
      ∀ field ∈ fields, SameDefined (decode field.1 (encode field.1 field.2).jsonCopy) field.2 := by
  induction fields with
  | nil => simp [jsonFields, definedFields]
  | cons field fields ih =>
    obtain ⟨key, value⟩ := field
    by_cases missing : value = .undefined
    · subst missing
      have none := (encoded key .undefined).mpr rfl
      have back := (decoded key .undefined).mpr rfl
      simp [jsonFields, definedFields, none, back, ih, SameDefined, jsonCopy]
    · have sent : encode key value ≠ .undefined := fun none => missing ((encoded _ _).mp none)
      have back : decode key (encode key value).jsonCopy ≠ .undefined :=
        fun none => sent (jsonCopy_eq_undefined.mp ((decoded _ _).mp none))
      simp [jsonFields, definedFields, sent, back, missing, ih, SameDefined]

end JsValue

namespace StreamUtils

open JsObject JsValue

/-- What a conversion makes of the properties of a plain commit. -/
def plainChange (link bytes : JsValue → JsValue) (key : String) (value : JsValue) : JsValue :=
  if key = "header" then value.onObject (edit HEADER_BYTES bytes)
  else if key = "prev" ∨ key = "id" then link value else value

theorem plainChange_eq_undefined {link : JsValue → JsValue} (bytes : JsValue → JsValue)
    (kept : ∀ value, link value = .undefined ↔ value = .undefined) (key : String) (value : JsValue) :
    plainChange link bytes key value = .undefined ↔ value = .undefined := by
  unfold plainChange
  split
  · cases value <;> simp [onObject]
  split
  · exact kept value
  · exact Iff.rfl

theorem plainChange_link {link bytes : JsValue → JsValue} {key : String} (isLink : key ∈ ["id", "prev"])
    (value : JsValue) : plainChange link bytes key value = link value := by
  rcases List.mem_cons.mp isLink with rfl | isLink
  · rfl
  · obtain rfl := List.mem_singleton.mp isLink
    rfl

section

variable {ofLink ofBytes : JsValue → Except JsError JsValue} {link bytes : JsValue → JsValue} {o : JsObject}

theorem convertHeader_edit (distinct : (names o).Nodup)
    (kept : ∀ value : JsValue, value.truthy = false → bytes value = value)
    (headers : ∀ header, get o "header" = .obj header → (names header).Nodup ∧ ∀ key ∈ HEADER_BYTES,
      (get header key).truthy = true → ofBytes (get header key) = .ok (bytes (get header key))) :
    convertHeader ofBytes o = .ok (edit ["header"] (onObject (edit HEADER_BYTES bytes)) o) := by
  unfold convertHeader
  split
  next header isHeader =>
    obtain ⟨each, converts⟩ := headers header isHeader
    have converted := convertFields_edit (show HEADER_BYTES.Nodup by decide) kept each converts
    have present : get o "header" ≠ .undefined := by simp [isHeader]
    have changed : JsValue.obj (edit HEADER_BYTES bytes header) =
        onObject (edit HEADER_BYTES bytes) (get o "header") := by rw [isHeader]; rfl
    rw [converted]
    exact congrArg Except.ok (set_eq_edit distinct present changed)
  next other =>
    have fixed : onObject (edit HEADER_BYTES bytes) (get o "header") = get o "header" := by
      cases value : get o "header" <;> simp [onObject]
      next header => exact absurd value (other header)
    exact congrArg Except.ok (edit_of_fixed distinct fixed).symm

/-- Only the header can keep a plain commit from being converted. -/
theorem convertCommit_plain (distinct : (names o).Nodup) (noJws : get o "jws" = .undefined)
    (noLink : get o "link" = .undefined) (noProof : get o "proof" = .undefined)
    (kept : ∀ value : JsValue, value.truthy = false → link value = value)
    (links : ∀ key ∈ ["id", "prev"], (get o key).truthy = true → ofLink (get o key) = .ok (link (get o key))) :
    convertCommit ofLink ofBytes o = convertHeader ofBytes (edit ["prev"] link (edit ["id"] link o)) := by
  have ids := convertField_edit distinct kept (links "id" (by decide))
  have prevs : convertField ofLink (edit ["id"] link o) "prev" = .ok (edit ["prev"] link (edit ["id"] link o)) := by
    refine convertField_edit (by simpa using distinct) kept ?_
    rw [get_edit_other (by decide) o]
    exact links "prev" (by decide)
  unfold convertCommit StreamUtils.isSignedCommitContainer isSignedCommit isAnchorCommit
  simp only [noJws, noLink, noProof, bne_self_eq_false, Bool.false_eq_true, if_false, pure_bind]
  rw [ids]
  simp only [bind, Except.bind]
  rw [prevs]

theorem convertPlain (distinct : (names o).Nodup) (noJws : get o "jws" = .undefined)
    (noLink : get o "link" = .undefined) (noProof : get o "proof" = .undefined)
    (keptLink : ∀ value : JsValue, value.truthy = false → link value = value)
    (keptBytes : ∀ value : JsValue, value.truthy = false → bytes value = value)
    (links : ∀ key ∈ ["id", "prev"], (get o key).truthy = true → ofLink (get o key) = .ok (link (get o key)))
    (headers : ∀ header, get o "header" = .obj header → (names header).Nodup ∧ ∀ key ∈ HEADER_BYTES,
      (get header key).truthy = true → ofBytes (get header key) = .ok (bytes (get header key))) :
    convertCommit ofLink ofBytes o = .ok (o.map fun field => (field.1, plainChange link bytes field.1 field.2)) := by
  have header : convertHeader ofBytes (edit ["prev"] link (edit ["id"] link o)) =
      .ok (edit ["header"] (onObject (edit HEADER_BYTES bytes)) (edit ["prev"] link (edit ["id"] link o))) := by
    refine convertHeader_edit (by simpa using distinct) keptBytes ?_
    rw [get_edit_other (by decide) _, get_edit_other (by decide) o]
    exact headers
  have whole : edit ["header"] (onObject (edit HEADER_BYTES bytes)) (edit ["prev"] link (edit ["id"] link o)) =
      o.map fun field => (field.1, plainChange link bytes field.1 field.2) := by
    unfold edit
    rw [List.map_map, List.map_map]
    apply List.map_congr_left
    intro field _
    simp only [Function.comp_apply, List.mem_singleton, plainChange]
    by_cases isHeader : field.1 = "header"
    · simp [isHeader]
      rfl
    · by_cases isPrev : field.1 = "prev"
      · simp [isPrev]
      · simp [isHeader, isPrev]
  rw [convertCommit_plain distinct noJws noLink noProof keptLink links, header, whole]

end

/-- A byte field holds some bytes, or nothing at all. -/
def byteFieldSurvives : JsValue → Bool
  | .bytes b => b != []
  | value => !value.truthy

/-- A property of a header that comes back. -/
def headerFieldSurvives (field : String × JsValue) : Bool :=
  if field.1 ∈ HEADER_BYTES then byteFieldSurvives field.2 else field.2.isJson

/-- A header of which all byte fields can be encoded. -/
def Convertible (header : JsObject) : Prop :=
  ∀ field ∈ header, field.1 ∈ HEADER_BYTES → field.2.truthy = true → ∃ b, field.2 = .bytes b

theorem decodeBytes_encode (b : List UInt8) : (JsValue.bytes b).encodeBytes.jsonCopy.decodeBytes =
    if b = [] then .str "" else .bytes b := by
  simp only [encodeBytes, jsonCopy, decodeBytes, base64Encode_eq_empty, base64Decode_encode]
  split
  next empty => rw [empty]; rfl
  next => rfl

theorem decodeBytes_eq_undefined {value : JsValue} : value.decodeBytes = .undefined ↔ value = .undefined := by
  cases value <;> simp [decodeBytes]
  split
  · simp
  split <;> simp

theorem encodeBytes_eq_undefined {value : JsValue} : value.encodeBytes = .undefined ↔ value = .undefined := by
  cases value <;> simp [encodeBytes]

theorem byteField_sent {value : JsValue} (convertible : value.truthy = true → ∃ b, value = .bytes b) :
    SameDefined value.encodeBytes.jsonCopy.decodeBytes value ↔ byteFieldSurvives value = true := by
  cases truthy : value.truthy with
  | true =>
    obtain ⟨b, rfl⟩ := convertible truthy
    rw [decodeBytes_encode]
    by_cases empty : b = [] <;> simp [SameDefined, defined, byteFieldSurvives, empty]
  | false =>
    have back : value.encodeBytes.jsonCopy.decodeBytes = value := by
      rw [encodeBytes_falsy value truthy, jsonCopy_of_falsy truthy, decodeBytes_falsy value truthy]
    rw [back]
    cases value <;> simp [SameDefined, byteFieldSurvives, JsValue.truthy] at truthy ⊢ <;> exact truthy

/-- A header comes back exactly if each of its properties does. -/
theorem header_sent {header : JsObject} (convertible : Convertible header) :
    definedFields (edit HEADER_BYTES decodeBytes (jsonFields (edit HEADER_BYTES encodeBytes header))) =
      definedFields header ↔ header.all headerFieldSurvives = true := by
  have sent := definedFields_sent
    (fun key value => if key ∈ HEADER_BYTES then value.encodeBytes else value)
    (fun key value => if key ∈ HEADER_BYTES then value.decodeBytes else value)
    (fun key value => by split <;> simp [encodeBytes_eq_undefined])
    (fun key value => by split <;> simp [decodeBytes_eq_undefined]) header
  refine sent.trans ?_
  rw [List.all_eq_true]
  refine forall₂_congr fun field member => ?_
  unfold headerFieldSurvives
  by_cases special : field.1 ∈ HEADER_BYTES
  · simp only [special, if_true]
    exact byteField_sent (convertible field member special)
  · simp only [special, if_false]
    exact jsonCopy_same field.2

/-- The byte fields of a sent header can be decoded. -/
theorem sent_converts (stringOf : JsValue → String) {header : JsObject} (convertible : Convertible header)
    {key : String} (special : key ∈ HEADER_BYTES)
    (truthy : (get (jsonFields (edit HEADER_BYTES encodeBytes header)) key).truthy = true) :
    fromBase64 stringOf (get (jsonFields (edit HEADER_BYTES encodeBytes header)) key) =
      .ok (get (jsonFields (edit HEADER_BYTES encodeBytes header)) key).decodeBytes := by
  rcases get_cases (jsonFields (edit HEADER_BYTES encodeBytes header)) key with absent | member
  · rw [absent] at truthy
    cases truthy
  · obtain ⟨original, given, held⟩ := mem_sent
      (fun key value => if key ∈ HEADER_BYTES then value.encodeBytes else value) member
    rw [if_pos special] at held
    rw [held] at truthy ⊢
    cases holds : original.truthy with
    | false =>
      rw [encodeBytes_falsy original holds, jsonCopy_of_falsy holds, holds] at truthy
      cases truthy
    | true =>
      obtain ⟨b, rfl⟩ := convertible (key, original) given special holds
      have nonempty : b ≠ [] := by
        rintro rfl
        exact absurd truthy (by decide)
      rw [decodeBytes_encode, if_neg nonempty]
      simp only [encodeBytes, jsonCopy, fromBase64, base64Decode_encode]
      rfl

end StreamUtils

namespace StreamCommit

open StreamUtils JsObject JsValue

/-- The identifiers in a commit are real ones, and its header has no two properties of one name. -/
def WellFormed : StreamCommit → Prop
  | .container jws _ _ | .signed jws => jws.link.WellFormed
  | .anchor id prev proof _ => id.WellFormed ∧ prev.WellFormed ∧ proof.WellFormed
  | .plain _ header prev id =>
    (∀ h ∈ header, (names h).Nodup) ∧ (∀ c ∈ prev, c.WellFormed) ∧ ∀ c ∈ id, c.WellFormed

/-- A commit that is sent as JSON text comes back, up to properties that are `undefined`. -/
def RoundTrips (stringOf : JsValue → String) (commit : StreamCommit) : Prop :=
  ∃ serialized result, serializeCommit stringOf commit.toObject = .ok serialized ∧
    deserializeCommit stringOf (jsonFields serialized) = .ok result ∧
    SameDefined (.obj result) (.obj commit.toObject)

/-- The bytes a commit holds are in places that keep them, and all else is JSON. -/
def survives : StreamCommit → Bool
  | .container _ _ cacaoBlock => cacaoBlock != some []
  | .signed _ | .anchor _ _ _ _ => true
  | .plain data header _ _ => data.isJson && header.all (·.all headerFieldSurvives)

section

variable {stringOf : JsValue → String} {data : JsValue} {header : Option JsObject} {prev id : Option Cid}

theorem names_plain : names (plain data header prev id).toObject = ["data", "header", "prev", "id"] := rfl

/-- The link properties of a plain commit. -/
theorem get_link {key : String} (link : key ∈ ["id", "prev"]) :
    ∃ c, get (plain data header prev id).toObject key = property c .cid ∧ (c = id ∨ c = prev) := by
  rcases List.mem_cons.mp link with rfl | link
  · exact ⟨id, rfl, .inl rfl⟩
  · obtain rfl := List.mem_singleton.mp link
    exact ⟨prev, rfl, .inr rfl⟩

theorem get_header : get (plain data header prev id).toObject "header" = property header .obj := rfl

theorem property_eq_obj {h : JsObject} (isHeader : property header .obj = .obj h) : header = some h := by
  cases header with
  | none => cases isHeader
  | some given => exact congrArg some (JsValue.obj.inj isHeader)

/-- The identifiers of a plain commit can be written as text. -/
theorem links_convert : ∀ key ∈ ["id", "prev"], (get (plain data header prev id).toObject key).truthy = true →
    valueToString stringOf (get (plain data header prev id).toObject key) =
      .ok (get (plain data header prev id).toObject key).encodeLink := by
  intro key member truthy
  obtain ⟨c, held, _⟩ : ∃ c, get (plain data header prev id).toObject key = property c .cid ∧
      (c = id ∨ c = prev) := get_link member
  rw [held] at truthy ⊢
  cases c with
  | none => cases truthy
  | some c => rfl

theorem nodup_plain : (names (plain data header prev id).toObject).Nodup := by
  rw [names_plain]
  decide

/-- A commit whose header can be encoded is serialized. -/
theorem serialize_plain (wellFormed : (plain data header prev id).WellFormed)
    (convertible : ∀ h ∈ header, Convertible h) :
    serializeCommit stringOf (plain data header prev id).toObject =
      .ok ((plain data header prev id).toObject.map fun field =>
        (field.1, plainChange encodeLink encodeBytes field.1 field.2)) := by
  refine convertPlain nodup_plain rfl rfl rfl encodeLink_falsy encodeBytes_falsy links_convert ?_
  intro h isHeader
  obtain rfl := property_eq_obj isHeader
  refine ⟨wellFormed.1 h rfl, fun key special truthy => ?_⟩
  have inside := (get_cases h key).resolve_left fun absent => by
    rw [absent] at truthy
    cases truthy
  obtain ⟨b, held⟩ := convertible h rfl _ inside special truthy
  dsimp only at held
  rw [held]
  rfl

/-- A serialized commit that was sent can be deserialized. -/
theorem deserialize_plain (wellFormed : (plain data header prev id).WellFormed)
    (convertible : ∀ h ∈ header, Convertible h) :
    let sent := jsonFields ((plain data header prev id).toObject.map fun field =>
      (field.1, plainChange encodeLink encodeBytes field.1 field.2))
    deserializeCommit stringOf sent =
      .ok (sent.map fun field => (field.1, plainChange decodeLink decodeBytes field.1 field.2)) := by
  intro sent
  obtain ⟨distinct, prevs, ids⟩ := wellFormed
  have names_eq : names (plain data header prev id).toObject = ["data", "header", "prev", "id"] := names_plain
  have original_nodup : (names (plain data header prev id).toObject).Nodup := nodup_plain
  have nodup : (names sent).Nodup := names_jsonFields_nodup original_nodup
  have origin (key : String) (present : get sent key ≠ .undefined) :
      get sent key = (plainChange encodeLink encodeBytes key
        (get (plain data header prev id).toObject key)).jsonCopy := by
    obtain ⟨original, given, held⟩ := mem_sent _ ((get_cases sent key).resolve_left present)
    rw [held, get_of_mem original_nodup given]
  have absent {key : String} (other : key ∉ ["data", "header", "prev", "id"]) : get sent key = .undefined := by
    refine (get_cases sent key).resolve_right fun member => ?_
    obtain ⟨original, given, _⟩ := mem_sent _ member
    exact other (names_eq ▸ List.mem_map_of_mem given)
  refine convertPlain nodup (absent (by decide)) (absent (by decide)) (absent (by decide)) decodeLink_falsy
    decodeBytes_falsy ?_ ?_
  · intro key isLink truthy
    have held := origin key fun none => by
      rw [none] at truthy
      cases truthy
    obtain ⟨c, given, which⟩ : ∃ c, get (plain data header prev id).toObject key = property c .cid ∧
        (c = id ∨ c = prev) := get_link isLink
    rw [plainChange_link isLink, given] at held
    rw [held] at truthy ⊢
    cases c with
    | none => cases truthy
    | some c =>
      have real : c.WellFormed := by
        rcases which with isId | isPrev
        · exact ids c isId.symm
        · exact prevs c isPrev.symm
      have read := Cid.parse_toString real
      simp only [property, encodeLink, jsonCopy, valueToCID, toCID, decodeLink, read]
      rfl
  · intro h isHeader
    have held := origin "header" (by simp [isHeader])
    rw [isHeader, get_header] at held
    cases header with
    | none => cases held
    | some given =>
      obtain rfl : h = jsonFields (edit HEADER_BYTES encodeBytes given) := JsValue.obj.inj held
      refine ⟨names_jsonFields_nodup (by simpa using distinct given rfl), fun key special truthy => ?_⟩
      exact sent_converts stringOf (convertible given rfl) special truthy

/-- A serialized commit had a header that can be encoded. -/
theorem convertible_of_serialize (wellFormed : (plain data header prev id).WellFormed) {serialized : JsObject}
    (succeeded : serializeCommit stringOf (plain data header prev id).toObject = .ok serialized) :
    ∀ h ∈ header, Convertible h := by
  rintro h rfl field member special truthy
  unfold serializeCommit at succeeded
  rw [convertCommit_plain nodup_plain rfl rfl rfl encodeLink_falsy links_convert] at succeeded
  unfold convertHeader at succeeded
  have isHeader : get (edit ["prev"] encodeLink (edit ["id"] encodeLink (plain data (some h) prev id).toObject))
      "header" = .obj h := by
    rw [get_edit_other (by decide) _, get_edit_other (by decide) _]
    rfl
  rw [isHeader] at succeeded
  obtain ⟨result, converted, _⟩ := bind_eq_ok.mp succeeded
  have distinct := wellFormed.1 h rfl
  have held := get_of_mem distinct member
  obtain ⟨value, encoded⟩ := converts_of_convertFields (by decide) distinct converted field.1 special
    (held ▸ truthy)
  rw [held] at encoded
  cases value_eq : field.2 with
  | bytes b => exact ⟨b, rfl⟩
  | _ =>
    rw [value_eq] at encoded
    cases encoded

theorem convertible_of_survives (survives : (plain data header prev id).survives = true) :
    ∀ h ∈ header, Convertible h := by
  rintro h rfl field member special truthy
  have each := (Bool.and_eq_true_iff.mp survives).2
  have kept := List.all_eq_true.mp each field member
  unfold headerFieldSurvives at kept
  rw [if_pos special] at kept
  cases value_eq : field.2 with
  | bytes b => exact ⟨b, rfl⟩
  | _ =>
    rw [value_eq] at kept truthy
    simp [byteFieldSurvives, truthy] at kept

/-- An identifier comes back. -/
theorem link_sent {c : Option Cid} (real : ∀ cid ∈ c, cid.WellFormed) :
    (property c .cid).encodeLink.jsonCopy.decodeLink = property c .cid := by
  cases c with
  | none => rfl
  | some c => simp only [property, encodeLink, jsonCopy, decodeLink, Cid.parse_toString (real c rfl)]

theorem plain_roundTrips_iff (wellFormed : (plain data header prev id).WellFormed) :
    (plain data header prev id).RoundTrips stringOf ↔ (plain data header prev id).survives = true := by
  by_cases convertible : ∀ h ∈ header, Convertible h
  · have serialized : serializeCommit stringOf _ = .ok _ := serialize_plain wellFormed convertible
    have deserialized : deserializeCommit stringOf _ = .ok _ := deserialize_plain wellFormed convertible
    have sent := definedFields_sent (plainChange encodeLink encodeBytes) (plainChange decodeLink decodeBytes)
      (plainChange_eq_undefined encodeBytes encodeLink_eq_undefined)
      (plainChange_eq_undefined decodeBytes decodeLink_eq_undefined) (plain data header prev id).toObject
    have whole : (plain data header prev id).RoundTrips stringOf ↔ ∀ field ∈ (plain data header prev id).toObject,
        SameDefined (plainChange decodeLink decodeBytes field.1
          (plainChange encodeLink encodeBytes field.1 field.2).jsonCopy) field.2 := by
      rw [← sent]
      constructor
      · rintro ⟨_, _, serialize, deserialize, same⟩
        obtain rfl := Except.ok.inj (serialized.symm.trans serialize)
        obtain rfl := Except.ok.inj (deserialized.symm.trans deserialize)
        exact JsValue.obj.inj same
      · intro same
        exact ⟨_, _, serialized, deserialized, congrArg JsValue.obj same⟩
    obtain ⟨_, prevs, ids⟩ := wellFormed
    have headers : SameDefined (plainChange decodeLink decodeBytes "header"
        (plainChange encodeLink encodeBytes "header" (property header .obj)).jsonCopy) (property header .obj) ↔
        header.all (·.all headerFieldSurvives) = true := by
      cases header with
      | none => simp [SameDefined, property, plainChange, onObject, jsonCopy]
      | some h =>
        refine Iff.trans ?_ (header_sent (convertible h rfl))
        exact ⟨fun same => JsValue.obj.inj same, fun same => congrArg JsValue.obj same⟩
    have prevSent : SameDefined (property prev .cid).encodeLink.jsonCopy.decodeLink (property prev .cid) :=
      congrArg defined (link_sent prevs)
    have idSent : SameDefined (property id .cid).encodeLink.jsonCopy.decodeLink (property id .cid) :=
      congrArg defined (link_sent ids)
    rw [whole, toObject, survives, Bool.and_eq_true]
    simp only [List.forall_mem_cons, headers]
    constructor
    · rintro ⟨dataSame, headerSurvives, _⟩
      exact ⟨(jsonCopy_same data).mp dataSame, headerSurvives⟩
    · rintro ⟨dataJson, headerSurvives⟩
      exact ⟨(jsonCopy_same data).mpr dataJson, headerSurvives, prevSent, idSent, fun _ none => nomatch none⟩
  · constructor
    · rintro ⟨serialized, _, succeeded, _⟩
      exact absurd (convertible_of_serialize wellFormed succeeded) convertible
    · intro survives
      exact absurd (convertible_of_survives survives) convertible

/-- The signatures of an envelope are JSON. -/
theorem signatures_isJson (jws : JwsEnvelope) : jws.signaturesValue.isJson = true := by
  unfold JwsEnvelope.signaturesValue isJson
  induction jws.signatures with
  | nil => rfl
  | cons signature signatures ih => simp [itemsAreJson, isJson, fieldsAreJson, ih]

/-- An envelope that was sent, with its link as text. -/
theorem envelope_sent (jws : JwsEnvelope) :
    jsonFields [("payload", .str jws.payload), ("signatures", jws.signaturesValue), ("link", .str jws.link.toString)] =
      [("payload", .str jws.payload), ("signatures", jws.signaturesValue.jsonCopy), ("link", .str jws.link.toString)] := by
  simp [jsonFields, jsonCopy, JwsEnvelope.signaturesValue]

theorem envelope_same (jws : JwsEnvelope) :
    SameDefined (.obj [("payload", .str jws.payload), ("signatures", jws.signaturesValue.jsonCopy), ("link", .cid jws.link)])
      (.obj jws.toObject) := by
  have signatures := (jsonCopy_same jws.signaturesValue).mpr (signatures_isJson jws)
  unfold SameDefined at signatures
  have sent : jws.signaturesValue.jsonCopy ≠ .undefined := by simp [JwsEnvelope.signaturesValue, jsonCopy]
  have given : jws.signaturesValue ≠ .undefined := by simp [JwsEnvelope.signaturesValue]
  simp [SameDefined, defined, definedFields, JwsEnvelope.toObject, sent, given, signatures]

theorem valueToCID_toString {c : Cid} (wellFormed : c.WellFormed) :
    valueToCID (.str c.toString) = .ok (.cid c) := by
  have read : toCID (.str c.toString) = .ok c := Cid.parse_toString wellFormed
  unfold valueToCID
  rw [read]
  rfl

theorem toString_ne_empty {c : Cid} (wellFormed : c.WellFormed) : c.toString ≠ "" :=
  Cid.toString_ne wellFormed rfl

theorem signed_roundTrips (jws : JwsEnvelope) (wellFormed : jws.link.WellFormed) :
    (signed jws).RoundTrips stringOf := by
  refine ⟨_, _, rfl, ?_, envelope_same jws⟩
  have link := valueToCID_toString wellFormed
  change deserializeCommit stringOf (jsonFields [("payload", .str jws.payload),
    ("signatures", jws.signaturesValue), ("link", .str jws.link.toString)]) = _
  rw [envelope_sent]
  simp [deserializeCommit, convertCommit, StreamUtils.isSignedCommitContainer, isSignedCommit, isAnchorCommit, setField,
    convertField, convertHeader, JsObject.get, JsObject.get?, JsObject.set, link, JsValue.truthy, bind,
    Except.bind, pure, Except.pure]

theorem anchor_roundTrips {id prev proof : Cid} (path : String) (idReal : id.WellFormed) (prevReal : prev.WellFormed)
    (proofReal : proof.WellFormed) : (anchor id prev proof path).RoundTrips stringOf := by
  refine ⟨_, (anchor id prev proof path).toObject, rfl, ?_, rfl⟩
  change deserializeCommit stringOf (jsonFields [("id", .str id.toString), ("prev", .str prev.toString),
    ("proof", .str proof.toString), ("path", .str path)]) = _
  simp [jsonFields, jsonCopy, deserializeCommit, convertCommit, StreamUtils.isSignedCommitContainer, isSignedCommit,
    isAnchorCommit, setField, convertField, convertHeader, JsObject.get, JsObject.get?, JsObject.set,
    valueToCID_toString idReal, valueToCID_toString prevReal, valueToCID_toString proofReal, JsValue.truthy,
    toString_ne_empty idReal, toString_ne_empty prevReal, bind, Except.bind, pure, Except.pure, toObject]

/-- What a capability block is read as: an empty text holds nothing to decode. -/
def cacaoRead : Option (List UInt8) → JsObject
  | none => []
  | some b => [("cacaoBlock", if b = [] then .str "" else .bytes b)]

theorem deserialize_container {jws : JwsEnvelope} (wellFormed : jws.link.WellFormed) (linkedBlock : List UInt8)
    (cacaoBlock : Option (List UInt8)) :
    deserializeCommit stringOf (jsonFields [("jws", .obj [("payload", .str jws.payload),
        ("signatures", jws.signaturesValue), ("link", .str jws.link.toString)]),
      ("linkedBlock", .str (base64Encode linkedBlock)),
      ("cacaoBlock", property (cacaoBlock.map base64Encode) .str)]) =
    .ok (("jws", .obj [("payload", .str jws.payload), ("signatures", jws.signaturesValue.jsonCopy),
        ("link", .cid jws.link)]) :: ("linkedBlock", .bytes linkedBlock) :: cacaoRead cacaoBlock) := by
  have link := valueToCID_toString wellFormed
  have linked : fromBase64 stringOf (.str (base64Encode linkedBlock)) = .ok (.bytes linkedBlock) := by
    simp [fromBase64, base64Decode_encode, bind, Except.bind, pure, Except.pure]
  cases cacaoBlock with
  | none =>
    simp [jsonFields, jsonCopy, property, deserializeCommit, convertCommit, StreamUtils.isSignedCommitContainer,
      convertJws, setField, convertField, JsObject.get, JsObject.get?, JsObject.set, JsValue.truthy, bind, Except.bind,
      pure, Except.pure, JwsEnvelope.signaturesValue, link, linked, cacaoRead]
  | some b =>
    have capability : fromBase64 stringOf (.str (base64Encode b)) = .ok (.bytes b) := by
      simp [fromBase64, base64Decode_encode, bind, Except.bind, pure, Except.pure]
    by_cases empty : b = [] <;>
      simp [jsonFields, jsonCopy, property, deserializeCommit, convertCommit, StreamUtils.isSignedCommitContainer,
        convertJws, setField, convertField, JsObject.get, JsObject.get?, JsObject.set, JsValue.truthy, bind,
        Except.bind, pure, Except.pure, JwsEnvelope.signaturesValue, link, linked, capability, empty, base64Encode_eq_empty, cacaoRead]

theorem serialize_container (jws : JwsEnvelope) (linkedBlock : List UInt8) (cacaoBlock : Option (List UInt8)) :
    serializeCommit stringOf (container jws linkedBlock cacaoBlock).toObject =
      .ok [("jws", .obj [("payload", .str jws.payload), ("signatures", jws.signaturesValue),
          ("link", .str jws.link.toString)]),
        ("linkedBlock", .str (base64Encode linkedBlock)),
        ("cacaoBlock", property (cacaoBlock.map base64Encode) .str)] := by
  cases cacaoBlock <;> rfl

theorem container_roundTrips_iff (jws : JwsEnvelope) (linkedBlock : List UInt8) (cacaoBlock : Option (List UInt8))
    (wellFormed : jws.link.WellFormed) :
    (container jws linkedBlock cacaoBlock).RoundTrips stringOf ↔ cacaoBlock ≠ some [] := by
  have serialized : serializeCommit stringOf (container jws linkedBlock cacaoBlock).toObject = .ok _ :=
    serialize_container jws linkedBlock cacaoBlock
  have deserialized : deserializeCommit stringOf _ = .ok _ := deserialize_container wellFormed linkedBlock cacaoBlock
  have envelope := envelope_same jws
  unfold SameDefined at envelope
  have whole : (container jws linkedBlock cacaoBlock).RoundTrips stringOf ↔
      definedFields (cacaoRead cacaoBlock) = definedFields [("cacaoBlock", property cacaoBlock .bytes)] := by
    constructor
    · rintro ⟨_, _, serialize, deserialize, same⟩
      obtain rfl := Except.ok.inj (serialized.symm.trans serialize)
      obtain rfl := Except.ok.inj (deserialized.symm.trans deserialize)
      have fields := JsValue.obj.inj same
      simp only [definedFields, toObject, reduceCtorEq, if_false, List.cons.injEq] at fields
      simpa only [definedFields] using fields.2.2
    · intro same
      refine ⟨_, _, serialized, deserialized, congrArg JsValue.obj ?_⟩
      simp only [definedFields] at same
      simp only [definedFields, toObject, reduceCtorEq, if_false, envelope, same]
  rw [whole]
  cases cacaoBlock with
  | none => simp [cacaoRead, property, definedFields]
  | some b => by_cases empty : b = [] <;> simp [cacaoRead, property, definedFields, defined, empty]

/-- Commits of all shapes come back exactly if what they hold survives: JSON as it is, identifiers and
blocks as text, and byte fields of a header that are not empty. -/
theorem commit_roundTrips_iff (stringOf : JsValue → String) (commit : StreamCommit)
    (wellFormed : commit.WellFormed) : commit.RoundTrips stringOf ↔ commit.survives = true := by
  cases commit with
  | container jws linkedBlock cacaoBlock =>
    rw [container_roundTrips_iff jws linkedBlock cacaoBlock wellFormed, survives, bne_iff_ne]
  | signed jws => exact iff_of_true (signed_roundTrips jws wellFormed) rfl
  | anchor id prev proof path =>
    obtain ⟨idReal, prevReal, proofReal⟩ := wellFormed
    exact iff_of_true (anchor_roundTrips path idReal prevReal proofReal) rfl
  | plain data header prev id => exact plain_roundTrips_iff wellFormed

end

namespace SerializationFixture

/-- The genesis of a document whose identity are given bytes. -/
def documentGenesis : StreamCommit :=
  .plain .null (some [("controllers", .arr [.str "did:key:z6Mk"]), ("model", .bytes [206, 1, 2, 1]),
    ("sep", .str "model"), ("unique", .bytes [97])]) none none

theorem documentGenesis_wellFormed : documentGenesis.WellFormed := by
  refine ⟨?_, by simp⟩
  rintro h isHeader
  obtain rfl := Option.some.inj isHeader
  decide

end SerializationFixture

open SerializationFixture

theorem document_genesis_roundTrips : documentGenesis.RoundTrips (fun _ => "") :=
  (commit_roundTrips_iff (fun _ => "") documentGenesis documentGenesis_wellFormed).mpr (by decide)

end StreamCommit

end Ceramic
