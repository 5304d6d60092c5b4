import Ceramic.AnchorProcessingLoop
import Ceramic.CidParsing
import Ceramic.KVStores
import Ceramic.Library.CursorScan

/-! The requests for anchors as they are stored: one text for each stream, under the text of its identifier. -/
namespace Ceramic

open CursorScan (params)

/-- What is read of a stored request. -/
structure StoredRequest where
  cid : Cid
  timestamp : JsValue
  deriving DecidableEq, Repr

def AnchorRequestData.stored (data : AnchorRequestData) : StoredRequest := ⟨data.cid, .num data.timestamp⟩

def AnchorRequestData.value (data : AnchorRequestData) : JsValue :=
  .obj [("cid", .str data.cid.toString), ("timestamp", .num data.timestamp)]

def serializeAnchorRequestData (json : JsonText) (value : AnchorRequestData) : String := json.stringify value.value

/-- `CID.parse` of any value. -/
def parseCidValue : JsValue → Except JsError Cid
  | .str text => Cid.parse text
  | .undefined => .error ⟨"Cannot read properties of undefined (reading '0')"⟩
  | .null => .error ⟨"Cannot read properties of null (reading '0')"⟩
  | _ => .error ⟨"To parse non base32, base36 or base58btc encoded CID multibase decoder must be provided"⟩

/-- The text that `JSON.parse` makes of its argument. -/
def textOfValue (json : JsonText) : JsValue → String
  | .str text => text
  | value => json.string value

def deserializeAnchorRequestData (json : JsonText) (serialized : JsValue) : Except JsError StoredRequest := do
  let parsed ← json.parse (textOfValue json serialized)
  let cid ← parsed.prop "cid"
  let cid ← parseCidValue cid
  let timestamp ← parsed.prop "timestamp"
  return { cid, timestamp }

/-- The object, with the store that it has opened. -/
structure AnchorRequestStore where
  minLoopDurationMs : Nat
  minLoopJitterMs : Nat := 100
  store : Option LevelDatabase := none
  shouldStop : Bool := false
  /-- `close` waits for the store to be closed. -/
  closing : Bool := false

inductive StoreAction where
  | opened (level : LevelDatabase)
  | save (id : StreamID) (data : AnchorRequestData)
  | remove (id : StreamID)
  | close
  | closed

/-- The text of an identifier, as a key. -/
def StreamID.storeKey (id : StreamID) : StoreKey := ⟨id.toString⟩

def generateKey : Option StreamID → Except JsError (Option StoreKey)
  | some id => do return some ⟨← id.toText⟩
  | none => .ok none

/-- `StreamID.fromString`. -/
def readStreamID (text : String) : Except JsError StreamID :=
  StreamID.fromString (fun text => (Cid.parse text).toOption) text

namespace AnchorRequestStore

def notOpened : String :=
  "AnchorRequestStore is closed, you need to call async open(...), before performing other operations"

def save (json : JsonText) (id : StreamID) (data : AnchorRequestData) (s : AnchorRequestStore) :
    Except StoreError AnchorRequestStore :=
  match s.store, id.toText with
  | none, _ => .error { message := notOpened }
  | some _, .error e => .error { message := e.message }
  | some level, .ok key =>
    (LevelKVStore.put json ⟨key⟩ (.str (serializeAnchorRequestData json data)) level).map fun level =>
      { s with store := some level }

def remove (id : StreamID) (s : AnchorRequestStore) : Except StoreError AnchorRequestStore :=
  match s.store, id.toText with
  | none, _ => .error { message := notOpened }
  | some _, .error e => .error { message := e.message }
  | some level, .ok key => .ok { s with store := some (level.del ⟨key⟩) }

def load (json : JsonText) (id : StreamID) (s : AnchorRequestStore) : Except StoreError (Option StoredRequest) :=
  match s.store, id.toText with
  | none, _ => .error { message := notOpened }
  | some _, .error e => .error { message := e.message }
  | some level, .ok key =>
    match LevelKVStore.get json ⟨key⟩ level with
    | .error e => if e.notFound then .ok none else .error e
    | .ok serialized =>
      if serialized.truthy then
        match deserializeAnchorRequestData json serialized with
        | .ok request => .ok (some request)
        | .error e => .error { message := e.message }
      else .ok none

/-- What fails changes nothing. -/
def step (json : JsonText) (s : AnchorRequestStore) : StoreAction → AnchorRequestStore
  | .opened level => { s with store := some level }
  | .save id data => (save json id data s).toOption.getD s
  | .remove id => (remove id s).toOption.getD s
  | .close => { s with shouldStop := true, closing := s.store.isSome }
  | .closed => if s.closing then { s with store := none, closing := false } else s

/-- It has been opened, and not been closed since. -/
def isOpen (s : AnchorRequestStore) : Bool := s.store.isSome && !s.closing

/-- `this.store.find({ limit: batchSize, gt: generateKey(gt) })`. -/
def find (json : JsonText) (batchSize : Nat) (gt : Option StreamID) (s : AnchorRequestStore) :
    Except JsError (List (StoreKey × JsValue)) :=
  match s.store, generateKey gt with
  | none, _ => .error ⟨"Cannot read properties of undefined (reading 'find')"⟩
  | some _, .error e => .error e
  | some level, .ok gt => (LevelKVStore.find json (params batchSize gt) level).mapError fun e => ⟨e.message⟩

end AnchorRequestStore

/-- The identifier is read back from its text. -/
structure StreamID.Readable (id : StreamID) : Prop where
  safe : id.type ≤ MAX_SAFE_INTEGER
  wellFormed : id.cid.WellFormed
  isV1 : id.cid.isV0 = false

/-- The two texts that a request is stored as are read back. -/
structure JsonText.ReadsBack (json : JsonText) (data : AnchorRequestData) : Prop where
  text : json.parse (json.stringify (.str (serializeAnchorRequestData json data))) =
    .ok (.str (serializeAnchorRequestData json data))
  value : json.parse (serializeAnchorRequestData json data) = .ok data.value

/-- A request that can be read back. -/
structure ReadableRequest (json : JsonText) (request : StreamID × AnchorRequestData) : Prop where
  id : request.1.Readable
  cid : request.2.cid.WellFormed
  reads : json.ReadsBack request.2

/-- The entry that `save` leaves in the database. -/
def storedEntry (json : JsonText) (request : StreamID × AnchorRequestData) : StoreKey × String :=
  (request.1.storeKey, json.stringify (.str (serializeAnchorRequestData json request.2)))

/-- The same entry as it is found. -/
def foundEntry (json : JsonText) (request : StreamID × AnchorRequestData) : StoreKey × JsValue :=
  (request.1.storeKey, .str (serializeAnchorRequestData json request.2))

/-- Everything in a database is a request that was saved. -/
def AllRequests (json : JsonText) (level : LevelDatabase) : Prop :=
  ∀ entry ∈ level.entries, ∃ request, ReadableRequest json request ∧ storedEntry json request = entry

theorem StreamID.storeKey_injective {a b : StreamID} (same : a.storeKey = b.storeKey) : a = b :=
  StreamID.toString_injective (StoreKey.mk.inj same)

theorem StreamID.toText_of_safe {id : StreamID} (safe : id.type ≤ MAX_SAFE_INTEGER) : id.toText = .ok id.toString := by
  unfold toText encode
  rw [encodeRef_safe safe]
  rfl

theorem StreamID.text_unique {id : StreamID} {text : String} (isText : id.toText = .ok text) : text = id.toString := by
  by_cases safe : id.type ≤ MAX_SAFE_INTEGER
  · rw [toText_of_safe safe] at isText
    exact (Except.ok.inj isText).symm
  · unfold toText encode at isText
    rw [encodeRef_overflow (Nat.lt_of_not_le safe)] at isText
    cases isText

theorem StreamID.Readable.read {id : StreamID} (readable : id.Readable) : readStreamID id.toString = .ok id := by
  obtain ⟨text, isText, read⟩ := bind_eq_ok.mp
    ((StreamID.text_roundTrips_iff readable.wellFormed).mpr ⟨readable.safe, readable.isV1⟩)
  rw [toText_of_safe readable.safe] at isText
  obtain rfl := Except.ok.inj isText
  exact read

theorem generateKey_of_safe {gt : Option StreamID} (safe : ∀ id ∈ gt, id.type ≤ MAX_SAFE_INTEGER) :
    generateKey gt = .ok (gt.map StreamID.storeKey) := by
  cases gt with
  | none => rfl
  | some id =>
    dsimp only [generateKey]
    rw [StreamID.toText_of_safe (safe id rfl)]
    rfl

theorem deserialize_serialize {json : JsonText} {data : AnchorRequestData} (reads : json.ReadsBack data)
    (wellFormed : data.cid.WellFormed) :
    deserializeAnchorRequestData json (.str (serializeAnchorRequestData json data)) = .ok data.stored := by
  have parsed : json.parse (textOfValue json (.str (serializeAnchorRequestData json data))) = .ok data.value := reads.value
  unfold deserializeAnchorRequestData
  rw [parsed]
  have cid : parseCidValue (.str data.cid.toString) = .ok data.cid := Cid.parse_toString wellFormed
  have isCid : data.value.prop "cid" = .ok (.str data.cid.toString) := rfl
  have isTimestamp : data.value.prop "timestamp" = .ok (.num data.timestamp) := rfl
  simp only [bind, Except.bind, isCid, cid, isTimestamp]
  rfl

theorem decode_requests {json : JsonText} {requests : List (StreamID × AnchorRequestData)}
    (readable : ∀ request ∈ requests, ReadableRequest json request) :
    decodeEntries json (requests.map (storedEntry json)) = .ok (requests.map (foundEntry json)) := by
  induction requests with
  | nil => rfl
  | cons request requests ih =>
    have first := (readable request List.mem_cons_self).reads.text
    have rest := ih fun other member => readable other (List.mem_cons_of_mem _ member)
    unfold decodeEntries at rest ⊢
    rw [List.map_cons, List.mapM_cons, rest, storedEntry, first]
    rfl

namespace AllRequests

variable {json : JsonText} {level : LevelDatabase}

theorem empty (json : JsonText) : AllRequests json .empty := nofun

theorem put (requests : AllRequests json level) {request : StreamID × AnchorRequestData}
    (readable : ReadableRequest json request) :
    AllRequests json (level.put (storedEntry json request).1 (storedEntry json request).2) := by
  intro entry member
  rcases OrderedMap.mem_insertEntry member with rfl | old
  · exact ⟨request, readable, rfl⟩
  · exact requests entry old

theorem del (requests : AllRequests json level) (key : StoreKey) : AllRequests json (level.del key) :=
  fun entry member => requests entry (List.mem_filter.mp member).1

/-- What a search finds. -/
theorem search (requests : AllRequests json level) (batchSize : Nat) (cursor : Option StoreKey) :
    ∃ found : List (StreamID × AnchorRequestData), level.search (params batchSize cursor) = found.map (storedEntry json) ∧
      ∀ request ∈ found, ReadableRequest json request := by
  have each : ∀ entry ∈ level.search (params batchSize cursor),
      ∃ request, ReadableRequest json request ∧ storedEntry json request = entry := by
    intro entry member
    rw [CursorScan.search_params] at member
    exact requests entry (CursorScan.mem_range_iff.mp (List.mem_of_mem_take member)).1
  generalize level.search (params batchSize cursor) = entries at each
  induction entries with
  | nil => exact ⟨[], rfl, nofun⟩
  | cons entry entries ih =>
    obtain ⟨request, readable, rfl⟩ := each entry List.mem_cons_self
    obtain ⟨found, rfl, all⟩ := ih fun other member => each other (List.mem_cons_of_mem _ member)
    exact ⟨request :: found, rfl, List.forall_mem_cons.mpr ⟨readable, all⟩⟩

/-- A read gives the requests behind the cursor. -/
theorem find (requests : AllRequests json level) {s : AnchorRequestStore} (isStore : s.store = some level)
    (batchSize : Nat) {gt : Option StreamID} (safe : ∀ id ∈ gt, id.type ≤ MAX_SAFE_INTEGER) :
    ∃ found : List (StreamID × AnchorRequestData), s.find json batchSize gt = .ok (found.map (foundEntry json)) ∧
      (∀ request ∈ found, ReadableRequest json request) ∧
      level.search (params batchSize (gt.map StreamID.storeKey)) = found.map (storedEntry json) := by
  obtain ⟨found, searched, readable⟩ := requests.search batchSize (gt.map StreamID.storeKey)
  refine ⟨found, ?_, readable, searched⟩
  unfold AnchorRequestStore.find LevelKVStore.find
  rw [isStore, generateKey_of_safe safe]
  dsimp only
  rw [searched, decode_requests readable]
  rfl

end AllRequests

namespace AnchorRequestStore

/-- There is something under a key. -/
def HasKey (s : AnchorRequestStore) (k : StoreKey) : Prop := ∃ level ∈ s.store, (level.get? k).isSome

/-- A store is opened that was not closed before, on requests that were saved; and what is saved can be read back. -/
def Proper (json : JsonText) (s : AnchorRequestStore) : StoreAction → Prop
  | .opened level => s.shouldStop = false ∧ AllRequests json level
  | .save id data => id.cid.WellFormed ∧ id.cid.isV0 = false ∧ data.cid.WellFormed ∧ json.ReadsBack data
  | _ => True

/-- What holds of the object. -/
structure Sound (json : JsonText) (s : AnchorRequestStore) : Prop where
  requests : ∀ level ∈ s.store, AllRequests json level
  stopped : s.shouldStop = true → s.isOpen = false

theorem Sound.withStore {json : JsonText} {s : AnchorRequestStore} (sound : Sound json s) {before level : LevelDatabase}
    (isStore : s.store = some before) (requests : AllRequests json level) : Sound json { s with store := some level } := by
  refine ⟨fun other written => Option.some.inj written ▸ requests, fun stopped => ?_⟩
  have closed := sound.stopped stopped
  unfold isOpen at closed ⊢
  rw [isStore] at closed
  exact closed

theorem save_eq_ok {json : JsonText} {id : StreamID} {data : AnchorRequestData} {s s' : AnchorRequestStore}
    (saved : save json id data s = .ok s') : ∃ level, s.store = some level ∧ id.type ≤ MAX_SAFE_INTEGER ∧
      s' = { s with store := some (level.put (storedEntry json (id, data)).1 (storedEntry json (id, data)).2) } := by
  unfold save at saved
  cases isStore : s.store with
  | none =>
    rw [isStore] at saved
    cases saved
  | some level =>
    rw [isStore] at saved
    by_cases safe : id.type ≤ MAX_SAFE_INTEGER
    · rw [StreamID.toText_of_safe safe] at saved
      exact ⟨level, rfl, safe, (Except.ok.inj saved).symm⟩
    · have overflow : id.toText = .error ⟨"Could not encode varint"⟩ := by
        unfold StreamID.toText StreamID.encode
        rw [encodeRef_overflow (Nat.lt_of_not_le safe)]
        rfl
      rw [overflow] at saved
      cases saved

/-- What is loaded is the request that was saved. -/
theorem load_eq_some {json : JsonText} {s : AnchorRequestStore} {level : LevelDatabase} (isStore : s.store = some level)
    {request : StreamID × AnchorRequestData} (readable : ReadableRequest json request)
    (member : storedEntry json request ∈ level.entries) {value : StoredRequest}
    (loaded : s.load json request.1 = .ok (some value)) : value = request.2.stored := by
  have found : level.get? ⟨request.1.toString⟩ = some (storedEntry json request).2 :=
    OrderedMap.get?_eq_some_iff.mpr member
  have parsed : json.parse (storedEntry json request).2 = .ok (.str (serializeAnchorRequestData json request.2)) :=
    readable.reads.text
  have got : LevelKVStore.get json ⟨request.1.toString⟩ level = .ok (.str (serializeAnchorRequestData json request.2)) := by
    unfold LevelKVStore.get
    rw [found]
    dsimp only
    rw [parsed]
  unfold load at loaded
  rw [isStore, StreamID.toText_of_safe readable.id.safe] at loaded
  dsimp only at loaded
  rw [got] at loaded
  dsimp only at loaded
  split at loaded
  · rw [deserialize_serialize readable.reads readable.cid] at loaded
    exact (Option.some.inj (Except.ok.inj loaded)).symm
  · cases loaded

theorem hasKey_of_load {json : JsonText} {s : AnchorRequestStore} {id : StreamID} {value : StoredRequest}
    (loaded : s.load json id = .ok (some value)) : s.HasKey id.storeKey := by
  unfold load at loaded
  cases isStore : s.store with
  | none =>
    rw [isStore] at loaded
    cases loaded
  | some level =>
    rw [isStore] at loaded
    cases text : id.toText with
    | error e =>
      rw [text] at loaded
      cases loaded
    | ok key =>
      rw [text] at loaded
      dsimp only at loaded
      refine ⟨level, isStore, ?_⟩
      cases found : level.get? id.storeKey with
      | some text => rfl
      | none =>
        have got : ∃ e, LevelKVStore.get json ⟨key⟩ level = .error e ∧ e.notFound = true := by
          have sameKey : (⟨key⟩ : StoreKey) = id.storeKey := congrArg StoreKey.mk (StreamID.text_unique text)
          unfold LevelKVStore.get
          rw [sameKey, found]
          exact ⟨_, rfl, rfl⟩
        obtain ⟨e, failed, notFound⟩ := got
        rw [failed] at loaded
        dsimp only at loaded
        rw [if_pos notFound] at loaded
        cases loaded

theorem remove_eq_ok {id : StreamID} {s s' : AnchorRequestStore} (removed : remove id s = .ok s') :
    ∃ level key, s.store = some level ∧ s' = { s with store := some (level.del key) } := by
  unfold remove at removed
  cases isStore : s.store with
  | none =>
    rw [isStore] at removed
    cases removed
  | some level =>
    rw [isStore] at removed
    cases text : id.toText with
    | error e =>
      rw [text] at removed
      cases removed
    | ok key =>
      rw [text] at removed
      exact ⟨level, ⟨key⟩, rfl, (Except.ok.inj removed).symm⟩

/-- Once it is to stop, it stays so. -/
theorem shouldStop_step {json : JsonText} {s : AnchorRequestStore} {a : StoreAction} (stops : s.shouldStop = true) :
    (s.step json a).shouldStop = true := by
  cases a with
  | opened level => exact stops
  | save id data =>
    dsimp only [AnchorRequestStore.step]
    cases result : save json id data s with
    | error e => exact stops
    | ok s' =>
      obtain ⟨_, _, _, rfl⟩ := save_eq_ok result
      exact stops
  | remove id =>
    dsimp only [AnchorRequestStore.step]
    cases result : remove id s with
    | error e => exact stops
    | ok s' =>
      obtain ⟨_, _, _, rfl⟩ := remove_eq_ok result
      exact stops
  | close => rfl
  | closed =>
    dsimp only [AnchorRequestStore.step]
    split <;> exact stops

theorem Sound.step {json : JsonText} {s : AnchorRequestStore} (sound : Sound json s) {a : StoreAction}
    (proper : s.Proper json a) : Sound json (s.step json a) := by
  cases a with
  | opened level =>
    obtain ⟨notStopped, requests⟩ := proper
    refine ⟨fun other isStore => Option.some.inj isStore ▸ requests, fun stopped => ?_⟩
    exact absurd (notStopped.symm.trans stopped) Bool.false_ne_true
  | save id data =>
    obtain ⟨wellFormed, isV1, cid, reads⟩ := proper
    dsimp only [AnchorRequestStore.step]
    cases result : save json id data s with
    | error e => exact sound
    | ok s' =>
      obtain ⟨level, isStore, safe, rfl⟩ := save_eq_ok result
      exact sound.withStore isStore ((sound.requests level isStore).put ⟨⟨safe, wellFormed, isV1⟩, cid, reads⟩)
  | remove id =>
    dsimp only [AnchorRequestStore.step]
    cases result : remove id s with
    | error e => exact sound
    | ok s' =>
      obtain ⟨level, key, isStore, rfl⟩ := remove_eq_ok result
      exact sound.withStore isStore ((sound.requests level isStore).del key)
  | close =>
    refine ⟨sound.requests, fun _ => ?_⟩
    dsimp only [AnchorRequestStore.step, isOpen]
    cases s.store <;> rfl
  | closed =>
    dsimp only [AnchorRequestStore.step]
    split
    · exact ⟨nofun, fun _ => rfl⟩
    · exact sound

end AnchorRequestStore

end Ceramic
