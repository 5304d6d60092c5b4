import Ceramic.StateSerialization
import Ceramic.Library.Transition

/-! The states that commits lead to, whichever handler applies them, and what is read of them once
they were stored. -/
namespace Ceramic

open JsObject

theorem JsObject.mem_set {o : JsObject} {key : String} {value : JsValue} {field : String × JsValue}
    (member : field ∈ set o key value) : field = (key, value) ∨ field ∈ o := by
  unfold set at member
  split at member
  · obtain ⟨original, inside, same⟩ := List.mem_map.mp member
    split at same
    · exact .inl same.symm
    · exact .inr (same ▸ inside)
  · rcases List.mem_append.mp member with old | new
    · exact .inr old
    · exact .inl (List.mem_singleton.mp new)

theorem JsObject.names_set_nodup {o : JsObject} (distinct : (names o).Nodup) (key : String) (value : JsValue) :
    (names (set o key value)).Nodup := by
  unfold set
  split
  · have same : names (o.map fun field => if field.1 == key then (key, value) else field) = names o := by
      unfold names
      rw [List.map_map]
      apply List.map_congr_left
      intro field _
      by_cases isKey : field.1 = key <;> simp [isKey]
    rw [same]
    exact distinct
  next absent =>
    have fresh : key ∉ names o := by
      simpa [names, List.any_eq_true] using absent
    unfold names at distinct fresh ⊢
    rw [List.map_append, List.map_singleton, List.nodup_append]
    refine ⟨distinct, by simp, ?_⟩
    intro name inside other isKey same
    obtain rfl : other = key := List.mem_singleton.mp isKey
    exact fresh (same ▸ inside)

namespace StreamState.MetadataWellFormed

variable {metadata header : StreamMetadata}

theorem get (wellFormed : MetadataWellFormed metadata) {key : String} {id : StreamID}
    (held : JsObject.get metadata key = .streamID id) : id.cid.WellFormed := by
  rcases get_cases metadata key with absent | member
  · rw [absent] at held
    cases held
  · exact wellFormed.streams _ member id held

theorem set (wellFormed : MetadataWellFormed metadata) (key : String) {value : JsValue}
    (real : ∀ id, value = .streamID id → id.cid.WellFormed) :
    MetadataWellFormed (JsObject.set metadata key value) where
  names := names_set_nodup wellFormed.names key value
  streams := by
    intro field member id held
    rcases mem_set member with rfl | old
    · exact real id held
    · exact wellFormed.streams field old id held

theorem spread (wellFormed : MetadataWellFormed metadata) (other : MetadataWellFormed header) :
    MetadataWellFormed (JsObject.spread metadata header) := by
  have fields := other.streams
  clear other
  unfold JsObject.spread
  induction header generalizing metadata with
  | nil => exact wellFormed
  | cons field header ih =>
    have first := wellFormed.set field.1 (fields field List.mem_cons_self)
    exact ih first fun field inside => fields field (List.mem_cons_of_mem _ inside)

end StreamState.MetadataWellFormed

/-- The identifiers in a commit are real ones, also those its header holds as bytes, and the header is
an object. -/
structure CommitData.WellFormed (env : Environment) (commitData : CommitData) : Prop where
  cid : commitData.cid.WellFormed
  proof : ∀ proof ∈ commitData.proof, proof.txHash.WellFormed ∧ proof.root.WellFormed
  header : ∀ header ∈ commitData.commit.header, StreamState.MetadataWellFormed header
  streams : ∀ header ∈ commitData.commit.header, ∀ key id,
    env.streamIDFromBytes (JsObject.get header key) = .ok id → id.cid.WellFormed

namespace StreamState

/-- What the handlers and the anchoring of a stream do to its state. -/
inductive Change where
  | commit (commitData : CommitData)
  | anchorStatus (status : AnchorStatus)

def Change.WellFormed (env : Environment) : Change → Prop
  | .commit commitData => commitData.WellFormed env
  | .anchorStatus _ => True

/-- A commit is applied by the handler of the stream's type, if it is valid. -/
def step (env : Environment) (state : StreamState) : Change → Option StreamState
  | .commit commitData => match HandlersMap.get env state.type with
    | .ok handler => match handler.applyCommit commitData (some state) with
      | .applied next => some next
      | .threw _ _ => none
    | .error _ => none
  | .anchorStatus status => some { state with anchorStatus := status }

variable {env : Environment} {state next : StreamState} {c : CommitData}

/-- A step by a commit is one of the handler of the stream's type. -/
theorem applied_of_step {handler : StreamHandler} (registered : handler ∈ HandlersMap.defaultHandlers env)
    (sameType : state.type = handler.type) (stepped : step env state (.commit c) = some next) :
    handler.applyCommit c (some state) = .applied next := by
  unfold step at stepped
  simp only [sameType, HandlersMap.get_of_mem registered] at stepped
  split at stepped
  next applied => rw [applied, Option.some.inj stepped]
  next => cases stepped

/-- The parts of a state a handler can give an identifier to, apart from its log. -/
structure PartsWellFormed (state : StreamState) : Prop where
  proof : ∀ proof ∈ state.anchorProof, proof.txHash.WellFormed ∧ proof.root.WellFormed
  metadata : MetadataWellFormed state.metadata
  next : ∀ next ∈ state.next, ∀ metadata ∈ next.metadata, MetadataWellFormed metadata

theorem WellFormed.parts (wellFormed : state.WellFormed) : state.PartsWellFormed :=
  ⟨wellFormed.proof, wellFormed.metadata, wellFormed.next⟩

/-- The metadata that counts, pending or not. -/
theorem PartsWellFormed.current (parts : state.PartsWellFormed) :
    MetadataWellFormed ((state.next.bind (·.metadata)).getD state.metadata) := by
  cases given : state.next with
  | none => exact parts.metadata
  | some pending =>
    cases changed : pending.metadata with
    | none => simpa [changed] using parts.metadata
    | some metadata => simpa [changed] using parts.next pending given metadata changed

theorem anchoredState_parts (parts : state.PartsWellFormed) (real : c.WellFormed env) :
    (anchoredState c state).PartsWellFormed where
  proof := real.proof
  metadata := parts.current
  next := by simp [anchoredState]

end StreamState

open StreamState

/-- What holds of a result, if there is one. -/
def Ensures (post : α → Prop) (x : Except JsError α) : Prop := ∀ result, x = .ok result → post result

namespace Ensures

variable {post : α → Prop}

theorem returned {a : α} (holds : post a) : Ensures post (Except.ok a) := fun _ same => Except.ok.inj same ▸ holds

theorem thrown (e : JsError) : Ensures post (Except.error e) := fun _ same => nomatch same

theorem andThen {x : Except JsError β} {f : β → Except JsError α} (rest : ∀ b, x = .ok b → Ensures post (f b)) :
    Ensures post (x >>= f) := by
  intro result same
  obtain ⟨b, first, behind⟩ := bind_eq_ok.mp same
  exact rest b first result behind

theorem either {condition : Prop} [Decidable condition] {x y : Except JsError α} (whenTrue : Ensures post x)
    (whenFalse : Ensures post y) : Ensures post (if condition then x else y) := by
  split
  · exact whenTrue
  · exact whenFalse

end Ensures

variable {env : Environment} {c : CommitData} {state next : StreamState}

/-- A new state has metadata, and nothing else with an identifier but its log. -/
theorem parts_of_genesis (metadata : MetadataWellFormed state.metadata) (noProof : state.anchorProof = none)
    (noNext : ∀ pending ∈ state.next, pending.metadata = none) : state.PartsWellFormed where
  proof := by simp [noProof]
  metadata := metadata
  next := by
    intro pending given changed isChanged
    rw [noNext pending given] at isChanged
    cases isChanged

namespace TileDocumentHandler

theorem checkGenesis_header {header : JsObject} (checked : checkGenesis env c = .ok header) :
    c.commit.header = some header := by
  have checks : Ensures (fun header => c.commit.header = some header) (checkGenesis env c) := by
    have rest : Ensures (fun header => c.commit.header = some header) (do
        let header ← headerOf c.commit
        let controllers := JsObject.get header "controllers"
        assertOneController controllers
        let controller ← controllers.prop "0"
        if !StreamUtils.validDIDString controller then
          throw ⟨"Attempting to create a TileDocument with an invalid DID string: " ++ env.stringOf controller⟩
        return header) :=
      .andThen fun header given => .andThen fun _ _ => .andThen fun _ _ =>
        .either (.thrown _) (.returned (headerOf_ok given))
    exact .either (.andThen fun _ _ => .andThen fun _ _ => .andThen fun _ _ => rest) (.either (.thrown _) rest)
  exact checks header checked

theorem genesis_parts (real : c.WellFormed env) (applied : applyGenesis env c = .ok state) :
    state.PartsWellFormed := by
  obtain ⟨built, made, checked⟩ := bind_eq_ok.mp applied
  obtain ⟨_, _, same⟩ := bind_eq_ok.mp checked
  obtain rfl := Except.ok.inj same
  obtain ⟨header, given, rfl⟩ := map_eq_ok.mp made
  exact parts_of_genesis (real.header header (checkGenesis_header given)) rfl (by simp [genesisState])

theorem checkSigned_header {header : JsObject} (checked : checkSigned env c state = .ok header) :
    c.commit.header = some header := by
  have checks : Ensures (fun header => c.commit.header = some header) (checkSigned env c state) := by
    refine .andThen fun _ _ => .andThen fun controller _ => .either (.thrown _) (.andThen fun _ _ => .andThen
      fun header given => ?_)
    -- Whichever of the last checks are made, what they return is the header.
    repeat' first
      | exact .returned (headerOf_ok given)
      | exact .thrown _
      | refine .either ?_ ?_
      | refine .andThen fun _ _ => ?_
  exact checks header checked

theorem signed_parts (parts : state.PartsWellFormed) (real : c.WellFormed env)
    (applied : applySigned env c state = .applied next) : next.PartsWellFormed := by
  obtain ⟨header, content, checked, _, _, rfl⟩ := applySigned_applied.mp applied
  refine ⟨parts.proof, parts.metadata, ?_⟩
  intro pending given metadata changed
  obtain rfl := Option.some.inj given
  obtain rfl := Option.some.inj changed
  exact parts.current.spread (real.header header (checkSigned_header checked))

end TileDocumentHandler

namespace Caip10LinkHandler

theorem checkGenesis_header {header : JsObject} (checked : checkGenesis c = .ok header) :
    c.commit.header = some header := by
  have checks : Ensures (fun header => c.commit.header = some header) (checkGenesis c) :=
    .either (.thrown _) (.andThen fun _ given => .andThen fun _ _ => .returned (headerOf_ok given))
  exact checks header checked

theorem genesis_parts (real : c.WellFormed env) (applied : applyGenesis c = .ok state) : state.PartsWellFormed := by
  obtain ⟨header, checked, rfl⟩ := map_eq_ok.mp applied
  exact parts_of_genesis (real.header header (checkGenesis_header checked)) rfl (by simp [genesisState])

theorem signed_parts (parts : state.PartsWellFormed) (applied : applySigned env c state = .applied next) :
    next.PartsWellFormed := by
  obtain ⟨proof, _, rfl⟩ := map_eq_ok.mp (outcome_of_except applied)
  refine ⟨parts.proof, parts.metadata, ?_⟩
  intro pending given metadata changed
  obtain rfl := Option.some.inj given
  obtain rfl := Option.some.inj changed
  exact parts.metadata.set "lastUpdate" (by cases proof.timestamp <;> simp)

end Caip10LinkHandler

namespace ModelHandler

theorem genesis_parts (real : c.WellFormed env) (applied : applyGenesis env c = .ok state) :
    state.PartsWellFormed := by
  have checks : Ensures MetadataWellFormed (checkGenesis env c) := by
    refine .either (.thrown _) (.andThen fun header given => .andThen fun _ _ => .andThen fun controller _ =>
      .andThen fun model parsed => .andThen fun _ _ => .andThen fun _ _ => .andThen fun _ _ => .either (.thrown _)
      (.andThen fun _ _ => .returned ⟨by simp [names], ?_⟩))
    intro field member id held
    rcases List.mem_cons.mp member with rfl | behind
    · cases held
    · obtain rfl := List.mem_singleton.mp behind
      obtain rfl := JsValue.streamID.inj held
      exact real.streams header (headerOf_ok given) "model" model parsed
  obtain ⟨metadata, checked, rfl⟩ := map_eq_ok.mp applied
  exact parts_of_genesis (checks metadata checked) rfl (by simp [genesisState])

end ModelHandler

namespace ModelInstanceDocumentHandler

/-- The metadata of a document: its model and the bytes that tell it apart, and maybe a context. -/
theorem readMetadata_wellFormed {header : JsObject} (headerFormed : MetadataWellFormed header)
    (streams : ∀ key id, env.streamIDFromBytes (JsObject.get header key) = .ok id → id.cid.WellFormed) :
    Ensures (fun found => MetadataWellFormed found.2.2) (readMetadata env header) := by
  refine .andThen fun controller _ => .andThen fun model parsed => ?_
  have fields (field : String × JsValue) (member : field ∈ [("controllers", JsValue.arr [controller]),
      ("model", .streamID model), ("unique", JsObject.get header "unique")]) (id : StreamID)
      (held : field.2 = .streamID id) : id.cid.WellFormed := by
    simp only [List.mem_cons, List.not_mem_nil, or_false] at member
    rcases member with rfl | rfl | rfl
    · cases held
    · obtain rfl := JsValue.streamID.inj held
      exact streams "model" model parsed
    · exact headerFormed.get held
  refine .either (.andThen fun context found => .returned ?_) (.andThen fun context none => .returned ?_)
  · obtain ⟨id, parsedContext, rfl⟩ := map_eq_ok.mp found
    refine ⟨by simp [names], fun field member => ?_⟩
    rcases List.mem_append.mp member with inside | last
    · exact fields field inside
    · obtain rfl := List.mem_singleton.mp last
      intro other held
      obtain rfl := JsValue.streamID.inj held
      exact streams "context" id parsedContext
  · obtain rfl := Except.ok.inj none
    exact ⟨by simp [names], fun field member => fields field (by simpa using member)⟩

theorem genesis_parts (real : c.WellFormed env) (applied : applyGenesis env c = .ok state) :
    state.PartsWellFormed := by
  have checks : Ensures MetadataWellFormed (checkGenesis env c) := by
    refine .andThen fun header isHeader => .andThen fun found isRead => ?_
    have given := headerOf_ok isHeader
    have formed := readMetadata_wellFormed (real.header header given) (real.streams header given) found isRead
    have modelChecked : Ensures MetadataWellFormed (do
        let modelStream ← env.loadModel (.streamID found.2.1)
        validateModel modelStream
        validateContent env modelStream c.commit.data true none false
        validateHeader modelStream header
        return found.2.2) :=
      .andThen fun _ _ => .andThen fun _ _ => .andThen fun _ _ => .andThen fun _ _ => .returned formed
    exact .andThen fun _ _ => .either (.andThen fun _ _ => modelChecked) (.either (.thrown _) modelChecked)
  obtain ⟨metadata, checked, rfl⟩ := map_eq_ok.mp applied
  exact parts_of_genesis (checks metadata checked) rfl (by simp [genesisState])

/-- The one property of a header that is kept is one the header holds. -/
theorem checkSigned_index : Ensures (fun index => index = .undefined ∨ ∃ header ∈ c.commit.header,
    index = JsObject.get header "shouldIndex") (checkSigned env c state) := by
  refine .andThen fun _ _ => .andThen fun controller _ => .andThen fun _ _ => ?_
  cases given : c.commit.header with
  | none => exact .returned (.inl rfl)
  | some header => exact .either (.thrown _) (.returned (.inr ⟨header, rfl, rfl⟩))

theorem signed_parts (parts : state.PartsWellFormed) (real : c.WellFormed env)
    (applied : applySigned env c state = .applied next) : next.PartsWellFormed := by
  obtain ⟨index, content, checked, _, _, rfl⟩ := applySigned_applied.mp applied
  have indexReal (id : StreamID) (held : index = .streamID id) : id.cid.WellFormed := by
    rcases checkSigned_index index checked with absent | ⟨header, given, isIndex⟩
    · rw [absent] at held
      cases held
    · exact (real.header header given).get (isIndex ▸ held)
  unfold writeShouldIndex
  split
  · exact ⟨parts.proof, parts.metadata, parts.next⟩
  · exact ⟨parts.proof, parts.metadata.set "shouldIndex" indexReal, parts.next⟩

end ModelInstanceDocumentHandler

theorem dispatch_parts {genesis : CommitData → Except JsError StreamState} {signed : CommitData → StreamState → Outcome}
    {given : Option StreamState} (real : c.WellFormed env)
    (genesisParts : genesis c = .ok next → next.PartsWellFormed)
    (signedParts : ∀ state, state.PartsWellFormed → signed c state = .applied next → next.PartsWellFormed)
    (parts : ∀ state ∈ given, state.PartsWellFormed) (applied : dispatch genesis signed c given = .applied next) :
    next.PartsWellFormed := by
  cases given with
  | none => exact genesisParts (outcome_of_except applied)
  | some state =>
    have before := parts state rfl
    unfold dispatch at applied
    dsimp only at applied
    split at applied
    · obtain ⟨_, _, rfl⟩ := applyAnchorCommit_ok.mp (outcome_of_except applied)
      exact anchoredState_parts before real
    · exact signedParts state before applied

/-- Each handler keeps the identifiers of a state real. -/
theorem HandlersMap.parts_wellFormed {handler : StreamHandler} (registered : handler ∈ defaultHandlers env)
    (real : c.WellFormed env) {given : Option StreamState} (parts : ∀ state ∈ given, state.PartsWellFormed)
    (applied : handler.applyCommit c given = .applied next) : next.PartsWellFormed := by
  simp only [defaultHandlers, List.mem_cons, List.not_mem_nil, or_false] at registered
  rcases registered with rfl | rfl | rfl | rfl
  · have allowed : dispatch (TileDocumentHandler.applyGenesis env) (TileDocumentHandler.applySigned env) c given =
        .applied next := by
      simp only [TileDocumentHandler.handler, TileDocumentHandler.applyCommit] at applied
      split at applied
      · cases applied
      · exact applied
    exact dispatch_parts real (TileDocumentHandler.genesis_parts real)
      (fun _ before => TileDocumentHandler.signed_parts before real) parts allowed
  · have allowed : dispatch Caip10LinkHandler.applyGenesis (Caip10LinkHandler.applySigned env) c given =
        .applied next := by
      simp only [Caip10LinkHandler.handler, Caip10LinkHandler.applyCommit] at applied
      split at applied
      · cases applied
      · exact applied
    exact dispatch_parts real (Caip10LinkHandler.genesis_parts real)
      (fun _ before => Caip10LinkHandler.signed_parts before) parts allowed
  · have finalized (state : StreamState) (_ : state.PartsWellFormed)
        (signed : ModelHandler.applySigned c state = .applied next) : next.PartsWellFormed := by
      cases signed
    exact dispatch_parts real (ModelHandler.genesis_parts real) finalized parts applied
  · exact dispatch_parts real (ModelInstanceDocumentHandler.genesis_parts real)
      (fun _ before => ModelInstanceDocumentHandler.signed_parts before real) parts applied

/-- A log gains the commit's identifier at its end. -/
theorem nextLog_cids (env : Environment) (streamType : Nat) (log : List LogEntry) (c : CommitData) :
    (nextLog env streamType log c).map (·.cid) = log.map (·.cid) ++ [c.cid] := by
  unfold nextLog
  split
  · rw [applyAnchorTimestampsToLog_map (·.cid) (fun _ _ => rfl)]
    simp [anchorEntry]
  · simp

theorem StreamState.wellFormed_iff : state.WellFormed ↔
    (∀ cid ∈ state.log.toList.map (·.cid), cid.WellFormed) ∧ state.PartsWellFormed := by
  constructor
  · exact fun formed => ⟨by simpa using formed.log, formed.parts⟩
  · exact fun ⟨log, parts⟩ => ⟨by simpa using log, parts.proof, parts.metadata, parts.next⟩

variable {handler : StreamHandler}

theorem StreamState.wellFormed_of_genesis (registered : handler ∈ HandlersMap.defaultHandlers env)
    (real : c.WellFormed env) (applied : handler.applyCommit c none = .applied state) : state.WellFormed := by
  have lawful := HandlersMap.mem_lawful registered
  refine wellFormed_iff.mpr ⟨?_, HandlersMap.parts_wellFormed registered real (by simp) applied⟩
  rw [(lawful.genesis applied).2]
  simpa using real.cid

theorem StreamState.wellFormed_of_step {change : Change} (real : change.WellFormed env) (formed : state.WellFormed)
    (stepped : state.step env change = some next) : next.WellFormed := by
  cases change with
  | anchorStatus status =>
    obtain rfl := Option.some.inj stepped
    exact ⟨formed.log, formed.proof, formed.metadata, formed.next⟩
  | commit c =>
    unfold step at stepped
    dsimp only at stepped
    split at stepped
    next handler found =>
      split at stepped
      next applied =>
        obtain rfl := Option.some.inj stepped
        obtain ⟨lawful, _⟩ := HandlersMap.get_lawful found
        obtain ⟨log, parts⟩ := wellFormed_iff.mp formed
        refine wellFormed_iff.mpr ⟨?_, HandlersMap.parts_wellFormed (HandlersMap.get_mem found).1 real
          (by simpa using parts) applied⟩
        rw [lawful.log applied, nextLog_cids]
        intro cid member
        rcases List.mem_append.mp member with old | last
        · exact log cid old
        · exact List.mem_singleton.mp last ▸ real.cid
      next => cases stepped
    next => cases stepped

namespace StreamState

/-- A log that is applied as a whole is a run of these steps. -/
theorem reaches_of_applyLogFrom (registered : handler ∈ HandlersMap.defaultHandlers env)
    (sameType : state.type = handler.type) {commits : List CommitData}
    (real : ∀ c ∈ commits, c.WellFormed env)
    (applied : StateManipulator.applyLogFrom handler true state commits = .ok next) :
    Transition.Reaches (step env) (fun _ change => change.WellFormed env) state next := by
  induction commits generalizing state with
  | nil =>
    obtain rfl := Except.ok.inj applied
    exact .start
  | cons c commits ih =>
    unfold StateManipulator.applyLogFrom at applied
    cases outcome : handler.applyCommit c (some state) with
    | threw e left =>
      rw [outcome] at applied
      cases applied
    | applied middle =>
      rw [outcome] at applied
      have stepped : step env state (.commit c) = some middle := by
        unfold step
        dsimp only
        rw [sameType, HandlersMap.get_of_mem registered]
        dsimp only
        rw [outcome]
      have typeKept := (HandlersMap.mem_lawful registered).type outcome
      have first : Transition.Reaches (step env) (fun _ change => change.WellFormed env) state middle :=
        .next (a := .commit c) .start (real c List.mem_cons_self) stepped
      exact first.trans (ih (typeKept.trans sameType) (fun other behind => real other (List.mem_cons_of_mem c behind))
        applied)

namespace ReloadFixture

open StreamRefFixture

/-- A model whose documents are told apart by one field of their content. -/
def setModel : Model :=
  ⟨⟨MODEL_TYPE_ID, otherCid⟩, ⟨MODEL_TYPE_ID, otherCid, none⟩,
    { version := "2.0", name := "Favourite", schema := .obj [], accountRelation := .set ["name"] }⟩

def streamIDFromBytes : JsValue → Except JsError StreamID
  | .bytes b => StreamID.fromBytes b
  | _ => .error ⟨"Invalid StreamID"⟩

def node : Environment :=
  { Environment.permissive with streamIDFromBytes, loadModel := fun _ => .ok setModel }

/-- A genesis whose header holds identifiers only as bytes of a model. -/
def genesisOf (header : JsObject) : CommitData :=
  { cid := v1Cid, type := .INIT, commit := { header := some header, data := .null } }

def tileHeader : JsObject :=
  [("controllers", .arr [.str "did:key:z6Mk"]), ("unique", .str "AAECAwQFBgcICQoL")]

/-- The header of a document whose only field of the set is empty. -/
def documentHeader : JsObject :=
  [("controllers", .arr [.str "did:key:z6Mk"]), ("model", .bytes setModel.id.bytes), ("sep", .str "model"),
    ("unique", .bytes [])]

theorem genesisOf_wellFormed {header : JsObject} (distinct : (names header).Nodup)
    (plain : ∀ field ∈ header, ∀ id, field.2 ≠ .streamID id)
    (streams : ∀ field ∈ header, ∀ id, streamIDFromBytes field.2 = .ok id → id = setModel.id) :
    (genesisOf header).WellFormed node where
  cid := v1Cid_wellFormed
  proof := by simp [genesisOf]
  header := by
    rintro _ given
    obtain rfl := Option.some.inj given
    exact ⟨distinct, fun field member id held => absurd held (plain field member id)⟩
  streams := by
    rintro _ given key id read
    obtain rfl := Option.some.inj given
    rcases get_cases header key with absent | member
    · rw [absent] at read
      cases read
    · rw [streams _ member id read]
      exact otherCid_wellFormed

/-- A tile whose anchor was requested. -/
def requestedTile : StreamState :=
  { TileDocumentHandler.genesisState node (genesisOf tileHeader) tileHeader with anchorStatus := .PENDING }

def emptyDocument : StreamState :=
  ModelInstanceDocumentHandler.genesisState node (genesisOf documentHeader)
    [("controllers", .arr [.str "did:key:z6Mk"]), ("model", .streamID setModel.id), ("unique", .bytes [])]

theorem tile_wellFormed : (genesisOf tileHeader).WellFormed node := by
  refine genesisOf_wellFormed (by decide) ?_ ?_
  · simp [tileHeader]
  · simp [tileHeader, streamIDFromBytes]

set_option maxRecDepth 1000 in
theorem document_wellFormed : (genesisOf documentHeader).WellFormed node := by
  have model : streamIDFromBytes (.bytes setModel.id.bytes) = .ok setModel.id := rfl
  have none : streamIDFromBytes (.bytes []) = .error ⟨"Could not decode varint"⟩ := rfl
  refine genesisOf_wellFormed (by decide) (by simp [documentHeader]) ?_
  intro field member id read
  simp only [documentHeader, List.mem_cons, List.not_mem_nil, or_false] at member
  rcases member with rfl | rfl | rfl | rfl
  · cases read
  · exact (Except.ok.inj (model.symm.trans read)).symm
  · cases read
  · cases none.symm.trans read

end ReloadFixture

open ReloadFixture

end StreamState

end Ceramic
