import Ceramic.MakeGenesis
import Ceramic.JsonPatch
import Ceramic.TileControllers

/-! The commits a TileDocument makes to change itself, against the handler that has to accept them.
The diff of two documents is taken from the package that computes it. -/
namespace Ceramic.TileDocument

open StreamUtils StreamCommit TileDocumentHandler

/-- The content a reader sees: a pending change already counts. -/
def content (state : StreamState) : JsValue :=
  match state.next.bind (·.content) with
  | some content => if content.isNullish then state.content else content
  | none => state.content

def metadata (state : StreamState) : StreamMetadata := (state.next.bind (·.metadata)).getD state.metadata

/-- `metadata?.schema?.toString()` for metadata that a stream holds. -/
def storedSchemaText (stringOf : JsValue → String) : JsValue → Except JsError JsValue
  | .undefined | .null => .ok .undefined
  | .str text => match CommitID.fromString (fun text => (Cid.parse text).toOption) text with
    | .ok _ => .ok (.str text)
    | .error _ => .error ⟨"Schema must be a CommitID"⟩
  | schema => .ok (.str (stringOf schema))

def assertNoGenesisFields (metadata : StreamMetadata) : Except JsError Unit :=
  if JsObject.get metadata "deterministic" ≠ .undefined ∨ JsObject.get metadata "unique" ≠ .undefined then
    .error ⟨"Cannot change 'deterministic' or 'unique' properties on existing Streams"⟩
  else if JsObject.get metadata "forbidControllerChange" ≠ .undefined then
    .error ⟨"Cannot change 'forbidControllerChange' property on existing Streams"⟩
  else .ok ()

/-- `headerFromMetadata` for metadata that a stream holds. -/
def headerFromStored (stringOf : JsValue → String) (metadata : StreamMetadata) : Except JsError JsObject := do
  let schema ← storedSchemaText stringOf (JsObject.get metadata "schema")
  assertNoGenesisFields metadata
  let header := [("controllers", JsObject.get metadata "controllers"), ("family", JsObject.get metadata "family"),
    ("schema", schema), ("tags", JsObject.get metadata "tags")]
  return header.filter fun field => field.2 != .undefined

def assertNewController (header : JsObject) : Except JsError Unit := do
  let controllers := JsObject.get header "controllers"
  if controllers.truthy then
    if (← controllers.prop "length") != .num 1 then
      throw ⟨"Exactly one controller must be specified"⟩
    if !(← controllers.prop "0").truthy then
      throw ⟨"Controller cannot be updated to an undefined value."⟩

/-- The header of an update, where the client accepts the change of the metadata. -/
def updateHeader (newMetadata : TileMetadataArgs) : Except JsError JsObject := do
  let header ← headerFromMetadata [] newMetadata false
  assertNewController header
  return header

/-- What an update sets the content to; without new content it stays. -/
def updatedContent (state : StreamState) (newContent : JsValue) : JsValue :=
  if newContent.isNullish then content state else newContent

/-- `_makeRawCommit`. -/
def makeRawCommit (compare : JsValue → JsValue → Except JsError JsValue) (state : StreamState)
    (newContent : JsValue) (newMetadata : TileMetadataArgs) : Except JsError Commit := do
  let header ← updateHeader newMetadata
  let patch ← compare (content state) (updatedContent state newContent)
  return { id := some state.log.first.cid, prev := some (tipFromState state), header := some header, data := patch }

/-- The payload that `patch` signs. -/
def makePatchCommit (stringOf : JsValue → String) (state : StreamState) (jsonPatch : JsValue) :
    Except JsError Commit := do
  let header ← headerFromStored stringOf (metadata state)
  return { id := some state.log.first.cid, prev := some (tipFromState state), header := some header, data := jsonPatch }

/-- The controller of the stream has signed the commit. -/
def SignedByController (env : Environment) (c : CommitData) (state : StreamState) : Prop :=
  ∃ controller, currentController state = .ok controller ∧ controller.truthy = true ∧
    SignatureUtils.verifyCommitSignature env c controller none (streamIdFromState state) = .ok ()

/-- Where the controllers of a stream are fixed, a header that gives controllers gives the same. -/
def KeepsControllers (state : StreamState) (header : JsObject) : Prop :=
  (JsObject.get state.metadata "forbidControllerChange").truthy = true →
    (JsObject.get header "controllers").truthy = true →
    stringArraysEqual (JsObject.get header "controllers") (JsObject.get state.metadata "controllers") = .ok true

theorem check_eq_ok {condition : Prop} [Decidable condition] {e : JsError} :
    (if condition then throw e else pure () : Except JsError Unit) = .ok () ↔ ¬condition := by
  by_cases holds : condition
  · simp [holds, throw, throwThe, MonadExceptOf.throw]
  · simp [holds, pure, Except.pure]

/-- The client checks new controllers just as the handler does. -/
theorem assertNewController_iff {header : JsObject} : assertNewController header = .ok () ↔
    ((JsObject.get header "controllers").truthy = true → ∃ controller, controller.truthy = true ∧
      (JsObject.get header "controllers").prop "length" = .ok (.num 1) ∧
      (JsObject.get header "controllers").prop "0" = .ok controller) := by
  unfold assertNewController
  by_cases given : (JsObject.get header "controllers").truthy = true
  · simp only [given, if_true, true_implies, bind_eq_ok, guard_eq_ok, check_eq_ok, bne_iff_ne, Bool.not_eq_true',
      not_not, Bool.not_eq_false]
    constructor
    · rintro ⟨length, read, rfl, controller, first, isSet⟩
      exact ⟨controller, isSet, read, first⟩
    · rintro ⟨controller, isSet, read, first⟩
      exact ⟨_, read, rfl, controller, first, isSet⟩
  · simp [given, pure, Except.pure]

/-- What the handler asks of a signed commit in addition to the checks of the client. -/
theorem checkSigned_iff {env : Environment} {c : CommitData} {state : StreamState} {header : JsObject}
    (links : assertCommitLinksToState state c.commit = .ok ()) (signed : SignedByController env c state)
    (given : c.commit.header = some header) (checked : assertNewController header = .ok ())
    (unset : JsObject.get header "forbidControllerChange" = .undefined) :
    checkSigned env c state = .ok header ↔ KeepsControllers state header := by
  constructor
  · intro accepted
    exact (checkSigned_controllers accepted).same
  · intro kept
    obtain ⟨controller, current, isSet, verified⟩ := signed
    refine bind_eq_ok.mpr ⟨(), links, bind_eq_ok.mpr ⟨controller, current, ?_⟩⟩
    refine guard_eq_ok.mpr ⟨by simp [isSet], ?_⟩
    refine bind_eq_ok.mpr ⟨(), verified, bind_eq_ok.mpr ⟨header, by rw [headerOf, given], ?_⟩⟩
    dsimp only
    rw [unset]
    by_cases gives : (JsObject.get header "controllers").truthy = true
    · obtain ⟨first, real, single, read⟩ := assertNewController_iff.mp checked gives
      rw [if_pos gives, single, read]
      by_cases fixed : (JsObject.get state.metadata "forbidControllerChange").truthy = true
      · rw [if_pos (by simp [fixed, gives]), kept fixed gives]
        simp [real, bind, Except.bind, pure, Except.pure]
      · simp [real, fixed, bind, Except.bind, pure, Except.pure]
    · rw [if_neg gives, if_neg (by simp [gives])]
      rfl

/-- The text a schema is read by: what is none is read as the text it turns into. -/
def schemaIdText (stringOf : JsValue → String) : JsValue → String
  | .str text => text
  | schema => stringOf schema

/-- `_loadSchemaById`, where the content of a commit is loaded by `loadContent`. -/
def loadSchemaById (stringOf : JsValue → String) (loadContent : CommitID → Except JsError JsValue)
    (schemaStreamId : JsValue) : Except JsError JsValue :=
  match CommitID.fromString (fun text => (Cid.parse text).toOption) (schemaIdText stringOf schemaStreamId) with
  | .ok commitId => loadContent commitId
  | .error _ => .error ⟨"Commit missing when loading schema document"⟩

def LoadsSchemasById (env : Environment) : Prop :=
  ∃ loadContent, ∀ schema, env.loadTileSchema schema = loadSchemaById env.stringOf loadContent schema

/-- A header that comes from a block has no property twice, and none that is `undefined`. -/
def FromBlock (c : CommitData) : Prop :=
  ∀ header, c.commit.header = some header →
    (JsObject.names header).Nodup ∧ ∀ field ∈ header, field.2 ≠ .undefined

/-- The states a document gets to by commits that the handler accepts, whoever made them. -/
inductive Reachable : StreamState → Prop where
  | genesis {env : Environment} {c : CommitData} {state : StreamState} (loads : LoadsSchemasById env)
      (block : FromBlock c) (applied : applyCommit env c none = .applied state) : Reachable state
  | commit {env : Environment} {c : CommitData} {state next : StreamState} (before : Reachable state)
      (loads : LoadsSchemasById env) (block : FromBlock c) (applied : applyCommit env c (some state) = .applied next) :
      Reachable next

theorem get_spread {o header : JsObject} (nodup : (JsObject.names header).Nodup)
    (present : ∀ field ∈ header, field.2 ≠ .undefined) (key : String) :
    JsObject.get (JsObject.spread o header) key =
      if JsObject.get header key = .undefined then JsObject.get o key else JsObject.get header key := by
  rw [JsObject.get, JsObject.get?_spread o header nodup]
  cases found : JsObject.get? header key with
  | none => simp [JsObject.get, found]
  | some value =>
    obtain ⟨field, first, rfl⟩ := Option.map_eq_some_iff.mp found
    have isSet := present field (List.mem_of_find?_eq_some first)
    simp [JsObject.get, found, isSet]

/-- What holds of the metadata a reader sees of a document: it names one controller if any, a schema that it
names is that of a commit, and pending metadata say the same on whether the controllers are fixed. -/
structure Coherent (state : StreamState) : Prop where
  controllers : assertNewController (metadata state) = .ok ()
  schema : ∀ text, JsObject.get (metadata state) "schema" = .str text → text ≠ "" →
    ∃ id, CommitID.fromString (fun text => (Cid.parse text).toOption) text = .ok id
  forbidden : JsObject.get (metadata state) "forbidControllerChange" =
    JsObject.get state.metadata "forbidControllerChange"

theorem validated_schema {env : Environment} (loads : LoadsSchemasById env) {content : JsValue}
    {metadata : StreamMetadata} (valid : validateMetadataSchema env content metadata = .ok ()) {text : String}
    (named : JsObject.get metadata "schema" = .str text) (isSet : text ≠ "") :
    ∃ id, CommitID.fromString (fun text => (Cid.parse text).toOption) text = .ok id := by
  obtain ⟨loadContent, loads⟩ := loads
  unfold validateMetadataSchema at valid
  rw [named] at valid
  dsimp only at valid
  rw [if_pos (by simpa [JsValue.truthy] using isSet)] at valid
  obtain ⟨schema, loaded, _⟩ := bind_eq_ok.mp valid
  rw [loads, loadSchemaById, schemaIdText] at loaded
  split at loaded
  next id read => exact ⟨id, read⟩
  next => cases loaded

theorem Coherent.genesis {env : Environment} (loads : LoadsSchemasById env) {c : CommitData} {state : StreamState}
    (applied : applyCommit env c none = .applied state) : Coherent state := by
  unfold applyCommit at applied
  split at applied
  · cases applied
  obtain ⟨built, made, applied⟩ := bind_eq_ok.mp (outcome_of_except applied)
  obtain ⟨_, valid, returned⟩ := bind_eq_ok.mp applied
  obtain ⟨header, checked, rfl⟩ := map_eq_ok.mp made
  obtain rfl := Except.ok.inj returned
  obtain ⟨controller, one, first, real⟩ := checkGenesis_controllers checked
  obtain ⟨_, single⟩ := assertOneController_ok one
  exact ⟨assertNewController_iff.mpr fun _ => ⟨controller, truthy_of_validDIDString real, single, first⟩,
    fun text named isSet => validated_schema loads valid named isSet, rfl⟩

theorem Coherent.anchored {state : StreamState} (coherent : Coherent state) (c : CommitData) :
    Coherent (anchoredState c state) := ⟨coherent.controllers, coherent.schema, rfl⟩

theorem Coherent.signed {env : Environment} (loads : LoadsSchemasById env) {c : CommitData} (block : FromBlock c)
    {state next : StreamState} (coherent : Coherent state) (applied : applySigned env c state = .applied next) :
    Coherent next := by
  obtain ⟨header, content, checked, _, valid, rfl⟩ := applySigned_applied.mp applied
  have accepted := checkSigned_controllers checked
  obtain ⟨nodup, present⟩ := block header (checkSigned_header checked)
  have read := fun key => @get_spread (metadata state) header nodup present key
  refine ⟨?_, fun text named isSet => validated_schema loads valid named isSet, ?_⟩
  · have old := assertNewController_iff.mp coherent.controllers
    apply assertNewController_iff.mpr
    change (JsObject.get (JsObject.spread (metadata state) header) "controllers").truthy = true →
      ∃ controller, _ ∧
      (JsObject.get (JsObject.spread (metadata state) header) "controllers").prop "length" = _ ∧
      (JsObject.get (JsObject.spread (metadata state) header) "controllers").prop "0" = _
    rw [read]
    split
    · exact old
    · exact accepted.one
  · change JsObject.get (JsObject.spread (metadata state) header) "forbidControllerChange" = _
    rw [read]
    split
    · exact coherent.forbidden
    next gives => exact accepted.forbids.resolve_left gives

theorem Reachable.coherent {state : StreamState} (reachable : Reachable state) : Coherent state := by
  induction reachable with
  | genesis loads _ applied => exact .genesis loads applied
  | @commit env c state next _ loads block applied coherent =>
    unfold applyCommit at applied
    split at applied
    · cases applied
    unfold dispatch at applied
    dsimp only at applied
    split at applied
    · obtain ⟨_, _, rfl⟩ := applyAnchorCommit_ok.mp (outcome_of_except applied)
      exact coherent.anchored c
    · exact coherent.signed loads block applied

/-- Equality of JSON values: the order of an object's properties does not count. -/
inductive SameJson : JsValue → JsValue → Prop where
  | refl (value : JsValue) : SameJson value value
  | arr {items others : List JsValue} (same : List.Forall₂ SameJson items others) :
      SameJson (.arr items) (.arr others)
  | obj {fields others : JsObject}
      (same : ∀ key, Option.Rel SameJson (JsObject.get? fields key) (JsObject.get? others key)) :
      SameJson (.obj fields) (.obj others)

mutual
/-- JSON without the properties that no patch may write, below a property `parent`. -/
def patchable (parent : String) : JsValue → Bool
  | .null | .bool _ | .num _ | .str _ => true
  | .arr items => patchableItems items
  | .obj fields => patchableFields parent fields
  | _ => false

def patchableItems : List JsValue → Bool
  | [] => true
  | value :: items => patchable "" value && patchableItems items

def patchableFields (parent : String) : JsObject → Bool
  | [] => true
  | (key, value) :: fields => key != "__proto__" && !(parent == "constructor" && key == "prototype") &&
      !fields.any (fun field => field.1 == key) && patchable key value && patchableFields parent fields
end

/-- Two documents that have a diff: both are objects, or both are arrays. -/
structure Comparable (old new : JsValue) : Prop where
  before : patchable "" old = true
  after : patchable "" new = true
  kind : (∃ fields others, old = .obj fields ∧ new = .obj others) ∨
    ∃ items others, old = .arr items ∧ new = .arr others

/-- A diff leads from the one document to the other. -/
def ComparesDocuments (compare : JsValue → JsValue → Except JsError JsValue)
    (applyPatch : JsValue → JsValue → PatchOutcome) : Prop :=
  ∀ old new, Comparable old new → ∃ patch result, compare old new = .ok patch ∧
    (applyPatch old patch).newDocument = .ok result ∧ SameJson result new

/-- A commit with the payload given, signed by the controller of the stream. -/
structure Signed (env : Environment) (raw : Commit) (state : StreamState) (c : CommitData) : Prop where
  commit : c.commit = raw
  noAnchor : isAnchorCommitData c = false
  controller : SignedByController env c state

/-- Metadata that `patch` does not refuse to write again. -/
structure Rewritable (metadata : StreamMetadata) : Prop where
  deterministic : JsObject.get metadata "deterministic" = .undefined
  unique : JsObject.get metadata "unique" = .undefined
  forbidden : JsObject.get metadata "forbidControllerChange" = .undefined
  schema : (JsObject.get metadata "schema").isNullish = true ∨
    ∃ text, JsObject.get metadata "schema" = .str text ∧ text ≠ ""

theorem content_eq (state : StreamState) : (pendingContent state).getD state.content = content state := by
  unfold content pendingContent
  cases state.next.bind (·.content) with
  | none => rfl
  | some content => by_cases empty : content.isNullish <;> simp [empty, Option.filter]

/-- What an accepted commit makes of a document. -/
def updated (env : Environment) (c : CommitData) (state : StreamState) (new : JsValue) (header : JsObject) :
    StreamState :=
  { recordSigned env c state with
    next := some { content := some new, metadata := some (JsObject.spread (metadata state) header) } }

theorem content_updated {env : Environment} {c : CommitData} {state : StreamState} {new : JsValue} {header : JsObject}
    (isSet : new.isNullish = false) : content (updated env c state new header) = new := by
  simp [content, updated, isSet]

/-- Exactly when the handler accepts what the controller signed, and what it makes of the document. -/
theorem applied_iff {env : Environment} (legacy : env.useRustCeramic = false) {state : StreamState}
    {raw : Commit} {c : CommitData} (signed : Signed env raw state c) {header : JsObject}
    (links : assertCommitLinksToState state raw = .ok ()) (given : raw.header = some header)
    (checked : assertNewController header = .ok ())
    (unset : JsObject.get header "forbidControllerChange" = .undefined) (next : StreamState) :
    applyCommit env c (some state) = .applied next ↔ KeepsControllers state header ∧
      ∃ new, (env.applyPatch (content state) raw.data).newDocument = .ok new ∧
        validateMetadataSchema env new (JsObject.spread (metadata state) header) = .ok () ∧
        next = updated env c state new header := by
  obtain ⟨rfl, noAnchor, controller⟩ := signed
  have dispatched : applyCommit env c (some state) = applySigned env c state := by
    simp [applyCommit, legacy, dispatch, noAnchor]
  have checks := checkSigned_iff links controller given checked unset
  rw [dispatched, applySigned_applied, content_eq]
  constructor
  · rintro ⟨found, new, accepted, patched, valid, rfl⟩
    obtain rfl : found = header := Option.some.inj ((checkSigned_header accepted).symm.trans given)
    exact ⟨checks.mp accepted, new, patched, valid, rfl⟩
  · rintro ⟨kept, new, patched, valid, rfl⟩
    exact ⟨header, new, checks.mpr kept, patched, valid, rfl⟩

theorem links_of_made {state : StreamState} {raw : Commit} (id : raw.id = some state.log.first.cid)
    (prev : raw.prev = some (tipFromState state)) : assertCommitLinksToState state raw = .ok () := by
  refine (links_iff state raw).mpr ⟨fun other named => ?_, prev⟩
  exact (Option.some.inj (id.symm.trans named)).symm

/-- A property that is not `undefined` is still there without those that are. -/
theorem get_filter_defined {fields : JsObject} (nodup : (JsObject.names fields).Nodup) (key : String) :
    JsObject.get (fields.filter fun field => field.2 != .undefined) key = JsObject.get fields key := by
  unfold JsObject.get
  induction fields with
  | nil => rfl
  | cons field fields ih =>
    obtain ⟨absent, nodup⟩ := List.nodup_cons.mp nodup
    have behind := ih nodup
    rw [JsObject.get?_cons]
    by_cases isSet : field.2 = .undefined
    · rw [List.filter_cons_of_neg (by simp [isSet]), behind]
      by_cases same : field.1 = key
      · have none : JsObject.get? fields key = none :=
          JsObject.get?_eq_none fun other member equal =>
            absent (List.mem_map.mpr ⟨other, member, equal.trans same.symm⟩)
        simp [same, none, isSet]
      · simp [same]
    · rw [List.filter_cons_of_pos (by simp [isSet]), JsObject.get?_cons]
      by_cases same : field.1 = key
      · simp [same]
      · simpa [same] using behind

theorem updateHeader_ok {newMetadata : TileMetadataArgs} {header : JsObject}
    (accepted : updateHeader newMetadata = .ok header) : assertNewController header = .ok () ∧
      JsObject.get header "forbidControllerChange" = .undefined := by
  obtain ⟨made, isHeader, accepted⟩ := bind_eq_ok.mp accepted
  obtain ⟨_, checked, returned⟩ := bind_eq_ok.mp accepted
  obtain rfl := Except.ok.inj returned
  refine ⟨checked, ?_⟩
  obtain ⟨schema, _, isHeader⟩ := bind_eq_ok.mp isHeader
  obtain ⟨fields, noGenesis, isHeader⟩ := bind_eq_ok.mp isHeader
  obtain rfl := Except.ok.inj isHeader
  have none : fields = [] := by
    unfold genesisFields at noGenesis
    dsimp only at noGenesis
    split at noGenesis
    · cases noGenesis
    · split at noGenesis
      · cases noGenesis
      · exact (Except.ok.inj noGenesis).symm
  subst none
  rw [List.append_nil, get_filter_defined (by simp [JsObject.names])]
  simp [JsObject.get, JsObject.get?]

/-- An object or an array is content. -/
theorem SameJson.isSet {new target : JsValue} (same : SameJson new target)
    (kind : (∃ fields, target = .obj fields) ∨ ∃ items, target = .arr items) : new.isNullish = false := by
  rcases kind with ⟨_, rfl⟩ | ⟨_, rfl⟩ <;> cases same <;> rfl

theorem Comparable.kind_new {old new : JsValue} (comparable : Comparable old new) :
    (∃ fields, new = .obj fields) ∨ ∃ items, new = .arr items := by
  rcases comparable.kind with ⟨_, fields, _, isNew⟩ | ⟨_, items, _, isNew⟩
  · exact .inl ⟨fields, isNew⟩
  · exact .inr ⟨items, isNew⟩

/-- An update is accepted exactly if it keeps fixed controllers and conforms to the schema, and it sets the content. -/
theorem update_agrees {env : Environment} (legacy : env.useRustCeramic = false)
    {compare : JsValue → JsValue → Except JsError JsValue} (documented : ComparesDocuments compare env.applyPatch)
    {state : StreamState} {newContent : JsValue} {newMetadata : TileMetadataArgs} {header : JsObject}
    (accepted : updateHeader newMetadata = .ok header)
    (comparable : Comparable (content state) (updatedContent state newContent)) :
    ∃ raw new, makeRawCommit compare state newContent newMetadata = .ok raw ∧
      SameJson new (updatedContent state newContent) ∧ ∀ c, Signed env raw state c →
        ((∃ next, applyCommit env c (some state) = .applied next) ↔ KeepsControllers state header ∧
          validateMetadataSchema env new (JsObject.spread (metadata state) header) = .ok ()) ∧
        ∀ next, applyCommit env c (some state) = .applied next → content next = new ∧
          metadata next = JsObject.spread (metadata state) header := by
  obtain ⟨patch, new, compared, patched, same⟩ := documented _ _ comparable
  obtain ⟨checked, unset⟩ := updateHeader_ok accepted
  let raw : Commit :=
    { id := some state.log.first.cid, prev := some (tipFromState state), header := some header, data := patch }
  have made : makeRawCommit compare state newContent newMetadata = .ok raw :=
    bind_eq_ok.mpr ⟨header, accepted, bind_eq_ok.mpr ⟨patch, compared, rfl⟩⟩
  have isSet := same.isSet comparable.kind_new
  refine ⟨raw, new, made, same, fun c signed => ?_⟩
  have applied := applied_iff legacy signed (links_of_made rfl rfl) rfl checked unset
  refine ⟨⟨?_, ?_⟩, ?_⟩
  · rintro ⟨next, accepted⟩
    obtain ⟨kept, found, patchedTo, valid, _⟩ := (applied next).mp accepted
    obtain rfl := Except.ok.inj (patched.symm.trans patchedTo)
    exact ⟨kept, valid⟩
  · rintro ⟨kept, valid⟩
    exact ⟨_, (applied _).mpr ⟨kept, new, patched, valid, rfl⟩⟩
  · intro next accepted
    obtain ⟨_, found, patchedTo, _, rfl⟩ := (applied next).mp accepted
    obtain rfl := Except.ok.inj (patched.symm.trans patchedTo)
    exact ⟨content_updated isSet, rfl⟩

/-- The header that `patch` signs gives the metadata once more. -/
theorem headerFromStored_ok (stringOf : JsValue → String) {state : StreamState} (coherent : Coherent state)
    (rewritable : Rewritable (metadata state)) : ∃ header, headerFromStored stringOf (metadata state) = .ok header ∧
      JsObject.get header "controllers" = JsObject.get (metadata state) "controllers" ∧
      JsObject.get header "forbidControllerChange" = .undefined ∧
      JsObject.get (JsObject.spread (metadata state) header) "schema" = JsObject.get (metadata state) "schema" := by
  have noGenesis : assertNoGenesisFields (metadata state) = .ok () := by
    simp [assertNoGenesisFields, rewritable.deterministic, rewritable.unique, rewritable.forbidden]
  obtain ⟨schema, named, rewritten⟩ : ∃ schema,
      storedSchemaText stringOf (JsObject.get (metadata state) "schema") = .ok schema ∧
      (schema = .undefined ∨ schema = JsObject.get (metadata state) "schema") := by
    rcases rewritable.schema with none | ⟨text, isText, isSet⟩
    · refine ⟨.undefined, ?_, .inl rfl⟩
      cases held : JsObject.get (metadata state) "schema" <;> simp_all [storedSchemaText, JsValue.isNullish]
    · obtain ⟨id, read⟩ := coherent.schema text isText isSet
      exact ⟨.str text, by rw [isText, storedSchemaText, read], .inr isText.symm⟩
  let fields : JsObject := [("controllers", JsObject.get (metadata state) "controllers"),
    ("family", JsObject.get (metadata state) "family"), ("schema", schema),
    ("tags", JsObject.get (metadata state) "tags")]
  have nodup : (JsObject.names fields).Nodup := by simp [JsObject.names, fields]
  have held := get_filter_defined nodup
  have made : headerFromStored stringOf (metadata state) =
      .ok (fields.filter fun field => field.2 != .undefined) :=
    bind_eq_ok.mpr ⟨schema, named, bind_eq_ok.mpr ⟨(), noGenesis, rfl⟩⟩
  refine ⟨_, made, ?_, ?_, ?_⟩
  · rw [held]
    simp [JsObject.get, JsObject.get?, fields]
  · rw [held]
    simp [JsObject.get, JsObject.get?, fields]
  · rw [get_spread (nodup.sublist (List.filter_sublist.map Prod.fst))
      (fun field member => by simpa using (List.mem_filter.mp member).2), held]
    have read : JsObject.get fields "schema" = schema := by simp [JsObject.get, JsObject.get?, fields]
    rw [read]
    split
    · rfl
    next isSet => exact rewritten.resolve_left isSet

/-- A patch is accepted exactly if it applies to the content and the result conforms to the schema. -/
theorem patch_agrees {env : Environment} (legacy : env.useRustCeramic = false) (stringOf : JsValue → String)
    {state : StreamState} (coherent : Coherent state) (rewritable : Rewritable (metadata state)) (jsonPatch : JsValue) :
    ∃ raw, makePatchCommit stringOf state jsonPatch = .ok raw ∧ ∀ c, Signed env raw state c →
      ((∃ next, applyCommit env c (some state) = .applied next) ↔
        ∃ new, (env.applyPatch (content state) jsonPatch).newDocument = .ok new ∧
          validateMetadataSchema env new (metadata state) = .ok ()) ∧
      ∀ next, applyCommit env c (some state) = .applied next →
        ∃ new, (env.applyPatch (content state) jsonPatch).newDocument = .ok new ∧
          next.next.bind (·.content) = some new ∧ (new.isNullish = false → content next = new) := by
  obtain ⟨header, isHeader, controllers, unset, schema⟩ := headerFromStored_ok stringOf coherent rewritable
  let raw : Commit :=
    { id := some state.log.first.cid, prev := some (tipFromState state), header := some header, data := jsonPatch }
  have made : makePatchCommit stringOf state jsonPatch = .ok raw := bind_eq_ok.mpr ⟨header, isHeader, rfl⟩
  have checked : assertNewController header = .ok () := by
    have held := assertNewController_iff.mp coherent.controllers
    rw [← controllers] at held
    exact assertNewController_iff.mpr held
  have kept : KeepsControllers state header := by
    intro fixed
    rw [← coherent.forbidden, rewritable.forbidden] at fixed
    cases fixed
  have conforms (new : JsValue) : validateMetadataSchema env new (JsObject.spread (metadata state) header) =
      validateMetadataSchema env new (metadata state) := by
    simp only [validateMetadataSchema, schema]
  refine ⟨raw, made, fun c signed => ?_⟩
  have applied := applied_iff legacy signed (links_of_made rfl rfl) rfl checked unset
  refine ⟨⟨?_, ?_⟩, ?_⟩
  · rintro ⟨next, accepted⟩
    obtain ⟨_, new, patched, valid, _⟩ := (applied next).mp accepted
    exact ⟨new, patched, conforms new ▸ valid⟩
  · rintro ⟨new, patched, valid⟩
    exact ⟨_, (applied _).mpr ⟨kept, new, patched, (conforms new).trans valid, rfl⟩⟩
  · intro next accepted
    obtain ⟨_, new, patched, _, rfl⟩ := (applied next).mp accepted
    exact ⟨new, patched, rfl, content_updated⟩

/-- What a TileDocument makes of itself is what the handler makes of it, in every state it gets to. -/
theorem client_and_handler_agree {env : Environment} (legacy : env.useRustCeramic = false)
    {compare : JsValue → JsValue → Except JsError JsValue} (documented : ComparesDocuments compare env.applyPatch)
    {state : StreamState} (reachable : Reachable state) :
    (∀ newContent newMetadata header, updateHeader newMetadata = .ok header →
      Comparable (content state) (updatedContent state newContent) →
      ∃ raw new, makeRawCommit compare state newContent newMetadata = .ok raw ∧
        SameJson new (updatedContent state newContent) ∧ ∀ c, Signed env raw state c →
          ((∃ next, applyCommit env c (some state) = .applied next) ↔ KeepsControllers state header ∧
            validateMetadataSchema env new (JsObject.spread (metadata state) header) = .ok ()) ∧
          ∀ next, applyCommit env c (some state) = .applied next → content next = new ∧
            metadata next = JsObject.spread (metadata state) header) ∧
    (Rewritable (metadata state) → ∀ jsonPatch,
      ∃ raw, makePatchCommit env.stringOf state jsonPatch = .ok raw ∧ ∀ c, Signed env raw state c →
        ((∃ next, applyCommit env c (some state) = .applied next) ↔
          ∃ new, (env.applyPatch (content state) jsonPatch).newDocument = .ok new ∧
            validateMetadataSchema env new (metadata state) = .ok ()) ∧
        ∀ next, applyCommit env c (some state) = .applied next →
          ∃ new, (env.applyPatch (content state) jsonPatch).newDocument = .ok new ∧
            next.next.bind (·.content) = some new ∧ (new.isNullish = false → content next = new)) :=
  ⟨fun _ _ _ accepted comparable => update_agrees legacy documented accepted comparable,
    fun rewritable jsonPatch => patch_agrees legacy env.stringOf reachable.coherent rewritable jsonPatch⟩

namespace ClientFixture

def unspecified : JsonPatch.Unspecified where
  read := fun _ _ => .error ⟨""⟩
  write := fun _ _ _ => .error ⟨""⟩
  copied := fun _ _ => .error ⟨""⟩
  patch := fun _ _ => .error ⟨""⟩
  write_noObject := JsonPatch.noObject_of_refused

def applyPatch (document patch : JsValue) : PatchOutcome :=
  match JsonPatch.applyPatch unspecified document patch with
  | .ok new => ⟨new, .ok new⟩
  | .error e => ⟨document, .error e⟩

def titled : JsValue := .obj [("title", .str "a")]

/-- The diff that adds the title, and otherwise one that replaces the document. -/
def compare (old new : JsValue) : Except JsError JsValue :=
  if old = .obj [] ∧ new = titled then
    .ok (.arr [.obj [("op", .str "add"), ("path", .str "/title"), ("value", .str "a")]])
  else .ok (.arr [.obj [("op", .str "replace"), ("path", .str ""), ("value", new)]])

def node : Environment :=
  { Environment.permissive with
    applyPatch, loadTileSchema := loadSchemaById (fun _ => "") fun _ => .ok (.obj []) }

theorem loads : LoadsSchemasById node := ⟨fun _ => .ok (.obj []), fun _ => rfl⟩

theorem documented : ComparesDocuments compare node.applyPatch := by
  intro old new _
  unfold compare
  split
  next both =>
    obtain ⟨rfl, rfl⟩ := both
    exact ⟨_, titled, rfl, rfl, .refl titled⟩
  next => exact ⟨_, new, rfl, rfl, .refl new⟩

/-- The genesis of a deterministic document. -/
def genesis (header : JsObject) : CommitData :=
  { cid := ⟨[1]⟩, type := .INIT
    commit := { header := some ([("controllers", .arr [.str "did:key:a"])] ++ header) } }

def created (header : JsObject) : StreamState where
  type := TILE_TYPE_ID
  content := .obj []
  metadata := [("controllers", .arr [.str "did:key:a"])] ++ header
  signature := .GENESIS
  anchorStatus := .NOT_REQUESTED
  log := .singleton { cid := ⟨[1]⟩, type := .INIT }

def note : StreamState := created [("family", .str "notes")]

/-- A document whose controllers are fixed. -/
def fixed : StreamState := created [("family", .str "notes"), ("forbidControllerChange", .bool true)]

theorem reachable_note : Reachable note := by
  refine @Reachable.genesis _ (genesis [("family", .str "notes")]) _ loads ?_ rfl
  intro header given
  obtain rfl := Option.some.inj given
  simp [JsObject.names]

theorem reachable_fixed : Reachable fixed := by
  refine @Reachable.genesis _ (genesis [("family", .str "notes"), ("forbidControllerChange", .bool true)]) _ loads ?_ rfl
  intro header given
  obtain rfl := Option.some.inj given
  simp [JsObject.names]

def signed (raw : Commit) : CommitData :=
  { cid := ⟨[2]⟩, type := .DATA, envelope := some ⟨⟨[3]⟩, "", ""⟩, commit := raw }

theorem signed_note (raw : Commit) : Signed node raw note (signed raw) :=
  ⟨rfl, rfl, .str "did:key:a", rfl, rfl, rfl⟩

theorem signed_fixed (raw : Commit) : Signed node raw fixed (signed raw) :=
  ⟨rfl, rfl, .str "did:key:a", rfl, rfl, rfl⟩

theorem comparable_titled : Comparable (.obj []) titled := ⟨rfl, rfl, .inl ⟨[], _, rfl, rfl⟩⟩

theorem rewritable_note : Rewritable (metadata note) := ⟨rfl, rfl, rfl, .inl rfl⟩

end ClientFixture

open ClientFixture

/-- A note is given a title, by an update and by a patch. -/
theorem client_and_handler_agree_titled :
    (∃ raw new, makeRawCommit compare note titled {} = .ok raw ∧ SameJson new titled ∧
      ∃ next, applyCommit node (signed raw) (some note) = .applied next ∧ content next = new) ∧
    ∃ raw, makePatchCommit node.stringOf note (.arr []) = .ok raw ∧
      ∃ next, applyCommit node (signed raw) (some note) = .applied next := by
  obtain ⟨updates, patches⟩ := @client_and_handler_agree node rfl compare documented note reachable_note
  obtain ⟨raw, new, made, same, accepted⟩ := updates titled {} [] rfl comparable_titled
  obtain ⟨rewritten, patchMade, patchAccepted⟩ := patches rewritable_note (.arr [])
  obtain ⟨accepts, results⟩ := accepted (signed raw) (signed_note raw)
  obtain ⟨next, applied⟩ := accepts.mpr ⟨nofun, rfl⟩
  refine ⟨⟨raw, new, made, same, next, applied, (results next applied).1⟩, rewritten, patchMade, ?_⟩
  exact (patchAccepted (signed rewritten) (signed_note rewritten)).1.mpr ⟨.obj [], rfl, rfl⟩

/-- The client lets the controllers of a document be changed that its handler keeps fixed. -/
theorem fixed_controllers_refused :
    ¬∀ (env : Environment) (compare : JsValue → JsValue → Except JsError JsValue), env.useRustCeramic = false →
      LoadsSchemasById env → ComparesDocuments compare env.applyPatch → ∀ state, Reachable state →
      ∀ newContent newMetadata header, updateHeader newMetadata = .ok header →
        Comparable (content state) (updatedContent state newContent) →
        ∃ raw, makeRawCommit compare state newContent newMetadata = .ok raw ∧ ∀ c, Signed env raw state c →
          ∃ next, applyCommit env c (some state) = .applied next ∧
            SameJson (content next) (updatedContent state newContent) := by
  intro agree
  have header : updateHeader { controllers := some ["did:key:b"] } =
      .ok [("controllers", .arr [.str "did:key:b"])] := rfl
  obtain ⟨raw, made, accepted⟩ := agree node compare rfl loads documented fixed reachable_fixed titled
    { controllers := some ["did:key:b"] } _ header comparable_titled
  have isRaw : makeRawCommit compare fixed titled { controllers := some ["did:key:b"] } = .ok _ := rfl
  obtain rfl := Except.ok.inj (isRaw.symm.trans made)
  obtain ⟨next, applied, _⟩ := accepted _ (signed_fixed _)
  cases applied

end Ceramic.TileDocument
