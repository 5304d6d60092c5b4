import Ceramic.JsonPatch
import Ceramic.ModelInstanceDocumentHandler

/-! The immutable fields of a model. A patch is checked by the first segments of the paths it writes to,
so what it does to other places, or to the document as a whole, is not looked at. -/
namespace Ceramic.ModelInstanceDocumentHandler

open JsonPatch

/-- Patches are applied as their package documents it. -/
def FollowsJsonPatch (applyPatch : JsValue → JsValue → PatchOutcome) : Prop :=
  ∃ unspecified, ∀ document patch new, (applyPatch document patch).newDocument = .ok new →
    JsonPatch.applyPatch unspecified document patch = .ok new

/-- The first data commit of a document that was created without content. -/
def firstOfDeterministic (model : Model) (state : StreamState) : Bool :=
  isDeterministic model.content.accountRelation && !state.log.toList.any fun entry => entry.type = .DATA

/-- An operation that does not get to a field past the check: it leaves the field alone where it writes
the document as a whole, its path names the field as it is if it leads there, and it moves nothing out
of the field. -/
structure PassesOver (field : String) (held : JsValue) (entry : JsValue) : Prop where
  whole : entry.prop "path" = .ok (.str "") → KeepsWhole field held entry
  named : ∀ path, entry.prop "path" = .ok (.str path) → (pointerKeys path).head? = some field →
    topLevelField path = some field
  taken : ∀ op source keys, entry.prop "op" = .ok op → nameOf op = some "move" →
    entry.prop "from" = .ok source → keysOf source = .ok keys → keys.head? = some field → held = .undefined

/-- For a field without tildes and slashes the check sees every pointer that leads to it. -/
theorem topLevelField_of_plain {field path : String} (plain : ∀ c ∈ field.toList, c ≠ '~' ∧ c ≠ '/')
    (isPointer : ∃ rest, path = String.ofList ('/' :: rest)) (first : (pointerKeys path).head? = some field) :
    topLevelField path = some field := by
  obtain ⟨rest, rfl⟩ := isPointer
  rw [pointerKeys_head] at first
  obtain rfl := Option.some.inj first
  have asItIs : unescape (rest.takeWhile (· != '/')) = rest.takeWhile (· != '/') :=
    unescape_plain (by simpa using plain)
  rw [asItIs]
  unfold topLevelField
  rw [String.toList_ofList]
  rfl

theorem entryPath_ok {entry : JsValue} {path : String} (read : entryPath entry = .ok path) :
    entry.prop "path" = .ok (.str path) := by
  obtain ⟨value, isValue, isText⟩ := bind_eq_ok.mp read
  split at isText
  · obtain rfl := Except.ok.inj isText
    exact isValue
  all_goals cases isText

/-- What the check has seen of every operation. -/
theorem mutated_false {field : String} {entries : List JsValue} (unchanged : mutated field entries = .ok false) :
    ∀ entry ∈ entries, ∃ path, entry.prop "path" = .ok (.str path) ∧ topLevelField path ≠ some field := by
  induction entries with
  | nil => simp
  | cons first entries ih =>
    obtain ⟨path, isPath, rest⟩ := bind_eq_ok.mp unchanged
    split at rest
    · cases rest
    next other =>
      rintro entry (_ | ⟨_, behind⟩)
      · exact ⟨path, entryPath_ok isPath, other⟩
      · exact ih rest entry behind

/-- A number is no operation. -/
theorem no_entries_of_bytes {field : String} {b : List UInt8}
    (unchanged : mutated field (b.map fun byte => .num byte.toNat) = .ok false) : b = [] := by
  cases b with
  | nil => rfl
  | cons byte b =>
    obtain ⟨path, read, _⟩ := mutated_false unchanged (.num byte.toNat) List.mem_cons_self
    cases read

theorem PassesOver.keeps {field path : String} {held entry : JsValue} (passesOver : PassesOver field held entry)
    (isPath : entry.prop "path" = .ok (.str path)) (other : topLevelField path ≠ some field) :
    Keeps field held entry where
  whole := passesOver.whole
  written := by
    intro value keys read isKeys first
    obtain rfl := Except.ok.inj (isPath.symm.trans read)
    obtain rfl := Except.ok.inj isKeys
    exact other (passesOver.named path isPath first)
  taken := passesOver.taken

/-- A patch whose operations do not get to the field past the check keeps it. -/
theorem locked_field_kept {unspecified : Unspecified} {payload : Commit} {field : String} {old new : JsValue}
    (checked : validateLockedField payload field = .ok ())
    (passesOver : ∀ entries, payload.data = .arr entries → ∀ entry ∈ entries, PassesOver field (old.fieldOf field) entry)
    (applied : JsonPatch.applyPatch unspecified old payload.data = .ok new) : new.fieldOf field = old.fieldOf field := by
  obtain ⟨entries, isPatch, checked⟩ := bind_eq_ok.mp checked
  obtain ⟨found, searched, checked⟩ := bind_eq_ok.mp checked
  obtain ⟨notFound, _⟩ := guard_eq_ok.mp checked
  obtain rfl : found = false := by simpa using notFound
  cases given : payload.data with
  | arr operations =>
    rw [given] at isPatch applied
    obtain rfl := Except.ok.inj isPatch
    refine foldlM_keeps (fun entry member => ?_) rfl applied
    obtain ⟨path, isPath, other⟩ := mutated_false searched entry member
    exact (passesOver operations given entry member).keeps isPath other
  | bytes b =>
    rw [given] at isPatch applied
    obtain rfl := Except.ok.inj isPatch
    obtain rfl := no_entries_of_bytes searched
    obtain rfl := Except.ok.inj applied
    rfl
  | _ =>
    rw [given] at isPatch
    cases isPatch

/-- Only `shouldIndex` is written. -/
theorem writeShouldIndex_model (state : StreamState) (index : JsValue) :
    JsObject.get (writeShouldIndex state index).metadata "model" = JsObject.get state.metadata "model" := by
  unfold writeShouldIndex
  split
  · rfl
  · exact JsObject.get_set_other state.metadata (by decide) index

/-- An absent document and the empty one have the same fields. -/
theorem oldContent_fieldOf (state : StreamState) (field : String) :
    (oldContent state).fieldOf field = state.content.fieldOf field := by
  unfold oldContent
  split
  next nullish =>
    cases given : state.content with
    | undefined => rfl
    | null => rfl
    | _ =>
      rw [given] at nullish
      cases nullish
  next => rfl

/-- What acceptance of a signed commit says about the locked fields. -/
theorem lockedFields_checked {env : Environment} {payload : Commit} {state : StreamState} {new : JsValue} {model : Model}
    (loaded : env.loadModel (JsObject.get state.metadata "model") = .ok model) (isV2 : model.content.version = "2.0")
    {immutableFields : List String} (immutable : model.content.immutableFields = some immutableFields)
    (later : firstOfDeterministic model state = false) (valid : validateSigned env payload state new = .ok ()) :
    ∀ field ∈ immutableFields, validateLockedField payload field = .ok () := by
  obtain ⟨found, isFound, valid⟩ := bind_eq_ok.mp valid
  obtain rfl := Except.ok.inj (loaded.symm.trans isFound)
  obtain ⟨_, validContent, _⟩ := bind_eq_ok.mp valid
  unfold validateContent at validContent
  rw [Bool.false_and, if_neg Bool.false_ne_true] at validContent
  obtain ⟨_, _, validContent⟩ := bind_eq_ok.mp validContent
  obtain ⟨_, _, validContent⟩ := bind_eq_ok.mp validContent
  obtain ⟨_, _, validContent⟩ := bind_eq_ok.mp validContent
  unfold firstOfDeterministic at later
  dsimp only at validContent
  rw [later] at validContent
  replace validContent : validateLockedFieldsUpdate model payload = .ok () := validContent
  unfold validateLockedFieldsUpdate at validContent
  rw [if_neg (by simp [isV2]), immutable] at validContent
  exact forM_eq_ok.mp validContent

namespace ImmutableFixture

/-- Patches of documents whose values are no arrays. -/
def unspecified : Unspecified where
  read := fun _ _ => .error ⟨""⟩
  write := fun _ _ _ => .error ⟨""⟩
  copied := fun _ _ => .error ⟨""⟩
  patch := fun _ _ => .error ⟨""⟩
  write_noObject := noObject_of_refused

/-- A patch edits the document it is given, the whole of it apart. -/
def applyPatch (document patch : JsValue) : PatchOutcome :=
  match JsonPatch.applyPatch unspecified document patch with
  | .ok new => ⟨new, .ok new⟩
  | .error e => ⟨document, .error e⟩

theorem documented : FollowsJsonPatch applyPatch := by
  refine ⟨unspecified, fun document patch new patched => ?_⟩
  unfold applyPatch at patched
  split at patched
  next applied =>
    obtain rfl := Except.ok.inj patched
    exact applied
  next => cases patched

def namedModel : Model :=
  ⟨⟨MODEL_TYPE_ID, ⟨[5]⟩⟩, ⟨MODEL_TYPE_ID, ⟨[5]⟩, none⟩,
    { version := "2.0", name := "Person", schema := .obj [], accountRelation := .list
      immutableFields := some ["name"] }⟩

def node : Environment := { Environment.permissive with applyPatch, loadModel := fun _ => .ok namedModel }

def person : StreamState where
  type := MODEL_INSTANCE_TYPE_ID
  content := .obj [("name", .str "Ada"), ("nick", .str "A")]
  metadata := [("controllers", .arr [.str "did:key:z6Mk"]), ("model", .streamID namedModel.id)]
  signature := .SIGNED
  anchorStatus := .NOT_REQUESTED
  log := .singleton { cid := ⟨[1]⟩, type := .INIT }

def signedPatch (operations : List JsValue) : CommitData :=
  { cid := ⟨[2]⟩, type := .DATA, envelope := some ⟨⟨[2]⟩, "", ""⟩
    commit := { data := .arr operations, prev := some ⟨[1]⟩, id := some ⟨[1]⟩ } }

def renamed : JsValue := .obj [("op", .str "replace"), ("path", .str "/nick"), ("value", .str "B")]

def movedAway : JsValue := .obj [("op", .str "move"), ("from", .str "/name"), ("path", .str "/nick")]

end ImmutableFixture

open ImmutableFixture

end Ceramic.ModelInstanceDocumentHandler
