import Ceramic.ModelHandler
import Ceramic.ModelInstanceDocumentHandler
import Ceramic.StateSerialization
import Ceramic.JsonPatch
import Mathlib.Logic.Relation

/-! The interfaces of a model. The Model handler loads those that a new model names, the index
those behind them too, and a relation of a document looks only at the names. -/
namespace Ceramic

namespace StreamRef

def type (ref : StreamRef) : Nat := ref.baseID.type

def fromString (parseCID : String → Option Cid) (input : String) : Except JsError StreamRef := do
  match ← StreamRefParsing.fromString parseCID input "StreamRef" with
  | .commitId type genesis commit => return .commitID (.make type genesis commit)
  | .streamId type genesis => return .streamID ⟨type, genesis⟩

end StreamRef

/-- The Model streams that a node can load, and the commits that their logs have. -/
structure ModelReader where
  models : List Model
  parseCID : String → Option Cid
  hasCommit : CommitID → Bool
  notLoaded : StreamRef → JsError

namespace ModelReader

variable (reader : ModelReader)

def loadStream (ref : StreamRef) : Except JsError Model :=
  match reader.models.find? fun model => model.id = ref.baseID with
  | none => .error (reader.notLoaded ref)
  | some model => match ref with
    | .streamID _ => .ok model
    | .commitID id => if reader.hasCommit id then .ok model else .error (reader.notLoaded ref)

/-- `Model.load` of a text. -/
def load (streamId : String) : Except JsError Model := do
  let streamRef ← StreamRef.fromString reader.parseCID streamId
  if streamRef.type ≠ MODEL_TYPE_ID then
    let typeName ← StreamType.nameByCode streamRef.type
    throw ⟨"StreamID " ++ streamRef.toString ++ " does not refer to a 'model' stream, but to a " ++ typeName⟩
  reader.loadStream streamRef

def accept (model : Model) : ModelReader := { reader with models := model :: reader.models }

end ModelReader

namespace Model

def VERSION : String := "2.0"

def isDigits (part : List Char) : Bool := part ≠ [] && part.all Char.isDigit

/-- The two numbers of a text that matches `MODEL_VERSION_REGEXP`. -/
def parseModelVersion (version : String) : Except JsError (Nat × Nat) :=
  match version.toList.splitOn '.' with
  | [major, minor] =>
    if isDigits major && isDigits minor then .ok (Nat.ofDigitChars 10 major 0, Nat.ofDigitChars 10 minor 0)
    else .error ⟨"Unsupported version format: " ++ version⟩
  | _ => .error ⟨"Unsupported version format: " ++ version⟩

inductive ValidVersionSatisfies where
  | major | minor
  deriving DecidableEq, Repr

def assertVersionValid (content : ModelDefinition) (satisfies : ValidVersionSatisfies) : Except JsError Unit := do
  let (expectedMajor, expectedMinor) ← parseModelVersion VERSION
  let (major, minor) ← parseModelVersion content.version
  if major > expectedMajor || (satisfies = .minor && major = expectedMajor && minor > expectedMinor) then
    throw ⟨"Unsupported version " ++ content.version ++ " for model " ++ content.name ++
      ", the maximum version supported by the Ceramic node is " ++ VERSION ++
      ". Please update your Ceramic node to a newer version supporting at least version " ++ content.version ++
      " of the Model definition."⟩

end Model

def RelationDefinition.ofValue (definition : JsValue) : RelationDefinition :=
  if definition.fieldOf "type" = .str "account" then .account
  else match definition.fieldOf "model" with
    | .str model => .document (some model)
    | _ => .document none

def JsValue.text : JsValue → String
  | .str text => text
  | _ => ""

def JsValue.texts : JsValue → List String
  | .arr items => items.map text
  | _ => []

def AccountRelation.ofValue (relation : JsValue) : AccountRelation :=
  match relation.fieldOf "type" with
  | .str "list" => .list
  | .str "single" => .single
  | .str "set" => .set (relation.fieldOf "fields").texts
  | _ => .none

/-- The fields of a content, as they are read once it is known to be a definition. -/
def ModelDefinition.ofContent (content : JsValue) : ModelDefinition where
  version := (content.fieldOf "version").text
  name := (content.fieldOf "name").text
  schema := content.fieldOf "schema"
  accountRelation := .ofValue (content.fieldOf "accountRelation")
  interface := (content.fieldOf "interface").truthy
  implements := (content.fieldOf "implements").texts
  immutableFields := match content.fieldOf "immutableFields" with
    | .undefined => none
    | fields => some fields.texts
  relations := match content.fieldOf "relations" with
    | .obj relations => some (relations.map fun relation => (relation.1, .ofValue relation.2))
    | _ => none

/-- The checks of a model's content that load no other model, and the comparison with an interface. -/
structure ModelChecks where
  assertComplete : JsValue → Except JsError Unit
  assertRelationsValid : JsValue → Except JsError Unit
  /-- The schema, the set fields, the views and the form of an interface. -/
  validateOwn : JsValue → Except JsError Unit
  validateInterfaceImplementation : String → ModelDefinition → ModelDefinition → Except JsError Unit

namespace ModelHandler

def validateImplementedInterface (checks : ModelChecks) (context : ModelReader) (model : ModelDefinition)
    (interfaceID : String) : Except JsError Unit := do
  let interfaceModel ← context.load interfaceID
  checks.validateInterfaceImplementation interfaceID interfaceModel.content model

/-- The interfaces that a model names are loaded, but it is not asked whether they are interfaces. -/
def validateImplementedInterfaces (checks : ModelChecks) (context : ModelReader) (model : ModelDefinition) :
    Except JsError Unit :=
  let errors := model.implements.filterMap fun interfaceID =>
    match validateImplementedInterface checks context model interfaceID with
    | .ok () => none
    | .error error => some error
  if errors = [] then .ok () else .error ⟨"Interfaces validation failed for model " ++ model.name⟩

/-- The surroundings of the handler where these models can be loaded. -/
def environment (env : Environment) (checks : ModelChecks) (context : ModelReader) : Environment :=
  { env with
    assertModelDefinition := fun content => do
      checks.assertComplete content
      Model.assertVersionValid (.ofContent content) .major
      checks.assertRelationsValid content
    validateModelContent := fun content => do
      checks.validateOwn content
      if (ModelDefinition.ofContent content).implements = [] then return ()
      validateImplementedInterfaces checks context (.ofContent content) }

end ModelHandler

section

variable (reader : ModelReader)

/-- The interfaces of an interface. -/
def loadInterfaceImplements (modelID : String) : Except JsError (List String) := do
  let model ← reader.load modelID
  if model.content.version = "1.0" || !model.content.interface then
    throw ⟨"Model " ++ modelID ++ " is not an interface"⟩
  return model.content.implements

/-- What the promises kept by the text of a model come to. A promise comes to the same whenever it
is awaited, so the interfaces are followed one after another here. -/
abbrev LoadingInterfaceImplements := String → Option (Except JsError (List String))

abbrev LoadInterfaces := List String → LoadingInterfaceImplements →
  Except JsError (List String) × LoadingInterfaceImplements

/-- The promise for one interface: its own and those behind them. -/
def promised (loadAll : LoadInterfaces) (modelID : String) (loading : LoadingInterfaceImplements) :
    Except JsError (List String) × LoadingInterfaceImplements :=
  match loadInterfaceImplements reader modelID with
  | .error error => (.error error, loading)
  | .ok ownImplements =>
    let (subImplements, loading) := loadAll ownImplements loading
    (subImplements.map (ownImplements ++ ·), loading)

def loadOnce (loadAll : LoadInterfaces) (modelID : String) (loading : LoadingInterfaceImplements) :
    Except JsError (List String) × LoadingInterfaceImplements :=
  match loading modelID with
  | some promise => (promise, loading)
  | none =>
    let (promise, loading) := promised reader loadAll modelID loading
    (promise, fun other => if other = modelID then some promise else loading other)

def loadEach (loadAll : LoadInterfaces) : List String → LoadingInterfaceImplements →
    Except JsError (List (List String)) × LoadingInterfaceImplements
  | [], loading => (.ok [], loading)
  | modelID :: rest, loading =>
    let (first, loading) := loadOnce reader loadAll modelID loading
    let (others, loading) := loadEach loadAll rest loading
    (do return (← first) :: (← others), loading)

/-- The interfaces and those behind them, without duplicates. The first argument bounds how far the
calls are nested. -/
def loadAllModelInterfaces : Nat → LoadInterfaces
  | 0, interfaces, loading =>
    (if interfaces = [] then .ok [] else .error ⟨"Maximum call stack size exceeded"⟩, loading)
  | fuel + 1, interfaces, loading =>
    let (loaded, loading) := loadEach reader (loadAllModelInterfaces fuel) interfaces loading
    (loaded.map fun loaded => (interfaces ++ loaded.flatten).eraseDups, loading)

structure ModelData where
  streamID : StreamID
  indices : JsValue

structure IndexModelArgs where
  model : StreamID
  relations : Option (List (String × RelationDefinition)) := none
  indices : JsValue := .undefined
  implements : Option (List String) := none

/-- A definition of version 1.0 without interfaces has no field for them. -/
def ModelDefinition.hasImplements (content : ModelDefinition) : Bool :=
  content.version ≠ "1.0" || content.implements ≠ []

def indexableContent (req : ModelData) : Except JsError ModelDefinition := do
  let model ← reader.loadStream (.streamID req.streamID)
  Model.assertVersionValid model.content .major
  if model.content.interface then
    throw ⟨"Model " ++ req.streamID.toString ++ " is an interface and cannot be indexed"⟩
  return model.content

/-- What the index is told of a model, and the promises kept for the next one. -/
def getIndexModelArgs (MODEL : StreamID) (req : ModelData) (loading : LoadingInterfaceImplements) :
    Except JsError IndexModelArgs × LoadingInterfaceImplements :=
  let modelStreamId := req.streamID
  if modelStreamId.type ≠ MODEL_TYPE_ID && modelStreamId ≠ MODEL then
    (.error ⟨"Cannot index " ++ modelStreamId.toString ++ ", it is not a Model StreamID"⟩, loading)
  else if modelStreamId.type = MODEL_TYPE_ID then
    match indexableContent reader req with
    | .error error => (.error error, loading)
    | .ok content =>
      let opts : IndexModelArgs := ⟨modelStreamId, content.relations, req.indices, none⟩
      if content.hasImplements then
        let (implements, loading) :=
          loadAllModelInterfaces reader (reader.models.length + 1) content.implements loading
        (implements.map fun implements => { opts with implements := some implements }, loading)
      else (.ok opts, loading)
  else (.ok { model := modelStreamId }, loading)

end

def ModelDefinition.IsInterface (content : ModelDefinition) : Prop :=
  content.version ≠ "1.0" ∧ content.interface = true

namespace ModelReader

variable (reader : ModelReader)

/-- The model that one text loads names the other. -/
def Implements (modelID interfaceID : String) : Prop :=
  ∃ model, reader.load modelID = .ok model ∧ interfaceID ∈ model.content.implements

abbrev Reaches : String → String → Prop := Relation.ReflTransGen reader.Implements

def IsInterface (modelID : String) : Prop :=
  ∃ model, reader.load modelID = .ok model ∧ model.content.IsInterface

/-- Interfaces are listed with those behind them, if all of these are interfaces. -/
structure Lists (interfaces : List String) (result : Except JsError (List String)) : Prop where
  resolves : (∃ listed, result = .ok listed) ↔ ∀ a ∈ interfaces, ∀ b, reader.Reaches a b → reader.IsInterface b
  listed : ∀ listed, result = .ok listed → ∀ b, b ∈ listed ↔ ∃ a ∈ interfaces, reader.Reaches a b

/-- The interfaces behind one are promised, if it and all of these are interfaces. -/
structure Promises (modelID : String) (promise : Except JsError (List String)) : Prop where
  resolves : (∃ behind, promise = .ok behind) ↔ ∀ b, reader.Reaches modelID b → reader.IsInterface b
  behind : ∀ behind, promise = .ok behind → ∀ b, b ∈ behind ↔ Relation.TransGen reader.Implements modelID b

/-- Every promise that is kept is one for the interface that it is kept under. -/
def Keeps (loading : LoadingInterfaceImplements) : Prop :=
  ∀ modelID promise, loading modelID = some promise → reader.Promises modelID promise

/-- Calls for interfaces of a kind list them and keep what they promise. -/
def Serves (loadAll : LoadInterfaces) (within : String → Prop) : Prop :=
  ∀ interfaces loading, (∀ a ∈ interfaces, within a) → reader.Keeps loading →
    reader.Lists interfaces (loadAll interfaces loading).1 ∧ reader.Keeps (loadAll interfaces loading).2

end ModelReader

section

variable {reader : ModelReader}

theorem loadInterfaceImplements_ok {modelID : String} {own : List String} :
    loadInterfaceImplements reader modelID = .ok own ↔
      ∃ model, reader.load modelID = .ok model ∧ model.content.IsInterface ∧ model.content.implements = own := by
  unfold loadInterfaceImplements
  rw [bind_eq_ok]
  refine exists_congr fun model => and_congr_right fun _ => ?_
  rw [guard_eq_ok, ModelDefinition.IsInterface]
  cases model.content.interface <;> simp [pure, Except.pure]

theorem isInterface_of_own {modelID : String} {own : List String}
    (found : loadInterfaceImplements reader modelID = .ok own) :
    reader.IsInterface modelID ∧ ∀ b, reader.Implements modelID b ↔ b ∈ own := by
  obtain ⟨model, loaded, isInterface, rfl⟩ := loadInterfaceImplements_ok.mp found
  refine ⟨⟨model, loaded, isInterface⟩, fun b => ⟨?_, fun member => ⟨model, loaded, member⟩⟩⟩
  rintro ⟨other, loadedOther, member⟩
  obtain rfl := Except.ok.inj (loaded.symm.trans loadedOther)
  exact member

theorem not_isInterface_of_error {modelID : String} {e : JsError}
    (failed : loadInterfaceImplements reader modelID = .error e) : ¬reader.IsInterface modelID := by
  rintro ⟨model, loaded, isInterface⟩
  have found := loadInterfaceImplements_ok.mpr ⟨model, loaded, isInterface, rfl⟩
  rw [failed] at found
  cases found

/-- An interface that cannot be loaded as one has a promise that is rejected. -/
theorem promises_of_error {modelID : String} {e : JsError} (failed : loadInterfaceImplements reader modelID = .error e)
    (error : JsError) : reader.Promises modelID (.error error) := by
  refine ⟨⟨nofun, fun all => ?_⟩, nofun⟩
  exact absurd (all modelID .refl) (not_isInterface_of_error failed)

/-- What is behind an interface is what it names and what is listed for that. -/
theorem promises_of_lists {modelID : String} {own : List String} {sub : Except JsError (List String)}
    (found : loadInterfaceImplements reader modelID = .ok own) (lists : reader.Lists own sub) :
    reader.Promises modelID (sub.map (own ++ ·)) := by
  obtain ⟨isInterface, edges⟩ := isInterface_of_own found
  refine ⟨?_, ?_⟩
  · calc (∃ behind, sub.map (own ++ ·) = .ok behind)
        ↔ ∃ listed, sub = .ok listed := by simp [map_eq_ok]
      _ ↔ ∀ a ∈ own, ∀ b, reader.Reaches a b → reader.IsInterface b := lists.resolves
      _ ↔ ∀ b, reader.Reaches modelID b → reader.IsInterface b := ?_
    constructor
    · intro all b reaches
      rcases Relation.ReflTransGen.cases_head reaches with rfl | ⟨a, edge, behind⟩
      · exact isInterface
      · exact all a ((edges a).mp edge) b behind
    · exact fun all a member b behind => all b (.head ((edges a).mpr member) behind)
  · intro behind resolved b
    obtain ⟨listed, isListed, rfl⟩ := map_eq_ok.mp resolved
    rw [List.mem_append, lists.listed listed isListed, Relation.TransGen.head'_iff]
    constructor
    · rintro (member | ⟨a, member, behind⟩)
      · exact ⟨b, (edges b).mpr member, .refl⟩
      · exact ⟨a, (edges a).mpr member, behind⟩
    · rintro ⟨a, edge, behind⟩
      exact .inr ⟨a, (edges a).mp edge, behind⟩

theorem promised_promises {loadAll : LoadInterfaces} {within : String → Prop} (serves : reader.Serves loadAll within)
    {modelID : String} {loading : LoadingInterfaceImplements} (keeps : reader.Keeps loading)
    (below : ∀ b, reader.Implements modelID b → within b) :
    reader.Promises modelID (promised reader loadAll modelID loading).1 ∧
      reader.Keeps (promised reader loadAll modelID loading).2 := by
  unfold promised
  cases found : loadInterfaceImplements reader modelID with
  | error e => exact ⟨promises_of_error found e, keeps⟩
  | ok own =>
    obtain ⟨_, edges⟩ := isInterface_of_own found
    obtain ⟨lists, kept⟩ := serves own loading (fun b member => below b ((edges b).mpr member)) keeps
    exact ⟨promises_of_lists found lists, kept⟩

theorem loadOnce_promises {loadAll : LoadInterfaces} {within : String → Prop} (serves : reader.Serves loadAll within)
    {modelID : String} {loading : LoadingInterfaceImplements} (keeps : reader.Keeps loading)
    (below : ∀ b, reader.Implements modelID b → within b) :
    reader.Promises modelID (loadOnce reader loadAll modelID loading).1 ∧
      reader.Keeps (loadOnce reader loadAll modelID loading).2 := by
  unfold loadOnce
  cases kept : loading modelID with
  | some promise => exact ⟨keeps modelID promise kept, keeps⟩
  | none =>
    obtain ⟨promises, keepsOthers⟩ := promised_promises serves keeps below
    refine ⟨promises, fun other promise isKept => ?_⟩
    by_cases same : other = modelID
    · obtain rfl := same
      obtain rfl := Option.some.inj ((if_pos rfl).symm.trans isKept)
      exact promises
    · exact keepsOthers other promise ((if_neg same).symm.trans isKept)

/-- All the promises for some interfaces. -/
theorem loadEach_promises {loadAll : LoadInterfaces} {within : String → Prop} (serves : reader.Serves loadAll within)
    {interfaces : List String} {loading : LoadingInterfaceImplements} (keeps : reader.Keeps loading)
    (below : ∀ a ∈ interfaces, ∀ b, reader.Implements a b → within b) :
    ((∃ loaded, (loadEach reader loadAll interfaces loading).1 = .ok loaded) ↔
      ∀ a ∈ interfaces, ∀ b, reader.Reaches a b → reader.IsInterface b) ∧
    (∀ loaded, (loadEach reader loadAll interfaces loading).1 = .ok loaded → ∀ b, b ∈ loaded.flatten ↔
      ∃ a ∈ interfaces, Relation.TransGen reader.Implements a b) ∧
    reader.Keeps (loadEach reader loadAll interfaces loading).2 := by
  induction interfaces generalizing loading with
  | nil => simpa [loadEach] using keeps
  | cons first rest ih =>
    obtain ⟨promises, keepsFirst⟩ := loadOnce_promises serves keeps (below first List.mem_cons_self)
    obtain ⟨resolves, behind, kept⟩ := ih keepsFirst fun a member => below a (List.mem_cons_of_mem _ member)
    refine ⟨?_, ?_, kept⟩
    · rw [List.forall_mem_cons, ← promises.resolves, ← resolves]
      constructor
      · rintro ⟨loaded, done⟩
        obtain ⟨own, isOwn, others⟩ := bind_eq_ok.mp done
        obtain ⟨loadedRest, isRest, _⟩ := bind_eq_ok.mp others
        exact ⟨⟨own, isOwn⟩, loadedRest, isRest⟩
      · rintro ⟨⟨own, isOwn⟩, loadedRest, isRest⟩
        exact ⟨own :: loadedRest, bind_eq_ok.mpr ⟨own, isOwn, bind_eq_ok.mpr ⟨loadedRest, isRest, rfl⟩⟩⟩
    · intro loaded done b
      obtain ⟨own, isOwn, others⟩ := bind_eq_ok.mp done
      obtain ⟨loadedRest, isRest, made⟩ := bind_eq_ok.mp others
      obtain rfl := Except.ok.inj made
      rw [List.flatten_cons, List.mem_append, promises.behind own isOwn, behind loadedRest isRest]
      simp

/-- Within the bound of the nesting, the call lists the interfaces whatever was kept before. -/
theorem loadAllModelInterfaces_serves {rank : String → Nat}
    (ranked : ∀ a b, reader.Implements a b → rank b < rank a) (fuel : Nat) :
    reader.Serves (loadAllModelInterfaces reader fuel) (rank · < fuel) := by
  induction fuel with
  | zero =>
    intro interfaces loading within keeps
    cases interfaces with
    | nil => exact ⟨⟨by simp [loadAllModelInterfaces], by simp [loadAllModelInterfaces]⟩, keeps⟩
    | cons first rest => exact absurd (within first List.mem_cons_self) (Nat.not_lt_zero _)
  | succ fuel ih =>
    intro interfaces loading within keeps
    have below : ∀ a ∈ interfaces, ∀ b, reader.Implements a b → rank b < fuel := fun a member b edge =>
      Nat.lt_of_lt_of_le (ranked a b edge) (Nat.lt_succ_iff.mp (within a member))
    obtain ⟨resolves, behind, kept⟩ := loadEach_promises ih keeps below
    refine ⟨⟨?_, ?_⟩, kept⟩
    · rw [← resolves]
      simp [loadAllModelInterfaces, map_eq_ok]
    · intro listed done b
      obtain ⟨loaded, isLoaded, rfl⟩ := map_eq_ok.mp done
      rw [List.mem_eraseDups, List.mem_append, behind loaded isLoaded]
      constructor
      · rintro (member | ⟨a, member, path⟩)
        · exact ⟨b, member, .refl⟩
        · exact ⟨a, member, path.to_reflTransGen⟩
      · rintro ⟨a, member, path⟩
        rcases Relation.reflTransGen_iff_eq_or_transGen.mp path with rfl | path
        · exact .inl member
        · exact .inr ⟨a, member, path⟩

end

namespace ModelReader

theorem load_ok {reader : ModelReader} {streamId : String} {model : Model} :
    reader.load streamId = .ok model ↔ ∃ ref, StreamRef.fromString reader.parseCID streamId = .ok ref ∧
      ref.type = MODEL_TYPE_ID ∧ reader.loadStream ref = .ok model := by
  unfold load
  rw [bind_eq_ok]
  refine exists_congr fun ref => and_congr_right fun _ => ?_
  by_cases isModel : ref.type = MODEL_TYPE_ID
  · simp [isModel]
  · cases StreamType.nameByCode ref.type <;> simp [isModel, bind, Except.bind, throw, throwThe, MonadExceptOf.throw]

theorem loadStream_ok {reader : ModelReader} {ref : StreamRef} {model : Model}
    (loaded : reader.loadStream ref = .ok model) : model ∈ reader.models ∧ model.id = ref.baseID := by
  unfold loadStream at loaded
  cases found : reader.models.find? fun model => model.id = ref.baseID with
  | none =>
    rw [found] at loaded
    cases loaded
  | some known =>
    have named : known.id = ref.baseID := by simpa using List.find?_some found
    rw [found] at loaded
    suffices known = model from this ▸ ⟨List.mem_of_find?_eq_some found, named⟩
    cases ref with
    | streamID id => exact Except.ok.inj loaded
    | commitID id =>
      dsimp only at loaded
      split at loaded
      · exact Except.ok.inj loaded
      · cases loaded

/-- Another model does not change what is loaded. -/
theorem load_accept {reader : ModelReader} {streamId : String} {model other : Model}
    (loaded : reader.load streamId = .ok model) (apart : model.id ≠ other.id) :
    (reader.accept other).load streamId = .ok model := by
  obtain ⟨ref, named, isModel, found⟩ := load_ok.mp loaded
  refine load_ok.mpr ⟨ref, named, isModel, ?_⟩
  have notNamed : other.id ≠ ref.baseID := fun same => apart ((loadStream_ok found).2.trans same.symm)
  unfold loadStream accept
  rw [List.find?_cons_of_neg (by simpa using notNamed)]
  exact found

/-- How many models there were once the model was accepted, or 0. -/
def age : List Model → StreamID → Nat
  | [], _ => 0
  | model :: older, id => if model.id = id then older.length + 1 else age older id

theorem age_le (models : List Model) (id : StreamID) : age models id ≤ models.length := by
  induction models with
  | nil => exact Nat.le_refl _
  | cons model older ih =>
    unfold age
    split
    · exact Nat.le_refl _
    · exact Nat.le_succ_of_le ih

/-- Models that name only older ones. -/
structure Ordered (reader : ModelReader) : Prop where
  isModel : ∀ model ∈ reader.models, model.id.type = MODEL_TYPE_ID
  wellFormed : ∀ model ∈ reader.models, model.id.cid.WellFormed ∧ model.id.cid.isV0 = false
  distinct : reader.models.Pairwise fun newer older => newer.id ≠ older.id
  supported : ∀ model ∈ reader.models, Model.assertVersionValid model.content .major = .ok ()
  older : ∀ model ∈ reader.models, ∀ interfaceID ∈ model.content.implements, ∃ implemented,
    reader.load interfaceID = .ok implemented ∧ age reader.models implemented.id < age reader.models model.id

end ModelReader

/-- The stream as a model. -/
def Model.ofState (state : StreamState) : Model where
  id := StreamUtils.streamIdFromState state
  commitId := .make state.type state.log.first.cid (some state.log.last.cid)
  content := .ofContent state.content

/-- Models that the handler accepts one after another, each with those before it to load from. The
block of a signed genesis is encoded as dag-jose, so its CID is of version 1. -/
inductive ModelsAccepted (checks : ModelChecks) : ModelReader → Prop
  | none {reader : ModelReader} (empty : reader.models = []) : ModelsAccepted checks reader
  | accept {reader : ModelReader} (older : ModelsAccepted checks reader) (env : Environment) {c : CommitData}
      {state : StreamState}
      (applied : ModelHandler.applyGenesis (ModelHandler.environment env checks reader) c = .ok state)
      (wellFormed : c.cid.WellFormed) (v1 : c.cid.isV0 = false)
      (fresh : ∀ model ∈ reader.models, model.id ≠ StreamUtils.streamIdFromState state) :
      ModelsAccepted checks (reader.accept (.ofState state))

theorem ModelHandler.loaded_of_validate {checks : ModelChecks} {context : ModelReader} {model : ModelDefinition}
    (valid : validateImplementedInterfaces checks context model = .ok ()) :
    ∀ interfaceID ∈ model.implements, ∃ implemented, context.load interfaceID = .ok implemented := by
  intro interfaceID member
  unfold validateImplementedInterfaces at valid
  dsimp only at valid
  split at valid
  next noErrors =>
    have quiet := List.filterMap_eq_nil_iff.mp noErrors interfaceID member
    cases checked : validateImplementedInterface checks context model interfaceID with
    | error e => simp [checked] at quiet
    | ok =>
      obtain ⟨implemented, loaded, _⟩ := bind_eq_ok.mp checked
      exact ⟨implemented, loaded⟩
  next => cases valid

/-- What the handler has checked of a model that it accepts. -/
theorem ModelHandler.checked_of_genesis {env : Environment} {checks : ModelChecks} {reader : ModelReader}
    {c : CommitData} {state : StreamState}
    (applied : applyGenesis (environment env checks reader) c = .ok state) :
    (Model.ofState state).id = ⟨MODEL_TYPE_ID, c.cid⟩ ∧
    Model.assertVersionValid (Model.ofState state).content .major = .ok () ∧
    ∀ interfaceID ∈ (Model.ofState state).content.implements, ∃ implemented,
      reader.load interfaceID = .ok implemented := by
  obtain ⟨metadata, checked, rfl⟩ := map_eq_ok.mp applied
  unfold checkGenesis at checked
  dsimp only at checked
  split at checked
  · cases checked
  obtain ⟨_, _, checked⟩ := bind_eq_ok.mp checked
  obtain ⟨_, _, checked⟩ := bind_eq_ok.mp checked
  obtain ⟨_, _, checked⟩ := bind_eq_ok.mp checked
  obtain ⟨_, _, checked⟩ := bind_eq_ok.mp checked
  obtain ⟨_, _, checked⟩ := bind_eq_ok.mp checked
  obtain ⟨_, _, checked⟩ := bind_eq_ok.mp checked
  obtain ⟨_, complete, checked⟩ := bind_eq_ok.mp checked
  obtain ⟨_, content, _⟩ := bind_eq_ok.mp (guard_eq_ok.mp checked).2
  obtain ⟨_, _, complete⟩ := bind_eq_ok.mp complete
  obtain ⟨_, supported, _⟩ := bind_eq_ok.mp complete
  obtain ⟨_, _, content⟩ := bind_eq_ok.mp content
  refine ⟨rfl, supported, ?_⟩
  split at content
  next noInterfaces =>
    intro interfaceID member
    rw [show (Model.ofState (genesisState _ c metadata)).content.implements = [] from noInterfaces] at member
    cases member
  next => exact loaded_of_validate content

namespace ModelReader

variable {reader : ModelReader}

theorem known_of_load {streamId : String} {model : Model} (loaded : reader.load streamId = .ok model) :
    model ∈ reader.models := by
  obtain ⟨_, _, _, found⟩ := load_ok.mp loaded
  exact (loadStream_ok found).1

theorem age_accept {models : List Model} {model : Model} {id : StreamID} (apart : model.id ≠ id) :
    age (model :: models) id = age models id := if_neg apart

theorem ordered_of_accepted {checks : ModelChecks} (accepted : ModelsAccepted checks reader) : reader.Ordered := by
  induction accepted with
  | none empty => constructor <;> simp [empty]
  | @accept reader _ env c state applied wellFormed v1 fresh ih =>
    obtain ⟨isModel, supported, implemented⟩ := ModelHandler.checked_of_genesis applied
    have apart : ∀ model ∈ reader.models, (Model.ofState state).id ≠ model.id := fun model member same =>
      fresh model member same.symm
    constructor
    case isModel =>
      rintro model (_ | ⟨_, member⟩)
      · rw [isModel]
      · exact ih.isModel model member
    case wellFormed =>
      rintro model (_ | ⟨_, member⟩)
      · rw [isModel]
        exact ⟨wellFormed, v1⟩
      · exact ih.wellFormed model member
    case distinct => exact List.pairwise_cons.mpr ⟨apart, ih.distinct⟩
    case supported =>
      rintro model (_ | ⟨_, member⟩)
      · exact supported
      · exact ih.supported model member
    case older =>
      rintro model (_ | ⟨_, member⟩) interfaceID named
      · obtain ⟨old, loaded⟩ := implemented interfaceID named
        have isApart := apart old (known_of_load loaded)
        refine ⟨old, load_accept loaded isApart.symm, ?_⟩
        have isNew : age (Model.ofState state :: reader.models) (Model.ofState state).id = reader.models.length + 1 :=
          if_pos rfl
        change age (Model.ofState state :: reader.models) old.id < age (Model.ofState state :: reader.models) _
        rw [age_accept isApart, isNew]
        exact Nat.lt_succ_of_le (age_le _ _)
      · obtain ⟨old, loaded, isOlder⟩ := ih.older model member interfaceID named
        have isApart := apart old (known_of_load loaded)
        refine ⟨old, load_accept loaded isApart.symm, ?_⟩
        change age (Model.ofState state :: reader.models) old.id < age (Model.ofState state :: reader.models) model.id
        rw [age_accept isApart, age_accept (apart model member)]
        exact isOlder

/-- How old the model is that a text loads. -/
def rank (reader : ModelReader) (streamId : String) : Nat :=
  (reader.load streamId).toOption.elim 0 fun model => age reader.models model.id

theorem rank_of_load {streamId : String} {model : Model} (loaded : reader.load streamId = .ok model) :
    reader.rank streamId = age reader.models model.id := by
  unfold rank
  rw [loaded]
  rfl

theorem rank_le (streamId : String) : reader.rank streamId ≤ reader.models.length := by
  unfold rank
  cases reader.load streamId with
  | error => exact Nat.zero_le _
  | ok model => exact age_le _ _

namespace Ordered

theorem ranked (ordered : reader.Ordered) {a b : String} (edge : reader.Implements a b) :
    reader.rank b < reader.rank a := by
  obtain ⟨model, loaded, named⟩ := edge
  obtain ⟨implemented, loadedNext, older⟩ := ordered.older model (known_of_load loaded) b named
  rw [rank_of_load loaded, rank_of_load loadedNext]
  exact older

/-- Model streams are loaded by their identifiers. -/
theorem loadStream_self (ordered : reader.Ordered) {model : Model} (member : model ∈ reader.models) :
    reader.loadStream (.streamID model.id) = .ok model := by
  have found : reader.models.find? (fun other => other.id = model.id) = some model := by
    have distinct := ordered.distinct
    generalize reader.models = models at member distinct
    induction models with
    | nil => cases member
    | cons first rest ih =>
      obtain ⟨apart, distinctRest⟩ := List.pairwise_cons.mp distinct
      rcases List.mem_cons.mp member with rfl | behind
      · exact List.find?_cons_of_pos (by simp)
      · rw [List.find?_cons_of_neg (by simpa using apart model behind)]
        exact ih behind distinctRest
  unfold loadStream
  rw [StreamRef.baseID, found]

/-- And by the texts of these. -/
theorem load_toString (ordered : reader.Ordered) {model : Model} (member : model ∈ reader.models) :
    reader.load model.id.toString = .ok model := by
  obtain ⟨wellFormed, v1⟩ := ordered.wellFormed model member
  have isModel := ordered.isModel model member
  have safe : model.id.type ≤ MAX_SAFE_INTEGER := by
    rw [isModel]
    decide
  refine load_ok.mpr ⟨.streamID model.id, ?_, isModel, ordered.loadStream_self member⟩
  unfold StreamRef.fromString StreamID.toString
  rw [StreamRefParsing.fromString_encode _ model.id.lead, StreamID.parsed safe wellFormed, if_neg (by simp [v1])]
  rfl

end Ordered

end ModelReader

namespace ModelReader

variable (reader : ModelReader)

/-- One model names the other among the interfaces that it implements. -/
def Edge (model implemented : Model) : Prop :=
  ∃ interfaceID ∈ model.content.implements, reader.load interfaceID = .ok implemented

def Reachable : Model → Model → Prop := Relation.TransGen reader.Edge

/-- The promises that are kept once some models were converted for the index. -/
inductive Converted (MODEL : StreamID) : LoadingInterfaceImplements → Prop
  | none : Converted MODEL fun _ => .none
  | after {loading : LoadingInterfaceImplements} (before : Converted MODEL loading) (req : ModelData) :
      Converted MODEL (getIndexModelArgs reader MODEL req loading).2

/-- The model is converted for the index, and the other is listed among its interfaces. -/
def Indexed (MODEL : StreamID) (indices : JsValue) (loading : LoadingInterfaceImplements) (model implemented : Model) :
    Prop :=
  ∃ args, (getIndexModelArgs reader MODEL ⟨model.id, indices⟩ loading).1 = .ok args ∧
    ∃ interfaces, args.implements = some interfaces ∧ implemented.id.toString ∈ interfaces

/-- A field of the content points to a document of the one model where one of the other is expected,
and the other relations are in order. -/
structure PointsTo (env : Environment) (referring : Model) (content : JsValue) (fieldName : String)
    (model expected : Model) : Prop where
  relations : ∃ relations, referring.content.relations = some relations ∧
    (fieldName, .document (some expected.id.toString)) ∈ relations ∧
    ∀ other ∈ relations, other ≠ (fieldName, .document (some expected.id.toString)) →
      ModelInstanceDocumentHandler.validateRelation env referring content other.1 other.2 = .ok ()
  target : ∃ value midStreamId, content.prop fieldName = .ok value ∧ value.isNullish = false ∧
    env.streamIDFromString value = .ok midStreamId ∧ midStreamId.type = MODEL_INSTANCE_TYPE_ID ∧
    env.loadModelOfInstance midStreamId = .ok model.id
  loads : env.loadModel (.streamID model.id) = reader.load model.id.toString

variable {reader : ModelReader}

theorem reaches_of_edge {model implemented : Model} {a b : String} (reaches : reader.Reaches a b)
    (named : a ∈ model.content.implements) (loaded : reader.load b = .ok implemented) :
    reader.Reachable model implemented := by
  induction reaches using Relation.ReflTransGen.head_induction_on generalizing model with
  | refl => exact .single ⟨b, named, loaded⟩
  | head edge _ ih =>
    obtain ⟨next, loadedNext, namedNext⟩ := edge
    exact .head ⟨_, named, loadedNext⟩ (ih namedNext)

/-- Models are reached through the texts that name them. -/
theorem reachable_iff {model implemented : Model} : reader.Reachable model implemented ↔
    ∃ a ∈ model.content.implements, ∃ b, reader.Reaches a b ∧ reader.load b = .ok implemented := by
  constructor
  · intro reachable
    induction reachable using Relation.TransGen.head_induction_on with
    | single edge =>
      obtain ⟨interfaceID, named, loaded⟩ := edge
      exact ⟨interfaceID, named, interfaceID, .refl, loaded⟩
    | head edge _ ih =>
      obtain ⟨interfaceID, named, loaded⟩ := edge
      obtain ⟨a, namedNext, b, reaches, found⟩ := ih
      exact ⟨interfaceID, named, b, .head ⟨_, loaded, namedNext⟩ reaches, found⟩
  · rintro ⟨a, named, b, reaches, loaded⟩
    exact reaches_of_edge reaches named loaded

namespace Ordered

variable (ordered : reader.Ordered) {model implemented : Model}

include ordered

/-- Every interface behind a model can be loaded. -/
theorem loaded_of_reaches (member : model ∈ reader.models) {a b : String} (named : a ∈ model.content.implements)
    (reaches : reader.Reaches a b) : ∃ found, reader.load b = .ok found := by
  cases reaches with
  | refl =>
    obtain ⟨found, loaded, _⟩ := ordered.older model member a named
    exact ⟨found, loaded⟩
  | tail _ edge =>
    obtain ⟨before, loadedBefore, namedBefore⟩ := edge
    obtain ⟨found, loaded, _⟩ := ordered.older before (known_of_load loadedBefore) b namedBefore
    exact ⟨found, loaded⟩

theorem allInterfaces_iff (member : model ∈ reader.models) :
    (∀ a ∈ model.content.implements, ∀ b, reader.Reaches a b → reader.IsInterface b) ↔
      ∀ other, reader.Reachable model other → other.content.IsInterface := by
  constructor
  · intro all other reachable
    obtain ⟨a, named, b, reaches, loaded⟩ := reachable_iff.mp reachable
    obtain ⟨found, loadedFound, isInterface⟩ := all a named b reaches
    obtain rfl := Except.ok.inj (loaded.symm.trans loadedFound)
    exact isInterface
  · intro all a named b reaches
    obtain ⟨found, loaded⟩ := ordered.loaded_of_reaches member named reaches
    exact ⟨found, loaded, all found (reaches_of_edge reaches named loaded)⟩

theorem serves : reader.Serves (loadAllModelInterfaces reader (reader.models.length + 1)) fun _ => True := by
  intro interfaces loading _ keeps
  exact loadAllModelInterfaces_serves (fun _ _ => ordered.ranked) (reader.models.length + 1) interfaces loading
    (fun a _ => Nat.lt_succ_of_le (rank_le a)) keeps

theorem keeps_of_conversion {MODEL : StreamID} (req : ModelData) {loading : LoadingInterfaceImplements}
    (keeps : reader.Keeps loading) : reader.Keeps (getIndexModelArgs reader MODEL req loading).2 := by
  unfold getIndexModelArgs
  dsimp only
  split
  · exact keeps
  split
  · split
    · exact keeps
    next content _ =>
      split
      · exact (ordered.serves content.implements loading (fun _ _ => trivial) keeps).2
      · exact keeps
  · exact keeps

theorem keeps_of_converted {MODEL : StreamID} {loading : LoadingInterfaceImplements}
    (converted : reader.Converted MODEL loading) : reader.Keeps loading := by
  induction converted with
  | none => exact fun _ _ kept => nomatch kept
  | after _ req ih => exact ordered.keeps_of_conversion req ih

theorem indexableContent_self (member : model ∈ reader.models) (plain : model.content.interface = false)
    (indices : JsValue) : indexableContent reader ⟨model.id, indices⟩ = .ok model.content := by
  refine bind_eq_ok.mpr ⟨model, ordered.loadStream_self member, ?_⟩
  refine bind_eq_ok.mpr ⟨(), ordered.supported model member, ?_⟩
  rw [guard_eq_ok]
  exact ⟨by simp [plain], rfl⟩

/-- The index lists what is behind a model, if all of it are interfaces. -/
theorem indexed_iff (member : model ∈ reader.models) (plain : model.content.interface = false) {MODEL : StreamID}
    {indices : JsValue} {loading : LoadingInterfaceImplements} (keeps : reader.Keeps loading) :
    reader.Indexed MODEL indices loading model implemented ↔
      (∀ other, reader.Reachable model other → other.content.IsInterface) ∧
      ∃ a ∈ model.content.implements, reader.Reaches a implemented.id.toString := by
  have isModel := ordered.isModel model member
  have lists := (ordered.serves model.content.implements loading (fun _ _ => trivial) keeps).1
  rw [← ordered.allInterfaces_iff member, ← lists.resolves]
  unfold Indexed getIndexModelArgs
  simp only [isModel, ne_eq, not_true_eq_false, decide_false, Bool.false_and, Bool.false_eq_true, if_false, if_true,
    ordered.indexableContent_self member plain]
  split
  next named =>
    constructor
    · rintro ⟨args, converted, interfaces, given, listed⟩
      obtain ⟨found, isFound, rfl⟩ := map_eq_ok.mp converted
      obtain rfl := Option.some.inj given
      exact ⟨⟨found, isFound⟩, (lists.listed found isFound _).mp listed⟩
    · rintro ⟨⟨found, isFound⟩, behind⟩
      exact ⟨_, map_eq_ok.mpr ⟨found, isFound, rfl⟩, found, rfl, (lists.listed found isFound _).mpr behind⟩
  next unnamed =>
    have noInterfaces : model.content.implements = [] := by
      simp [ModelDefinition.hasImplements] at unnamed
      exact unnamed.2
    constructor
    · rintro ⟨args, converted, interfaces, given, _⟩
      obtain rfl := Except.ok.inj converted
      cases given
    · rintro ⟨_, a, named, _⟩
      rw [noInterfaces] at named
      cases named

end Ordered

open ModelInstanceDocumentHandler in
/-- Another model's document is accepted where the model names the expected one. -/
theorem Ordered.pointsTo_iff (ordered : reader.Ordered) {model expected : Model} (member : model ∈ reader.models)
    (apart : expected.id ≠ model.id) {env : Environment} {referring : Model} {content : JsValue} {fieldName : String}
    (points : reader.PointsTo env referring content fieldName model expected) :
    validateRelationsContent env referring content = .ok () ↔
      model.content.version ≠ "1.0" ∧ expected.id.toString ∈ model.content.implements := by
  obtain ⟨relations, given, among, others⟩ := points.relations
  obtain ⟨value, midStreamId, read, present, parsed, isMid, ofModel⟩ := points.target
  have otherText : model.id.toString ≠ expected.id.toString := fun same =>
    apart (StreamID.toString_injective same).symm
  have here : validateRelation env referring content fieldName (.document (some expected.id.toString)) = .ok () ↔
      model.content.version ≠ "1.0" ∧ expected.id.toString ∈ model.content.implements := by
    unfold validateRelation
    simp only [read, present, parsed, isMid, ofModel, otherText, ordered.isModel model member, points.loads,
      ordered.load_toString member, bind, Except.bind, pure, Except.pure, Bool.false_eq_true, ne_eq,
      not_true_eq_false, if_false]
    by_cases named : model.content.version ≠ "1.0" ∧ expected.id.toString ∈ model.content.implements
    · simp [named]
    · simp [named, throw, throwThe, MonadExceptOf.throw]
  unfold validateRelationsContent
  rw [given]
  change (relations.forM _ : Except JsError Unit) = .ok () ↔ _
  rw [forM_eq_ok, ← here]
  constructor
  · exact fun all => all _ among
  · intro accepted other inRelations
    by_cases same : other = (fieldName, .document (some expected.id.toString))
    · rw [same]
      exact accepted
    · exact others other inRelations same

end ModelReader

/-- Three notions of implementing an interface agree on a model and an interface exactly if, where the
one can be reached from the other, the model itself names the interface by its canonical text in a
definition that is not of version 1.0, and everything that can be reached from the model is an interface. -/
theorem implements_agree_iff {checks : ModelChecks} {reader : ModelReader} (accepted : ModelsAccepted checks reader)
    {model expected : Model} (member : model ∈ reader.models) (memberExpected : expected ∈ reader.models)
    (plain : model.content.interface = false) (apart : expected.id ≠ model.id) {MODEL : StreamID}
    {loading : LoadingInterfaceImplements} (converted : reader.Converted MODEL loading) (indices : JsValue)
    {env : Environment} {referring : Model} {content : JsValue} {fieldName : String}
    (points : reader.PointsTo env referring content fieldName model expected) :
    ((reader.Reachable model expected ↔ reader.Indexed MODEL indices loading model expected) ∧
      (reader.Indexed MODEL indices loading model expected ↔
        ModelInstanceDocumentHandler.validateRelationsContent env referring content = .ok ())) ↔
    (reader.Reachable model expected →
      model.content.version ≠ "1.0" ∧ expected.id.toString ∈ model.content.implements ∧
      ∀ other, reader.Reachable model other → other.content.IsInterface) := by
  have ordered := ModelReader.ordered_of_accepted accepted
  have loaded := ordered.load_toString memberExpected
  rw [ordered.indexed_iff member plain (ordered.keeps_of_converted converted),
    ordered.pointsTo_iff member apart points]
  have ofText {a : String} (named : a ∈ model.content.implements)
      (reaches : reader.Reaches a expected.id.toString) : reader.Reachable model expected :=
    ModelReader.reaches_of_edge reaches named loaded
  constructor
  · rintro ⟨indexed, related⟩ reachable
    obtain ⟨interfaces, behind⟩ := indexed.mp reachable
    obtain ⟨version, named⟩ := related.mp ⟨interfaces, behind⟩
    exact ⟨version, named, interfaces⟩
  · intro condition
    refine ⟨⟨fun reachable => ?_, fun ⟨_, _, named, reaches⟩ => ofText named reaches⟩,
      fun ⟨_, _, named, reaches⟩ => ?_, fun ⟨_, named⟩ => ?_⟩
    · obtain ⟨_, named, interfaces⟩ := condition reachable
      exact ⟨interfaces, _, named, .refl⟩
    · obtain ⟨version, named, _⟩ := condition (ofText named reaches)
      exact ⟨version, named⟩
    · obtain ⟨_, _, interfaces⟩ := condition (ofText named .refl)
      exact ⟨interfaces, _, named, .refl⟩

namespace ModelInterfacesFixture

/-- Checks that pass, as they do for definitions with one schema and without relations and views. -/
def checks : ModelChecks := ⟨fun _ => .ok (), fun _ => .ok (), fun _ => .ok (), fun _ _ _ => .ok ()⟩

def idOf (n : UInt8) : StreamID := ⟨MODEL_TYPE_ID, .v1 0x85 (createMultihash 0 [n])⟩

/-- The genesis of a model, by its number. -/
def genesisOf (n : UInt8) (interface : Bool) (implements : List String) : CommitData where
  cid := (idOf n).cid
  type := .INIT
  commit := {
    header := some [("controllers", .arr [.str "did:key:z6Mk"]), ("model", .bytes [])]
    data := .obj [("version", .str "2.0"), ("name", .str "Model"), ("schema", .obj []),
      ("accountRelation", .obj [("type", .str "list")]), ("interface", .bool interface),
      ("implements", .arr (implements.map .str))] }
  envelope := some ⟨⟨[n]⟩, "", ""⟩

def stateOf (n : UInt8) (interface : Bool) (implements : List String) : StreamState :=
  ModelHandler.genesisState (ModelHandler.environment .permissive checks ⟨[], fun _ => none, fun _ => false,
    fun _ => ⟨"not found"⟩⟩) (genesisOf n interface implements)
    [("controllers", .arr [.str "did:key:z6Mk"]), ("model", .streamID Environment.permissive.MODEL)]

def modelOf (n : UInt8) (interface : Bool) (implements : List String) : Model :=
  .ofState (stateOf n interface implements)

theorem modelOf_implements (n : UInt8) (interface : Bool) (implements : List String) :
    (modelOf n interface implements).content.implements = implements := by
  change (implements.map JsValue.str).map JsValue.text = implements
  rw [List.map_map]
  exact List.map_id _

theorem validate_loaded {reader : ModelReader} {model : ModelDefinition}
    (loads : ∀ interfaceID ∈ model.implements, ∃ implemented, reader.load interfaceID = .ok implemented) :
    ModelHandler.validateImplementedInterfaces checks reader model = .ok () := by
  unfold ModelHandler.validateImplementedInterfaces
  refine if_pos (List.filterMap_eq_nil_iff.mpr fun interfaceID member => ?_)
  obtain ⟨implemented, loaded⟩ := loads interfaceID member
  have checked : ModelHandler.validateImplementedInterface checks reader model interfaceID = .ok () :=
    bind_eq_ok.mpr ⟨implemented, loaded, rfl⟩
  rw [checked]

theorem supported_of_version {content : ModelDefinition} (version : content.version = "2.0") :
    Model.assertVersionValid content .major = .ok () := by
  unfold Model.assertVersionValid
  rw [version]
  rfl

/-- A model is accepted if the interfaces that it names are loaded. -/
theorem accepted_next {reader : ModelReader} (older : ModelsAccepted checks reader) (n : UInt8) (interface : Bool)
    {implements : List String} (loads : ∀ interfaceID ∈ implements, ∃ model, reader.load interfaceID = .ok model)
    (fresh : ∀ model ∈ reader.models, model.id ≠ idOf n) :
    ModelsAccepted checks (reader.accept (modelOf n interface implements)) := by
  have wellFormed : (idOf n).cid.WellFormed :=
    .v1 _ _ _ (by decide) (by decide) (by simp [MAX_SAFE_INTEGER])
  refine @ModelsAccepted.accept checks reader older .permissive (genesisOf n interface implements)
    (stateOf n interface implements) (map_eq_ok.mpr ⟨_, ?_, rfl⟩) wellFormed rfl fresh
  have read := modelOf_implements n interface implements
  have valid := @validate_loaded reader (modelOf n interface implements).content (read.symm ▸ loads)
  have checked : (ModelHandler.environment .permissive checks reader).validateModelContent
      (genesisOf n interface implements).commit.data = .ok () := by
    change (if (modelOf n interface implements).content.implements = [] then _ else
      ModelHandler.validateImplementedInterfaces checks reader (modelOf n interface implements).content) = _
    rw [valid]
    split <;> rfl
  have supported : Model.assertVersionValid (modelOf n interface implements).content .major = .ok () :=
    supported_of_version rfl
  have complete : (ModelHandler.environment .permissive checks reader).assertModelDefinition
      (genesisOf n interface implements).commit.data = .ok () := by
    change (Model.assertVersionValid (modelOf n interface implements).content .major >>= fun _ => .ok ()) = _
    rw [supported]
    rfl
  have run : ModelHandler.checkGenesis (ModelHandler.environment .permissive checks reader)
      (genesisOf n interface implements) =
    ((ModelHandler.environment .permissive checks reader).assertModelDefinition
      (genesisOf n interface implements).commit.data >>= fun _ =>
      (ModelHandler.environment .permissive checks reader).validateModelContent
        (genesisOf n interface implements).commit.data >>= fun _ =>
        .ok [("controllers", .arr [.str "did:key:z6Mk"]), ("model", .streamID Environment.permissive.MODEL)]) := rfl
  exact run.trans (bind_eq_ok.mpr ⟨(), complete, bind_eq_ok.mpr ⟨(), checked, rfl⟩⟩)

def empty : ModelReader := ⟨[], fun _ => none, fun _ => false, fun ref => ⟨ref.toString ++ " cannot be loaded"⟩⟩

def named : Model := modelOf 1 true []

def person : Model := modelOf 2 false [named.id.toString]

theorem named_accepted : ModelsAccepted checks (empty.accept named) :=
  accepted_next (.none rfl) 1 true (fun _ member => nomatch member) fun _ member => nomatch member

theorem ids_apart {n m : UInt8} (apart : n ≠ m) : idOf n ≠ idOf m := by
  intro same
  have bytes := congrArg (fun id : StreamID => id.cid.bytes) same
  simp [idOf, Cid.v1, createMultihash] at bytes
  exact apart bytes

theorem person_accepted : ModelsAccepted checks ((empty.accept named).accept person) := by
  refine accepted_next named_accepted 2 false (fun interfaceID member => ?_) fun model member => ?_
  · obtain rfl := List.mem_singleton.mp member
    exact ⟨named, (ModelReader.ordered_of_accepted named_accepted).load_toString List.mem_cons_self⟩
  · obtain rfl := List.mem_singleton.mp member
    exact ids_apart (by decide)

/-- An interface with another one behind it, and a model that names only the nearer one. -/
def employee : Model := modelOf 3 true [named.id.toString]

def manager : Model := modelOf 4 false [employee.id.toString]

/-- A model that names a model that is no interface. -/
def follower : Model := modelOf 5 false [person.id.toString]

theorem fresh_of_numbers {models : List Model} {n : UInt8} (numbers : ∀ model ∈ models, ∃ m ≠ n, model.id = idOf m) :
    ∀ model ∈ models, model.id ≠ idOf n := by
  intro model member
  obtain ⟨m, apart, isNumber⟩ := numbers model member
  exact isNumber ▸ ids_apart apart

theorem manager_accepted : ModelsAccepted checks (((empty.accept named).accept employee).accept manager) := by
  have employed : ModelsAccepted checks ((empty.accept named).accept employee) := by
    refine accepted_next named_accepted 3 true (fun interfaceID member => ?_) (fresh_of_numbers fun model member => ?_)
    · obtain rfl := List.mem_singleton.mp member
      exact ⟨named, (ModelReader.ordered_of_accepted named_accepted).load_toString List.mem_cons_self⟩
    · obtain rfl := List.mem_singleton.mp member
      exact ⟨1, by decide, rfl⟩
  refine accepted_next employed 4 false (fun interfaceID member => ?_) (fresh_of_numbers ?_)
  · obtain rfl := List.mem_singleton.mp member
    exact ⟨employee, (ModelReader.ordered_of_accepted employed).load_toString List.mem_cons_self⟩
  · rintro model (_ | ⟨_, _ | ⟨_, ⟨⟩⟩⟩)
    · exact ⟨3, by decide, rfl⟩
    · exact ⟨1, by decide, rfl⟩

theorem follower_accepted : ModelsAccepted checks (((empty.accept named).accept person).accept follower) := by
  refine accepted_next person_accepted 5 false (fun interfaceID member => ?_) (fresh_of_numbers ?_)
  · obtain rfl := List.mem_singleton.mp member
    exact ⟨person, (ModelReader.ordered_of_accepted person_accepted).load_toString List.mem_cons_self⟩
  · rintro model (_ | ⟨_, _ | ⟨_, ⟨⟩⟩⟩)
    · exact ⟨2, by decide, rfl⟩
    · exact ⟨1, by decide, rfl⟩

/-- A node where one document is of this model. -/
def nodeOf (model : Model) : Environment :=
  { Environment.permissive with loadModelOfInstance := fun _ => .ok model.id, loadModel := fun _ => .ok model }

/-- A model of documents with a friend. -/
def befriending (expected : Model) : Model :=
  { modelOf 9 false [] with content := { (modelOf 9 false []).content with
      relations := some [("friend", .document (some expected.id.toString))] } }

def befriended : JsValue := .obj [("friend", .str "k2t6")]

theorem befriended_points {reader : ModelReader} (ordered : reader.Ordered) {model expected : Model}
    (member : model ∈ reader.models) :
    reader.PointsTo (nodeOf model) (befriending expected) befriended "friend" model expected where
  relations := ⟨_, rfl, List.mem_cons_self, fun _ inRelations apart =>
    absurd (List.mem_singleton.mp inRelations) apart⟩
  target := ⟨_, _, rfl, rfl, rfl, rfl, rfl⟩
  loads := (ordered.load_toString member).symm

end ModelInterfacesFixture

open ModelInterfacesFixture

theorem implements_agree_person :
    ((empty.accept named).accept person).Reachable person named ∧
    ((empty.accept named).accept person).Indexed Environment.permissive.MODEL .undefined (fun _ => none) person named ∧
    ModelInstanceDocumentHandler.validateRelationsContent (nodeOf person) (befriending named) befriended = .ok () := by
  have ordered := ModelReader.ordered_of_accepted person_accepted
  have loaded := ordered.load_toString (List.mem_cons_of_mem _ List.mem_cons_self)
  have edge {other : Model} (isEdge : ((empty.accept named).accept person).Edge person other) : other = named := by
    obtain ⟨interfaceID, implemented, found⟩ := isEdge
    obtain rfl := List.mem_singleton.mp implemented
    exact (Except.ok.inj (loaded.symm.trans found)).symm
  have reachable : ((empty.accept named).accept person).Reachable person named :=
    .single ⟨_, List.mem_cons_self, loaded⟩
  obtain ⟨indexed, related⟩ := (implements_agree_iff person_accepted List.mem_cons_self
    (List.mem_cons_of_mem _ List.mem_cons_self) rfl (ids_apart (by decide)) .none .undefined
    (befriended_points ordered List.mem_cons_self)).mpr fun _ => by
      refine ⟨by decide, List.mem_cons_self, fun other behind => ?_⟩
      obtain ⟨next, first, rest⟩ := Relation.TransGen.head'_iff.mp behind
      obtain rfl := edge first
      rcases Relation.ReflTransGen.cases_head rest with rfl | ⟨_, ⟨_, isNamed, _⟩, _⟩
      · exact ⟨by decide, rfl⟩
      · exact nomatch isNamed
  exact ⟨reachable, indexed.mp reachable, related.mp (indexed.mp reachable)⟩

/-- A relation does not look behind the interfaces that a model names, and only the index refuses a
model that names another one that is no interface. -/
theorem implements_disagree :
    (¬∀ (checks : ModelChecks) (reader : ModelReader), ModelsAccepted checks reader → ∀ model ∈ reader.models,
      ∀ expected ∈ reader.models, model.content.interface = false → expected.id ≠ model.id →
        ∀ (MODEL : StreamID) (indices : JsValue) (env : Environment) (referring : Model) (content : JsValue)
          (fieldName : String), reader.PointsTo env referring content fieldName model expected →
          (reader.Reachable model expected ↔ reader.Indexed MODEL indices (fun _ => none) model expected) ∧
          (reader.Indexed MODEL indices (fun _ => none) model expected ↔
            ModelInstanceDocumentHandler.validateRelationsContent env referring content = .ok ())) ∧
    ((((empty.accept named).accept person).accept follower).Reachable follower person ∧
      ModelInstanceDocumentHandler.validateRelationsContent (nodeOf follower) (befriending person) befriended = .ok () ∧
      ¬(((empty.accept named).accept person).accept follower).Indexed Environment.permissive.MODEL .undefined
        (fun _ => none) follower person) := by
  constructor
  · intro agree
    have ordered := ModelReader.ordered_of_accepted manager_accepted
    have inner : employee ∈ (((empty.accept named).accept employee).accept manager).models :=
      List.mem_cons_of_mem _ List.mem_cons_self
    have last : named ∈ (((empty.accept named).accept employee).accept manager).models :=
      List.mem_cons_of_mem _ (List.mem_cons_of_mem _ List.mem_cons_self)
    have points : (((empty.accept named).accept employee).accept manager).PointsTo (nodeOf manager)
        (befriending named) befriended "friend" manager named := befriended_points ordered List.mem_cons_self
    have reachable : (((empty.accept named).accept employee).accept manager).Reachable manager named :=
      .head ⟨_, List.mem_cons_self, ordered.load_toString inner⟩
        (.single ⟨_, List.mem_cons_self, ordered.load_toString last⟩)
    obtain ⟨indexed, related⟩ := agree checks _ manager_accepted manager List.mem_cons_self named last rfl
      (ids_apart (by decide)) Environment.permissive.MODEL .undefined _ _ _ _ points
    obtain ⟨_, implemented⟩ := (ordered.pointsTo_iff List.mem_cons_self (ids_apart (by decide)) points).mp
      (related.mp (indexed.mp reachable))
    have same := StreamID.toString_injective (List.mem_singleton.mp implemented)
    exact ids_apart (by decide) same
  · have ordered := ModelReader.ordered_of_accepted follower_accepted
    have loaded := ordered.load_toString (List.mem_cons_of_mem _ List.mem_cons_self)
    have reachable : (((empty.accept named).accept person).accept follower).Reachable follower person :=
      .single ⟨_, List.mem_cons_self, loaded⟩
    have points : (((empty.accept named).accept person).accept follower).PointsTo (nodeOf follower)
        (befriending person) befriended "friend" follower person := befriended_points ordered List.mem_cons_self
    refine ⟨reachable, (ordered.pointsTo_iff List.mem_cons_self (ids_apart (by decide)) points).mpr
      ⟨by decide, List.mem_cons_self⟩, fun indexed => ?_⟩
    have keeps : (((empty.accept named).accept person).accept follower).Keeps fun _ => none :=
      fun _ _ kept => nomatch kept
    obtain ⟨interfaces, _⟩ := (ordered.indexed_iff List.mem_cons_self rfl keeps).mp indexed
    exact absurd (interfaces person reachable).2 (by decide)

end Ceramic
