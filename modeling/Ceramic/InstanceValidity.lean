import Ceramic.Custody

/-! What the content of a model instance document is known to satisfy in every state that its accepted
commits lead to. -/
namespace Ceramic.ModelInstanceDocumentHandler

open StateManipulator StreamUtils JsObject

/-- The checks of a content against its model, apart from those that look at what it was before. -/
structure ValidContent (env : Environment) (model : Model) (content : JsValue) : Prop where
  length : validateContentLength env content = .ok ()
  schema : validateSchema env content model.content.schema = .ok ()
  relations : validateRelationsContent env model content = .ok ()

/-- The content of the state is valid, or there is none and no commit with content yet. -/
structure Valid (env : Environment) (model : Model) (metadata : StreamMetadata) (state : StreamState) : Prop where
  nothingPending : state.next = none
  ofModel : env.loadModel (get state.metadata "model") = .ok model
  concrete : validateModel model = .ok ()
  metadata : ∀ key, key ≠ "shouldIndex" → get state.metadata key = get metadata key
  content : ValidContent env model state.content ∨ state.content = .null ∧ hasDataCommit state = false

variable {env : Environment} {g c : CommitData} {model : Model} {metadata : StreamMetadata} {state next : StreamState}

theorem validContent_of_passed {content : JsValue} {genesis skip : Bool} {payload : Option Commit}
    (passed : validateContent env model content genesis payload skip = .ok ())
    (checked : (genesis && isDeterministic model.content.accountRelation) = false) : ValidContent env model content := by
  unfold validateContent at passed
  rw [checked, if_neg Bool.false_ne_true] at passed
  obtain ⟨_, length, passed⟩ := bind_eq_ok.mp passed
  obtain ⟨_, schema, passed⟩ := bind_eq_ok.mp passed
  obtain ⟨_, relations, _⟩ := bind_eq_ok.mp passed
  exact ⟨length, schema, relations⟩

theorem empty_of_passed {content : JsValue} {skip : Bool} {payload : Option Commit}
    (passed : validateContent env model content true payload skip = .ok ())
    (deterministic : isDeterministic model.content.accountRelation = true) : content.truthy = false := by
  unfold validateContent at passed
  rw [deterministic, Bool.and_self, if_pos rfl] at passed
  simpa using (guard_eq_ok.mp passed).1

/-- A genesis that a document starts from has its model, and content that the model admits or none. -/
theorem valid_of_genesis (applied : applyGenesis env g = .ok state) :
    ∃ model, Valid env model state.metadata state := by
  obtain ⟨metadata, checked, rfl⟩ := map_eq_ok.mp applied
  obtain ⟨header, isHeader, checked⟩ := bind_eq_ok.mp checked
  obtain ⟨⟨controller, modelId, read⟩, isRead, checked⟩ := bind_eq_ok.mp checked
  obtain ⟨_, _, checked⟩ := bind_eq_ok.mp checked
  obtain ⟨_, _, _, ofModel⟩ := readMetadata_ok isRead
  have rest : ∃ model, env.loadModel (.streamID modelId) = .ok model ∧ validateModel model = .ok () ∧
      validateContent env model g.commit.data true none false = .ok () ∧ read = metadata := by
    dsimp only at checked
    split at checked
    · obtain ⟨_, _, checked⟩ := bind_eq_ok.mp checked
      obtain ⟨model, loaded, checked⟩ := bind_eq_ok.mp checked
      obtain ⟨_, concrete, checked⟩ := bind_eq_ok.mp checked
      obtain ⟨_, passed, checked⟩ := bind_eq_ok.mp checked
      obtain ⟨_, _, returned⟩ := bind_eq_ok.mp checked
      exact ⟨model, loaded, concrete, passed, Except.ok.inj returned⟩
    · obtain ⟨_, checked⟩ := guard_eq_ok.mp checked
      obtain ⟨model, loaded, checked⟩ := bind_eq_ok.mp checked
      obtain ⟨_, concrete, checked⟩ := bind_eq_ok.mp checked
      obtain ⟨_, passed, checked⟩ := bind_eq_ok.mp checked
      obtain ⟨_, _, returned⟩ := bind_eq_ok.mp checked
      exact ⟨model, loaded, concrete, passed, Except.ok.inj returned⟩
  obtain ⟨model, loaded, concrete, passed, rfl⟩ := rest
  refine ⟨model, rfl, ?_, concrete, fun _ _ => rfl, ?_⟩
  · exact (congrArg env.loadModel ofModel).trans loaded
  · cases given : g.commit.data.truthy with
    | false => exact .inr ⟨by simp [genesisState, given], rfl⟩
    | true =>
      have kept : (genesisState env g read).content = g.commit.data := by simp [genesisState, given]
      rw [kept]
      refine .inl (validContent_of_passed passed ?_)
      cases deterministic : isDeterministic model.content.accountRelation with
      | false => rfl
      | true => exact absurd (given.symm.trans (empty_of_passed passed deterministic)) (by decide)

theorem Valid.anchored (valid : Valid env model metadata state) : Valid env model metadata (anchoredState c state) where
  nothingPending := rfl
  ofModel := by simpa [anchoredState, valid.nothingPending] using valid.ofModel
  concrete := valid.concrete
  metadata := by simpa [anchoredState, valid.nothingPending] using valid.metadata
  content := by
    rw [hasDataCommit_anchored]
    simpa [anchoredState, valid.nothingPending] using valid.content

theorem Valid.signed (valid : Valid env model metadata state) (applied : applySigned env c state = .applied next) :
    Valid env model metadata next := by
  obtain ⟨index, content, _, _, passed, rfl⟩ := applySigned_applied.mp applied
  have sameModel : get (writeShouldIndex state index).metadata "model" = get state.metadata "model" :=
    get_writeShouldIndex index (by decide)
  obtain ⟨found, loaded, passed⟩ := bind_eq_ok.mp passed
  rw [sameModel] at loaded
  obtain rfl := Except.ok.inj (valid.ofModel.symm.trans loaded)
  obtain ⟨_, checked, _⟩ := bind_eq_ok.mp passed
  have notPending : (writeShouldIndex state index).next = state.next := by
    unfold writeShouldIndex
    split <;> rfl
  exact ⟨notPending.trans valid.nothingPending, (congrArg env.loadModel sameModel).trans valid.ofModel, valid.concrete,
    fun key apart => (get_writeShouldIndex index (Ne.symm apart)).trans (valid.metadata key apart),
    .inl (validContent_of_passed checked rfl)⟩

theorem Valid.applied (valid : Valid env model metadata state)
    (applied : (handler env).applyCommit c (some state) = .applied next) : Valid env model metadata next := by
  simp only [handler, applyCommit, dispatch] at applied
  split at applied
  · obtain ⟨_, _, rfl⟩ := applyAnchorCommit_ok.mp (outcome_of_except applied)
    exact valid.anchored
  · exact valid.signed applied

theorem Valid.run {commits : List CommitData} (valid : Valid env model metadata state)
    (accepted : applyLogFrom (handler env) true state commits = .ok next) : Valid env model metadata next := by
  induction commits generalizing state with
  | nil =>
    obtain rfl := Except.ok.inj accepted
    exact valid
  | cons c commits ih =>
    cases outcome : (handler env).applyCommit c (some state) with
    | applied middle =>
      simp only [applyLogFrom, outcome] at accepted
      exact ih (valid.applied outcome) accepted
    | threw e left => simp [applyLogFrom, outcome] at accepted

/-- A document that its handler accepts belongs to one model, which is no interface, for all of its life;
of its metadata only `shouldIndex` changes, and its content is always small enough, valid under the model's
schema and linked to documents of the right models, once there is any. -/
theorem documents_stay_valid {start : StreamState} {commits : List CommitData}
    (created : (handler env).applyCommit g none = .applied start)
    (accepted : applyLogFrom (handler env) true start commits = .ok state) :
    ∃ model, Valid env model start.metadata state := by
  obtain ⟨model, valid⟩ := valid_of_genesis (outcome_of_except created)
  exact ⟨model, valid.run accepted⟩

open SetFixture

/-- The first content of a document that begins without one. -/
def firstFavourite : CommitData :=
  { cid := ⟨[2]⟩, type := .DATA, envelope := some ⟨⟨[2]⟩, "", ""⟩
    commit :=
      { prev := some ⟨[1]⟩, id := some ⟨[1]⟩
        data := .arr [.obj [("op", .str "replace"), ("path", .str ""),
          ("value", .obj [("kind", .str "a"), ("name", .str "c")])]] } }

theorem documents_stay_valid_favourite : ∃ state model,
    applyLogFrom (handler node) true (startOf [97, 124, 99]) [firstFavourite] = .ok state ∧
      Valid node model (startOf [97, 124, 99]).metadata state := by
  have accepted : ∃ state, applyLogFrom (handler node) true (startOf [97, 124, 99]) [firstFavourite] = .ok state :=
    ⟨_, rfl⟩
  obtain ⟨state, accepted⟩ := accepted
  have created : (handler node).applyCommit (genesisOf [97, 124, 99]) none = .applied (startOf [97, 124, 99]) := rfl
  obtain ⟨model, valid⟩ := documents_stay_valid created accepted
  exact ⟨state, model, accepted, valid⟩

end Ceramic.ModelInstanceDocumentHandler
