import Ceramic.TileControllers
import Ceramic.SetRelation

/-! Who vouches for the commits of a log. A signed commit needs the controller whom the commits
before it leave in force, from the one that the genesis names on. -/
namespace Ceramic

open StateManipulator StreamUtils SignatureUtils JsObject

/-- The first controller a header names. -/
def namedController (header : StreamMetadata) : JsValue :=
  match (get header "controllers").prop "0" with
  | .ok controller => controller
  | .error _ => .undefined

theorem namedController_of_read {header : StreamMetadata} {controller : JsValue}
    (read : (get header "controllers").prop "0" = .ok controller) : namedController header = controller := by
  simp [namedController, read]

/-- Who controls a stream after a commit. Only a tile changes hands, and it does so with the signed
commit that says so, before any anchor. -/
def custodianAfter (streamType : Nat) (custodian : JsValue) (c : CommitData) : JsValue :=
  if streamType = TILE_TYPE_ID ∧ isAnchorCommitData c = false then
    match c.commit.header with
    | some header => if (get header "controllers").truthy then namedController header else custodian
    | none => custodian
  else custodian

/-- The model that a capability may be given for. -/
def capabilityModel (env : Environment) (streamType : Nat) (header : StreamMetadata) : Option StreamID :=
  if streamType = TILE_TYPE_ID then none else (env.streamIDFromBytes (get header "model")).toOption

/-- What a genesis is accepted on. -/
structure GenesisVouched (env : Environment) (streamType : Nat) (g : CommitData) (header : StreamMetadata) : Prop where
  signed : streamType ≠ CAIP10_LINK_TYPE_ID → isSignedCommitData g = true →
    verifyCommitSignature env g (namedController header) (capabilityModel env streamType header)
      ⟨streamType, g.cid⟩ = .ok ()
  empty : streamType = CAIP10_LINK_TYPE_ID ∨ isSignedCommitData g = false → g.commit.data.truthy = false
  model : streamType = MODEL_TYPE_ID → isSignedCommitData g = true

/-- What a later commit is accepted on: a valid anchor, a proof of the linked account, or the
signature of whoever controls the stream. Nothing but anchors follows a model. -/
def Vouched (env : Environment) (streamType : Nat) (g : CommitData) (header : StreamMetadata) (custodian : JsValue)
    (c : CommitData) : Prop :=
  if isAnchorCommitData c then c.anchorValidationError = none
  else if streamType = CAIP10_LINK_TYPE_ID then
    ∃ proof account, env.validateLink c.commit.data = .ok (some proof) ∧ custodian = .str account ∧
      env.toLowerCase (Caip10LinkHandler.toLegacyAccountId proof.account) = env.toLowerCase account
  else streamType ≠ MODEL_TYPE_ID ∧
    verifyCommitSignature env c custodian (capabilityModel env streamType header) ⟨streamType, g.cid⟩ = .ok ()

section

variable {env : Environment} {handler : StreamHandler} {g c : CommitData} {header : StreamMetadata}
  {custodian : JsValue} {state next : StreamState}

theorem custodianAfter_of_anchor {streamType : Nat} (anchor : isAnchorCommitData c = true) :
    custodianAfter streamType custodian c = custodian := by
  simp [custodianAfter, anchor]

theorem custodianAfter_of_other {streamType : Nat} (other : streamType ≠ TILE_TYPE_ID) :
    custodianAfter streamType custodian c = custodian := by
  simp [custodianAfter, other]

theorem StreamHandler.Lawful.first (lawful : handler.Lawful env)
    (applied : handler.applyCommit c (some state) = .applied next) : next.log.first.cid = state.log.first.cid := by
  have heads := congrArg (fun log => (log.map (·.cid)).head?) (lawful.log applied)
  simp only [nextLog_cids, List.head?_append, List.head?_map, NonEmptyArray.head?_toList, Option.map_some]
    at heads
  exact Option.some.inj heads

/-- An invariant that names the custodian, and what each commit needs where it holds. -/
structure KeepsCustody (env : Environment) (handler : StreamHandler) (g : CommitData) (header : StreamMetadata)
    (allowed : CommitData → Prop) (Holds : JsValue → StreamState → Prop) : Prop where
  step : ∀ {custodian c state next}, allowed c → Holds custodian state →
    handler.applyCommit c (some state) = .applied next →
    Vouched env handler.type g header custodian c ∧ Holds (custodianAfter handler.type custodian c) next

variable {allowed : CommitData → Prop} {Holds : JsValue → StreamState → Prop}

theorem KeepsCustody.run (keeps : KeepsCustody env handler g header allowed Holds) {commits : List CommitData}
    (all : ∀ c ∈ commits, allowed c) (holds : Holds custodian state)
    (applied : applyLogFrom handler true state commits = .ok next) :
    Holds (commits.foldl (custodianAfter handler.type) custodian) next := by
  induction commits generalizing custodian state with
  | nil =>
    obtain rfl := Except.ok.inj applied
    exact holds
  | cons c commits ih =>
    obtain ⟨first, rest⟩ := List.forall_mem_cons.mp all
    cases outcome : handler.applyCommit c (some state) with
    | applied middle =>
      simp only [applyLogFrom, outcome] at applied
      obtain ⟨_, kept⟩ := keeps.step first holds outcome
      exact ih rest kept applied
    | threw e left => simp [applyLogFrom, outcome] at applied

/-- A commit anywhere in a log that was applied is vouched for by whom the commits before it leave. -/
theorem KeepsCustody.vouched (keeps : KeepsCustody env handler g header allowed Holds) {before after : List CommitData}
    (all : ∀ d ∈ before ++ c :: after, allowed d) (holds : Holds custodian state)
    (applied : applyLogFrom handler true state (before ++ c :: after) = .ok next) :
    Vouched env handler.type g header (before.foldl (custodianAfter handler.type) custodian) c := by
  obtain ⟨middle, first, rest⟩ := applyLogFrom_split applied
  have kept := keeps.run (fun d member => all d (List.mem_append_left _ member)) holds first
  cases outcome : handler.applyCommit c (some middle) with
  | applied last => exact (keeps.step (all c (by simp)) kept outcome).1
  | threw e left => simp [applyLogFrom, outcome] at rest

end

namespace TileDocumentHandler

variable {env : Environment} {g c : CommitData} {state next : StreamState} {header genesis metadata : StreamMetadata}
  {custodian : JsValue}

/-- A tile whose latest metadata, anchored or not, names the custodian. -/
structure InCustody (g : CommitData) (genesis : StreamMetadata) (custodian : JsValue) (state : StreamState) : Prop where
  id : streamIdFromState state = ⟨TILE_TYPE_ID, g.cid⟩
  settled : StateSettled genesis state
  latest : namedController ((state.next.bind (·.metadata)).getD state.metadata) = custodian

theorem named_of_oneController (one : (get metadata "controllers").OneController) :
    (get metadata "controllers").prop "0" = .ok (namedController metadata) ∧ (namedController metadata).truthy := by
  obtain ⟨controller, held, real⟩ := one
  have read : (get metadata "controllers").prop "0" = .ok controller := by
    rw [held]
    rfl
  rw [namedController_of_read read]
  exact ⟨read, real⟩

theorem InCustody.current (inCustody : InCustody g genesis custodian state) : currentController state = .ok custodian := by
  obtain ⟨read, real⟩ := named_of_oneController inCustody.settled.current.one
  rw [inCustody.latest] at read real
  unfold currentController
  cases pending : state.next.bind (·.metadata) with
  | none =>
    rw [pending] at read
    simpa [JsValue.truthy] using read
  | some metadata =>
    rw [pending, Option.getD_some] at read
    simp [read, real]

theorem controllers_spread (lists : ListsControllers header) :
    namedController (spread metadata header) =
      if (get header "controllers").truthy then namedController header else namedController metadata := by
  have laid : get (spread metadata header) "controllers" =
      ((get? header "controllers").or (get? metadata "controllers")).getD .undefined := by
    rw [JsObject.get, get?_spread metadata header lists.names]
  unfold namedController
  rw [laid]
  cases given : get? header "controllers" with
  | none => simp [JsObject.get, given, JsValue.truthy]
  | some value =>
    obtain ⟨items, rfl⟩ := lists.controllers value given
    simp [JsObject.get, given, JsValue.truthy]

theorem checkSigned_vouched (checked : checkSigned env c state = .ok header)
    (current : currentController state = .ok custodian) :
    verifyCommitSignature env c custodian none (streamIdFromState state) = .ok () := by
  obtain ⟨_, _, checked⟩ := bind_eq_ok.mp checked
  obtain ⟨controller, read, checked⟩ := bind_eq_ok.mp checked
  obtain rfl := Except.ok.inj (read.symm.trans current)
  obtain ⟨_, checked⟩ := guard_eq_ok.mp checked
  obtain ⟨_, verified, _⟩ := bind_eq_ok.mp checked
  exact verified

/-- A signed genesis is signed by the controller that it names. -/
theorem checkGenesis_vouched (checked : checkGenesis env g = .ok header) :
    GenesisVouched env TILE_TYPE_ID g header := by
  have given := checkGenesis_header checked
  have noModel : capabilityModel env TILE_TYPE_ID header = none := if_pos rfl
  unfold checkGenesis at checked
  dsimp only at checked
  refine ⟨fun _ signed => ?_, fun unsigned => ?_, fun isModel => absurd isModel (by decide)⟩
  · rw [if_pos signed] at checked
    obtain ⟨read, isHeader, checked⟩ := bind_eq_ok.mp checked
    obtain rfl := Option.some.inj (given.symm.trans (headerOf_ok isHeader))
    obtain ⟨controller, first, checked⟩ := bind_eq_ok.mp checked
    obtain ⟨_, verified, _⟩ := bind_eq_ok.mp checked
    rw [namedController_of_read first, noModel]
    exact verified
  · rcases unsigned with isLink | unsigned
    · exact absurd isLink (by decide)
    · rw [unsigned, if_neg Bool.false_ne_true] at checked
      simpa using (guard_eq_ok.mp checked).1

theorem inCustody_of_genesis (given : g.commit.header = some header) (lists : ListsControllers header)
    (applied : applyGenesis env g = .ok state) :
    GenesisVouched env TILE_TYPE_ID g header ∧ InCustody g header (namedController header) state := by
  have settled := settled_of_genesis given lists applied
  obtain ⟨built, made, checked⟩ := bind_eq_ok.mp applied
  obtain ⟨_, _, same⟩ := bind_eq_ok.mp checked
  obtain rfl := Except.ok.inj same
  obtain ⟨read, passed, rfl⟩ := map_eq_ok.mp made
  obtain rfl := Option.some.inj (given.symm.trans (checkGenesis_header passed))
  exact ⟨checkGenesis_vouched passed, rfl, settled, rfl⟩

/-- What the log of a tile has to be made of for its headers to count. -/
def SignedListsControllers (c : CommitData) : Prop :=
  isAnchorCommitData c = false → ∀ header ∈ c.commit.header, ListsControllers header

theorem keeps (env : Environment) (g : CommitData) (genesis : StreamMetadata) :
    KeepsCustody env (handler env) g genesis SignedListsControllers (InCustody g genesis) where
  step := by
    intro custodian c state next lists inCustody applied
    have settled := settled_of_applied inCustody.settled lists applied
    have id : streamIdFromState next = ⟨TILE_TYPE_ID, g.cid⟩ := by
      rw [← inCustody.id, streamIdFromState, streamIdFromState, (lawful env).type applied, (lawful env).first applied]
    simp only [handler, applyCommit] at applied
    split at applied
    · cases applied
    · unfold dispatch at applied
      dsimp only at applied
      split at applied
      next anchor =>
        obtain ⟨_, valid, rfl⟩ := applyAnchorCommit_ok.mp (outcome_of_except applied)
        rw [custodianAfter_of_anchor anchor]
        exact ⟨(if_pos anchor).mpr valid, id, settled, inCustody.latest⟩
      next signed =>
        have signed : isAnchorCommitData c = false := by simpa using signed
        obtain ⟨header, content, checked, _, _, rfl⟩ := applySigned_applied.mp applied
        have verified := checkSigned_vouched checked inCustody.current
        rw [inCustody.id] at verified
        have given := checkSigned_header checked
        refine ⟨?_, id, settled, ?_⟩
        · simpa [Vouched, signed, handler, capabilityModel, TILE_TYPE_ID, CAIP10_LINK_TYPE_ID, MODEL_TYPE_ID] using verified
        · simp [custodianAfter, signed, handler, given, controllers_spread (lists signed header given), inCustody.latest]

end TileDocumentHandler

namespace Caip10LinkHandler

variable {env : Environment} {g c : CommitData} {state next : StreamState} {header : StreamMetadata}
  {custodian : JsValue}

/-- A link never names another account than its genesis. -/
structure InCustody (header : StreamMetadata) (custodian : JsValue) (state : StreamState) : Prop where
  custodian : custodian = namedController header
  inForce : get state.metadata "controllers" = get header "controllers"
  latest : get ((state.next.bind (·.metadata)).getD state.metadata) "controllers" = get header "controllers"

theorem checkProof_vouched {proof : LinkProof} (checked : checkProof env c state = .ok proof) :
    ∃ account, env.validateLink c.commit.data = .ok (some proof) ∧ namedController state.metadata = .str account ∧
      env.toLowerCase (toLegacyAccountId proof.account) = env.toLowerCase account := by
  obtain ⟨_, _, rest⟩ := bind_eq_ok.mp checked
  split at rest
  next valid isValid =>
    obtain ⟨_, same, rest⟩ := bind_eq_ok.mp rest
    obtain rfl := Except.ok.inj same
    obtain ⟨_, _, rest⟩ := bind_eq_ok.mp rest
    obtain ⟨_, rest⟩ := guard_eq_ok.mp rest
    obtain ⟨controller, read, rest⟩ := bind_eq_ok.mp rest
    split at rest
    next account =>
      obtain ⟨_, same, rest⟩ := bind_eq_ok.mp rest
      obtain rfl := Except.ok.inj same
      obtain ⟨_, rest⟩ := guard_eq_ok.mp rest
      obtain ⟨sameAccount, returned⟩ := guard_eq_ok.mp rest
      obtain rfl := Except.ok.inj returned
      exact ⟨account, isValid, namedController_of_read read, not_not.mp sameAccount⟩
    next => cases rest
  next => cases rest
  next => cases rest

theorem keeps (env : Environment) (g : CommitData) (header : StreamMetadata) :
    KeepsCustody env (handler env) g header (fun _ => True) (InCustody header) where
  step := by
    intro custodian c state next _ inCustody applied
    have other : (handler env).type ≠ TILE_TYPE_ID := by rintro ⟨⟩
    rw [custodianAfter_of_other other]
    simp only [handler, applyCommit] at applied
    split at applied
    · cases applied
    · unfold dispatch at applied
      dsimp only at applied
      split at applied
      next anchor =>
        obtain ⟨_, valid, rfl⟩ := applyAnchorCommit_ok.mp (outcome_of_except applied)
        exact ⟨(if_pos anchor).mpr valid, inCustody.custodian, inCustody.latest, inCustody.latest⟩
      next signed =>
        obtain ⟨proof, checked, rfl⟩ := map_eq_ok.mp (outcome_of_except applied)
        obtain ⟨account, proven, named, same⟩ := checkProof_vouched checked
        rw [namedController, inCustody.inForce, ← namedController, ← inCustody.custodian] at named
        have apart : "lastUpdate" ≠ "controllers" := by decide
        refine ⟨?_, inCustody.custodian, inCustody.inForce, ?_⟩
        · simp only [Vouched, if_neg signed, handler, if_true]
          exact ⟨proof, account, proven, named, same⟩
        · exact (get_set_other _ apart _).trans inCustody.inForce

theorem inCustody_of_genesis (applied : applyGenesis g = .ok state) : ∃ header, g.commit.header = some header ∧
    GenesisVouched env CAIP10_LINK_TYPE_ID g header ∧ InCustody header (namedController header) state := by
  obtain ⟨header, checked, rfl⟩ := map_eq_ok.mp applied
  have given := checkGenesis_header checked
  unfold checkGenesis at checked
  dsimp only at checked
  obtain ⟨empty, _⟩ := guard_eq_ok.mp checked
  refine ⟨header, given, ⟨fun other => absurd rfl other, fun _ => by simpa using empty, ?_⟩, rfl, rfl, rfl⟩
  rintro ⟨⟩

end Caip10LinkHandler

namespace ModelHandler

variable {env : Environment} {g : CommitData}

theorem keeps (env : Environment) (g : CommitData) (header : StreamMetadata) :
    KeepsCustody env (handler env) g header (fun _ => True) (fun custodian _ => custodian = namedController header) where
  step := by
    intro custodian c state next _ named applied
    have other : (handler env).type ≠ TILE_TYPE_ID := by rintro ⟨⟩
    rw [custodianAfter_of_other other]
    simp only [handler, applyCommit, dispatch] at applied
    split at applied
    next anchor =>
      obtain ⟨_, valid, _⟩ := applyAnchorCommit_ok.mp (outcome_of_except applied)
      exact ⟨(if_pos anchor).mpr valid, named⟩
    next => cases applied

theorem checkGenesis_vouched {metadata : StreamMetadata} (checked : checkGenesis env g = .ok metadata) :
    ∃ header, g.commit.header = some header ∧ GenesisVouched env MODEL_TYPE_ID g header := by
  unfold checkGenesis at checked
  dsimp only at checked
  obtain ⟨signed, checked⟩ := guard_eq_ok.mp checked
  have signed : isSignedCommitData g = true := by simpa using signed
  obtain ⟨header, isHeader, checked⟩ := bind_eq_ok.mp checked
  obtain ⟨_, _, checked⟩ := bind_eq_ok.mp checked
  obtain ⟨controller, first, checked⟩ := bind_eq_ok.mp checked
  obtain ⟨model, parsed, checked⟩ := bind_eq_ok.mp checked
  obtain ⟨_, verified, _⟩ := bind_eq_ok.mp checked
  refine ⟨header, headerOf_ok isHeader, fun _ _ => ?_, fun unsigned => ?_, fun _ => signed⟩
  · have ofModel : capabilityModel env MODEL_TYPE_ID header = some model := by
      rw [capabilityModel, if_neg (by decide), parsed]
      rfl
    rw [namedController_of_read first, ofModel]
    exact verified
  · rcases unsigned with isLink | unsigned
    · exact absurd isLink (by decide)
    · exact absurd (signed.symm.trans unsigned) (by decide)

end ModelHandler

namespace ModelInstanceDocumentHandler

variable {env : Environment} {g c : CommitData} {state next : StreamState} {header : StreamMetadata}
  {custodian : JsValue}

/-- A document whose metadata names the custodian, and the model its genesis names. -/
structure InCustody (env : Environment) (g : CommitData) (header : StreamMetadata) (custodian : JsValue)
    (state : StreamState) : Prop where
  id : streamIdFromState state = ⟨MODEL_INSTANCE_TYPE_ID, g.cid⟩
  nothingPending : state.next = none
  controllers : (get state.metadata "controllers").prop "0" = .ok custodian
  model : modelOf state = (env.streamIDFromBytes (get header "model")).toOption

theorem checkSigned_vouched {index : JsValue} (checked : checkSigned env c state = .ok index)
    (controllers : (get state.metadata "controllers").prop "0" = .ok custodian) :
    verifyCommitSignature env c custodian (modelOf state) (streamIdFromState state) = .ok () := by
  obtain ⟨_, _, checked⟩ := bind_eq_ok.mp checked
  obtain ⟨controller, read, checked⟩ := bind_eq_ok.mp checked
  obtain rfl := Except.ok.inj (read.symm.trans controllers)
  obtain ⟨_, verified, _⟩ := bind_eq_ok.mp checked
  exact verified

theorem get_writeShouldIndex (index : JsValue) {key : String} (apart : "shouldIndex" ≠ key) :
    get (writeShouldIndex state index).metadata key = get state.metadata key := by
  unfold writeShouldIndex
  split
  · rfl
  · exact get_set_other _ apart _

theorem keeps (env : Environment) (g : CommitData) (header : StreamMetadata) :
    KeepsCustody env (handler env) g header (fun _ => True) (InCustody env g header) where
  step := by
    intro custodian c state next _ inCustody applied
    have id : streamIdFromState next = ⟨MODEL_INSTANCE_TYPE_ID, g.cid⟩ := by
      rw [← inCustody.id, streamIdFromState, streamIdFromState, (lawful env).type applied, (lawful env).first applied]
    have other : (handler env).type ≠ TILE_TYPE_ID := by rintro ⟨⟩
    rw [custodianAfter_of_other other]
    simp only [handler, applyCommit, dispatch] at applied
    split at applied
    next anchor =>
      obtain ⟨_, valid, rfl⟩ := applyAnchorCommit_ok.mp (outcome_of_except applied)
      refine ⟨(if_pos anchor).mpr valid, id, rfl, ?_, ?_⟩
      · simpa [anchoredState, inCustody.nothingPending] using inCustody.controllers
      · simpa [anchoredState, modelOf, inCustody.nothingPending] using inCustody.model
    next signed =>
      obtain ⟨index, content, checked, _, _, rfl⟩ := applySigned_applied.mp applied
      have verified := checkSigned_vouched checked inCustody.controllers
      rw [inCustody.id, inCustody.model] at verified
      refine ⟨?_, id, ?_, ?_, ?_⟩
      · simp only [Vouched, if_neg signed, handler]
        exact ⟨by decide, verified⟩
      · have kept : (writeShouldIndex state index).next = state.next := by
          unfold writeShouldIndex
          split <;> rfl
        exact kept.trans inCustody.nothingPending
      · rw [get_writeShouldIndex index (by decide)]
        exact inCustody.controllers
      · rw [← inCustody.model]
        unfold modelOf
        rw [get_writeShouldIndex index (by decide)]

/-- What is read from the header of a genesis names its controller and its model. -/
theorem readMetadata_ok {controller : JsValue} {model : StreamID} {metadata : StreamMetadata}
    (read : readMetadata env header = .ok (controller, model, metadata)) :
    (get header "controllers").prop "0" = .ok controller ∧ env.streamIDFromBytes (get header "model") = .ok model ∧
      get metadata "controllers" = .arr [controller] ∧ get metadata "model" = .streamID model := by
  obtain ⟨controller', first, read⟩ := bind_eq_ok.mp read
  obtain ⟨model', parsed, read⟩ := bind_eq_ok.mp read
  have found : controller' = controller ∧ model' = model ∧ get metadata "controllers" = .arr [controller] ∧
      get metadata "model" = .streamID model := by
    dsimp only at read
    split at read
    · obtain ⟨context, _, read⟩ := bind_eq_ok.mp read
      obtain ⟨rfl, rfl, rfl⟩ := Prod.mk.inj (Except.ok.inj read) |>.imp_right Prod.mk.inj
      exact ⟨rfl, rfl, rfl, rfl⟩
    · obtain ⟨rfl, rfl, rfl⟩ := Prod.mk.inj (Except.ok.inj read) |>.imp_right Prod.mk.inj
      exact ⟨rfl, rfl, rfl, rfl⟩
  obtain ⟨rfl, rfl, controllers, ofModel⟩ := found
  exact ⟨first, parsed, controllers, ofModel⟩

theorem inCustody_of_genesis (applied : applyGenesis env g = .ok state) : ∃ header, g.commit.header = some header ∧
    GenesisVouched env MODEL_INSTANCE_TYPE_ID g header ∧ InCustody env g header (namedController header) state := by
  obtain ⟨metadata, checked, rfl⟩ := map_eq_ok.mp applied
  obtain ⟨header, isHeader, checked⟩ := bind_eq_ok.mp checked
  obtain ⟨⟨controller, model, read⟩, isRead, checked⟩ := bind_eq_ok.mp checked
  obtain ⟨_, _, checked⟩ := bind_eq_ok.mp checked
  obtain ⟨first, parsed, controllers, ofModel⟩ := readMetadata_ok isRead
  have named := namedController_of_read first
  have capability : capabilityModel env MODEL_INSTANCE_TYPE_ID header = some model := by
    rw [capabilityModel, if_neg (by decide), parsed]
    rfl
  have vouched : GenesisVouched env MODEL_INSTANCE_TYPE_ID g header ∧ read = metadata := by
    dsimp only at checked
    split at checked
    next signed =>
      obtain ⟨_, verified, checked⟩ := bind_eq_ok.mp checked
      obtain ⟨_, _, checked⟩ := bind_eq_ok.mp checked
      obtain ⟨_, _, checked⟩ := bind_eq_ok.mp checked
      obtain ⟨_, _, checked⟩ := bind_eq_ok.mp checked
      obtain ⟨_, _, returned⟩ := bind_eq_ok.mp checked
      refine ⟨⟨fun _ _ => named ▸ capability ▸ verified, fun unsigned => ?_, fun isModel => ?_⟩, Except.ok.inj returned⟩
      · rcases unsigned with isLink | unsigned
        · exact absurd isLink (by decide)
        · exact absurd (signed.symm.trans unsigned) (by decide)
      · exact absurd isModel (by decide)
    next unsigned =>
      obtain ⟨empty, checked⟩ := guard_eq_ok.mp checked
      obtain ⟨_, _, checked⟩ := bind_eq_ok.mp checked
      obtain ⟨_, _, checked⟩ := bind_eq_ok.mp checked
      obtain ⟨_, _, checked⟩ := bind_eq_ok.mp checked
      obtain ⟨_, _, returned⟩ := bind_eq_ok.mp checked
      exact ⟨⟨fun _ signed => absurd signed unsigned, fun _ => by simpa using empty,
        fun isModel => absurd isModel (by decide)⟩, Except.ok.inj returned⟩
  obtain ⟨vouched, rfl⟩ := vouched
  refine ⟨header, headerOf_ok isHeader, vouched, rfl, rfl, ?_, ?_⟩
  · rw [named]
    exact congrArg (fun value => value.prop "0") controllers
  · show modelOf (genesisState env g read) = _
    unfold modelOf
    rw [parsed]
    have ofModel : get (genesisState env g read).metadata "model" = .streamID model := ofModel
    rw [ofModel]
    rfl

end ModelInstanceDocumentHandler

namespace HandlersMap

/-- Each handler knows from its genesis on who is to vouch for the next commit. -/
theorem exists_keeps {env : Environment} {handler : StreamHandler} (registered : handler ∈ defaultHandlers env)
    {g : CommitData} {start : StreamState} (created : handler.applyCommit g none = .applied start)
    (lists : handler.type = TILE_TYPE_ID → ∀ header ∈ g.commit.header, ListsControllers header) :
    ∃ header allowed Holds, g.commit.header = some header ∧ GenesisVouched env handler.type g header ∧
      KeepsCustody env handler g header allowed Holds ∧ Holds (namedController header) start ∧
      ∀ c, (handler.type = TILE_TYPE_ID → ∀ header ∈ c.commit.header, ListsControllers header) → allowed c := by
  simp only [defaultHandlers, List.mem_cons, List.not_mem_nil, or_false] at registered
  rcases registered with rfl | rfl | rfl | rfl
  · simp only [TileDocumentHandler.handler, TileDocumentHandler.applyCommit] at created
    split at created
    · cases created
    · have applied := outcome_of_except created
      obtain ⟨built, made, _⟩ := bind_eq_ok.mp applied
      obtain ⟨header, checked, _⟩ := map_eq_ok.mp made
      have given := TileDocumentHandler.checkGenesis_header checked
      obtain ⟨vouched, holds⟩ := TileDocumentHandler.inCustody_of_genesis given (lists rfl header given) applied
      exact ⟨header, _, _, given, vouched, TileDocumentHandler.keeps env g header, holds, fun c all _ => all rfl⟩
  · simp only [Caip10LinkHandler.handler, Caip10LinkHandler.applyCommit] at created
    split at created
    · cases created
    · obtain ⟨header, given, vouched, holds⟩ := Caip10LinkHandler.inCustody_of_genesis (outcome_of_except created)
      exact ⟨header, _, _, given, vouched, Caip10LinkHandler.keeps env g header, holds, fun _ _ => trivial⟩
  · obtain ⟨metadata, checked, _⟩ := map_eq_ok.mp (outcome_of_except created)
    obtain ⟨header, given, vouched⟩ := ModelHandler.checkGenesis_vouched checked
    exact ⟨header, _, _, given, vouched, ModelHandler.keeps env g header, rfl, fun _ _ => trivial⟩
  · obtain ⟨header, given, vouched, holds⟩ :=
      ModelInstanceDocumentHandler.inCustody_of_genesis (outcome_of_except created)
    exact ⟨header, _, _, given, vouched, ModelInstanceDocumentHandler.keeps env g header, holds, fun _ _ => trivial⟩

end HandlersMap

namespace CustodyFixture

/-- A signature is the name of who made it. -/
def env : Environment :=
  { Environment.permissive with
    verifyJWS := fun envelope options => match envelope, options.issuer with
      | some jws, .str issuer => if jws.signature = issuer then .ok () else .error ⟨"invalid_jws"⟩
      | _, _ => .error ⟨"invalid_jws"⟩ }

def headerFor (controller : String) : StreamMetadata := [("controllers", .arr [.str controller])]

theorem headerFor_lists (controller : String) : ListsControllers (headerFor controller) := by
  refine ⟨List.pairwise_singleton _ _, ?_, by rintro ⟨⟩⟩
  rintro _ held
  obtain rfl := Option.some.inj held
  exact ⟨_, rfl⟩

def genesis : CommitData :=
  { cid := ⟨[1]⟩, type := .INIT, envelope := some ⟨⟨[1]⟩, "", "did:key:alice"⟩
    commit := { header := some (headerFor "did:key:alice"), data := .obj [] } }

/-- Alice hands the tile to Bob. -/
def handover : CommitData :=
  { cid := ⟨[2]⟩, type := .DATA, envelope := some ⟨⟨[2]⟩, "", "did:key:alice"⟩
    commit := { header := some (headerFor "did:key:bob"), data := .arr [], prev := some ⟨[1]⟩, id := some ⟨[1]⟩ } }

/-- The next update is Bob's, though nothing was anchored since. -/
def update : CommitData :=
  { cid := ⟨[3]⟩, type := .DATA, envelope := some ⟨⟨[3]⟩, "", "did:key:bob"⟩
    commit := { header := some (headerFor "did:key:bob"), data := .arr [], prev := some ⟨[2]⟩, id := some ⟨[1]⟩ } }

end CustodyFixture

end Ceramic
