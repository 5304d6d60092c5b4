import Ceramic.StoredStates

/-! Who controls a tile. A header is checked for its controllers only where it has some, and then it
is laid over the metadata whatever it holds. -/
namespace Ceramic

open JsObject

/-- A list of exactly one controller. -/
def JsValue.OneController (controllers : JsValue) : Prop := ∃ controller, controllers = .arr [controller] ∧ controller.truthy

theorem JsValue.oneController_of_reads {items : List JsValue} {controller : JsValue}
    (single : JsValue.prop (.arr items) "length" = .ok (.num 1))
    (first : JsValue.prop (.arr items) "0" = .ok controller) (real : controller.truthy) :
    OneController (.arr items) := by
  have one : items.length = 1 := by simpa [prop] using single
  obtain ⟨item, rfl⟩ := List.length_eq_one_iff.mp one
  obtain rfl : item = controller := by simpa [prop] using first
  exact ⟨item, rfl, real⟩

/-- A header whose controllers, if it has any, are a list, and that does not unset the prohibition. -/
structure ListsControllers (header : StreamMetadata) : Prop where
  names : (names header).Nodup
  controllers : ∀ value ∈ get? header "controllers", ∃ items, value = .arr items
  forbids : get? header "forbidControllerChange" ≠ some .undefined

/-- Only the header of a signed commit gets into the metadata. -/
def StreamState.Change.ListsControllers : Change → Prop
  | .commit commitData => StreamUtils.isAnchorCommitData commitData = false →
      ∀ header ∈ commitData.commit.header, Ceramic.ListsControllers header
  | .anchorStatus _ => True

namespace TileDocumentHandler

/-- One controller, and that of the genesis where it forbids another one. -/
structure Controlled (genesis metadata : StreamMetadata) : Prop where
  one : (get metadata "controllers").OneController
  kept : (get genesis "forbidControllerChange").truthy → get metadata "controllers" = get genesis "controllers"

def StateControlled (genesis : StreamMetadata) (state : StreamState) : Prop :=
  Controlled genesis state.metadata ∧
    ∀ pending ∈ state.next, ∀ metadata ∈ pending.metadata, Controlled genesis metadata

variable {env : Environment} {c : CommitData} {state next : StreamState} {header genesis metadata : StreamMetadata}

theorem truthy_of_validDIDString {did : JsValue} (valid : StreamUtils.validDIDString did = true) : did.truthy = true := by
  cases did with
  | str s =>
    have nonempty : s ≠ "" := by
      rintro rfl
      cases valid
    simpa [JsValue.truthy] using nonempty
  | _ => cases valid

theorem assertOneController_ok {controllers : JsValue} (one : assertOneController controllers = .ok ()) :
    controllers.truthy = true ∧ controllers.prop "length" = .ok (.num 1) := by
  unfold assertOneController at one
  dsimp only at one
  obtain ⟨present, checked⟩ := guard_eq_ok.mp one
  obtain ⟨length, read, checked⟩ := bind_eq_ok.mp checked
  obtain ⟨single, _⟩ := guard_eq_ok.mp checked
  obtain rfl : length = .num 1 := by simpa using single
  exact ⟨by simpa using present, read⟩

theorem checkGenesis_controllers (checked : checkGenesis env c = .ok header) :
    ∃ controller, assertOneController (get header "controllers") = .ok () ∧
      (get header "controllers").prop "0" = .ok controller ∧ StreamUtils.validDIDString controller := by
  let Post := fun header : JsObject => ∃ controller, assertOneController (get header "controllers") = .ok () ∧
    (get header "controllers").prop "0" = .ok controller ∧ StreamUtils.validDIDString controller
  have checks : Ensures Post (checkGenesis env c) := by
    have rest : Ensures Post (do
        let header ← headerOf c.commit
        let controllers := JsObject.get header "controllers"
        assertOneController controllers
        let controller ← controllers.prop "0"
        if !StreamUtils.validDIDString controller then
          throw ⟨"Attempting to create a TileDocument with an invalid DID string: " ++ env.stringOf controller⟩
        return header) := by
      refine .andThen fun header _ => .andThen fun _ one => .andThen fun controller read => ?_
      by_cases valid : StreamUtils.validDIDString controller = true
      · simp only [valid]
        exact .returned ⟨controller, one, read, valid⟩
      · simp only [valid]
        exact .thrown _
    exact .either (.andThen fun _ _ => .andThen fun _ _ => .andThen fun _ _ => rest) (.either (.thrown _) rest)
  exact checks header checked

/-- What an accepted header is known to satisfy. -/
structure SignedHeader (metadata header : StreamMetadata) : Prop where
  one : (get header "controllers").truthy → ∃ controller, controller.truthy ∧
    (get header "controllers").prop "length" = .ok (.num 1) ∧ (get header "controllers").prop "0" = .ok controller
  same : (get metadata "forbidControllerChange").truthy → (get header "controllers").truthy →
    stringArraysEqual (get header "controllers") (get metadata "controllers") = .ok true
  forbids : get header "forbidControllerChange" = .undefined ∨
    get header "forbidControllerChange" = get metadata "forbidControllerChange"

/-- What the last check of a header leaves. -/
theorem forbids_of_check {given held : JsValue} (passed : ¬(given != .undefined && !given.strictEq held) = true) :
    given = .undefined ∨ given = held := by
  by_cases absent : given = .undefined
  · exact .inl absent
  · have same : given.strictEq held = true := by simpa [absent] using passed
    exact .inr (JsValue.eq_of_strictEq same)

theorem checkSigned_controllers (checked : checkSigned env c state = .ok header) :
    SignedHeader state.metadata header := by
  obtain ⟨_, _, checked⟩ := bind_eq_ok.mp checked
  obtain ⟨controller, _, checked⟩ := bind_eq_ok.mp checked
  obtain ⟨_, checked⟩ := guard_eq_ok.mp checked
  obtain ⟨_, _, checked⟩ := bind_eq_ok.mp checked
  obtain ⟨read, _, checked⟩ := bind_eq_ok.mp checked
  dsimp only at checked
  by_cases has : (get read "controllers").truthy = true
  · rw [if_pos has] at checked
    obtain ⟨length, readLength, checked⟩ := bind_eq_ok.mp checked
    obtain ⟨single, checked⟩ := guard_eq_ok.mp checked
    obtain ⟨first, readFirst, checked⟩ := bind_eq_ok.mp checked
    obtain ⟨real, checked⟩ := guard_eq_ok.mp checked
    have one : ∃ controller, controller.truthy = true ∧
        (get read "controllers").prop "length" = .ok (.num 1) ∧ (get read "controllers").prop "0" = .ok controller := by
      obtain rfl : length = .num 1 := by simpa using single
      exact ⟨first, by simpa using real, readLength, readFirst⟩
    by_cases forbidden : (get state.metadata "forbidControllerChange").truthy = true
    · rw [if_pos (by rw [forbidden, has]; rfl)] at checked
      obtain ⟨same, compared, checked⟩ := bind_eq_ok.mp checked
      obtain ⟨equal, checked⟩ := guard_eq_ok.mp checked
      obtain ⟨forbids, returned⟩ := guard_eq_ok.mp checked
      obtain rfl := Except.ok.inj returned
      obtain rfl : same = true := by simpa using equal
      exact ⟨fun _ => one, fun _ _ => compared, forbids_of_check forbids⟩
    · rw [if_neg (by simp [forbidden])] at checked
      obtain ⟨forbids, returned⟩ := guard_eq_ok.mp checked
      obtain rfl := Except.ok.inj returned
      exact ⟨fun _ => one, fun prohibited => absurd prohibited forbidden, forbids_of_check forbids⟩
  · rw [if_neg has, if_neg (by simp [has])] at checked
    obtain ⟨forbids, returned⟩ := guard_eq_ok.mp checked
    obtain rfl := Except.ok.inj returned
    exact ⟨fun given => absurd given has, fun _ given => absurd given has, forbids_of_check forbids⟩

theorem eq_of_stringArraysEqual {first second : JsValue}
    (equal : stringArraysEqual (.arr [first]) (.arr [second]) = .ok true) : first = second := by
  have compared : first.strictEq second = true := by
    simpa [stringArraysEqual, JsValue.prop, bind, Except.bind, pure, Except.pure] using equal
  exact JsValue.eq_of_strictEq compared

/-- What every metadata of a tile satisfies; the prohibition is the genesis's too. -/
structure Settled (genesis metadata : StreamMetadata) : Prop extends Controlled genesis metadata where
  forbids : get metadata "forbidControllerChange" = get genesis "forbidControllerChange"

/-- The metadata that is in force, and what a signed header makes of the latest. -/
def StateSettled (genesis : StreamMetadata) (state : StreamState) : Prop :=
  Settled genesis state.metadata ∧ ∀ pending ∈ state.next, ∀ metadata ∈ pending.metadata, Settled genesis metadata

theorem StateSettled.current (settled : StateSettled genesis state) :
    Settled genesis ((state.next.bind (·.metadata)).getD state.metadata) := by
  cases given : state.next with
  | none => exact settled.1
  | some pending =>
    cases changed : pending.metadata with
    | none => simpa [changed] using settled.1
    | some metadata => simpa [changed] using settled.2 pending given metadata changed

theorem Settled.spread (inForce : Settled genesis state.metadata) (latest : Settled genesis metadata)
    (accepted : SignedHeader state.metadata header) (lists : ListsControllers header) :
    Settled genesis (spread metadata header) := by
  have laid (key : String) : get (JsObject.spread metadata header) key =
      ((get? header key).or (get? metadata key)).getD .undefined := by
    rw [JsObject.get, get?_spread metadata header lists.names]
  have forbids : get (JsObject.spread metadata header) "forbidControllerChange" = get genesis "forbidControllerChange" := by
    rw [laid]
    cases given : get? header "forbidControllerChange" with
    | none => exact latest.forbids
    | some value =>
      have read : get header "forbidControllerChange" = value := by rw [JsObject.get, given]; rfl
      rcases accepted.forbids with absent | same
      · exact absurd (by rw [given, ← read, absent]) lists.forbids
      · exact read.symm.trans (same.trans inForce.forbids)
  cases given : get? header "controllers" with
  | none =>
    have untouched : get (JsObject.spread metadata header) "controllers" = get metadata "controllers" := by
      rw [laid, given]
      rfl
    exact ⟨⟨untouched ▸ latest.one, fun prohibited => untouched ▸ latest.kept prohibited⟩, forbids⟩
  | some value =>
    obtain ⟨items, rfl⟩ := lists.controllers value given
    have read : get header "controllers" = .arr items := by rw [JsObject.get, given]; rfl
    have written : get (JsObject.spread metadata header) "controllers" = .arr items := by
      rw [laid, given]
      rfl
    obtain ⟨controller, real, single, first⟩ := accepted.one (by rw [read]; rfl)
    rw [read] at single first
    have one := JsValue.oneController_of_reads single first real
    refine ⟨⟨written ▸ one, fun prohibited => ?_⟩, forbids⟩
    obtain ⟨new, isNew, _⟩ := one
    obtain ⟨old, isOld, _⟩ := inForce.one
    have equal := accepted.same (inForce.forbids ▸ prohibited) (by rw [read]; rfl)
    rw [read, isNew, isOld] at equal
    rw [written, isNew, eq_of_stringArraysEqual equal, ← isOld, inForce.kept prohibited]

theorem settled_of_genesis (given : c.commit.header = some genesis) (lists : ListsControllers genesis)
    (applied : applyGenesis env c = .ok state) : StateSettled genesis state := by
  obtain ⟨built, made, checked⟩ := bind_eq_ok.mp applied
  obtain ⟨_, _, same⟩ := bind_eq_ok.mp checked
  obtain rfl := Except.ok.inj same
  obtain ⟨header, passed, rfl⟩ := map_eq_ok.mp made
  obtain rfl := Option.some.inj (given.symm.trans (checkGenesis_header passed))
  obtain ⟨controller, one, first, valid⟩ := checkGenesis_controllers passed
  obtain ⟨present, single⟩ := assertOneController_ok one
  have real : controller.truthy = true := truthy_of_validDIDString valid
  cases read : get? genesis "controllers" with
  | none => simp [JsObject.get, read, JsValue.truthy] at present
  | some value =>
    obtain ⟨items, rfl⟩ := lists.controllers value read
    have isList : JsObject.get genesis "controllers" = .arr items := by rw [JsObject.get, read]; rfl
    rw [isList] at first single
    have settled : Settled genesis genesis :=
      ⟨⟨isList ▸ JsValue.oneController_of_reads single first real, fun _ => rfl⟩, rfl⟩
    refine ⟨settled, ?_⟩
    intro pending none
    cases none

theorem settled_of_anchor (settled : StateSettled genesis state) : StateSettled genesis (anchoredState c state) := by
  refine ⟨settled.current, ?_⟩
  intro pending none
  cases none

theorem settled_of_signed (settled : StateSettled genesis state)
    (lists : ∀ header ∈ c.commit.header, ListsControllers header)
    (applied : applySigned env c state = .applied next) : StateSettled genesis next := by
  obtain ⟨header, content, checked, _, _, rfl⟩ := applySigned_applied.mp applied
  refine ⟨settled.1, ?_⟩
  intro pending given metadata changed
  obtain rfl := Option.some.inj given
  obtain rfl := Option.some.inj changed
  exact Settled.spread settled.1 settled.current (checkSigned_controllers checked)
    (lists header (checkSigned_header checked))

theorem settled_of_applied (settled : StateSettled genesis state)
    (lists : StreamUtils.isAnchorCommitData c = false → ∀ header ∈ c.commit.header, ListsControllers header)
    (applied : (handler env).applyCommit c (some state) = .applied next) : StateSettled genesis next := by
  simp only [handler, applyCommit] at applied
  split at applied
  · cases applied
  · unfold dispatch at applied
    dsimp only at applied
    split at applied
    · obtain ⟨_, _, rfl⟩ := applyAnchorCommit_ok.mp (outcome_of_except applied)
      exact settled_of_anchor settled
    next signed => exact settled_of_signed settled (lists (by simpa using signed)) applied

/-- A tile and what a step makes of it. -/
theorem settled_of_step {change : StreamState.Change}
    (before : state.type = TILE_TYPE_ID ∧ StateSettled genesis state) (lists : change.ListsControllers)
    (stepped : state.step env change = some next) : next.type = TILE_TYPE_ID ∧ StateSettled genesis next := by
  obtain ⟨isTile, settled⟩ := before
  cases change with
  | anchorStatus status =>
    obtain rfl := Option.some.inj stepped
    exact ⟨isTile, settled⟩
  | commit c =>
    have registered : handler env ∈ HandlersMap.defaultHandlers env := List.mem_cons_self
    have applied := StreamState.applied_of_step registered isTile stepped
    exact ⟨((lawful env).type applied).trans isTile, settled_of_applied settled lists applied⟩

/-- In every state of a run whose signed commits list their controllers, the metadata in force and the
pending one have one controller, that of the genesis where it forbids another. -/
theorem controllers_kept (env : Environment) {genesisCommit : CommitData} {genesis : StreamMetadata}
    (given : genesisCommit.commit.header = some genesis) (lists : ListsControllers genesis) {start state : StreamState}
    (created : (handler env).applyCommit genesisCommit none = .applied start)
    (run : Transition.Reaches (StreamState.step env) (fun _ change => change.ListsControllers) start state) :
    StateControlled genesis state := by
  have initial : start.type = TILE_TYPE_ID ∧ StateSettled genesis start := by
    refine ⟨((lawful env).genesis created).1, ?_⟩
    simp only [handler, applyCommit] at created
    split at created
    · cases created
    · exact settled_of_genesis given lists (outcome_of_except created)
  have reached : state.type = TILE_TYPE_ID ∧ StateSettled genesis state :=
    @Transition.Reaches.invariant _ _ _ _ _ _ (fun s => s.type = TILE_TYPE_ID ∧ StateSettled genesis s) initial
      (fun _ _ _ before lists stepped => settled_of_step before lists stepped) run
  obtain ⟨_, settled⟩ := reached
  exact ⟨settled.1.toControlled, fun pending held metadata changed => (settled.2 pending held metadata changed).toControlled⟩

namespace ControllersFixture

/-- The header of a tile that is to keep its controller. -/
def fixedHeader : StreamMetadata :=
  [("controllers", .arr [.str "did:key:z6Mk"]), ("forbidControllerChange", .bool true)]

def fixedGenesis : CommitData :=
  { cid := ⟨[1]⟩, type := .INIT, commit := { header := some fixedHeader, data := .null } }

def fixedTile : StreamState := genesisState .permissive fixedGenesis fixedHeader

/-- A signed commit that changes nothing but what its header gives. -/
def headerUpdate (header : StreamMetadata) : CommitData :=
  { cid := ⟨[2]⟩, type := .DATA, envelope := some ⟨⟨[2]⟩, "", ""⟩
    commit := { header := some header, data := .arr [], prev := some ⟨[1]⟩, id := some ⟨[1]⟩ } }

end ControllersFixture

open ControllersFixture

theorem fixedTile_controllers : ∃ state, Transition.Reaches (StreamState.step .permissive)
    (fun _ change => change.ListsControllers) fixedTile state ∧ StateControlled fixedHeader state := by
  have lists : ListsControllers fixedHeader := by
    refine ⟨by decide, ?_, by decide⟩
    rintro _ held
    obtain rfl := Option.some.inj held
    exact ⟨_, rfl⟩
  have allowed : StreamState.Change.ListsControllers (.commit (headerUpdate fixedHeader)) := by
    rintro - header held
    obtain rfl := Option.some.inj held
    exact lists
  have run : Transition.Reaches (StreamState.step .permissive) (fun _ change => change.ListsControllers) fixedTile _ :=
    .next (a := .commit (headerUpdate fixedHeader)) .start allowed rfl
  have created : (handler .permissive).applyCommit fixedGenesis none = .applied fixedTile := rfl
  exact ⟨_, run, controllers_kept .permissive rfl lists created run⟩

/-- A header whose controllers are an empty text passes the checks, and then they are that text. -/
theorem controllers_not_kept : ¬∀ (env : Environment) (genesisCommit : CommitData) (genesis : StreamMetadata)
    (start state : StreamState), genesisCommit.commit.header = some genesis →
    (handler env).applyCommit genesisCommit none = .applied start →
    Transition.Reaches (StreamState.step env) (fun _ _ => True) start state → StateControlled genesis state := by
  intro kept
  have created : (handler .permissive).applyCommit fixedGenesis none = .applied fixedTile := rfl
  have run : Transition.Reaches (StreamState.step .permissive) (fun _ _ => True) fixedTile _ :=
    .next (a := .commit (headerUpdate [("controllers", .str "")])) .start trivial rfl
  obtain ⟨_, pending⟩ := kept _ _ _ _ _ rfl created run
  obtain ⟨controller, held, _⟩ := (pending _ rfl _ rfl).one
  cases held

end TileDocumentHandler

end Ceramic
