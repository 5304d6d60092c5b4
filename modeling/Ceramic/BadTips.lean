import Ceramic.IncrementalSync

/-! Tips that fail while a stream is loaded. Only a tip whose log cannot be fetched before there is a state is
passed over; where `syncStream` catches what a later tip throws, a load does not. -/
namespace Ceramic.StreamLoader

open StateManipulator AnchorTimestampExtractor

variable (world : Nat → World) (streamID : StreamID)

/-- What is done for one tip of a load. -/
def handleTip : Option StreamState → TipResponse → Except JsError (Option StreamState)
  | none, response =>
    loadStateFromTip (world response.moment).env (world response.moment).store streamID response.tip true false
  | some state, response =>
    (applyTipToState (world response.moment).env (world response.moment).store state response.tip
      StreamUpdater.networkOpts).map some

/-- Whether that throws: the log of the first tip that can be fetched cannot be applied, or that of a later one can
neither be fetched and applied. -/
def Throws : Option StreamState → TipResponse → Prop
  | none, response => ∃ log e,
    LogSyncer.syncFullLog (world response.moment).store streamID (some response.tip) = .ok log ∧
    applyFullLog (world response.moment).env streamID.type
      (verifyAnchorAndApplyTimestamps (world response.moment).store.toDispatcher log) false = .error e
  | some state, response =>
    (∃ e, LogSyncer.syncLogUntilMatch (world response.moment).store response.tip (state.log.toList.map (·.cid)) =
      .error e) ∨
    ∃ log e, LogSyncer.syncLogUntilMatch (world response.moment).store response.tip (state.log.toList.map (·.cid)) =
      .ok log ∧ applyLogToState (world response.moment).env (world response.moment).store state
        (verifyAnchorAndApplyTimestamps (world response.moment).store.toDispatcher log) StreamUpdater.networkOpts =
        .error e

variable {world streamID}

theorem throws_iff {state : Option StreamState} {response : TipResponse} :
    Throws world streamID state response ↔ ∃ e, handleTip world streamID state response = .error e := by
  cases state with
  | none =>
    unfold handleTip Throws loadStateFromTip
    cases fetched : LogSyncer.syncFullLog (world response.moment).store streamID (some response.tip) with
    | error e => simp [fetched]
    | ok log =>
      cases applied : applyFullLog (world response.moment).env streamID.type
        (verifyAnchorAndApplyTimestamps (world response.moment).store.toDispatcher log) false with
      | error e => simp [fetched, applied, Except.map]
      | ok s => simp [fetched, applied, Except.map]
  | some state =>
    unfold handleTip Throws applyTipToState
    cases fetched : LogSyncer.syncLogUntilMatch (world response.moment).store response.tip
      (state.log.toList.map (·.cid)) with
    | error e => simp [fetched, bind, Except.bind, Except.map]
    | ok log =>
      cases applied : applyLogToState (world response.moment).env (world response.moment).store state
        (verifyAnchorAndApplyTimestamps (world response.moment).store.toDispatcher log)
        StreamUpdater.networkOpts with
      | error e => simp [fetched, bind, Except.bind, applied, Except.map]
      | ok s => simp [fetched, bind, Except.bind, applied, Except.map]

theorem applyTips_cons (state : Option StreamState) (response : TipResponse) (tips : List TipResponse) :
    applyTips world streamID state (response :: tips) =
      (handleTip world streamID state response).bind fun next => applyTips world streamID next tips := by
  cases state with
  | none => rfl
  | some state =>
    rw [applyTips, handleTip]
    cases applied : applyTipToState (world response.moment).env (world response.moment).store state response.tip
      StreamUpdater.networkOpts <;> rfl

variable (world streamID) in
/-- Some tips of a sequence are left out, and the state that the others give: each that is left out fails, or leads
to nothing new. -/
inductive LeavesOut : Option StreamState → List TipResponse → List TipResponse → Option StreamState → Prop where
  | done (state : Option StreamState) : LeavesOut state [] [] state
  | kept {state next result : Option StreamState} {response : TipResponse} {tips rest : List TipResponse} :
      handleTip world streamID state response = .ok next → LeavesOut next tips rest result →
      LeavesOut state (response :: tips) (response :: rest) result
  | failed {state result : Option StreamState} {response : TipResponse} {tips rest : List TipResponse} :
      Throws world streamID state response → LeavesOut state tips rest result →
      LeavesOut state (response :: tips) rest result
  | idle {state result : Option StreamState} {response : TipResponse} {tips rest : List TipResponse} :
      handleTip world streamID state response = .ok state → LeavesOut state tips rest result →
      LeavesOut state (response :: tips) rest result

variable (world streamID) in
/-- No tip throws when it is handled. -/
def NoTipThrows : Option StreamState → List TipResponse → Prop
  | _, [] => True
  | state, response :: tips => ¬Throws world streamID state response ∧
    ∀ next, handleTip world streamID state response = .ok next → NoTipThrows next tips

variable {state result : Option StreamState} {tips rest : List TipResponse}

/-- Before there is a state, a tip that cannot be fetched leads to nothing. -/
theorem idle_of_unfetchable {response : TipResponse} {e : JsError}
    (failed : LogSyncer.syncFullLog (world response.moment).store streamID (some response.tip) = .error e) :
    handleTip world streamID none response = .ok none := by
  rw [handleTip, loadStateFromTip, failed]
  rfl

/-- Afterwards, a tip of another stream leads to nothing, if it does not throw. -/
theorem idle_of_nothing_new {held : StreamState} {response : TipResponse}
    (nothing : LogSyncer.syncLogUntilMatch (world response.moment).store response.tip (held.log.toList.map (·.cid)) =
      .ok []) (quiet : ¬Throws world streamID (some held) response) :
    handleTip world streamID (some held) response = .ok (some held) := by
  cases handled : handleTip world streamID (some held) response with
  | error e => exact absurd (throws_iff.mpr ⟨e, handled⟩) quiet
  | ok next =>
    obtain ⟨s, applied, same⟩ := map_eq_ok.mp handled
    obtain ⟨log, fetched, applied⟩ := bind_eq_ok.mp applied
    obtain rfl := Except.ok.inj (nothing.symm.trans fetched)
    obtain ⟨found, kept, checked⟩ := bind_eq_ok.mp applied
    obtain ⟨_, _, returned⟩ := bind_eq_ok.mp checked
    rw [← same, ← Except.ok.inj returned, ← Except.ok.inj kept]

/-- So does a tip whose first new commit, such as an invalid anchor, is refused, if it does not throw. -/
theorem idle_of_refused {held : StreamState} {response : TipResponse} {handler : StreamHandler} {first : CommitData}
    {log : List CommitData} {e : JsError}
    (fetched : LogSyncer.syncLogUntilMatch (world response.moment).store response.tip (held.log.toList.map (·.cid)) =
      .ok (first :: log))
    (registered : HandlersMap.get (world response.moment).env held.type = .ok handler)
    (link : first.commit.prev = some (StreamUtils.tipFromState held))
    (refused : handler.applyCommit (stamped (world response.moment).store.toDispatcher first log) (some held) =
      .threw e (some held)) (quiet : ¬Throws world streamID (some held) response) :
    handleTip world streamID (some held) response = .ok (some held) := by
  cases handled : handleTip world streamID (some held) response with
  | error e => exact absurd (throws_iff.mpr ⟨e, handled⟩) quiet
  | ok next =>
    obtain ⟨s, applied, same⟩ := map_eq_ok.mp handled
    obtain ⟨log', fetched', applied⟩ := bind_eq_ok.mp applied
    obtain rfl := Except.ok.inj (fetched.symm.trans fetched')
    rw [extracted_cons] at applied
    obtain ⟨found, kept, checked⟩ := bind_eq_ok.mp applied
    obtain ⟨_, _, returned⟩ := bind_eq_ok.mp checked
    have unchanged : applyLogFrom handler false held (stamped (world response.moment).store.toDispatcher first log ::
        verifyAnchorAndApplyTimestamps (world response.moment).store.toDispatcher log) = .ok held :=
      applyLogFrom_threw _ refused
    have linked : (stamped (world response.moment).store.toDispatcher first log).commit.prev =
        some (StreamUtils.tipFromState held) := link
    unfold applyLogToStateWithoutCacaoVerification at kept
    simp only [registered, linked, bind, Except.bind, if_true, applyLog] at kept
    rw [← same, ← Except.ok.inj returned, ← Except.ok.inj (unchanged.symm.trans kept)]

/-- All tips that fail can be left out. -/
theorem leavesOut_exists (state : Option StreamState) (tips : List TipResponse) :
    ∃ rest result, LeavesOut world streamID state tips rest result := by
  induction tips generalizing state with
  | nil => exact ⟨[], state, .done state⟩
  | cons response tips ih =>
    cases handled : handleTip world streamID state response with
    | ok next =>
      obtain ⟨rest, result, leaves⟩ := ih next
      exact ⟨response :: rest, result, .kept handled leaves⟩
    | error e =>
      obtain ⟨rest, result, leaves⟩ := ih state
      exact ⟨rest, result, .failed (throws_iff.mpr ⟨e, handled⟩) leaves⟩

/-- The tips that are kept give their state. -/
theorem LeavesOut.applyTips_rest (leaves : LeavesOut world streamID state tips rest result) :
    applyTips world streamID state rest = .ok result := by
  induction leaves with
  | done state => cases state <;> rfl
  | kept handled _ ih =>
    rw [applyTips_cons, handled]
    exact ih
  | failed _ _ ih => exact ih
  | idle _ _ ih => exact ih

/-- A tip that throws fails the rest of the load. -/
theorem applyTips_ok_iff : (∃ found, applyTips world streamID state tips = .ok found) ↔
    NoTipThrows world streamID state tips := by
  induction tips generalizing state with
  | nil => exact iff_of_true (by cases state <;> exact ⟨_, rfl⟩) trivial
  | cons response tips ih =>
    rw [applyTips_cons, NoTipThrows, throws_iff]
    cases handled : handleTip world streamID state response with
    | error e => exact iff_of_false (fun ⟨_, found⟩ => nomatch found) fun none => none.1 ⟨e, rfl⟩
    | ok next =>
      have notThrown : ¬∃ e, (Except.ok next : Except JsError (Option StreamState)) = .error e :=
        fun ⟨_, thrown⟩ => nomatch thrown
      refine ih.trans ⟨fun none => ⟨notThrown, fun next' same => ?_⟩, fun none => ?_⟩
      · exact Except.ok.inj same ▸ none
      · exact none.2 next rfl

/-- All tips give the state of those that are kept, unless one throws. -/
theorem LeavesOut.applyTips_eq (leaves : LeavesOut world streamID state tips rest result)
    (none : NoTipThrows world streamID state tips) : applyTips world streamID state tips = .ok result := by
  induction leaves with
  | done state => cases state <;> rfl
  | kept handled _ ih =>
    rw [applyTips_cons, handled]
    exact ih (none.2 _ handled)
  | failed thrown _ _ => exact absurd thrown none.1
  | idle handled _ ih =>
    rw [applyTips_cons, handled]
    exact ih (none.2 _ handled)

/-- What is applied is the log, and what has been found then is returned, or the genesis. -/
theorem loadStream_eq {moment : Nat} {g : StreamState}
    (genesis : loadGenesisState (world moment).env (world moment).store streamID = .ok (some g)) :
    loadStream world moment streamID tips =
      (applyTips world streamID none tips).map fun found => some (found.getD g) := by
  obtain ⟨handler, registered, _⟩ := bind_eq_ok.mp genesis
  unfold loadStream
  rw [registered]
  cases applied : applyTips world streamID none tips with
  | error e => rfl
  | ok found =>
    cases found with
    | none =>
      change loadGenesisState (world moment).env (world moment).store streamID = _
      rw [genesis]
      rfl
    | some state => rfl

end Ceramic.StreamLoader

namespace Ceramic.BlockStore

open StreamLoader

def updatesWorld (_moment : Nat) : World := ⟨.permissive, updatesStore⟩

def updatesGenesis : StreamState where
  type := TILE_TYPE_ID
  content := .obj []
  metadata := [("controllers", .arr [.str "did:key:z6Mk"])]
  signature := .GENESIS
  anchorStatus := .NOT_REQUESTED
  log := .singleton ⟨⟨[1]⟩, .INIT, .undefined, none⟩

def firstUpdated : StreamState where
  type := TILE_TYPE_ID
  content := .obj []
  next := some { content := some (.obj [])
                 metadata := some [("controllers", .arr [.str "did:key:z6Mk"])] }
  metadata := [("controllers", .arr [.str "did:key:z6Mk"])]
  signature := .SIGNED
  anchorStatus := .NOT_REQUESTED
  log := ⟨[⟨⟨[1]⟩, .INIT, .undefined, none⟩, ⟨⟨[2]⟩, .DATA, .undefined, none⟩], by decide⟩

end Ceramic.BlockStore
