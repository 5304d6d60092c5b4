import Ceramic.Timestamps
import Ceramic.HandlersMap

/-! Commits whose signatures hold at any time can be applied with other timestamps:
the states that result differ in the timestamps of their logs only. -/
namespace Ceramic

open StreamUtils SignatureUtils

/-- The same commit with another timestamp. The `expirationTime` that is copied to a
commit is not read when it is applied. -/
structure Retimed (c c' : CommitData) : Prop where
  eq : c' = { c with timestamp := c'.timestamp, expirationTime := c'.expirationTime }

/-- The commit's signature checks give the same answer whatever time they are made
for: the JWS verifies at every time, and the capability has not expired at any. -/
structure TimelessSignature (env : Environment) (c : CommitData) : Prop where
  verified : ∀ opts atTime, env.verifyJWS c.envelope opts = .ok () →
    env.verifyJWS c.envelope { opts with atTime } = .ok ()
  unexpired : ∀ timestamp,
    cacaoExpired env { commitDataToLogEntry env c .DATA with timestamp } = false

/-- Two states that differ in the timestamps of their logs only. -/
structure SameButTimes (s s' : StreamState) : Prop where
  fields : s' = { s with log := s'.log }
  log : s.log.toList.map (·.untimed) = s'.log.toList.map (·.untimed)

namespace SameButTimes

variable {s s' : StreamState}

theorem refl (s : StreamState) : SameButTimes s s := ⟨rfl, rfl⟩

theorem symm (same : SameButTimes s s') : SameButTimes s' s := by
  refine ⟨?_, same.log.symm⟩
  rw [same.fields]

theorem trans {s'' : StreamState} (same : SameButTimes s s') (same' : SameButTimes s' s'') : SameButTimes s s'' := by
  refine ⟨?_, same.log.trans same'.log⟩
  rw [same'.fields, same.fields]

theorem map {β : Type} (same : SameButTimes s s') (f : LogEntry → β)
    (untimed : ∀ entry : LogEntry, f entry.untimed = f entry) :
    s.log.toList.map f = s'.log.toList.map f := by
  have mapped := congrArg (List.map f) same.log
  simpa [List.map_map, Function.comp_def, untimed] using mapped

theorem first (same : SameButTimes s s') : s.log.first.cid = s'.log.first.cid := by
  have heads := congrArg List.head? (same.map (·.cid) untimed_cid)
  simpa [NonEmptyArray.head?_toList] using heads

theorem last (same : SameButTimes s s') : s.log.last.cid = s'.log.last.cid := by
  have lasts := congrArg List.getLast? (same.map (·.cid) untimed_cid)
  simpa [NonEmptyArray.getLast?_toList] using lasts

theorem type (same : SameButTimes s s') : s'.type = s.type := by rw [same.fields]

theorem streamId (same : SameButTimes s s') : streamIdFromState s' = streamIdFromState s := by
  simp [streamIdFromState, same.type, same.first]

theorem links (same : SameButTimes s s') (commit : Commit)
    (linked : assertCommitLinksToState s commit = .ok ()) :
    assertCommitLinksToState s' commit = .ok () := by
  rw [links_iff] at linked ⊢
  rwa [← same.first, ← same.last]

end SameButTimes

theorem verifyCommitSignature_timeless {env : Environment} {c c' : CommitData}
    {controller : JsValue} {model : Option StreamID} {streamId : StreamID}
    (timeless : TimelessSignature env c) (retimed : Retimed c c')
    (h : verifyCommitSignature env c controller model streamId = .ok ()) :
    verifyCommitSignature env c' controller model streamId = .ok () := by
  rw [retimed.eq]
  unfold verifyCommitSignature at h ⊢
  cases authz : verifyCapabilityAuthz c streamId model with
  | error e => simp [authz, bind, Except.bind] at h
  | ok cacao =>
    have authz' : verifyCapabilityAuthz { c with
        timestamp := c'.timestamp, expirationTime := c'.expirationTime } streamId model = .ok cacao :=
      authz
    simp only [authz, authz', bind, Except.bind] at h ⊢
    split at h
    next verified =>
      rw [timeless.verified _ _ verified]
    next => cases h

/-- The same environment, in which other signatures may verify. -/
structure SameButSignatures (env env' : Environment) : Prop where
  eq : env' = { env with verifyJWS := env'.verifyJWS }

/-- Every check of the first commit's signature that it passes, the second passes too. -/
def SignatureKept (env env' : Environment) (c c' : CommitData) : Prop :=
  ∀ controller model streamId, verifyCommitSignature env c controller model streamId = .ok () →
    verifyCommitSignature env' c' controller model streamId = .ok ()

theorem TimelessSignature.kept {env : Environment} {c c' : CommitData} (timeless : TimelessSignature env c)
    (retimed : Retimed c c') : SignatureKept env env c c' :=
  fun _ _ _ => verifyCommitSignature_timeless timeless retimed

/-- A handler of one environment and the same one of another take related states, and commits with
other times whose signatures are still valid, to related states. -/
structure StreamHandler.Retimes (env env' : Environment) (handler handler' : StreamHandler)
    (rel : StreamState → StreamState → Prop) : Prop where
  same : ∀ {s s'}, rel s s' → SameButTimes s s'
  genesis : ∀ {c c' s}, SignatureKept env env' c c' → Retimed c c' →
    handler.applyCommit c none = .applied s → ∃ s', handler'.applyCommit c' none = .applied s' ∧ rel s s'
  step : ∀ {c c' s s' next}, SignatureKept env env' c c' → Retimed c c' →
    (isAnchorCommitData c = true → c'.timestamp = c.timestamp) → rel s s' →
    handler.applyCommit c (some s) = .applied next →
    ∃ next', handler'.applyCommit c' (some s') = .applied next' ∧ rel next next'

/-- A handler takes related states and retimed commits to related states. -/
structure StreamHandler.Simulates (env : Environment) (handler : StreamHandler)
    (rel : StreamState → StreamState → Prop) : Prop where
  same : ∀ {s s'}, rel s s' → SameButTimes s s'
  genesis : ∀ {c c' s}, TimelessSignature env c → Retimed c c' →
    handler.applyCommit c none = .applied s → ∃ s', handler.applyCommit c' none = .applied s' ∧ rel s s'
  step : ∀ {c c' s s' next}, TimelessSignature env c → Retimed c c' →
    (isAnchorCommitData c = true → c'.timestamp = c.timestamp) → rel s s' →
    handler.applyCommit c (some s) = .applied next →
    ∃ next', handler.applyCommit c' (some s') = .applied next' ∧ rel next next'

theorem StreamHandler.Retimes.simulates {env : Environment} {handler : StreamHandler}
    {rel : StreamState → StreamState → Prop} (retimes : StreamHandler.Retimes env env handler handler rel) :
    handler.Simulates env rel :=
  ⟨retimes.same, fun timeless retimed => retimes.genesis (timeless.kept retimed) retimed,
    fun timeless retimed => retimes.step (timeless.kept retimed) retimed⟩

theorem Retimed.links {c c' : CommitData} {s s' : StreamState} (retimed : Retimed c c')
    (same : SameButTimes s s') (linked : assertCommitLinksToState s c.commit = .ok ()) :
    assertCommitLinksToState s' c'.commit = .ok () := by
  rw [retimed.eq]
  exact same.links c.commit linked

theorem untimed_commitDataToLogEntry (env : Environment) (c : CommitData) (t : Timestamp)
    (e : Option Int) {type : EventType} (other : type ≠ .TIME) :
    (commitDataToLogEntry env { c with timestamp := t, expirationTime := e } type).untimed =
      (commitDataToLogEntry env c type).untimed := by
  simp [LogEntry.untimed, commitDataToLogEntry, other, capabilityExpiration]

/-- Applying an anchor commit does not read its `expirationTime`. -/
theorem applyAnchorCommit_expirationTime (c : CommitData) (s : StreamState) (e : Option Int) :
    applyAnchorCommit { c with expirationTime := e } s = applyAnchorCommit c s := rfl

theorem applyAnchorCommit_simulates {c c' : CommitData} {s s' next : StreamState}
    (retimed : Retimed c c') (anchorKept : c'.timestamp = c.timestamp)
    (same : SameButTimes s s') (h : applyAnchorCommit c s = .ok next) :
    ∃ next', applyAnchorCommit c' s' = .ok next' ∧ SameButTimes next next' := by
  obtain ⟨linked, valid, rfl⟩ := applyAnchorCommit_ok.mp h
  have linked' := same.links c.commit linked
  rw [retimed.eq, anchorKept, applyAnchorCommit_expirationTime]
  refine ⟨_, applyAnchorCommit_ok.mpr ⟨linked', valid, rfl⟩, ?_⟩
  obtain ⟨log', eq⟩ : ∃ log', s' = { s with log := log' } := ⟨_, same.fields⟩
  subst eq
  exact ⟨rfl, by simp [anchoredState, untimed_restamped, same.log]⟩

/-- The dispatch of a handler simulates if its genesis and signed commits do. -/
theorem dispatch_simulates (genesis genesis' : CommitData → Except JsError StreamState)
    {signed signed' : CommitData → StreamState → Outcome} {c c' : CommitData} {s s' next : StreamState}
    (retimed : Retimed c c') (anchorKept : isAnchorCommitData c = true → c'.timestamp = c.timestamp)
    (same : SameButTimes s s') (signed_simulates : signed c s = .applied next →
      ∃ next', signed' c' s' = .applied next' ∧ SameButTimes next next')
    (h : dispatch genesis signed c (some s) = .applied next) :
    ∃ next', dispatch genesis' signed' c' (some s') = .applied next' ∧ SameButTimes next next' := by
  cases anchor : isAnchorCommitData c with
  | true =>
    have applied : applyAnchorCommit c s = .ok next :=
      outcome_of_except (by simpa [dispatch, anchor] using h)
    obtain ⟨next', applied', related⟩ :=
      applyAnchorCommit_simulates retimed (anchorKept anchor) same applied
    have anchor' : isAnchorCommitData c' = true := by
      rw [retimed.eq]
      exact anchor
    exact ⟨next', by simp [dispatch, anchor', applied', Outcome.ofExcept], related⟩
  | false =>
    have anchor' : isAnchorCommitData c' = false := by
      rw [retimed.eq]
      exact anchor
    obtain ⟨next', applied', related⟩ := signed_simulates (by simpa [dispatch, anchor] using h)
    exact ⟨next', by simp [dispatch, anchor', applied'], related⟩

namespace TileDocumentHandler

theorem checkSigned_simulates {env env' : Environment} {c c' : CommitData} {s s' : StreamState}
    {found : JsObject} (others : SameButSignatures env env') (kept : SignatureKept env env' c c')
    (retimed : Retimed c c') (same : SameButTimes s s') (h : checkSigned env c s = .ok found) :
    checkSigned env' c' s' = .ok found := by
  obtain ⟨verifyJWS, eq⟩ : ∃ verifyJWS, env' = { env with verifyJWS } := ⟨_, others.eq⟩
  subst eq
  have linked := retimed.links same (checkSigned_links h)
  have id := same.streamId
  have commit : c'.commit = c.commit := by rw [retimed.eq]
  obtain ⟨log', eq⟩ : ∃ log', s' = { s with log := log' } := ⟨_, same.fields⟩
  subst eq
  unfold checkSigned at h ⊢
  dsimp only at h ⊢
  obtain ⟨_, _, h⟩ := bind_eq_ok.mp h
  rw [linked, id, commit]
  obtain ⟨controller, named, h⟩ := bind_eq_ok.mp h
  have named' : currentController { s with log := log' } = .ok controller := named
  simp only [named', bind, Except.bind]
  by_cases set : controller.truthy
  · simp only [set, Bool.not_true, Bool.false_eq_true, if_false] at h ⊢
    obtain ⟨_, verified, h⟩ := bind_eq_ok.mp h
    rw [kept _ _ _ verified]
    exact h
  · simp [set, throw, throwThe, MonadExceptOf.throw, bind, Except.bind] at h

theorem applySigned_simulates {env env' : Environment} {c c' : CommitData} {s s' next : StreamState}
    (others : SameButSignatures env env') (kept : SignatureKept env env' c c') (retimed : Retimed c c')
    (same : SameButTimes s s') (h : applySigned env c s = .applied next) :
    ∃ next', applySigned env' c' s' = .applied next' ∧ SameButTimes next next' := by
  obtain ⟨header, newContent, checked, patched, valid, rfl⟩ := applySigned_applied.mp h
  have checked' := checkSigned_simulates others kept retimed same checked
  obtain ⟨verifyJWS, eq⟩ : ∃ verifyJWS, env' = { env with verifyJWS } := ⟨_, others.eq⟩
  subst eq
  obtain ⟨log', eq⟩ : ∃ log', s' = { s with log := log' } := ⟨_, same.fields⟩
  subst eq
  rw [retimed.eq] at checked' ⊢
  refine ⟨_, applySigned_applied.mpr ⟨header, newContent, checked', patched, valid, rfl⟩, rfl, ?_⟩
  simp [recordSigned, same.log, untimed_commitDataToLogEntry]
  rfl

theorem checkGenesis_simulates {env env' : Environment} {c c' : CommitData} {found : JsObject}
    (others : SameButSignatures env env') (kept : SignatureKept env env' c c') (retimed : Retimed c c')
    (h : checkGenesis env c = .ok found) : checkGenesis env' c' = .ok found := by
  obtain ⟨verifyJWS, eq⟩ : ∃ verifyJWS, env' = { env with verifyJWS } := ⟨_, others.eq⟩
  subst eq
  have commit : c'.commit = c.commit := by rw [retimed.eq]
  have cid : c'.cid = c.cid := by rw [retimed.eq]
  have signature : isSignedCommitData c' = isSignedCommitData c := by rw [retimed.eq]; rfl
  unfold checkGenesis at h ⊢
  rw [commit, cid, signature]
  by_cases signed : isSignedCommitData c
  · rw [if_pos signed] at h ⊢
    obtain ⟨header, named, h⟩ := bind_eq_ok.mp h
    obtain ⟨controller, first, h⟩ := bind_eq_ok.mp h
    obtain ⟨_, verified, h⟩ := bind_eq_ok.mp h
    refine bind_eq_ok.mpr ⟨header, named, bind_eq_ok.mpr ⟨controller, first, ?_⟩⟩
    refine bind_eq_ok.mpr ⟨(), ?_, h⟩
    exact kept _ _ _ verified
  · rw [if_neg signed] at h ⊢
    exact h

theorem retimes {env env' : Environment} (others : SameButSignatures env env') :
    StreamHandler.Retimes env env' (handler env) (handler env') SameButTimes := by
  have sameMode : env'.useRustCeramic = env.useRustCeramic := by rw [others.eq]
  refine ⟨id, ?_, ?_⟩
  · intro c c' s kept retimed h
    cases blocked : env.useRustCeramic with
    | true => simp [handler, applyCommit, blocked] at h
    | false =>
      have built : applyGenesis env c = .ok s :=
        outcome_of_except (by simpa [handler, applyCommit, blocked, dispatch] using h)
      obtain ⟨state, made, rest⟩ := bind_eq_ok.mp built
      obtain ⟨_, valid, returned⟩ := bind_eq_ok.mp rest
      obtain ⟨header, checked, rfl⟩ := map_eq_ok.mp made
      obtain rfl := Except.ok.inj returned
      have checked' := checkGenesis_simulates others kept retimed checked
      have sameGenesis : genesisState env' c' header = genesisState env c' header := by
        rw [others.eq]
        rfl
      have built' : applyGenesis env' c' = .ok (genesisState env c' header) := by
        unfold applyGenesis
        rw [checked']
        refine bind_eq_ok.mpr ⟨_, congrArg Except.ok sameGenesis, bind_eq_ok.mpr ⟨(), ?_, rfl⟩⟩
        rw [others.eq, retimed.eq]
        exact valid
      refine ⟨genesisState env c' header, ?_, ?_⟩
      · simp [handler, applyCommit, sameMode, blocked, dispatch, built', Outcome.ofExcept]
      · rw [retimed.eq]
        exact ⟨rfl, by simp [genesisState, untimed_commitDataToLogEntry]⟩
  · intro c c' s s' next kept retimed anchorKept same h
    cases blocked : env.useRustCeramic with
    | true => simp [handler, applyCommit, blocked] at h
    | false =>
      simp only [handler, applyCommit, sameMode, blocked, Bool.false_eq_true, if_false] at h ⊢
      exact dispatch_simulates (applyGenesis env) (applyGenesis env') retimed anchorKept same
        (applySigned_simulates others kept retimed same) h

end TileDocumentHandler

namespace Caip10LinkHandler

/-- The commit's timestamp is not read unless it is an anchor, and no signature by a JWS is. -/
theorem retimes {env env' : Environment} (others : SameButSignatures env env') :
    StreamHandler.Retimes env env' (handler env) (handler env') Eq := by
  have sameHandler : handler env' = handler env := by
    rw [others.eq]
    rfl
  have retimed_same {c c' : CommitData} (retimed : Retimed c c')
      (other : isAnchorCommitData c = false) (s : StreamState) :
      applyCommit env c' (some s) = applyCommit env c (some s) := by
    rw [retimed.eq]
    have other' : isAnchorCommitData { c with
        timestamp := c'.timestamp, expirationTime := c'.expirationTime } = false := other
    simp only [applyCommit, dispatch, other, other']
    rfl
  rw [sameHandler]
  refine ⟨?_, ?_, ?_⟩
  · rintro s _ rfl
    exact .refl s
  · intro c c' s _ retimed h
    rw [retimed.eq]
    exact ⟨s, h, rfl⟩
  · rintro c c' s _ next _ retimed anchorKept rfl h
    cases anchor : isAnchorCommitData c with
    | true =>
      rw [retimed.eq, anchorKept anchor]
      exact ⟨next, h, rfl⟩
    | false => exact ⟨next, (retimed_same retimed anchor s).trans h, rfl⟩

end Caip10LinkHandler

namespace ModelHandler

theorem checkGenesis_simulates {env env' : Environment} {c c' : CommitData} {metadata : StreamMetadata}
    (others : SameButSignatures env env') (kept : SignatureKept env env' c c') (retimed : Retimed c c')
    (h : checkGenesis env c = .ok metadata) : checkGenesis env' c' = .ok metadata := by
  obtain ⟨verifyJWS, eq⟩ : ∃ verifyJWS, env' = { env with verifyJWS } := ⟨_, others.eq⟩
  subst eq
  have commit : c'.commit = c.commit := by rw [retimed.eq]
  have cid : c'.cid = c.cid := by rw [retimed.eq]
  have signature : isSignedCommitData c' = isSignedCommitData c := by rw [retimed.eq]; rfl
  unfold checkGenesis at h ⊢
  rw [commit, cid, signature]
  by_cases signed : isSignedCommitData c
  · simp only [signed, Bool.not_true, Bool.false_eq_true, if_false] at h ⊢
    obtain ⟨header, named, h⟩ := bind_eq_ok.mp h
    obtain ⟨_, one, h⟩ := bind_eq_ok.mp h
    obtain ⟨controller, first, h⟩ := bind_eq_ok.mp h
    obtain ⟨model, read, h⟩ := bind_eq_ok.mp h
    obtain ⟨_, verified, h⟩ := bind_eq_ok.mp h
    refine bind_eq_ok.mpr ⟨header, named, bind_eq_ok.mpr ⟨(), one, ?_⟩⟩
    refine bind_eq_ok.mpr ⟨controller, first, bind_eq_ok.mpr ⟨model, read, ?_⟩⟩
    refine bind_eq_ok.mpr ⟨(), ?_, h⟩
    exact kept _ _ _ verified
  · simp [signed, throw, throwThe, MonadExceptOf.throw, bind, Except.bind] at h

theorem retimes {env env' : Environment} (others : SameButSignatures env env') :
    StreamHandler.Retimes env env' (handler env) (handler env') SameButTimes := by
  refine ⟨id, ?_, ?_⟩
  · intro c c' s kept retimed h
    obtain ⟨metadata, checked, rfl⟩ := map_eq_ok.mp (outcome_of_except h)
    have checked' := checkGenesis_simulates others kept retimed checked
    refine ⟨genesisState env' c' metadata, ?_, ?_⟩
    · simp [handler, applyCommit, dispatch, applyGenesis, checked', Except.map, Outcome.ofExcept]
    · rw [retimed.eq, others.eq]
      refine ⟨rfl, ?_⟩
      simp [genesisState, untimed_commitDataToLogEntry]
      rfl
  · intro c c' s s' next _ retimed anchorKept same h
    exact dispatch_simulates (applyGenesis env) (applyGenesis env') retimed anchorKept same (fun never => by cases never) h

end ModelHandler

namespace ModelInstanceDocumentHandler

theorem checkSigned_simulates {env env' : Environment} {c c' : CommitData} {s s' : StreamState}
    {index : JsValue} (others : SameButSignatures env env') (kept : SignatureKept env env' c c')
    (retimed : Retimed c c') (same : SameButTimes s s') (h : checkSigned env c s = .ok index) :
    checkSigned env' c' s' = .ok index := by
  obtain ⟨verifyJWS, eq⟩ : ∃ verifyJWS, env' = { env with verifyJWS } := ⟨_, others.eq⟩
  subst eq
  have linked := retimed.links same (checkSigned_links h)
  have id := same.streamId
  have commit : c'.commit = c.commit := by rw [retimed.eq]
  obtain ⟨log', eq⟩ : ∃ log', s' = { s with log := log' } := ⟨_, same.fields⟩
  subst eq
  unfold checkSigned at h ⊢
  dsimp only at h ⊢
  rw [linked, id, commit]
  obtain ⟨_, _, h⟩ := bind_eq_ok.mp h
  obtain ⟨controller, first, h⟩ := bind_eq_ok.mp h
  obtain ⟨_, verified, h⟩ := bind_eq_ok.mp h
  refine bind_eq_ok.mpr ⟨(), rfl, bind_eq_ok.mpr ⟨controller, first, ?_⟩⟩
  exact bind_eq_ok.mpr ⟨(), kept _ _ _ verified, h⟩

theorem checkGenesis_simulates {env env' : Environment} {c c' : CommitData} {metadata : StreamMetadata}
    (others : SameButSignatures env env') (kept : SignatureKept env env' c c') (retimed : Retimed c c')
    (h : checkGenesis env c = .ok metadata) : checkGenesis env' c' = .ok metadata := by
  obtain ⟨verifyJWS, eq⟩ : ∃ verifyJWS, env' = { env with verifyJWS } := ⟨_, others.eq⟩
  subst eq
  have commit : c'.commit = c.commit := by rw [retimed.eq]
  have cid : c'.cid = c.cid := by rw [retimed.eq]
  have signature : isSignedCommitData c' = isSignedCommitData c := by rw [retimed.eq]; rfl
  unfold checkGenesis at h ⊢
  rw [commit, cid, signature]
  obtain ⟨header, named, h⟩ := bind_eq_ok.mp h
  obtain ⟨⟨controller, model, metadata'⟩, read, h⟩ := bind_eq_ok.mp h
  obtain ⟨_, checked, h⟩ := bind_eq_ok.mp h
  refine bind_eq_ok.mpr ⟨header, named, bind_eq_ok.mpr ⟨(controller, model, metadata'), read, ?_⟩⟩
  refine bind_eq_ok.mpr ⟨(), checked, ?_⟩
  by_cases signed : isSignedCommitData c
  · rw [if_pos signed] at h ⊢
    obtain ⟨_, verified, h⟩ := bind_eq_ok.mp h
    exact bind_eq_ok.mpr ⟨(), kept _ _ _ verified, h⟩
  · rw [if_neg signed] at h ⊢
    exact h

theorem applySigned_simulates {env env' : Environment} {c c' : CommitData} {s s' next : StreamState}
    (others : SameButSignatures env env') (kept : SignatureKept env env' c c') (retimed : Retimed c c')
    (same : SameButTimes s s') (h : applySigned env c s = .applied next) :
    ∃ next', applySigned env' c' s' = .applied next' ∧ SameButTimes next next' := by
  obtain ⟨index, newContent, checked, patched, valid, rfl⟩ := applySigned_applied.mp h
  have checked' := checkSigned_simulates others kept retimed same checked
  obtain ⟨verifyJWS, eq⟩ : ∃ verifyJWS, env' = { env with verifyJWS } := ⟨_, others.eq⟩
  subst eq
  have types := same.map (·.type) untimed_type
  obtain ⟨log', eq⟩ : ∃ log', s' = { s with log := log' } := ⟨_, same.fields⟩
  subst eq
  have indexed : writeShouldIndex { s with log := log' } index =
      { writeShouldIndex s index with log := log' } := by
    unfold writeShouldIndex
    split <;> rfl
  have anyData : log'.toList.any (fun c => c.type = .DATA) =
      s.log.toList.any (fun c => c.type = .DATA) := by
    have mapped := congrArg (List.any · (fun type => decide (type = .DATA))) types
    simpa [List.any_map, Function.comp_def] using mapped.symm
  have valid' : validateSigned env c.commit { writeShouldIndex s index with log := log' } newContent =
      .ok () := by
    simpa only [validateSigned, (writeShouldIndex_log s index).1, anyData] using valid
  rw [retimed.eq] at checked' ⊢
  refine ⟨_, applySigned_applied.mpr ⟨index, newContent, checked', patched, ?_, rfl⟩, ?_, ?_⟩
  · rw [indexed]
    exact valid'
  · rw [indexed]
  · simp [same.log, untimed_commitDataToLogEntry]
    rfl

theorem retimes {env env' : Environment} (others : SameButSignatures env env') :
    StreamHandler.Retimes env env' (handler env) (handler env') SameButTimes := by
  refine ⟨id, ?_, ?_⟩
  · intro c c' s kept retimed h
    obtain ⟨metadata, checked, rfl⟩ := map_eq_ok.mp (outcome_of_except h)
    have checked' := checkGenesis_simulates others kept retimed checked
    refine ⟨genesisState env' c' metadata, ?_, ?_⟩
    · simp [handler, applyCommit, dispatch, applyGenesis, checked', Except.map, Outcome.ofExcept]
    · rw [retimed.eq, others.eq]
      refine ⟨rfl, ?_⟩
      simp [genesisState, untimed_commitDataToLogEntry]
      rfl
  · intro c c' s s' next kept retimed anchorKept same h
    exact dispatch_simulates (applyGenesis env) (applyGenesis env') retimed anchorKept same
        (applySigned_simulates others kept retimed same) h

end ModelInstanceDocumentHandler

/-- Each handler of one environment has its counterpart in the other. -/
theorem HandlersMap.get_retimes {env env' : Environment} (others : SameButSignatures env env') {type : Nat}
    {handler : StreamHandler} (h : get env type = .ok handler) :
    ∃ handler' rel, get env' type = .ok handler' ∧ StreamHandler.Retimes env env' handler handler' rel := by
  obtain ⟨member, rfl⟩ := get_mem h
  simp only [defaultHandlers, List.mem_cons, List.not_mem_nil, or_false] at member
  have found (handler' : StreamHandler) (registered : handler' ∈ defaultHandlers env') :
      get env' handler'.type = .ok handler' := get_of_mem registered
  rcases member with rfl | rfl | rfl | rfl
  · exact ⟨_, _, found (TileDocumentHandler.handler env') (by simp [defaultHandlers]),
      TileDocumentHandler.retimes others⟩
  · exact ⟨_, _, found (Caip10LinkHandler.handler env') (by simp [defaultHandlers]),
      Caip10LinkHandler.retimes others⟩
  · exact ⟨_, _, found (ModelHandler.handler env') (by simp [defaultHandlers]), ModelHandler.retimes others⟩
  · exact ⟨_, _, found (ModelInstanceDocumentHandler.handler env') (by simp [defaultHandlers]),
      ModelInstanceDocumentHandler.retimes others⟩

theorem HandlersMap.get_simulates {env : Environment} {type : Nat} {handler : StreamHandler}
    (h : get env type = .ok handler) : ∃ rel, handler.Simulates env rel := by
  obtain ⟨same, rel, registered, retimes⟩ := get_retimes (⟨rfl⟩ : SameButSignatures env env) h
  obtain rfl := Except.ok.inj (h.symm.trans registered)
  exact ⟨rel, retimes.simulates⟩

end Ceramic
