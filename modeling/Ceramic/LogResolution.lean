import Ceramic.AppliedLog
import Ceramic.FailedAnchors

/-! What `applyLogToState` does with a fetched log: nothing, or apply it to the state
held or to the state where the two histories part. -/
namespace Ceramic.StateManipulator

open StreamUtils

/-- The local commits behind the divergence point. -/
def localConflictingLog (state : StreamState) (prev : Cid) : List LogEntry :=
  match state.log.toList.findIdx? fun entry => entry.cid = prev with
  | some index => state.log.toList.drop (index + 1)
  | none => state.log.toList

/-- The state a fetched log is applied to, when it is applied. -/
inductive BaseState (env : Environment) (store : CommitStore) (state : StreamState)
    (log : List CommitData) : StreamState → Prop where
  | appended (first : CommitData) (head : log.head? = some first)
      (prev : first.commit.prev = some (tipFromState state)) : BaseState env store state log state
  | replaced (first : CommitData) (prev : Cid) (base : StreamState)
      (head : log.head? = some first) (link : first.commit.prev = some prev)
      (conflict : prev ≠ tipFromState state)
      (wins : pickLogToAccept (localConflictingLog state prev) (entries log) = .log2)
      (reset : resetStateToCommit env store state prev false = .ok base) :
      BaseState env store state log base

theorem BaseState.unique {env : Environment} {store : CommitStore} {state : StreamState}
    {log : List CommitData} {base base' : StreamState} (first : BaseState env store state log base)
    (second : BaseState env store state log base') : base = base' := by
  cases first with
  | appended c head prev =>
    cases second with
    | appended c' head' prev' => rfl
    | replaced c' p' _ head' link' conflict' wins' reset' =>
      obtain rfl := Option.some.inj (head.symm.trans head')
      exact absurd (Option.some.inj (link'.symm.trans prev)) conflict'
  | replaced c p _ head link conflict wins reset =>
    cases second with
    | appended c' head' prev' =>
      obtain rfl := Option.some.inj (head.symm.trans head')
      exact absurd (Option.some.inj (link.symm.trans prev')) conflict
    | replaced c' p' _ head' link' conflict' wins' reset' =>
      obtain rfl := Option.some.inj (head.symm.trans head')
      obtain rfl := Option.some.inj (link.symm.trans link')
      exact Except.ok.inj (reset.symm.trans reset')

theorem resolveConflict_ok {env : Environment} {store : CommitStore} {handler : StreamHandler}
    {state result : StreamState} {prev : Cid} {log : List CommitData} {opts : ApplyLogToStateOpts}
    (h : resolveConflict env store handler state prev log opts = .ok result) :
    (result = state ∧ pickLogToAccept (localConflictingLog state prev) (entries log) = .log1) ∨
    (pickLogToAccept (localConflictingLog state prev) (entries log) = .log2 ∧
      ∃ base, resetStateToCommit env store state prev false = .ok base ∧
        applyLogFrom handler opts.throwOnInvalidCommit base log = .ok result) := by
  unfold resolveConflict at h
  by_cases stale : opts.throwIfStale
  · simp [stale, throw, throwThe, MonadExceptOf.throw, bind, Except.bind] at h
  simp only [stale, Bool.false_eq_true, if_false] at h
  generalize selects : pickLogToAccept _ _ = selected at h
  have picked : pickLogToAccept (localConflictingLog state prev) (entries log) = selected := selects
  rw [picked]
  cases selected with
  | log1 =>
    dsimp only at h
    by_cases throwing : opts.throwOnConflict
    · simp [throwing, throw, throwThe, MonadExceptOf.throw, bind, Except.bind] at h
    · simp only [throwing, Bool.false_eq_true, if_false] at h
      exact .inl ⟨(Except.ok.inj h).symm, rfl⟩
  | log2 =>
    dsimp only at h
    split at h
    · cases h
    · obtain ⟨base, reset, applied⟩ := bind_eq_ok.mp h
      exact .inr ⟨rfl, base, reset, applied⟩

theorem applyLogToState_ok {env : Environment} {store : CommitStore} {state result : StreamState}
    {log : List CommitData} {opts : ApplyLogToStateOpts}
    (h : applyLogToState env store state log opts = .ok result) :
    (result = state ∧ ∀ base, ¬BaseState env store state log base) ∨
    ∃ handler base, HandlersMap.get env state.type = .ok handler ∧
      BaseState env store state log base ∧
      applyLogFrom handler opts.throwOnInvalidCommit base log = .ok result := by
  obtain ⟨resolved, applied, checked⟩ := bind_eq_ok.mp h
  obtain ⟨_, _, returned⟩ := bind_eq_ok.mp checked
  obtain rfl : resolved = result := Except.ok.inj returned
  cases log with
  | nil =>
    obtain rfl : state = resolved := Except.ok.inj applied
    refine .inl ⟨rfl, fun base applies => ?_⟩
    cases applies with
    | appended c head prev => cases head
    | replaced c p _ head => cases head
  | cons first rest =>
    obtain ⟨handler, found, linked⟩ := bind_eq_ok.mp applied
    cases link : first.commit.prev with
    | none => simp [link, throw, throwThe, MonadExceptOf.throw] at linked
    | some prev =>
      simp only [link] at linked
      by_cases extending : prev = tipFromState state
      · refine .inr ⟨handler, state, found, .appended first rfl (by rw [link, extending]), ?_⟩
        simpa [extending, applyLog] using linked
      · rw [if_neg extending] at linked
        rcases resolveConflict_ok linked with ⟨same, picked⟩ | ⟨picked, base, reset, applied⟩
        · refine .inl ⟨same, fun base applies => ?_⟩
          cases applies with
          | appended c head tip =>
            obtain rfl := Option.some.inj head
            exact extending (Option.some.inj (link.symm.trans tip))
          | replaced c p _ head link' conflict wins reset =>
            obtain rfl := Option.some.inj head
            obtain rfl := Option.some.inj (link.symm.trans link')
            rw [picked] at wins
            cases wins
        · exact .inr ⟨handler, base, found,
            .replaced first prev base rfl link extending picked reset, applied⟩

/-- A log that follows the tip is applied to the state held. -/
theorem applyLogToState_appended {env : Environment} {store : CommitStore}
    {state result : StreamState} {first : CommitData} {rest : List CommitData}
    {opts : ApplyLogToStateOpts} {handler : StreamHandler}
    (registered : HandlersMap.get env state.type = .ok handler)
    (link : first.commit.prev = some (tipFromState state))
    (applied : applyLogFrom handler opts.throwOnInvalidCommit state (first :: rest) = .ok result)
    (unexpired : SignatureUtils.checkForCacaoExpiration env result = .ok ()) :
    applyLogToState env store state (first :: rest) opts = .ok result := by
  refine bind_eq_ok.mpr ⟨result, ?_, bind_eq_ok.mpr ⟨(), unexpired, rfl⟩⟩
  refine bind_eq_ok.mpr ⟨handler, registered, ?_⟩
  simpa [link, applyLog] using applied

/-- A log that loses leaves the state as it is. -/
theorem applyLogToState_kept {env : Environment} {store : CommitStore} {state : StreamState}
    {first : CommitData} {rest : List CommitData} {prev : Cid} {handler : StreamHandler}
    (registered : HandlersMap.get env state.type = .ok handler)
    (link : first.commit.prev = some prev) (conflict : prev ≠ tipFromState state)
    (loses : pickLogToAccept (localConflictingLog state prev) (entries (first :: rest)) = .log1)
    (unexpired : SignatureUtils.checkForCacaoExpiration env state = .ok ())
    (throwing : Bool) :
    applyLogToState env store state (first :: rest) ⟨throwing, false, false⟩ = .ok state := by
  refine bind_eq_ok.mpr ⟨state, ?_, bind_eq_ok.mpr ⟨(), unexpired, rfl⟩⟩
  refine bind_eq_ok.mpr ⟨handler, registered, ?_⟩
  rw [link]
  simp only [conflict, if_false]
  unfold resolveConflict
  simp only [Bool.false_eq_true, if_false]
  generalize selects : pickLogToAccept _ _ = selected
  obtain rfl : selected = .log1 := selects.symm.trans loses
  rfl

/-- A log that wins is applied to the state at the divergence point. -/
theorem applyLogToState_replaced {env : Environment} {store : CommitStore}
    {state base result : StreamState} {first : CommitData} {rest : List CommitData} {prev : Cid}
    {handler : StreamHandler} (registered : HandlersMap.get env state.type = .ok handler)
    (link : first.commit.prev = some prev) (conflict : prev ≠ tipFromState state)
    (wins : pickLogToAccept (localConflictingLog state prev) (entries (first :: rest)) = .log2)
    (reset : resetStateToCommit env store state prev false = .ok base) (throwing : Bool)
    (applied : applyLogFrom handler throwing base (first :: rest) = .ok result)
    (unexpired : SignatureUtils.checkForCacaoExpiration env result = .ok ()) :
    applyLogToState env store state (first :: rest) ⟨throwing, false, false⟩ = .ok result := by
  refine bind_eq_ok.mpr ⟨result, ?_, bind_eq_ok.mpr ⟨(), unexpired, rfl⟩⟩
  refine bind_eq_ok.mpr ⟨handler, registered, ?_⟩
  rw [link]
  simp only [conflict, if_false]
  unfold resolveConflict
  simp only [Bool.false_eq_true, if_false]
  generalize selects : pickLogToAccept _ _ = selected
  obtain rfl : selected = .log2 := selects.symm.trans wins
  have contained : stateContainsCommit state prev = true := by
    cases missing : stateContainsCommit state prev with
    | true => rfl
    | false =>
      unfold resetStateToCommit at reset
      simp [missing, throw, throwThe, MonadExceptOf.throw, bind, Except.bind] at reset
  have located : ((state.log.toList.findIdx? fun entry => entry.cid = prev).isNone) = false := by
    have found : ∃ entry ∈ state.log.toList, entry.cid = prev := by
      simpa [stateContainsCommit] using contained
    simpa [Option.isNone_iff_eq_none, List.findIdx?_eq_none_iff] using found
  simp only [located, Bool.false_eq_true, if_false]
  exact bind_eq_ok.mpr ⟨base, reset, applied⟩

theorem resetStateToCommit_ok {env : Environment} {store : CommitStore} {state base : StreamState}
    {cid : Cid} {copyTimestamps : Bool}
    (h : resetStateToCommit env store state cid copyTimestamps = .ok base) :
    ∃ handler dest copied, stateContainsCommit state cid = true ∧
      LogSyncer.syncFullLog store (streamIdFromState state) (some cid) = .ok dest ∧
      copyTrustedTimestamps state.log.toList dest copyTimestamps = .ok copied ∧
      HandlersMap.get env state.type = .ok handler ∧
      applyLog handler none copied true = .ok base := by
  unfold resetStateToCommit at h
  cases contained : stateContainsCommit state cid with
  | false => simp [contained, throw, throwThe, MonadExceptOf.throw, bind, Except.bind] at h
  | true =>
    simp only [contained, Bool.not_true, Bool.false_eq_true, if_false] at h
    obtain ⟨dest, fetched, rest⟩ := bind_eq_ok.mp h
    obtain ⟨copied, copies, rest⟩ := bind_eq_ok.mp rest
    obtain ⟨handler, found, applied⟩ := bind_eq_ok.mp rest
    exact ⟨handler, dest, copied, rfl, fetched, copies, found, applied⟩

/-- One commit of the destination. The timestamps behind it are already copied. -/
theorem copyFrom_cons {copyTimestamps : Bool} {entry : LogEntry} {source : List LogEntry}
    {c : CommitData} {dest copied : List CommitData} {t : Timestamp}
    (h : copyFrom copyTimestamps (entry :: source) (c :: dest) = .ok (copied, t)) :
    ∃ rest behind, copyFrom copyTimestamps source dest = .ok (rest, behind) ∧ entry.cid = c.cid ∧
      t = (if copyTimestamps || entry.type = .TIME then entry.timestamp else behind) ∧
      copied = { c with expirationTime := entry.expirationTime, timestamp := t } :: rest := by
  obtain ⟨⟨rest, behind⟩, copies, h⟩ := bind_eq_ok.mp h
  refine ⟨rest, behind, copies, ?_⟩
  by_cases same : entry.cid = c.cid
  · simp only [same, ne_eq, not_true_eq_false, if_false] at h
    obtain ⟨rfl, rfl⟩ := Prod.mk.inj (Except.ok.inj h)
    exact ⟨same, rfl, rfl⟩
  · simp [same, throw, throwThe, MonadExceptOf.throw, bind, Except.bind] at h

theorem copyFrom_of_cons {copyTimestamps : Bool} {entry : LogEntry} {source : List LogEntry}
    {c : CommitData} {dest copied : List CommitData} {t : Timestamp}
    (copies : copyFrom copyTimestamps source dest = .ok (copied, t)) (same : entry.cid = c.cid) :
    copyFrom copyTimestamps (entry :: source) (c :: dest) =
      .ok ({ c with
          expirationTime := entry.expirationTime
          timestamp := if copyTimestamps || entry.type = .TIME then entry.timestamp else t } :: copied,
        if copyTimestamps || entry.type = .TIME then entry.timestamp else t) := by
  refine bind_eq_ok.mpr ⟨(copied, t), copies, ?_⟩
  simp only [same, ne_eq, not_true_eq_false, if_false]
  rfl

theorem copyFrom_headTime {copyTimestamps : Bool} {source : List LogEntry}
    {dest copied : List CommitData} {t : Timestamp}
    (h : copyFrom copyTimestamps source dest = .ok (copied, t)) : t = headTime copied := by
  cases dest with
  | nil =>
    simp only [copyFrom] at h
    obtain ⟨rfl, rfl⟩ := Prod.mk.inj (Except.ok.inj h)
    rfl
  | cons c dest =>
    cases source with
    | nil => cases h
    | cons entry source =>
      obtain ⟨rest, behind, _, _, _, rfl⟩ := copyFrom_cons h
      rfl

theorem copyFrom_map {β : Type} {copyTimestamps : Bool} (f : CommitData → β)
    (untouched : ∀ (c : CommitData) t e, f { c with expirationTime := e, timestamp := t } = f c)
    {source : List LogEntry} {dest copied : List CommitData} {t : Timestamp}
    (h : copyFrom copyTimestamps source dest = .ok (copied, t)) : copied.map f = dest.map f := by
  induction dest generalizing source copied t with
  | nil =>
    simp only [copyFrom] at h
    obtain ⟨rfl, rfl⟩ := Prod.mk.inj (Except.ok.inj h)
    rfl
  | cons c dest ih =>
    cases source with
    | nil => cases h
    | cons entry source =>
      obtain ⟨rest, behind, copies, _, _, rfl⟩ := copyFrom_cons h
      simp [ih copies, untouched]

/-- Without the timestamps of removed anchors, only anchors that stay pass theirs on. -/
theorem copyFrom_carried {source : List LogEntry} {dest copied : List CommitData} {t : Timestamp}
    (h : copyFrom false source dest = .ok (copied, t))
    (kinds : ∀ pair ∈ source.zip dest, pair.2.type ≠ .TIME → pair.1.type ≠ .TIME) :
    Carried copied := by
  induction dest generalizing source copied t with
  | nil =>
    simp only [copyFrom] at h
    obtain ⟨rfl, rfl⟩ := Prod.mk.inj (Except.ok.inj h)
    trivial
  | cons c dest ih =>
    cases source with
    | nil => cases h
    | cons entry source =>
      obtain ⟨rest, behind, copies, _, time, rfl⟩ := copyFrom_cons h
      have tail := ih copies fun pair member => kinds pair (List.mem_cons_of_mem _ member)
      refine ⟨fun other => ?_, tail⟩
      have plain : entry.type ≠ .TIME := kinds (entry, c) (by simp) other
      simpa [plain, copyFrom_headTime copies] using time

theorem copyFrom_cids {copyTimestamps : Bool} {source : List LogEntry}
    {dest copied : List CommitData} {t : Timestamp}
    (h : copyFrom copyTimestamps source dest = .ok (copied, t)) :
    ∀ pair ∈ source.zip dest, pair.1.cid = pair.2.cid := by
  induction dest generalizing source copied t with
  | nil => simp
  | cons c dest ih =>
    cases source with
    | nil => cases h
    | cons entry source =>
      obtain ⟨rest, behind, copies, same, _, _⟩ := copyFrom_cons h
      intro pair member
      rcases List.mem_cons.mp member with rfl | tail
      · exact same
      · exact ih copies pair tail

/-- The destination corresponds to the beginning of the source. -/
theorem copyFrom_take {copyTimestamps : Bool} {source : List LogEntry}
    {dest copied : List CommitData} {t : Timestamp}
    (h : copyFrom copyTimestamps source dest = .ok (copied, t)) :
    dest.length ≤ source.length ∧
      dest.map (·.cid) = (source.map (·.cid)).take dest.length := by
  induction dest generalizing source copied t with
  | nil => simp
  | cons c dest ih =>
    cases source with
    | nil => cases h
    | cons entry source =>
      obtain ⟨rest, behind, copies, same, _, _⟩ := copyFrom_cons h
      obtain ⟨shorter, eq⟩ := ih copies
      exact ⟨by simpa using shorter, by simp [same, eq]⟩

theorem copyTrustedTimestamps_ok {copyTimestamps : Bool} {source : List LogEntry}
    {dest copied : List CommitData}
    (h : copyTrustedTimestamps source dest copyTimestamps = .ok copied) :
    copyFrom copyTimestamps source dest = .ok (copied, headTime copied) := by
  obtain ⟨⟨commits, t⟩, copies, returned⟩ := bind_eq_ok.mp h
  obtain rfl : commits = copied := Except.ok.inj returned
  rw [copies, copyFrom_headTime copies]

end Ceramic.StateManipulator
