import Ceramic.StateProvenance

/-! What a tip from the network does to the history a node holds. The winner of a
conflict is chosen over the whole fetched log, before any of its commits is applied. -/
namespace Ceramic

open StateManipulator StreamUtils AnchorTimestampExtractor

def cids (s : StreamState) : List Cid := s.log.toList.map (·.cid)

def commitCids (log : List CommitData) : List Cid := log.map (·.cid)

/-- How many commits the handler accepts before it refuses one. -/
def accepted (handler : StreamHandler) : StreamState → List CommitData → Nat
  | _, [] => 0
  | s, c :: cs =>
    match handler.applyCommit c (some s) with
    | .applied next => accepted handler next cs + 1
    | .threw _ _ => 0

theorem accepted_le_entered (handler : StreamHandler) (s : StreamState) (cs : List CommitData) :
    accepted handler s cs ≤ entered handler s cs := by
  induction cs generalizing s with
  | nil => simp [accepted]
  | cons c cs ih =>
    cases outcome : handler.applyCommit c (some s) with
    | applied next => simpa [accepted, entered, outcome] using ih next
    | threw e left => simp [accepted, outcome]

/-- The accepted commits can be applied, and no more can. -/
theorem applyLogFrom_accepted (handler : StreamHandler) (s : StreamState) (cs : List CommitData) :
    ∃ s', applyLogFrom handler true s (cs.take (accepted handler s cs)) = .ok s' := by
  induction cs generalizing s with
  | nil => exact ⟨s, rfl⟩
  | cons c cs ih =>
    cases outcome : handler.applyCommit c (some s) with
    | applied next =>
      obtain ⟨s', rest⟩ := ih next
      exact ⟨s', by simpa [accepted, outcome, applyLogFrom] using rest⟩
    | threw e left => exact ⟨s, by simp [accepted, outcome, applyLogFrom]⟩

theorem le_accepted {handler : StreamHandler} {s s' : StreamState} {cs : List CommitData} {k : Nat}
    (within : k ≤ cs.length) (h : applyLogFrom handler true s (cs.take k) = .ok s') :
    k ≤ accepted handler s cs := by
  induction cs generalizing s k with
  | nil => simpa [accepted] using within
  | cons c cs ih =>
    cases k with
    | zero => omega
    | succ k =>
      cases outcome : handler.applyCommit c (some s) with
      | applied next =>
        have rest : applyLogFrom handler true next (cs.take k) = .ok s' := by
          simpa [applyLogFrom, outcome] using h
        have := ih (by simpa using within) rest
        simp only [accepted, outcome]
        omega
      | threw e left => simp [applyLogFrom, outcome] at h

theorem cids_of_entries {log : List LogEntry} {entries : List LogEntry}
    (same : log.map (·.untimed) = entries.map (·.untimed)) :
    log.map (·.cid) = entries.map (·.cid) := by
  have mapped := congrArg (List.map (·.cid)) same
  simpa [List.map_map, Function.comp_def] using mapped

theorem applyLogFrom_cids {env : Environment} {handler : StreamHandler} (lawful : handler.Lawful env)
    {throwing : Bool} {s s' : StreamState} {cs : List CommitData}
    (h : applyLogFrom handler throwing s cs = .ok s') :
    cids s' = cids s ++ commitCids (cs.take (entered handler s cs)) := by
  have logs := (applyLogFrom_log lawful h).2
  have untimed : s'.log.toList.map (·.untimed) =
      (s.log.toList ++ (cs.take (entered handler s cs)).map (entryOf env handler.type)).map
        (·.untimed) := by
    rw [logs, foldl_nextLog_untimed]
    simp [Function.comp_def]
  simpa [cids, commitCids, Function.comp_def] using cids_of_entries untimed

/-- A log of which every commit is accepted is that of the state. -/
theorem applyLog_cids {env : Environment} {handler : StreamHandler} (lawful : handler.Lawful env) {cs : List CommitData}
    {s : StreamState} (applied : applyLog handler none cs true = .ok s) : cids s = commitCids cs := by
  cases cs with
  | nil => simp [applyLog] at applied
  | cons g cs =>
    obtain ⟨first, built, rest⟩ := applyLog_genesis applied
    rw [applyLogFrom_cids lawful rest, entered_all rest, List.take_length]
    simp [cids, commitCids, (lawful.genesis built).2]

/-- A state reset to a commit holds the log fetched for it, which is a beginning of the
log it had. -/
theorem reset_fetched {env : Environment} {store : CommitStore} {s base : StreamState} {commit : Cid}
    {copyTimestamps : Bool} (h : resetStateToCommit env store s commit copyTimestamps = .ok base) :
    ∃ dest, commit ∈ cids s ∧
      LogSyncer.syncFullLog store (streamIdFromState s) (some commit) = .ok dest ∧
      cids base = commitCids dest ∧ dest.length ≤ (cids s).length ∧
      commitCids dest = (cids s).take dest.length := by
  obtain ⟨handler, dest, copied, contained, fetched, copies, found, applied⟩ := resetStateToCommit_ok h
  obtain ⟨lawful, _⟩ := HandlersMap.get_lawful found
  have copies := copyTrustedTimestamps_ok copies
  obtain ⟨shorter, taken⟩ := copyFrom_take copies
  have sameCids : commitCids copied = commitCids dest := copyFrom_map _ (fun _ _ _ => rfl) copies
  have baseCids : cids base = commitCids copied := applyLog_cids lawful applied
  have member : commit ∈ cids s := by simpa [stateContainsCommit, cids] using contained
  exact ⟨dest, member, fetched, baseCids.trans sameCids, by simpa [cids] using shorter, taken⟩

theorem cids_getLast? (s : StreamState) : (cids s).getLast? = some (tipFromState s) := by
  simp [cids, List.getLast?_map, NonEmptyArray.getLast?_toList, tipFromState]

/-- The state at the divergence point holds a proper beginning of the local log, which
ends there if it could be found. -/
theorem reset_cids {env : Environment} {store : CommitStore} {s base : StreamState} {prev : Cid}
    (conflict : prev ≠ tipFromState s)
    (h : resetStateToCommit env store s prev false = .ok base) :
    ∃ n, n < (cids s).length ∧ cids base = (cids s).take n := by
  obtain ⟨dest, member, fetched, baseCids, shorter, taken⟩ := reset_fetched h
  refine ⟨dest.length, ?_, by rw [baseCids, taken]⟩
  rcases Nat.lt_or_eq_of_le shorter with less | whole
  · exact less
  · -- a log as long as the local one would end at its tip
    refine absurd ?_ conflict
    have all : commitCids dest = cids s := by rw [taken, whole, List.take_length]
    have tip := cids_getLast? s
    obtain ⟨first, rest, rfl, _, _, path | rfl⟩ := LogSyncer.syncFullLog_ok fetched
    · obtain ⟨c, last⟩ : ∃ c, (first :: rest).getLast? = some c :=
        ⟨_, List.getLast?_eq_some_getLast (by simp)⟩
      have lastCid : (cids s).getLast? = some c.cid := by
        rw [← all, commitCids, List.getLast?_map, last, Option.map_some]
      rw [← path_tip path last, tip] at lastCid
      exact (Option.some.inj lastCid).symm
    · rw [← all] at member tip
      obtain rfl : prev = first.cid := by simpa [commitCids] using member
      simpa [commitCids] using tip

/-- The remote log replaces the local commits behind the divergence point by those of
its commits that could be applied, and these alone win against the local ones. -/
def ReplacedByWinner (env : Environment) (store : CommitStore) (s result : StreamState)
    (log : List CommitData) : Prop :=
  ∃ handler first prev base k applied, HandlersMap.get env s.type = .ok handler ∧
    log.head? = some first ∧ first.commit.prev = some prev ∧
    resetStateToCommit env store s prev false = .ok base ∧ k ≤ log.length ∧
    applyLogFrom handler true base (log.take k) = .ok applied ∧ result.log = applied.log ∧
    pickLogToAccept (localConflictingLog s prev) (entries (log.take k)) = .log2

/-- The local history stays, is extended, or gives way to what wins against it. -/
def HistoryKept (env : Environment) (store : CommitStore) (s result : StreamState)
    (log : List CommitData) : Prop :=
  result.log = s.log ∨ cids s <+: cids result ∨ ReplacedByWinner env store s result log

/-- If the fetched log conflicts with the local one and wins as a whole, its accepted
commits win alone, and the commit that was refused did not get into the log. -/
def AcceptedCommitsWin (env : Environment) (store : CommitStore) (s : StreamState)
    (log : List CommitData) : Prop :=
  ∀ handler first prev base, HandlersMap.get env s.type = .ok handler →
    log.head? = some first → first.commit.prev = some prev → prev ≠ tipFromState s →
    pickLogToAccept (localConflictingLog s prev) (entries log) = .log2 →
    resetStateToCommit env store s prev false = .ok base →
    entered handler base log = accepted handler base log ∧
    pickLogToAccept (localConflictingLog s prev)
      (entries (log.take (accepted handler base log))) = .log2

/-- Once the remote log has been selected, some local commit is gone. -/
theorem replaced_cids {env : Environment} {handler : StreamHandler} (lawful : handler.Lawful env)
    {store : CommitStore} {s base result : StreamState} {prev : Cid} {log : List CommitData}
    {throwing : Bool} (unknown : ∀ cid ∈ commitCids log, cid ∉ cids s)
    (conflict : prev ≠ tipFromState s) (reset : resetStateToCommit env store s prev false = .ok base)
    (applied : applyLogFrom handler throwing base log = .ok result) : ¬cids s <+: cids result := by
  obtain ⟨n, less, shared⟩ := reset_cids conflict reset
  rw [applyLogFrom_cids lawful applied, shared]
  rintro ⟨more, eq⟩
  have at_n := congrArg (·[n]?) eq
  have taken : ((cids s).take n).length = n := by simp; omega
  simp only [List.getElem?_append_left less, List.getElem?_append_right (Nat.le_of_eq taken), taken,
    Nat.sub_self] at at_n
  rw [List.getElem?_eq_getElem less] at at_n
  have remote := List.mem_of_getElem? at_n.symm
  have inLog : (cids s)[n] ∈ commitCids log := by
    simp only [commitCids, List.map_take] at remote ⊢
    exact List.mem_of_mem_take remote
  exact unknown _ inLog (List.getElem_mem less)

theorem history_kept_log {env : Environment} {store : CommitStore} {s result : StreamState}
    {log : List CommitData} {opts : ApplyLogToStateOpts}
    (unknown : ∀ cid ∈ commitCids log, cid ∉ cids s)
    (h : applyLogToState env store s log opts = .ok result) :
    HistoryKept env store s result log ↔ AcceptedCommitsWin env store s log := by
  rcases applyLogToState_ok h with ⟨rfl, unapplied⟩ | ⟨handler, base, registered, applies, applied⟩
  · refine iff_of_true (.inl rfl) fun handler first prev base _ head link conflict wins reset => ?_
    exact absurd (.replaced first prev base head link conflict wins reset) (unapplied base)
  obtain ⟨lawful, sameType⟩ := HandlersMap.get_lawful registered
  cases applies with
  | appended first head link =>
    refine iff_of_true (.inr (.inl ⟨_, (applyLogFrom_cids lawful applied).symm⟩)) ?_
    intro handler' first' prev' base' _ head' link' conflict
    obtain rfl := Option.some.inj (head.symm.trans head')
    exact absurd (Option.some.inj (link'.symm.trans link)) conflict
  | replaced first prev _ head link conflict wins reset =>
    have gone := replaced_cids lawful unknown conflict reset applied
    have logs := (applyLogFrom_log lawful applied).2
    have count := entered_le handler base log
    have fewer := accepted_le_entered handler base log
    constructor
    · rintro (same | extended | replaced)
      · exact absurd (by simp [cids, same]) gone
      · exact absurd extended gone
      · obtain ⟨handler', first', prev', base', k, part, registered', head', link', reset', within,
          applied', sameLog, winner⟩ := replaced
        obtain rfl := Except.ok.inj (registered.symm.trans registered')
        obtain rfl := Option.some.inj (head.symm.trans head')
        obtain rfl := Option.some.inj (link.symm.trans link')
        obtain rfl := Except.ok.inj (reset.symm.trans reset')
        -- as many commits got into the log as could be applied
        have shorter := le_accepted within applied'
        have size : k = entered handler base log := by
          have partLog := (applyLogFrom_log lawful applied').2
          rw [entered_all applied', List.take_length, ← sameLog, logs] at partLog
          have lengths := congrArg (List.length ∘ List.map (·.untimed)) partLog
          simp only [Function.comp_apply, foldl_nextLog_untimed, List.length_append, List.length_map,
            List.length_take] at lengths
          omega
        intro handler'' first'' prev'' base'' registered'' head'' link'' _ _ reset''
        obtain rfl := Except.ok.inj (registered.symm.trans registered'')
        obtain rfl := Option.some.inj (head.symm.trans head'')
        obtain rfl := Option.some.inj (link.symm.trans link'')
        obtain rfl := Except.ok.inj (reset.symm.trans reset'')
        have same : accepted handler base log = k := by omega
        exact ⟨by omega, same ▸ winner⟩
    · intro win
      obtain ⟨sameCount, winner⟩ := win handler first prev base registered head link conflict wins reset
      obtain ⟨part, applied'⟩ := applyLogFrom_accepted handler base log
      refine .inr (.inr ⟨handler, first, prev, base, accepted handler base log, part, registered,
        head, link, reset, by omega, applied', ?_, winner⟩)
      apply NonEmptyArray.ext
      rw [logs, sameCount, (applyLogFrom_log lawful applied').2, entered_all applied', List.take_length]

/-- A tip from the network keeps the local history, extends it, or replaces it by
commits that win on their own, exactly when the commits accepted from the fetched log do. -/
theorem history_kept_iff {env : Environment} {store : CommitStore} {s result : StreamState}
    {tip : Cid} {fetched : List CommitData}
    (found : LogSyncer.syncLogUntilMatch store tip (cids s) = .ok fetched)
    (h : StreamUpdater.applyTipFromNetwork env store s tip = .ok result) :
    HistoryKept env store s result
        (verifyAnchorAndApplyTimestamps store.toDispatcher fetched) ↔
      AcceptedCommitsWin env store s
        (verifyAnchorAndApplyTimestamps store.toDispatcher fetched) := by
  obtain ⟨fetched', found', applied⟩ := bind_eq_ok.mp h
  obtain rfl := Except.ok.inj (found.symm.trans found')
  refine history_kept_log ?_ applied
  rw [commitCids, extracted_map store.toDispatcher _ fun _ _ _ => rfl]
  rcases LogSyncer.syncLogUntilMatch_ok found with rfl | ⟨_, _, _, _, unknown⟩
  · simp
  · intro cid member
    obtain ⟨c, inLog, rfl⟩ := List.mem_map.mp member
    exact unknown c inLog

namespace BlockStore

def update (id prev : Cid) : StoredCommit :=
  .plain { id := some id, prev := some prev, header := some [] }

/-- Two histories of a Tile: one update, and two of which the second is forged. -/
def forgedUpdate : List Block :=
  [⟨⟨[1]⟩, .plain { header := some [("controllers", .arr [.str "did:key:z6Mk"])] }⟩,
   ⟨⟨[2]⟩, .signed ⟨⟨[2, 0]⟩, "", "valid"⟩⟩, ⟨⟨[2, 0]⟩, update ⟨[1]⟩ ⟨[1]⟩⟩,
   ⟨⟨[3]⟩, .signed ⟨⟨[3, 0]⟩, "", "valid"⟩⟩, ⟨⟨[3, 0]⟩, update ⟨[1]⟩ ⟨[1]⟩⟩,
   ⟨⟨[4]⟩, .signed ⟨⟨[4, 0]⟩, "", "forged"⟩⟩, ⟨⟨[4, 0]⟩, update ⟨[1]⟩ ⟨[3]⟩⟩]

def forgedStore : CommitStore :=
  store forgedUpdate (fun _ => none) (fun _ => none) (by decide)

def verifying : Environment :=
  { Environment.permissive with
    verifyJWS := fun envelope _ => match envelope with
      | some ⟨_, _, "valid"⟩ => .ok ()
      | _ => .error ⟨"invalid_jws: not a valid verificationMethod for issuer"⟩ }

/-- A Tile with one update behind its genesis. -/
def updatedBy (cid : Cid) : StreamState where
  type := TILE_TYPE_ID
  content := .obj []
  next := some { content := some (.obj [])
                 metadata := some [("controllers", .arr [.str "did:key:z6Mk"])] }
  metadata := [("controllers", .arr [.str "did:key:z6Mk"])]
  signature := .SIGNED
  anchorStatus := .NOT_REQUESTED
  log := ⟨[⟨⟨[1]⟩, .INIT, .undefined, none⟩, ⟨cid, .DATA, .undefined, none⟩], by simp⟩

def genesisOnly : StreamState where
  type := TILE_TYPE_ID
  content := .obj []
  metadata := [("controllers", .arr [.str "did:key:z6Mk"])]
  signature := .GENESIS
  anchorStatus := .NOT_REQUESTED
  log := .singleton ⟨⟨[1]⟩, .INIT, .undefined, none⟩

def remoteLog : List CommitData :=
  (LogSyncer.syncLogUntilMatch forgedStore ⟨[4]⟩ (cids (updatedBy ⟨[2]⟩))).toOption.getD []

theorem history_kept_iff_forgedUpdate :
    HistoryKept verifying forgedStore (updatedBy ⟨[2]⟩) (updatedBy ⟨[3]⟩)
        (verifyAnchorAndApplyTimestamps forgedStore.toDispatcher remoteLog) ↔
      AcceptedCommitsWin verifying forgedStore (updatedBy ⟨[2]⟩)
        (verifyAnchorAndApplyTimestamps forgedStore.toDispatcher remoteLog) :=
  history_kept_iff
    (by decide : LogSyncer.syncLogUntilMatch forgedStore ⟨[4]⟩ (cids (updatedBy ⟨[2]⟩)) = .ok remoteLog)
    (by decide)

/-- The longer remote log wins, its second commit is refused, and what is left of it
replaces a local commit to which it would have lost. -/
theorem forgedUpdate_displaces_local_commit :
    StreamLoader.loadStateFromTip verifying forgedStore ⟨TILE_TYPE_ID, ⟨[1]⟩⟩ ⟨[2]⟩ false true =
      .ok (some (updatedBy ⟨[2]⟩)) ∧
    StreamUpdater.applyTipFromNetwork verifying forgedStore (updatedBy ⟨[2]⟩) ⟨[4]⟩ =
      .ok (updatedBy ⟨[3]⟩) ∧
    ¬HistoryKept verifying forgedStore (updatedBy ⟨[2]⟩) (updatedBy ⟨[3]⟩)
      (verifyAnchorAndApplyTimestamps forgedStore.toDispatcher remoteLog) := by
  have applied : applyLogToState verifying forgedStore (updatedBy ⟨[2]⟩)
      (verifyAnchorAndApplyTimestamps forgedStore.toDispatcher remoteLog) StreamUpdater.networkOpts =
        .ok (updatedBy ⟨[3]⟩) := by
    decide
  refine ⟨by decide, by decide, fun kept => ?_⟩
  have win := (history_kept_log (by decide) applied).mp kept
  have alone := (win _ _ ⟨[1]⟩ genesisOnly rfl rfl (by decide) (by decide) (by decide) (by decide)).2
  revert alone
  decide

end BlockStore

end Ceramic
