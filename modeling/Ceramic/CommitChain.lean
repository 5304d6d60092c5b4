import Mathlib.Data.List.Chain
import Ceramic.NetworkTip
import Ceramic.CommitTree

/-! The commits of a stream over time. What can be read changes, but a commit is always the
same, so the log of every state is a chain from the stream's genesis. A tip that is applied to
such a state leaves out no commit of it but those that lost against the tip's log. -/
namespace Ceramic

open StateManipulator StreamUtils AnchorTimestampExtractor

/-- What a node finds around it from one moment to the next, when `stream` is the ID of
a stream. -/
structure Network (stream : StreamID) where
  world : Nat → World
  sameCommit : ∀ i j cid c d, Utils.getCommitData (world i).store.toDispatcher cid = .ok c →
    Utils.getCommitData (world j).store.toDispatcher cid = .ok d → c.commit.prev = d.commit.prev
  genesis : ∀ i c, Utils.getCommitData (world i).store.toDispatcher stream.cid = .ok c →
    c.commit.prev = none

namespace Network

variable {stream : StreamID} (net : Network stream)

def env (moment : Nat) : Environment := (net.world moment).env

def store (moment : Nat) : CommitStore := (net.world moment).store

/-- At some moment the commit can be read and names the one before it. -/
def Follows (prev cid : Cid) : Prop :=
  ∃ moment c, Utils.getCommitData (net.store moment).toDispatcher cid = .ok c ∧
    c.commit.prev = some prev

structure Chain (log : List Cid) : Prop where
  genesis : log.head? = some stream.cid
  linked : log.IsChain net.Follows

variable {net} {moment : Nat} {log : List Cid} {cs : List CommitData}

theorem chain_of_path {prev tip : Cid} (path : Path (some prev) cs (some tip))
    (stored : Stored (net.store moment) cs) : (prev :: commitCids cs).IsChain net.Follows := by
  induction cs generalizing prev with
  | nil => exact .singleton _
  | cons c cs ih =>
    have follows : net.Follows prev c.cid := ⟨moment, c, stored c (by simp), path.1⟩
    exact .cons_cons follows (ih path.2 fun d member => stored d (List.mem_cons_of_mem _ member))

namespace Chain

variable (chain : net.Chain log)

include chain

theorem nonempty : log ≠ [] := by
  rintro rfl
  cases chain.genesis

theorem genesis_mem {cid : Cid} (isGenesis : cid ∈ [stream.cid]) : cid ∈ log := by
  obtain rfl := List.mem_singleton.mp isGenesis
  exact List.mem_of_mem_head? chain.genesis

theorem take (n : Nat) : net.Chain (log.take (n + 1)) := by
  refine ⟨?_, chain.linked.take (n + 1)⟩
  rw [List.head?_take, if_neg (Nat.succ_ne_zero n)]
  exact chain.genesis

/-- Commits that follow the last one can be added. -/
theorem append {prev tip : Cid} (last : log.getLast? = some prev)
    (path : Path (some prev) cs (some tip)) (stored : Stored (net.store moment) cs) (k : Nat) :
    net.Chain (log ++ (commitCids cs).take k) := by
  obtain ⟨first, behind⟩ := List.isChain_cons.mp (chain_of_path path stored)
  refine ⟨?_, ?_⟩
  · rw [List.head?_append, chain.genesis]
    rfl
  · refine List.isChain_append.mpr ⟨chain.linked, behind.take k, fun x isLast y isHead => ?_⟩
    obtain rfl : prev = x := Option.some.inj (last.symm.trans isLast)
    apply first y
    cases k with
    | zero => cases isHead
    | succ k => simpa [List.head?_take] using isHead

theorem getElem?_zero : log[0]? = some stream.cid := by
  rw [← List.head?_eq_getElem?]
  exact chain.genesis

/-- What was ever read of a commit tells which one is before it in the chain. -/
theorem prev_eq {n : Nat} {cid : Cid} {c : CommitData} (found : log[n]? = some cid)
    (read : Utils.getCommitData (net.store moment).toDispatcher cid = .ok c) :
    c.commit.prev = if n = 0 then none else log[n - 1]? := by
  cases n with
  | zero =>
    obtain rfl : stream.cid = cid := Option.some.inj (chain.getElem?_zero.symm.trans found)
    exact net.genesis moment c read
  | succ n =>
    have within : n + 1 < log.length := (List.getElem?_eq_some_iff.mp found).1
    obtain ⟨other, d, read', prev⟩ := List.isChain_iff_getElem.mp chain.linked n within
    have same : log[n + 1] = cid := (List.getElem?_eq_some_iff.mp found).2
    rw [same] at read'
    rw [net.sameCommit moment other cid c d read read', prev]
    simp [List.getElem?_eq_getElem (Nat.lt_of_succ_lt within)]

/-- The commits that lead to one of the chain are those of the chain up to it. -/
theorem take_of_path {n : Nat} {cid : Cid} (found : log[n]? = some cid)
    (path : Path none cs (some cid)) (stored : Stored (net.store moment) cs) :
    commitCids cs = log.take (n + 1) := by
  induction cs using List.reverseRecOn generalizing n cid with
  | nil => cases path
  | append_singleton ds c ih =>
    obtain ⟨front, tip⟩ := (path_snoc none (some cid) ds c).mp path
    obtain rfl := Option.some.inj tip
    have prev := chain.prev_eq found (stored c (by simp))
    have split : commitCids (ds ++ [c]) = commitCids ds ++ [c.cid] := List.map_append
    rw [split, List.take_add_one, found]
    cases n with
    | zero =>
      rw [prev] at front
      cases ds using List.reverseRecOn with
      | nil => rfl
      | append_singleton es d => cases ((path_snoc _ _ _ _).mp front).2
    | succ n =>
      obtain ⟨before, at_n⟩ : ∃ before, log[n]? = some before :=
        ⟨_, List.getElem?_eq_getElem (Nat.lt_of_succ_lt (List.getElem?_eq_some_iff.mp found).1)⟩
      have link : c.commit.prev = some before := prev.trans at_n
      rw [link] at front
      rw [ih at_n front (stored_append.mp stored).1]
      rfl

/-- A commit is in a chain once. -/
theorem index_unique {n m : Nat} {cid : Cid} (first : log[n]? = some cid)
    (second : log[m]? = some cid) : n = m := by
  induction n generalizing m cid with
  | zero =>
    cases m with
    | zero => rfl
    | succ m =>
      have within : m + 1 < log.length := (List.getElem?_eq_some_iff.mp second).1
      obtain ⟨moment, c, read, prev⟩ := List.isChain_iff_getElem.mp chain.linked m within
      have same : log[m + 1] = cid := (List.getElem?_eq_some_iff.mp second).2
      have none := chain.prev_eq first (same ▸ read)
      rw [prev] at none
      cases none
  | succ n ih =>
    have within : n + 1 < log.length := (List.getElem?_eq_some_iff.mp first).1
    obtain ⟨moment, c, read, prev⟩ := List.isChain_iff_getElem.mp chain.linked n within
    have same : log[n + 1] = cid := (List.getElem?_eq_some_iff.mp first).2
    have link := chain.prev_eq second (same ▸ read)
    rw [prev] at link
    cases m with
    | zero => cases link
    | succ m =>
      have before : log[n]? = some log[n] := List.getElem?_eq_getElem (Nat.lt_of_succ_lt within)
      have sameIndex := ih before link.symm
      omega

/-- A log that is fetched for a commit of the chain is the chain up to it. -/
theorem syncFullLog_take {streamID : StreamID} {n : Nat} {commit : Cid} (same : streamID.cid = stream.cid)
    (found : log[n]? = some commit)
    (h : LogSyncer.syncFullLog (net.store moment) streamID (some commit) = .ok cs) :
    commitCids cs = log.take (n + 1) := by
  obtain ⟨walked, walk, h⟩ := bind_eq_ok.mp h
  rcases LogSyncer.walk_ok _ commit [] walked (by omega) walk with ⟨_, known⟩ |
    ⟨start, ds, rfl, path, stored, starts⟩
  · cases known
  obtain rfl : start = none := starts
  have taken := chain.take_of_path found path stored
  have head : (commitCids ds).head? = some stream.cid := by
    rw [taken]
    exact (chain.take n).genesis
  cases ds with
  | nil => cases head
  | cons d ds =>
    have first : d.cid = streamID.cid := by rw [same]; simpa [commitCids] using head
    simp only [List.append_nil, List.head?_cons, if_pos first] at h
    obtain rfl : d :: ds = cs := Except.ok.inj h
    exact taken

end Chain

end Network

/-- The commits of a state that lost when its log was compared with a tip's log. -/
def outcompetedBy (store : CommitStore) (s : StreamState) (tip : Cid) : List Cid :=
  match LogSyncer.syncLogUntilMatch store tip (cids s) with
  | .error _ => []
  | .ok fetched =>
    let log := verifyAnchorAndApplyTimestamps store.toDispatcher fetched
    match log.head?.bind (·.commit.prev) with
    | none => []
    | some prev =>
      if prev = tipFromState s then []
      else match pickLogToAccept (localConflictingLog s prev) (entries log) with
        | .log1 => []
        | .log2 => (localConflictingLog s prev).map (·.cid)

section States

variable {stream : StreamID} {net : Network stream} {moment : Nat} {env : Environment}
  {s base result : StreamState}

theorem stream_of_chain (chain : net.Chain (cids s)) : (streamIdFromState s).cid = stream.cid := by
  have genesis := chain.genesis
  rw [cids, List.head?_map, NonEmptyArray.head?_toList] at genesis
  exact Option.some.inj genesis

theorem reset_take {commit : Cid} {copyTimestamps : Bool} (chain : net.Chain (cids s))
    (h : resetStateToCommit env (net.store moment) s commit copyTimestamps = .ok base) :
    ∃ n, (cids s)[n]? = some commit ∧ cids base = (cids s).take (n + 1) := by
  obtain ⟨dest, member, fetched, baseCids, _, _⟩ := reset_fetched h
  obtain ⟨n, found⟩ := List.mem_iff_getElem?.mp member
  exact ⟨n, found, baseCids.trans (chain.syncFullLog_take (stream_of_chain chain) found fetched)⟩

theorem localConflictingLog_cids {prev : Cid} {n : Nat} (chain : net.Chain (cids s))
    (found : (cids s)[n]? = some prev) :
    (localConflictingLog s prev).map (·.cid) = (cids s).drop (n + 1) := by
  unfold localConflictingLog
  cases index : s.log.toList.findIdx? fun entry => entry.cid = prev with
  | none =>
    have absent := List.findIdx?_eq_none_iff.mp index
    obtain ⟨entry, inLog, eq⟩ := List.mem_map.mp (List.mem_of_getElem? found)
    exact absurd eq (by simpa using absent entry inLog)
  | some m =>
    obtain ⟨within, isPrev, _⟩ := List.findIdx?_eq_some_iff_getElem.mp index
    have found' : (cids s)[m]? = some prev := by
      rw [cids, List.getElem?_map, List.getElem?_eq_getElem within]
      simpa using isPrev
    rw [chain.index_unique found' found, cids, List.map_drop]

theorem outcompetedBy_eq {store : CommitStore} {tip prev : Cid} {fetched : List CommitData}
    {first : CommitData} (found : LogSyncer.syncLogUntilMatch store tip (cids s) = .ok fetched)
    (head : (verifyAnchorAndApplyTimestamps store.toDispatcher fetched).head? = some first)
    (link : first.commit.prev = some prev) (conflict : prev ≠ tipFromState s)
    (wins : pickLogToAccept (localConflictingLog s prev)
      (entries (verifyAnchorAndApplyTimestamps store.toDispatcher fetched)) = .log2) :
    outcompetedBy store s tip = (localConflictingLog s prev).map (·.cid) := by
  unfold outcompetedBy
  simp only [found, head, Option.bind_some, link, if_neg conflict, wins]

/-- The state that a fetched log is applied to, with the first commits of the log. -/
theorem applied_chain {tip : Cid} {fetched : List CommitData} (chain : net.Chain (cids s))
    (found : LogSyncer.syncLogUntilMatch (net.store moment) tip (cids s) = .ok fetched)
    (applies : BaseState env (net.store moment) s
      (verifyAnchorAndApplyTimestamps (net.store moment).toDispatcher fetched) base) (k : Nat) :
    net.Chain (cids base ++ (commitCids fetched).take k) := by
  -- a log that is applied starts behind a commit of the state
  have start : ∀ first prev, (verifyAnchorAndApplyTimestamps (net.store moment).toDispatcher
      fetched).head? = some first → first.commit.prev = some prev →
      Path (some prev) fetched (some tip) ∧ Stored (net.store moment) fetched := by
    intro first prev head link
    rcases LogSyncer.syncLogUntilMatch_ok found with rfl | ⟨before, _, path, stored, _⟩
    · cases head
    · have extracted : Path (some before) (verifyAnchorAndApplyTimestamps
          (net.store moment).toDispatcher fetched) (some tip) := extracted_path path
      obtain ⟨rest, eq⟩ := List.head?_eq_some_iff.mp head
      rw [eq] at extracted
      obtain rfl : before = prev := Option.some.inj (extracted.1.symm.trans link)
      exact ⟨path, stored⟩
  cases applies with
  | appended first head link =>
    obtain ⟨path, stored⟩ := start first _ head link
    exact chain.append (cids_getLast? s) path stored k
  | replaced first prev _ head link conflict wins reset =>
    obtain ⟨path, stored⟩ := start first prev head link
    obtain ⟨n, at_n, baseCids⟩ := reset_take chain reset
    have last : ((cids s).take (n + 1)).getLast? = some prev := by
      rw [List.take_add_one, at_n]
      simp
    rw [baseCids]
    exact (chain.take n).append last path stored k

/-- A tip leaves a chain, and the commits that are gone from it lost against the tip's log. -/
theorem applyTip_keeps {tip : Cid} {opts : ApplyLogToStateOpts} (chain : net.Chain (cids s))
    (h : applyTipToState env (net.store moment) s tip opts = .ok result) :
    net.Chain (cids result) ∧
      ∀ c ∈ cids s, c ∈ cids result ∨ c ∈ outcompetedBy (net.store moment) s tip := by
  obtain ⟨fetched, found, applied⟩ := bind_eq_ok.mp h
  rcases applyLogToState_ok applied with ⟨rfl, _⟩ | ⟨handler, base, registered, applies, applied⟩
  · exact ⟨chain, fun c member => .inl member⟩
  obtain ⟨lawful, _⟩ := HandlersMap.get_lawful registered
  have resultCids := applyLogFrom_cids lawful applied
  generalize entered handler base _ = k at resultCids
  have sameCids : commitCids (verifyAnchorAndApplyTimestamps (net.store moment).toDispatcher fetched) =
      commitCids fetched := extracted_map _ _ (fun _ _ _ => rfl) _
  rw [commitCids, List.map_take, ← commitCids, sameCids] at resultCids
  rw [resultCids]
  refine ⟨applied_chain chain found applies k, fun c member => ?_⟩
  cases applies with
  | appended first head link => exact .inl (List.mem_append_left _ member)
  | replaced first prev _ head link conflict wins reset =>
    obtain ⟨n, at_n, baseCids⟩ := reset_take chain reset
    rw [baseCids, outcompetedBy_eq found head link conflict wins, localConflictingLog_cids chain at_n]
    rw [← List.take_append_drop (n + 1) (cids s)] at member
    exact (List.mem_append.mp member).imp (List.mem_append_left _) id

theorem load_chain {tip : Cid} {allowSyncErrors throwing : Bool}
    (h : StreamLoader.loadStateFromTip env (net.store moment) stream tip allowSyncErrors throwing =
      .ok (some s)) : net.Chain (cids s) := by
  unfold StreamLoader.loadStateFromTip at h
  cases fetched : LogSyncer.syncFullLog (net.store moment) stream (some tip) with
  | error e =>
    rw [fetched] at h
    cases allowSyncErrors <;> cases h
  | ok log =>
    simp only [fetched] at h
    obtain ⟨loaded, applied, returned⟩ := map_eq_ok.mp h
    obtain rfl := Option.some.inj returned
    obtain ⟨first, rest, rfl, stored, same, origin⟩ := LogSyncer.syncFullLog_ok fetched
    rw [extracted_cons] at applied
    obtain ⟨handler, registered, applied⟩ := bind_eq_ok.mp applied
    obtain ⟨lawful, _⟩ := HandlersMap.get_lawful registered
    obtain ⟨built, genesis, applied⟩ := applyLog_genesis applied
    have builtCids : cids built = [stream.cid] := by
      simp [cids, (lawful.genesis genesis).2, stamped, same]
    have sameCids : commitCids (verifyAnchorAndApplyTimestamps (net.store moment).toDispatcher rest) =
        commitCids rest := extracted_map _ _ (fun _ _ _ => rfl) _
    have start : net.Chain [stream.cid] := ⟨rfl, .singleton _⟩
    rw [applyLogFrom_cids lawful applied, builtCids, commitCids, List.map_take, ← commitCids, sameCids]
    rcases origin with path | rfl
    · have behind : Path (some stream.cid) rest (some tip) := same ▸ path.2
      exact start.append rfl behind (fun c member => stored c (List.mem_cons_of_mem _ member)) _
    · simpa [commitCids] using start

theorem syncStream_of_applyTips {world : Nat → World} {tips : List TipResponse}
    {found : Option StreamState} (h : StreamLoader.applyTips world stream (some s) tips = .ok found) :
    found = some (StreamLoader.syncStream world s tips) := by
  induction tips generalizing s with
  | nil => exact (Except.ok.inj h).symm
  | cons response tips ih =>
    obtain ⟨next, applied, rest⟩ := bind_eq_ok.mp h
    rw [StreamLoader.syncStream, applied]
    exact ih rest

/-- The commits that lost while the tips were applied one after the other. -/
def outcompetedInSync (world : Nat → World) : StreamState → List TipResponse → List Cid
  | _, [] => []
  | s, response :: tips =>
    match applyTipToState (world response.moment).env (world response.moment).store s response.tip
      StreamUpdater.networkOpts with
    | .ok next => outcompetedBy (world response.moment).store s response.tip ++
        outcompetedInSync world next tips
    | .error _ => outcompetedInSync world s tips

def outcompetedInLoad (world : Nat → World) (streamID : StreamID) : List TipResponse → List Cid
  | [] => []
  | response :: tips =>
    match StreamLoader.loadStateFromTip (world response.moment).env (world response.moment).store
      streamID response.tip true false with
    | .ok (some s) => outcompetedInSync world s tips
    | _ => outcompetedInLoad world streamID tips

theorem sync_keeps {tips : List TipResponse} (chain : net.Chain (cids s)) :
    net.Chain (cids (StreamLoader.syncStream net.world s tips)) ∧ ∀ c ∈ cids s,
      c ∈ cids (StreamLoader.syncStream net.world s tips) ∨ c ∈ outcompetedInSync net.world s tips := by
  induction tips generalizing s with
  | nil => exact ⟨chain, fun c member => .inl member⟩
  | cons response tips ih =>
    rw [StreamLoader.syncStream, outcompetedInSync]
    cases applied : applyTipToState (net.world response.moment).env (net.world response.moment).store
        s response.tip StreamUpdater.networkOpts with
    | error e => exact ih chain
    | ok next =>
      obtain ⟨nextChain, kept⟩ := applyTip_keeps chain applied
      obtain ⟨syncedChain, rest⟩ := ih nextChain
      refine ⟨syncedChain, fun c member => ?_⟩
      rcases kept c member with still | lost
      · exact (rest c still).imp_right (List.mem_append_right _)
      · exact .inr (List.mem_append_left _ lost)

theorem applyTips_chain {tips : List TipResponse}
    (h : StreamLoader.applyTips net.world stream none tips = .ok (some s)) : net.Chain (cids s) := by
  induction tips with
  | nil => cases h
  | cons response tips ih =>
    obtain ⟨state, loaded, applied⟩ := bind_eq_ok.mp h
    cases state with
    | none => exact ih applied
    | some state =>
      obtain rfl := Option.some.inj (syncStream_of_applyTips applied)
      exact (sync_keeps (load_chain loaded)).1

/-- Loading a stream gives a chain, which has what the first tip's log had, if that could be
loaded, but for what lost afterwards. -/
theorem loadStream_keeps {tips : List TipResponse}
    (h : StreamLoader.loadStream net.world moment stream tips = .ok (some s)) :
    net.Chain (cids s) ∧ ∀ known rest reloaded, tips = known :: rest →
      StreamLoader.loadStateFromTip (net.env known.moment) (net.store known.moment) stream known.tip
        true false = .ok (some reloaded) →
      ∀ c ∈ cids reloaded, c ∈ cids s ∨ c ∈ outcompetedInLoad net.world stream tips := by
  obtain ⟨_, _, h⟩ := bind_eq_ok.mp h
  obtain ⟨found, applied, h⟩ := bind_eq_ok.mp h
  have first : ∀ known rest reloaded, tips = known :: rest →
      StreamLoader.loadStateFromTip (net.env known.moment) (net.store known.moment) stream known.tip
        true false = .ok (some reloaded) →
      found = some (StreamLoader.syncStream net.world reloaded rest) ∧
        outcompetedInLoad net.world stream tips = outcompetedInSync net.world reloaded rest := by
    rintro known rest reloaded rfl loaded
    obtain ⟨state, loaded', applied⟩ := bind_eq_ok.mp applied
    obtain rfl := Except.ok.inj (loaded.symm.trans loaded')
    refine ⟨syncStream_of_applyTips applied, ?_⟩
    rw [outcompetedInLoad]
    simp only [show StreamLoader.loadStateFromTip (net.world known.moment).env
      (net.world known.moment).store stream known.tip true false = .ok (some reloaded) from loaded]
  have chain : net.Chain (cids s) := by
    cases found with
    | none =>
      obtain ⟨_, _, h⟩ := bind_eq_ok.mp h
      exact load_chain h
    | some state =>
      obtain rfl := Option.some.inj (Except.ok.inj h)
      exact applyTips_chain applied
  refine ⟨chain, fun known rest reloaded eq loaded c member => ?_⟩
  obtain ⟨rfl, lost⟩ := first known rest reloaded eq loaded
  obtain rfl := Option.some.inj (Except.ok.inj h)
  rw [lost]
  exact (sync_keeps (load_chain loaded)).2 c member

theorem resetStateToCommit_chain {commitId : CommitID} (chain : net.Chain (cids s))
    (h : StreamLoader.resetStateToCommit env (net.store moment) s commitId = .ok result) :
    net.Chain (cids result) := by
  obtain ⟨applied, tip, reset⟩ := bind_eq_ok.mp h
  have appliedChain := (applyTip_keeps chain tip).1
  obtain ⟨n, _, taken⟩ := reset_take appliedChain reset
  rw [taken]
  exact appliedChain.take n

theorem prefix_of_agreeing {log baseLog : List LogEntry} (longer : baseLog.length ≤ log.length)
    (agree : (List.zipWith (fun entry baseEntry => entry.cid == baseEntry.cid) log baseLog).all id) :
    baseLog.map (·.cid) <+: log.map (·.cid) := by
  induction baseLog generalizing log with
  | nil => exact List.nil_prefix
  | cons baseEntry baseLog ih =>
    cases log with
    | nil => cases longer
    | cons entry log =>
      obtain ⟨same, agree⟩ := (Bool.and_eq_true _ _).mp agree
      exact List.cons_prefix_cons.mpr ⟨(by simpa using same : entry.cid = baseEntry.cid).symm,
        ih (Nat.le_of_succ_le_succ longer) agree⟩

/-- A superset has the commits of the base, in their places. -/
theorem prefix_of_superset {state base : StreamState} (superset : isStateSupersetOf state base = true) :
    cids base <+: cids state := by
  unfold isStateSupersetOf at superset
  dsimp only at superset
  split at superset
  · cases superset
  next longer =>
    split at superset
    · cases superset
    next agree => exact prefix_of_agreeing (by omega) (by simpa using agree)

end States

end Ceramic
