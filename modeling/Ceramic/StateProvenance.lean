import Ceramic.LogResolution
import Ceramic.BlockStore

/-! Timestamp provenance of the states a node holds. A fetched log is stamped as a
whole before its commits are validated, so a commit that is kept may have been handed
the time of an anchor that is not. -/
namespace Ceramic

open StateManipulator StreamUtils AnchorTimestampExtractor

theorem applyLog_genesis {handler : StreamHandler} {throwing : Bool} {g : CommitData}
    {cs : List CommitData} {s : StreamState} (h : applyLog handler none (g :: cs) throwing = .ok s) :
    ∃ first, handler.applyCommit g none = .applied first ∧
      applyLogFrom handler throwing first cs = .ok s := by
  cases outcome : handler.applyCommit g none with
  | applied first => exact ⟨first, rfl, by simpa [applyLog, outcome] using h⟩
  | threw e left => simp [applyLog, outcome] at h

/-- How many commits get into the log behind the genesis. -/
def enteredBehindGenesis (handler : StreamHandler) : List CommitData → Nat
  | [] => 0
  | g :: cs =>
    match handler.applyCommit g none with
    | .applied s => entered handler s cs
    | .threw _ _ => 0

/-- The log of a state built from nothing. -/
theorem applyLog_log {env : Environment} {handler : StreamHandler} (lawful : handler.Lawful env)
    {throwing : Bool} {g : CommitData} {cs : List CommitData} {s : StreamState}
    (h : applyLog handler none (g :: cs) throwing = .ok s) :
    s.type = handler.type ∧
    s.log.toList = (cs.take (enteredBehindGenesis handler (g :: cs))).foldl
      (nextLog env handler.type) [logEntryOf env handler.type g .INIT] := by
  obtain ⟨first, built, rest⟩ := applyLog_genesis h
  obtain ⟨type, log⟩ := lawful.genesis built
  obtain ⟨sameType, logs⟩ := applyLogFrom_log lawful rest
  refine ⟨sameType.trans type, ?_⟩
  simp [enteredBehindGenesis, built, logs, log]

/-- A state built from nothing has its own timestamps exactly when the last commit in
its log brought none from elsewhere. A genesis is no anchor, whatever it looks like. -/
theorem provenance_of_full_log {env : Environment} {handler : StreamHandler}
    (lawful : handler.Lawful env) {throwing : Bool} {g : CommitData} {cs : List CommitData}
    {s : StreamState} (h : applyLog handler none (g :: cs) throwing = .ok s)
    (genesis : g.type ≠ .TIME ∨ cs = [])
    (kinds : ∀ c ∈ cs, c.type = .TIME ↔ isAnchorCommitData c = true) (carried : Carried (g :: cs)) :
    TimestampProvenance s.log.toList ↔
      ∀ c, (g :: cs)[enteredBehindGenesis handler (g :: cs)]? = some c →
        (0 < enteredBehindGenesis handler (g :: cs) ∧ c.type = .TIME) ∨
        handler.type = CAIP10_LINK_TYPE_ID ∨ c.timestamp.truthy = false := by
  have single : TimestampProvenance [logEntryOf env handler.type g .INIT] ↔
      handler.type = CAIP10_LINK_TYPE_ID ∨ g.timestamp.truthy = false := by
    rw [← logEntryOf_untimed_iff env handler.type g .INIT]
    simp [provenance_cons, provenance_nil, firstAnchorTimestamp]
  rw [(applyLog_log lawful h).2]
  rcases genesis with plain | rfl
  · generalize count : enteredBehindGenesis handler (g :: cs) = k
    have bound : k ≤ cs.length := by
      obtain ⟨first, built, _⟩ := applyLog_genesis h
      simpa [← count, enteredBehindGenesis, built] using entered_le handler first cs
    have run := provenance_run env handler.type [logEntryOf env handler.type g .INIT] (some g)
      (cs.take k) (cs.drop k) (fun c member => kinds c (List.mem_of_mem_take member))
      (by simpa using carried) (by simpa [EntersOwnTime, plain] using single)
    rw [run]
    have last : ((some g).toList ++ cs.take k).getLast? = (g :: cs)[k]? := by
      have taken : (some g).toList ++ cs.take k = (g :: cs).take (k + 1) := by simp
      have within : k < (g :: cs).length := by simpa using Nat.lt_succ_of_le bound
      rw [taken, List.getLast?_take, List.getElem?_eq_getElem within]
      simp
    rw [last]
    constructor
    · intro own c found
      rcases own c found with anchor | untimed
      · refine .inl ⟨?_, anchor⟩
        by_contra none
        obtain rfl : k = 0 := by omega
        obtain rfl : g = c := by simpa using found
        exact plain anchor
      · exact .inr untimed
    · intro own c found
      rcases own c found with ⟨_, anchor⟩ | untimed
      · exact .inl anchor
      · exact .inr untimed
  · have none : enteredBehindGenesis handler [g] = 0 := by
      simp only [enteredBehindGenesis]
      split <;> rfl
    simpa [none] using single

/-- An anchor entry stands exactly for an anchor commit, and the first entry never does. -/
def KindsKept (store : CommitStore) (log : List LogEntry) : Prop :=
  ∃ first rest, log = first :: rest ∧ first.type ≠ .TIME ∧ ∀ entry ∈ rest, ∀ c,
    Utils.getCommitData store.toDispatcher entry.cid = .ok c → (entry.type = .TIME ↔ c.type = .TIME)

theorem KindsKept.untimed {store : CommitStore} {log log' : List LogEntry}
    (kept : KindsKept store log) (same : log.map (·.untimed) = log'.map (·.untimed)) :
    KindsKept store log' := by
  obtain ⟨first, rest, rfl, plain, kinds⟩ := kept
  cases log' with
  | nil => simp at same
  | cons first' rest' =>
    obtain ⟨sameFirst, sameRest⟩ := List.cons_eq_cons.mp (by simpa using same)
    refine ⟨first', rest', rfl, ?_, fun entry' member c fetched => ?_⟩
    · rw [← untimed_type, ← sameFirst, untimed_type]
      exact plain
    · have image : entry'.untimed ∈ rest.map (·.untimed) := sameRest ▸ List.mem_map_of_mem member
      obtain ⟨entry, old, eq⟩ := List.mem_map.mp image
      have sameCid : entry.cid = entry'.cid := by simpa using congrArg LogEntry.cid eq
      have sameType : entry.type = entry'.type := by simpa using congrArg LogEntry.type eq
      rw [← sameType]
      exact kinds entry old c (sameCid ▸ fetched)

/-- Commits that differ from stored ones by what was added after reading them. -/
structure FromStore (store : CommitStore) (cs : List CommitData) : Prop where
  stored : Stored store (cs.map (·.asStored))
  kinds : ∀ c ∈ cs, c.type = .TIME ↔ isAnchorCommitData c = true

theorem FromStore.take {store : CommitStore} {cs : List CommitData} (read : FromStore store cs)
    (k : Nat) : FromStore store (cs.take k) := by
  refine ⟨fun c member => ?_, fun c member => read.kinds c (List.mem_of_mem_take member)⟩
  rw [List.map_take] at member
  exact read.stored c (List.mem_of_mem_take member)

theorem KindsKept.entering {store : CommitStore} {log : List LogEntry} {cs : List CommitData}
    (kept : KindsKept store log) (read : FromStore store cs) (env : Environment) (streamType : Nat) :
    KindsKept store (cs.foldl (nextLog env streamType) log) := by
  obtain ⟨first, rest, rfl, plain, kinds⟩ := kept
  have longer : KindsKept store ((first :: rest) ++ cs.map (entryOf env streamType)) := by
    refine ⟨first, rest ++ cs.map (entryOf env streamType), rfl, plain, fun entry member c fetched => ?_⟩
    rcases List.mem_append.mp member with old | new
    · exact kinds entry old c fetched
    · obtain ⟨d, inLog, rfl⟩ := List.mem_map.mp new
      have stored := read.stored d.asStored (List.mem_map_of_mem inLog)
      rw [entryOf_cid] at fetched
      obtain rfl : d.asStored = c := Except.ok.inj (stored.symm.trans fetched)
      rw [entryOf_type, ← read.kinds d inLog]
      rfl
  exact longer.untimed (by simp [foldl_nextLog_untimed])

theorem Carried.last {cs : List CommitData} {c : CommitData} (carried : Carried cs)
    (last : cs.getLast? = some c) (other : c.type ≠ .TIME) : c.timestamp = .null := by
  induction cs with
  | nil => cases last
  | cons d cs ih =>
    cases cs with
    | nil =>
      obtain rfl : d = c := by simpa using last
      exact carried.1 other
    | cons d' cs => exact ih carried.2 (by simpa using last)

/-- A log read for a stream, with what was added to its commits since. -/
structure StreamLog (store : CommitStore) (g : CommitData) (cs : List CommitData) : Prop where
  genesis : g.type ≠ .TIME ∨ cs = []
  read : FromStore store cs

theorem StreamLog.of_syncFullLog {store : CommitStore} {streamID : StreamID} {tip : Cid}
    {fetched log : List CommitData}
    (h : LogSyncer.syncFullLog store streamID (some tip) = .ok fetched)
    (added : log.map (·.asStored) = fetched) :
    ∃ g cs, log = g :: cs ∧ StreamLog store g cs := by
  obtain ⟨first, rest, eq, stored, _, path⟩ := LogSyncer.syncFullLog_ok h
  rw [← added] at eq stored path
  cases log with
  | nil => simp at eq
  | cons g cs =>
    obtain ⟨sameFirst, sameRest⟩ := List.cons_eq_cons.mp (by simpa using eq)
    refine ⟨g, cs, rfl, ?_⟩
    rcases path with path | none
    · refine ⟨.inl ?_, ?_⟩
      · have fresh := stored.fresh g.asStored (by simp)
        have init : g.type = .INIT := fresh.genesis path.1
        simp [init]
      · have stored' : Stored store (g.asStored :: cs.map (·.asStored)) := by simpa using stored
        have path' : Path none (g.asStored :: cs.map (·.asStored)) (some tip) := by simpa using path
        have linked := path_linked path'.2
        refine ⟨fun c member => stored' c (List.mem_cons_of_mem _ member), fun c member => ?_⟩
        have inLog := List.mem_map_of_mem (f := (·.asStored)) member
        exact (stored'.fresh _ (List.mem_cons_of_mem _ inLog)).anchor (linked _ inLog)
    · have empty : cs = [] := by simpa [none] using sameRest
      subst empty
      exact ⟨.inr rfl, by simp [Stored], by simp⟩

theorem StreamLog.kindsKept {store : CommitStore} {g : CommitData} {cs : List CommitData}
    (log : StreamLog store g cs) {env : Environment} {handler : StreamHandler}
    (lawful : handler.Lawful env) {throwing : Bool} {s : StreamState}
    (h : applyLog handler none (g :: cs) throwing = .ok s) : KindsKept store s.log.toList := by
  rw [(applyLog_log lawful h).2]
  have start : KindsKept store [logEntryOf env handler.type g .INIT] :=
    ⟨_, [], rfl, by simp, by simp⟩
  exact start.entering (log.read.take _) env handler.type

/-- When every commit is applied, the last one has no time unless it is an anchor. -/
theorem provenance_all_applied {env : Environment} {handler : StreamHandler}
    (lawful : handler.Lawful env) {g : CommitData} {cs : List CommitData} {s : StreamState}
    (h : applyLog handler none (g :: cs) true = .ok s) (genesis : g.type ≠ .TIME ∨ cs = [])
    (kinds : ∀ c ∈ cs, c.type = .TIME ↔ isAnchorCommitData c = true) (carried : Carried (g :: cs))
    (untimed : cs = [] → g.timestamp = .null) : TimestampProvenance s.log.toList := by
  have all : enteredBehindGenesis handler (g :: cs) = cs.length := by
    obtain ⟨built, outcome, applied⟩ := applyLog_genesis h
    simp [enteredBehindGenesis, outcome, entered_all applied]
  rw [provenance_of_full_log lawful h genesis kinds carried, all]
  intro c last
  by_cases anchor : c.type = .TIME ∧ 0 < cs.length
  · exact .inl ⟨anchor.2, anchor.1⟩
  · have time : c.timestamp = .null := by
      cases cs with
      | nil =>
        obtain rfl : g = c := by simpa using last
        exact untimed rfl
      | cons d cs =>
        have other : c.type ≠ .TIME := fun isAnchor => anchor ⟨isAnchor, by simp⟩
        exact carried.last (by simpa [List.getLast?_eq_getElem?] using last) other
    exact .inr (.inr (by simp [time, Timestamp.truthy]))

/-- The state at the divergence point is built again, with no time from a removed anchor. -/
theorem provenance_reset {env : Environment} {store : CommitStore} {s base : StreamState}
    {cid : Cid} (kept : KindsKept store s.log.toList)
    (h : resetStateToCommit env store s cid false = .ok base) :
    base.type = s.type ∧ TimestampProvenance base.log.toList ∧ KindsKept store base.log.toList := by
  obtain ⟨handler, dest, copied, _, fetched, copies, found, applied⟩ := resetStateToCommit_ok h
  obtain ⟨lawful, sameType⟩ := HandlersMap.get_lawful found
  have copies := copyTrustedTimestamps_ok copies
  obtain ⟨first, rest, rfl, stored, _, _⟩ := LogSyncer.syncFullLog_ok fetched
  have added : copied.map (·.asStored) = first :: rest := by
    rw [copyFrom_map _ (fun _ _ _ => rfl) copies]
    conv_rhs => rw [← List.map_id (first :: rest)]
    exact List.map_congr_left fun c member => (stored.fresh c member).asStored
  obtain ⟨g, cs, rfl, streamLog⟩ := StreamLog.of_syncFullLog fetched added
  obtain ⟨entry, entries, logEq, plain, kinds⟩ := kept
  rw [logEq] at copies
  have carried : Carried (g :: cs) := by
    refine copyFrom_carried copies fun pair member other => ?_
    have same := copyFrom_cids copies pair member
    rcases List.mem_cons.mp member with rfl | tail
    · exact plain
    · have inEntries := (List.of_mem_zip tail).1
      have inRest := (List.of_mem_zip tail).2
      have fetchedCommit := stored pair.2 (List.mem_cons_of_mem _ inRest)
      exact mt (kinds pair.1 inEntries pair.2 (same ▸ fetchedCommit)).mp other
  refine ⟨(applyLog_log lawful applied).1.trans sameType, ?_, streamLog.kindsKept lawful applied⟩
  refine provenance_all_applied lawful applied streamLog.genesis streamLog.read.kinds carried ?_
  rintro rfl
  obtain ⟨none, behind, copiesNone, _, time, commits⟩ := copyFrom_cons copies
  obtain rfl : [] = none := (List.cons_eq_cons.mp commits).2
  rw [copyFrom_headTime copiesNone] at time
  simpa [plain, headTime] using time

/-- The last commit to get into a log, at the head of the given part of the fetched
log, brings no time from elsewhere: it enters as an anchor, or its stream type keeps no
times, or there is no valid anchor with a time other than 0 at or behind it. -/
def BringsNoTime (dispatcher : Dispatcher) (streamType : Nat) (asAnchor : Prop)
    (fetched : List CommitData) : Prop :=
  (asAnchor ∧ ∃ c, fetched.head? = some c ∧ c.type = .TIME) ∨
  streamType = CAIP10_LINK_TYPE_ID ∨ (carriedTime dispatcher fetched).truthy = false

/-- Whether the timestamps of a freshly loaded stream are its own. -/
def LoadBringsNoTime (env : Environment) (store : CommitStore) (streamType : Nat)
    (fetched : List CommitData) : Prop :=
  ∀ handler, HandlersMap.get env streamType = .ok handler →
    let kept := enteredBehindGenesis handler
      (verifyAnchorAndApplyTimestamps store.toDispatcher fetched)
    BringsNoTime store.toDispatcher streamType (0 < kept) (fetched.drop kept)

/-- Whether the timestamps of a state are its own once a fetched log has been applied. -/
def TipBringsNoTime (env : Environment) (store : CommitStore) (state : StreamState)
    (fetched : List CommitData) : Prop :=
  ∀ handler base, HandlersMap.get env state.type = .ok handler →
    BaseState env store state (verifyAnchorAndApplyTimestamps store.toDispatcher fetched) base →
    let kept := entered handler base (verifyAnchorAndApplyTimestamps store.toDispatcher fetched)
    kept = 0 ∨ BringsNoTime store.toDispatcher state.type True (fetched.drop (kept - 1))

/-- In an extracted log the commit at an index has the time carried by what is there
and behind. -/
theorem bringsNoTime_iff (dispatcher : Dispatcher) (streamType : Nat) (asAnchor : Prop)
    (fetched : List CommitData) (i : Nat) (within : i < fetched.length) :
    BringsNoTime dispatcher streamType asAnchor (fetched.drop i) ↔
      ∀ c, (verifyAnchorAndApplyTimestamps dispatcher fetched)[i]? = some c →
        (asAnchor ∧ c.type = .TIME) ∨ streamType = CAIP10_LINK_TYPE_ID ∨
          c.timestamp.truthy = false := by
  rw [extracted_getElem?, List.getElem?_eq_getElem within]
  simp [BringsNoTime, stamped, List.getElem?_eq_getElem within]

theorem provenance_loaded {env : Environment} {store : CommitStore} {streamID : StreamID}
    {tip : Cid} {allowSyncErrors throwing : Bool} {fetched : List CommitData} {s : StreamState}
    (found : LogSyncer.syncFullLog store streamID (some tip) = .ok fetched)
    (h : StreamLoader.loadStateFromTip env store streamID tip allowSyncErrors throwing = .ok (some s)) :
    KindsKept store s.log.toList ∧
    (TimestampProvenance s.log.toList ↔ LoadBringsNoTime env store streamID.type fetched) := by
  unfold StreamLoader.loadStateFromTip at h
  rw [found] at h
  obtain ⟨s', loaded, same⟩ := map_eq_ok.mp h
  obtain rfl := Option.some.inj same
  obtain ⟨_, _, _, stored, _, _⟩ := LogSyncer.syncFullLog_ok found
  have added := extracted_asStored store.toDispatcher stored.fresh
  obtain ⟨g, cs, extracted, streamLog⟩ := StreamLog.of_syncFullLog found added
  rw [extracted] at loaded
  obtain ⟨handler, registered, applied⟩ := bind_eq_ok.mp loaded
  obtain ⟨lawful, sameType⟩ := HandlersMap.get_lawful registered
  refine ⟨streamLog.kindsKept lawful applied, ?_⟩
  have carried : Carried (g :: cs) := extracted ▸ carried_extracted store.toDispatcher fetched
  rw [provenance_of_full_log lawful applied streamLog.genesis streamLog.read.kinds carried]
  have within : enteredBehindGenesis handler (g :: cs) < fetched.length := by
    obtain ⟨first, built, _⟩ := applyLog_genesis applied
    have size : (g :: cs).length = fetched.length := by
      rw [← extracted, extracted_length]
    have := entered_le handler first cs
    simp only [enteredBehindGenesis, built]
    simp only [List.length_cons] at size
    omega
  have condition := bringsNoTime_iff store.toDispatcher streamID.type
    (0 < enteredBehindGenesis handler (g :: cs)) fetched _ within
  rw [extracted] at condition
  rw [sameType, ← condition]
  constructor
  · intro brings handler' registered'
    obtain rfl := Except.ok.inj (registered.symm.trans registered')
    rw [extracted]
    exact brings
  · intro brings
    have := brings handler registered
    rwa [extracted] at this

theorem provenance_tipApplied {env : Environment} {store : CommitStore} {s s' : StreamState}
    {tip : Cid} {opts : ApplyLogToStateOpts} {fetched : List CommitData}
    (kept : KindsKept store s.log.toList) (own : TimestampProvenance s.log.toList)
    (found : LogSyncer.syncLogUntilMatch store tip (s.log.toList.map (·.cid)) = .ok fetched)
    (h : applyTipToState env store s tip opts = .ok s') :
    KindsKept store s'.log.toList ∧
    (TimestampProvenance s'.log.toList ↔ TipBringsNoTime env store s fetched) := by
  unfold applyTipToState at h
  rw [found] at h
  rcases applyLogToState_ok h with ⟨rfl, unapplied⟩ | ⟨handler, base, registered, applies, applied⟩
  · exact ⟨kept, iff_of_true own fun _ base _ applies => absurd applies (unapplied base)⟩
  obtain ⟨lawful, sameType⟩ := HandlersMap.get_lawful registered
  have ⟨baseKept, baseOwn⟩ : KindsKept store base.log.toList ∧ TimestampProvenance base.log.toList := by
    cases applies with
    | appended => exact ⟨kept, own⟩
    | replaced _ _ _ _ _ _ _ reset =>
      obtain ⟨_, baseOwn, baseKept⟩ := provenance_reset kept reset
      exact ⟨baseKept, baseOwn⟩
  have read : FromStore store (verifyAnchorAndApplyTimestamps store.toDispatcher fetched) := by
    rcases LogSyncer.syncLogUntilMatch_ok found with rfl | ⟨prev, _, path, stored, _⟩
    · exact ⟨by simp [Stored], by simp⟩
    · have added := extracted_asStored store.toDispatcher stored.fresh
      refine ⟨added.symm ▸ stored, fun c member => ?_⟩
      have inFetched : c.asStored ∈ fetched := added ▸ List.mem_map_of_mem member
      exact (stored.fresh _ inFetched).anchor (path_linked path _ inFetched)
  obtain ⟨_, logs⟩ := applyLogFrom_log lawful applied
  rw [logs]
  refine ⟨baseKept.entering (read.take _) env handler.type, ?_⟩
  have count := entered_le handler base (verifyAnchorAndApplyTimestamps store.toDispatcher fetched)
  rw [extracted_length] at count
  have run := provenance_run env handler.type base.log.toList none
    ((verifyAnchorAndApplyTimestamps store.toDispatcher fetched).take
      (entered handler base (verifyAnchorAndApplyTimestamps store.toDispatcher fetched)))
    ((verifyAnchorAndApplyTimestamps store.toDispatcher fetched).drop
      (entered handler base (verifyAnchorAndApplyTimestamps store.toDispatcher fetched)))
    (read.take _).kinds (by simpa using carried_extracted store.toDispatcher fetched)
    (iff_of_true baseOwn (by simp))
  rw [run]
  have condition : TipBringsNoTime env store s fetched ↔
      entered handler base (verifyAnchorAndApplyTimestamps store.toDispatcher fetched) = 0 ∨
      BringsNoTime store.toDispatcher s.type True (fetched.drop
        (entered handler base (verifyAnchorAndApplyTimestamps store.toDispatcher fetched) - 1)) := by
    constructor
    · exact fun brings => brings handler base registered applies
    · intro brings handler' base' registered' applies'
      obtain rfl := Except.ok.inj (registered.symm.trans registered')
      obtain rfl := applies.unique applies'
      exact brings
  rw [condition]
  generalize entered handler base (verifyAnchorAndApplyTimestamps store.toDispatcher fetched) = k at *
  cases k with
  | zero => simp
  | succ k =>
    rw [Nat.add_sub_cancel, bringsNoTime_iff _ _ _ _ _ count]
    simp only [Option.toList_none, List.nil_append, List.getLast?_take, Nat.succ_ne_zero, if_false,
      Nat.add_sub_cancel, false_or, true_and, EntersOwnTime, sameType]
    rw [List.getElem?_eq_getElem (by simpa using Nat.lt_of_succ_le count)]
    simp

/-- The states a node gets by loading streams and applying tips, as long as no step
leaves a commit with the time of an anchor that is not kept. -/
inductive Held (env : Environment) (store : CommitStore) : StreamState → Prop where
  | loaded {streamID tip allowSyncErrors throwing fetched s} :
      LogSyncer.syncFullLog store streamID (some tip) = .ok fetched →
      StreamLoader.loadStateFromTip env store streamID tip allowSyncErrors throwing = .ok (some s) →
      LoadBringsNoTime env store streamID.type fetched → Held env store s
  | tipApplied {s s' tip opts fetched} :
      Held env store s →
      LogSyncer.syncLogUntilMatch store tip (s.log.toList.map (·.cid)) = .ok fetched →
      applyTipToState env store s tip opts = .ok s' →
      TipBringsNoTime env store s fetched → Held env store s'

theorem Held.provenance {env : Environment} {store : CommitStore} {s : StreamState}
    (held : Held env store s) : KindsKept store s.log.toList ∧ TimestampProvenance s.log.toList := by
  induction held with
  | loaded found loaded brings =>
    obtain ⟨kept, own⟩ := provenance_loaded found loaded
    exact ⟨kept, own.mpr brings⟩
  | tipApplied _ found applied brings ih =>
    obtain ⟨kept, own⟩ := provenance_tipApplied ih.1 ih.2 found applied
    exact ⟨kept, own.mpr brings⟩

/-- Every held state has its own timestamps, and a load or a tip gives another such
state exactly when it brings no time from elsewhere. -/
theorem timestamp_provenance_iff (env : Environment) (store : CommitStore) :
    (∀ streamID tip allowSyncErrors throwing fetched s,
      LogSyncer.syncFullLog store streamID (some tip) = .ok fetched →
      StreamLoader.loadStateFromTip env store streamID tip allowSyncErrors throwing = .ok (some s) →
      (TimestampProvenance s.log.toList ↔ LoadBringsNoTime env store streamID.type fetched)) ∧
    (∀ s, Held env store s → TimestampProvenance s.log.toList ∧
      ∀ tip opts fetched s',
        LogSyncer.syncLogUntilMatch store tip (s.log.toList.map (·.cid)) = .ok fetched →
        applyTipToState env store s tip opts = .ok s' →
        (TimestampProvenance s'.log.toList ↔ TipBringsNoTime env store s fetched)) := by
  constructor
  · intro streamID tip allowSyncErrors throwing fetched s found loaded
    exact (provenance_loaded found loaded).2
  · intro s held
    refine ⟨held.provenance.2, fun tip opts fetched s' found applied => ?_⟩
    exact (provenance_tipApplied held.provenance.1 held.provenance.2 found applied).2

namespace BlockStore

/-- A Tile genesis, a commit whose signature does not verify, and a valid anchor of it. -/
def unverifiedThenAnchored : List Block :=
  [⟨⟨[1]⟩, .plain { header := some [("controllers", .arr [.str "did:key:z6Mk"])] }⟩,
   ⟨⟨[2]⟩, .signed ⟨⟨[2, 0]⟩, "", ""⟩⟩,
   ⟨⟨[2, 0]⟩, .plain { id := some ⟨[1]⟩, prev := some ⟨[1]⟩, header := some [] }⟩,
   ⟨⟨[3]⟩, .plain { id := some ⟨[1]⟩, prev := some ⟨[2]⟩, proof := some ⟨[9]⟩ }⟩]

def anchoredStore : CommitStore :=
  store unverifiedThenAnchored (fun _ => some ⟨"eip155:1", ⟨[8]⟩, ⟨[2]⟩, none⟩) (fun _ => some 100)
    (by decide)

/-- No signature verifies. -/
def unverified : Environment :=
  { Environment.permissive with verifyJWS := fun _ _ => .error ⟨"invalid_jws"⟩ }

def fetchedLog : List CommitData :=
  (LogSyncer.syncFullLog anchoredStore ⟨TILE_TYPE_ID, ⟨[1]⟩⟩ (some ⟨[3]⟩)).toOption.getD []

def loadedState : StreamState where
  type := TILE_TYPE_ID
  content := .obj []
  metadata := [("controllers", .arr [.str "did:key:z6Mk"])]
  signature := .GENESIS
  anchorStatus := .NOT_REQUESTED
  log := .singleton ⟨⟨[1]⟩, .INIT, .seconds 100, none⟩

theorem timestamp_provenance_iff_loadedState :
    TimestampProvenance loadedState.log.toList ↔
      LoadBringsNoTime unverified anchoredStore TILE_TYPE_ID fetchedLog :=
  (timestamp_provenance_iff unverified anchoredStore).1 ⟨TILE_TYPE_ID, ⟨[1]⟩⟩ ⟨[3]⟩ false false
    fetchedLog loadedState (by decide) (by decide)

/-- The genesis is all that is kept, with the time of the anchor that is not. -/
theorem unapplied_anchor_leaves_time :
    StreamLoader.loadStateFromTip unverified anchoredStore ⟨TILE_TYPE_ID, ⟨[1]⟩⟩ ⟨[3]⟩ false false =
      .ok (some loadedState) ∧
    ¬TimestampProvenance loadedState.log.toList := by
  refine ⟨by decide, ?_⟩
  rw [provenance_iff_restamped]
  decide

end BlockStore

end Ceramic
