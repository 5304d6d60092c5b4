import Ceramic.CommitTree
import Ceramic.NetworkTip

/-! The state loaded from a tip whose whole log is valid. Its log has the CIDs and the
anchor times of the commits, so it can be compared in place of them, and going back to
one of its commits gives the state loaded from that commit. -/
namespace Ceramic

open StateManipulator StreamUtils AnchorTimestampExtractor

/-- The state of a valid log that ends at the tip. -/
structure LoadedTip (env : Environment) (store : CommitStore) (handler : StreamHandler)
    (g : CommitData) (tip : Cid) (cs : List CommitData) (s : StreamState) : Prop where
  valid : ValidLog env store (g :: cs)
  path : Path none (g :: cs) (some tip)
  applied : applyLog handler none
    (verifyAnchorAndApplyTimestamps store.toDispatcher (g :: cs)) true = .ok s

namespace LoadedTip

variable {env : Environment} {store : CommitStore} {handler : StreamHandler} {g : CommitData}
  {tip : Cid} {cs : List CommitData} {s : StreamState}

theorem unique {cs' : List CommitData} {s' : StreamState}
    (loaded : LoadedTip env store handler g tip cs s)
    (loaded' : LoadedTip env store handler g tip cs' s') : cs = cs' ∧ s = s' := by
  have same := path_unique loaded.path loaded.valid.stored loaded'.path loaded'.valid.stored
  obtain rfl : cs = cs' := (List.cons_eq_cons.mp same).2
  exact ⟨rfl, Except.ok.inj (loaded.applied.symm.trans loaded'.applied)⟩

/-- The log of the state has the keys of the extracted log. -/
theorem keys (loaded : LoadedTip env store handler g tip cs s) (lawful : handler.Lawful env) :
    s.log.toList.map (·.key) =
      (entries (verifyAnchorAndApplyTimestamps store.toDispatcher (g :: cs))).map (·.key) := by
  have applied := loaded.applied
  rw [extracted_cons] at applied ⊢
  obtain ⟨first, built, rest⟩ := applyLog_genesis applied
  have log := (applyLog_log lawful applied).2
  have all : enteredBehindGenesis handler (stamped store.toDispatcher g cs ::
      verifyAnchorAndApplyTimestamps store.toDispatcher cs) =
      (verifyAnchorAndApplyTimestamps store.toDispatcher cs).length := by
    simp [enteredBehindGenesis, built, entered_all rest]
  have mapped : s.log.toList.map (·.key) = (s.log.toList.map (·.untimed)).map (·.key) := by
    simp [untimed_key, Function.comp_def]
  have genesis : (logEntryOf env handler.type (stamped store.toDispatcher g cs) .INIT).key =
      (stamped store.toDispatcher g cs).toLogEntry.key := by
    have other : (stamped store.toDispatcher g cs).toLogEntry.type ≠ .TIME := loaded.valid.genesis
    simp only [LogEntry.key, other, if_false]
    simp [CommitData.toLogEntry]
  have valid : ValidLog env store (g :: (cs ++ [])) := by simpa using loaded.valid
  have entry : ∀ c ∈ verifyAnchorAndApplyTimestamps store.toDispatcher cs,
      (entryOf env handler.type c).key = c.toLogEntry.key := by
    intro c member
    have kind := valid.extractedKinds.1 c member
    unfold entryOf
    split
    next anchor =>
      have time := kind.mpr anchor
      simp [LogEntry.key, anchorEntry, CommitData.toLogEntry, time]
    next other =>
      have time : c.toLogEntry.type ≠ .TIME := mt kind.mp other
      simp only [LogEntry.key, time, if_false]
      simp [CommitData.toLogEntry]
  rw [mapped, log, all, List.take_length, foldl_nextLog_untimed]
  simp only [List.map_cons, List.map_nil, List.map_map, Function.comp_def,
    untimed_key, genesis, entries, List.cons_append, List.nil_append]
  congr 1
  exact List.map_congr_left entry

theorem cids_eq (loaded : LoadedTip env store handler g tip cs s) (lawful : handler.Lawful env) :
    cids s = (g :: cs).map (·.cid) := by
  have firsts := congrArg (List.map Prod.fst) (loaded.keys lawful)
  have stored := extracted_map store.toDispatcher (·.cid) (fun _ _ _ => rfl) (g :: cs)
  simpa [cids, entries, List.map_map, Function.comp_def, LogEntry.key, CommitData.toLogEntry,
    stamped] using firsts.trans (by
      simpa [entries, List.map_map, Function.comp_def, LogEntry.key, CommitData.toLogEntry]
        using stored)

theorem tip_eq (loaded : LoadedTip env store handler g tip cs s) (lawful : handler.Lawful env) :
    tipFromState s = tip := by
  obtain ⟨c, last⟩ : ∃ c, (g :: cs).getLast? = some c := ⟨_, List.getLast?_eq_some_getLast (by simp)⟩
  have lastCid := congrArg List.getLast? (loaded.cids_eq lawful)
  rw [List.getLast?_map, last, cids, List.getLast?_map, NonEmptyArray.getLast?_toList] at lastCid
  have sameTip := path_tip loaded.path last
  simpa [tipFromState, ← Option.some.inj sameTip] using lastCid

theorem streamId (loaded : LoadedTip env store handler g tip cs s) (lawful : handler.Lawful env) :
    (streamIdFromState s).cid = g.cid := by
  have heads := congrArg List.head? (loaded.cids_eq lawful)
  simpa [streamIdFromState, cids, NonEmptyArray.head?_toList] using heads

theorem type (loaded : LoadedTip env store handler g tip cs s) (lawful : handler.Lawful env) :
    s.type = handler.type := by
  have applied := loaded.applied
  rw [extracted_cons] at applied
  exact (applyLog_log lawful applied).1

theorem unexpired (loaded : LoadedTip env store handler g tip cs s) (lawful : handler.Lawful env) :
    SignatureUtils.checkForCacaoExpiration env s = .ok () :=
  loaded.valid.unexpired lawful loaded.applied

theorem kindsKept (loaded : LoadedTip env store handler g tip cs s) (lawful : handler.Lawful env) :
    KindsKept store s.log.toList := by
  have applied := loaded.applied
  rw [extracted_cons] at applied
  have valid : ValidLog env store (g :: (cs ++ [])) := by simpa using loaded.valid
  have genesis : (stamped store.toDispatcher g cs).type ≠ .TIME := loaded.valid.genesis
  refine StreamLog.kindsKept ⟨.inl genesis, ?_, valid.extractedKinds.1⟩ lawful applied
  have fresh : ∀ c ∈ cs, c.Fresh := fun c member =>
    loaded.valid.stored.fresh c (List.mem_cons_of_mem _ member)
  rw [extracted_asStored store.toDispatcher fresh]
  exact fun c member => loaded.valid.stored c (List.mem_cons_of_mem _ member)

end LoadedTip

/-- The times in the log of a state are copied to the beginning of it as if it had been
extracted by itself. -/
theorem copyFrom_extracted {dispatcher : Dispatcher} {source : List LogEntry}
    {dest behind : List CommitData} (valid : AnchorsValid dispatcher dest)
    (kinds : ∀ c ∈ dest, isAnchorCommitData c = true → c.type = .TIME)
    (keys : source.map (·.key) =
      (entries (verifyAnchorAndApplyTimestamps dispatcher (dest ++ behind))).map (·.key)) :
    ∃ copied t, copyFrom false source dest = .ok (copied, t) ∧
      RetimedLog (verifyAnchorAndApplyTimestamps dispatcher dest) copied := by
  induction dest generalizing source with
  | nil => exact ⟨[], .null, by simp [copyFrom], .nil⟩
  | cons c dest ih =>
    cases source with
    | nil => simp at keys
    | cons entry source =>
      rw [List.cons_append, extracted_cons, entries_cons, List.map_cons, List.map_cons] at keys
      obtain ⟨sameKey, sameRest⟩ := List.cons_eq_cons.mp keys
      obtain ⟨copied, t, copies, retimed⟩ := ih (fun d member => valid d (List.mem_cons_of_mem _ member))
        (fun d member => kinds d (List.mem_cons_of_mem _ member)) sameRest
      have sameCid : entry.cid = c.cid := (Prod.mk.inj sameKey).1
      rw [extracted_cons]
      refine ⟨_, _, copyFrom_of_cons copies sameCid, .cons ⟨⟨?_⟩, fun anchor => ?_⟩ retimed⟩
      · by_cases time : c.type = .TIME
        · obtain ⟨_, verified⟩ := valid c (by simp) time
          simp [stamped, time, verified]
        · simp [stamped, time]
      · have time : c.type = .TIME := kinds c (by simp) anchor
        obtain ⟨timestamp, verified⟩ := valid c (by simp) time
        have entryTime : entry.type = .TIME := (key_anchor sameKey).mpr time
        have same := key_timestamp sameKey entryTime
        simpa [entryTime, stamped, carriedTime, time, verified, CommitData.toLogEntry] using same

namespace LoadedTip

variable {env : Environment} {store : CommitStore} {handler : StreamHandler} {g : CommitData}
  {tip middleTip : Cid} {shared a : List CommitData} {s middle : StreamState}

/-- Going back to a commit of the log gives the state loaded from that commit. -/
theorem reset_eq (registered : HandlersMap.get env handler.type = .ok handler)
    (loaded : LoadedTip env store handler g tip (shared ++ a) s)
    (front : LoadedTip env store handler g middleTip shared middle) :
    resetStateToCommit env store s middleTip false = .ok middle := by
  obtain ⟨lawful, _⟩ := HandlersMap.get_lawful registered
  obtain ⟨rel, simulates⟩ := HandlersMap.get_simulates registered
  have contained : stateContainsCommit s middleTip = true := by
    have inFront : middleTip ∈ (g :: shared).map (·.cid) := by
      obtain ⟨c, last⟩ : ∃ c, (g :: shared).getLast? = some c :=
        ⟨_, List.getLast?_eq_some_getLast (by simp)⟩
      have same := path_tip front.path last
      exact List.mem_map.mpr ⟨c, List.mem_of_getLast? last, (Option.some.inj same).symm⟩
    have inLog : middleTip ∈ cids s := by
      rw [loaded.cids_eq lawful]
      simp only [List.map_cons, List.mem_cons, List.map_append, List.mem_append] at inFront ⊢
      exact inFront.imp_right .inl
    obtain ⟨entry, member, same⟩ := List.mem_map.mp inLog
    simp only [stateContainsCommit, List.any_eq_true, beq_iff_eq]
    exact ⟨entry, member, same⟩
  have fetched := LogSyncer.syncFullLog_complete front.path front.valid.stored
    (loaded.streamId lawful).symm
  have keys := loaded.keys lawful
  obtain ⟨entry, source, log⟩ := List.exists_cons_of_ne_nil s.log.nonempty
  rw [log, extracted_cons, entries_cons, List.map_cons, List.map_cons] at keys
  obtain ⟨sameKey, sameRest⟩ := List.cons_eq_cons.mp keys
  have sameCid : entry.cid = g.cid := (Prod.mk.inj sameKey).1
  obtain ⟨copied, t, copies, retimed⟩ := copyFrom_extracted
    (fun c member => front.valid.anchors c (List.mem_cons_of_mem _ member))
    (fun c member => (front.valid.kinds c member).mpr) sameRest
  -- the genesis is no anchor, so the copied one has no validation error either
  obtain ⟨g', retimedGenesis, trusted⟩ : ∃ g', Retimed (stamped store.toDispatcher g shared) g' ∧
      copyTrustedTimestamps s.log.toList (g :: shared) false = .ok (g' :: copied) := by
    refine ⟨_, ⟨?_⟩, bind_eq_ok.mpr ⟨_, log ▸ copyFrom_of_cons copies sameCid, rfl⟩⟩
    simp [stamped, front.valid.genesis]
  have applied := front.applied
  have timeless := front.valid.extractedTimeless
  rw [extracted_cons] at applied timeless
  obtain ⟨first, built, behind⟩ := applyLog_genesis applied
  obtain ⟨first', built', related⟩ := simulates.genesis (timeless _ (by simp)) retimedGenesis built
  obtain ⟨middle', applied', related⟩ := applyLogFrom_simulates simulates retimed
    (fun c member => timeless c (List.mem_cons_of_mem _ member)) related behind
  have reset : resetStateToCommit env store s middleTip false = .ok middle' := by
    unfold resetStateToCommit
    rw [contained]
    refine bind_eq_ok.mpr ⟨_, fetched, bind_eq_ok.mpr ⟨_, trusted, ?_⟩⟩
    refine bind_eq_ok.mpr ⟨handler, loaded.type lawful ▸ registered, ?_⟩
    simpa [applyLog, built'] using applied'
  obtain ⟨_, own', _⟩ := provenance_reset (loaded.kindsKept lawful) reset
  have own := front.valid.provenance lawful front.applied
  have same := simulates.same related
  have sameLog : middle'.log = middle.log :=
    NonEmptyArray.ext (eq_of_provenance own' own same.log.symm)
  have sameState : middle' = middle := by rw [same.fields, sameLog]
  exact sameState ▸ reset

/-- Behind one of its commits the log has the keys of the extracted rest. -/
theorem behind_keys (lawful : handler.Lawful env)
    (loaded : LoadedTip env store handler g tip (shared ++ a) s)
    (path : Path none (g :: shared) (some middleTip)) :
    (localConflictingLog s middleTip).map (·.key) =
      (entries (verifyAnchorAndApplyTimestamps store.toDispatcher a)).map (·.key) := by
  have keys := loaded.keys lawful
  have sameCids := loaded.cids_eq lawful
  have distinct : (cids s).Nodup := sameCids ▸ path_nodup loaded.path loaded.valid.stored
  have within : shared.length < s.log.toList.length := by
    have lengths := congrArg List.length sameCids
    simp only [cids, List.length_map, List.length_cons, List.length_append] at lengths
    omega
  have log : s.log.toList = s.log.toList.take shared.length ++
      s.log.toList[shared.length] :: s.log.toList.drop (shared.length + 1) := by
    rw [List.getElem_cons_drop, List.take_append_drop]
  have last : s.log.toList[shared.length].cid = middleTip := by
    obtain ⟨c, found⟩ : ∃ c, (g :: shared).getLast? = some c :=
      ⟨_, List.getLast?_eq_some_getLast (by simp)⟩
    have atIndex : (cids s)[shared.length]? = some middleTip := by
      rw [sameCids, ← List.cons_append, List.map_append, List.getElem?_append_left (by simp),
        path_tip path found, ← Option.map_some, ← found, ← List.getLast?_map]
      simp [List.getLast?_eq_getElem?]
    simp only [cids, List.getElem?_map, List.getElem?_eq_getElem within, Option.map_some] at atIndex
    exact Option.some.inj atIndex
  rw [← last, localConflictingLog_eq log distinct, List.map_drop, keys, ← List.map_drop]
  have rest : (entries (verifyAnchorAndApplyTimestamps store.toDispatcher (g :: (shared ++ a)))).drop
      (shared.length + 1) = entries (verifyAnchorAndApplyTimestamps store.toDispatcher a) := by
    rw [entries, ← List.map_drop, extracted_drop]
    simp [entries]
  rw [rest]

theorem middle_ne_tip (loaded : LoadedTip env store handler g tip (shared ++ a) s)
    (path : Path none (g :: shared) (some middleTip)) (more : a ≠ []) : middleTip ≠ tip := by
  rintro rfl
  have whole : Stored store ((g :: shared) ++ a) := loaded.valid.stored
  have same := path_unique path (stored_append.mp whole).1 loaded.path loaded.valid.stored
  exact more (by simpa using same)

end LoadedTip

end Ceramic
