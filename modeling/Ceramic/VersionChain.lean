import Ceramic.ThreeIdResolver
import Ceramic.CommitTree

/-! The versions of a 3ID: the genesis and the anchors in the latest log. Each names the next one, and all of them are
found one after the other, exactly if each anchor is later than the one before it and no other entry is. -/
namespace Ceramic.ThreeIdResolver

open StateManipulator StreamUtils AnchorTimestampExtractor MultiQueries

theorem applyAnchorTimestampsToLog_concat (log : List LogEntry) {last : LogEntry} (anchor : last.type = .TIME) :
    ∃ front, applyAnchorTimestampsToLog (log ++ [last]) = front ++ [last] ∧ front.length = log.length := by
  induction log with
  | nil => exact ⟨[], by simp [applyAnchorTimestampsToLog_anchor _ _ anchor], rfl⟩
  | cons entry log ih =>
    obtain ⟨front, restamped, length⟩ := ih
    by_cases isAnchor : entry.type = .TIME
    · refine ⟨entry :: front, ?_, congrArg Nat.succ length⟩
      rw [List.cons_append, applyAnchorTimestampsToLog_anchor _ _ isAnchor, restamped]
      rfl
    · refine ⟨{ entry with timestamp := firstAnchorTimestamp (log ++ [last]) } :: front, ?_, congrArg Nat.succ length⟩
      rw [List.cons_append, applyAnchorTimestampsToLog_other _ _ isAnchor, restamped]
      rfl

/-- The last commit of a log as it is applied: with the time of its entry, or, unless it is an anchor, without one. -/
structure AppliesLast (known : LogEntry) (c c' : CommitData) : Prop where
  cid : c'.cid = c.cid
  kind : isAnchorCommitData c' = isAnchorCommitData c
  anchor : c.type = .TIME → c'.timestamp = known.timestamp
  other : c'.timestamp = known.timestamp ∨ c'.timestamp = .null

section

variable {env : Environment} {store : CommitStore} {latest r : StreamState} {shared removed : List CommitData}
  {c : CommitData} {load : Except JsError StreamState} {commitId : CommitID} {known : LogEntry}

theorem reset_applied (of : RecordedLog store latest ((shared ++ [c]) ++ removed))
    (at_ : latest.log.toList[shared.length]? = some known)
    (reset : resetStateToCommit env store latest c.cid true = .ok r) :
    ∃ handler front c', HandlersMap.get env latest.type = .ok handler ∧ front.length = shared.length ∧
      applyLog handler none (front ++ [c']) true = .ok r ∧ AppliesLast known c c' := by
  obtain ⟨handler, recorded, later, registered, log, records, applied⟩ := reset_timed of reset
  have length : recorded.length = shared.length + 1 := by
    rw [records.length_eq, List.length_append, List.length_singleton]
  have split : recorded = recorded.take shared.length ++ [known] := by
    have here : recorded[shared.length]? = some known := by
      rwa [log, List.getElem?_append_left (by omega)] at at_
    conv_lhs => rw [← List.take_of_length_le (Nat.le_of_eq length), List.take_add_one, here]
    rfl
  have sameLength : (recorded.take shared.length).length = shared.length := by
    rw [List.length_take]
    omega
  rw [split, List.zipWith_append sameLength] at applied
  refine ⟨handler, _, timedBy known c, registered, ?_, applied, rfl, rfl, fun _ => rfl, .inl rfl⟩
  rw [List.length_zipWith, sameLength, Nat.min_self]

theorem load_applied (of : RecordedLog store latest ((shared ++ [c]) ++ removed))
    (at_ : latest.log.toList[shared.length]? = some known)
    (loaded : StreamLoader.loadStateFromTip env store (streamIdFromState latest) c.cid false true = .ok (some r)) :
    ∃ handler front c', HandlersMap.get env latest.type = .ok handler ∧ front.length = shared.length ∧
      applyLog handler none (front ++ [c']) true = .ok r ∧ AppliesLast known c c' := by
  unfold StreamLoader.loadStateFromTip at loaded
  rw [of.fetched rfl] at loaded
  obtain ⟨r', applied, same⟩ := map_eq_ok.mp loaded
  obtain rfl := Option.some.inj same
  have nonempty : (verifyAnchorAndApplyTimestamps store.toDispatcher (shared ++ [c])).isEmpty = false := by
    rw [List.isEmpty_eq_false_iff, ← List.length_pos_iff, extracted_length, List.length_append]
    exact Nat.succ_pos _
  unfold applyFullLog at applied
  simp only [nonempty, Bool.false_eq_true, if_false] at applied
  obtain ⟨handler, registered, applied⟩ := bind_eq_ok.mp applied
  have split : verifyAnchorAndApplyTimestamps store.toDispatcher (shared ++ [c]) =
      (verifyAnchorAndApplyTimestamps store.toDispatcher (shared ++ [c])).take shared.length ++
        [stamped store.toDispatcher c []] := by
    conv_lhs => rw [← List.take_append_drop shared.length (verifyAnchorAndApplyTimestamps _ _)]
    rw [extracted_drop, List.drop_left, extracted_cons, extracted_nil]
  have recorded : Records store.toDispatcher known c := by
    obtain ⟨c', here, records⟩ := of.getElem? at_
    rw [List.append_assoc, List.getElem?_append_right (Nat.le_refl _), Nat.sub_self] at here
    obtain rfl := Option.some.inj here
    exact records
  rw [split] at applied
  refine ⟨handler, _, stamped store.toDispatcher c [], registered, ?_, applied, rfl, rfl, fun anchor => ?_, ?_⟩
  · rw [List.length_take, extracted_length, List.length_append]
    omega
  · obtain ⟨t, verified, time⟩ := recorded.time anchor
    simp [stamped, carriedTime, anchor, verified, time]
  · by_cases anchor : c.type = .TIME
    · obtain ⟨t, verified, time⟩ := recorded.time anchor
      exact .inl (by simp [stamped, carriedTime, anchor, verified, time])
    · exact .inr (by simp [stamped, carriedTime, anchor])

theorem loadAtCommit_applied (of : RecordedLog store latest ((shared ++ [c]) ++ removed))
    (at_ : latest.log.toList[shared.length]? = some known) (unchanged : ∀ found, load = .ok found → found = latest)
    (sameStream : commitId.baseID = streamIdFromState latest) (commit : commitId.commitCid = c.cid)
    (loaded : Repository.loadAtCommit env store load commitId = .ok r) :
    ∃ handler front c', HandlersMap.get env latest.type = .ok handler ∧ front.length = shared.length ∧
      applyLog handler none (front ++ [c']) true = .ok r ∧ AppliesLast known c c' := by
  obtain reset | fromTip := Repository.loadAtCommit_cases of unchanged sameStream commit loaded
  · exact reset_applied of at_ reset
  · exact load_applied of at_ fromTip

/-- The log at the genesis is a single entry, with the time of the genesis in the latest log or without one. -/
theorem log_at_genesis (tile : latest.type = TILE_TYPE_ID) (of : RecordedLog store latest ([c] ++ removed))
    (at_ : latest.log.toList[0]? = some known) (unchanged : ∀ found, load = .ok found → found = latest)
    (sameStream : commitId.baseID = streamIdFromState latest) (commit : commitId.commitCid = c.cid)
    (loaded : Repository.loadAtCommit env store load commitId = .ok r) :
    r.log.toList.length = 1 ∧ (lastAnchorOrGenesisEntry r.log).cid = known.cid ∧
      ((lastAnchorOrGenesisEntry r.log).timestamp.truthy = true →
        (lastAnchorOrGenesisEntry r.log).timestamp = known.timestamp) := by
  obtain ⟨handler, front, c', registered, length, applied, last⟩ :=
    @loadAtCommit_applied env store latest r [] removed c load commitId known of at_ unchanged sameStream commit loaded
  obtain rfl := List.eq_nil_of_length_eq_zero length
  obtain ⟨lawful, sameType⟩ := HandlersMap.get_lawful registered
  have log : r.log.toList = [logEntryOf env handler.type c' .INIT] := by
    have whole := (applyLog_log lawful applied).2
    simpa using whole
  have isKnown : known.cid = c.cid := by
    obtain ⟨c'', here, records⟩ := of.getElem? at_
    obtain rfl := Option.some.inj here
    exact records.cid
  have isEntry : lastAnchorOrGenesisEntry r.log = logEntryOf env handler.type c' .INIT := by
    have first : r.log.first = logEntryOf env handler.type c' .INIT := by
      have head := NonEmptyArray.head?_toList r.log
      rw [log] at head
      exact (Option.some.inj head).symm
    unfold lastAnchorOrGenesisEntry
    rw [first, log]
    simp
  refine ⟨by rw [log]; rfl, ?_, fun truthy => ?_⟩
  · rw [isEntry, logEntryOf_cid, last.cid, isKnown]
  · have notLink : ¬handler.type = CAIP10_LINK_TYPE_ID := by
      rw [sameType, tile]
      decide
    rw [isEntry] at truthy ⊢
    unfold logEntryOf at truthy ⊢
    rw [if_neg notLink] at truthy ⊢
    dsimp only [commitDataToLogEntry] at truthy ⊢
    split at truthy
    next has =>
      rw [if_pos has]
      refine last.other.resolve_right fun none => ?_
      rw [none] at has
      cases has
    next => cases truthy

/-- The log at an anchor ends in the anchor. -/
theorem log_at_anchor (of : RecordedLog store latest ((shared ++ [c]) ++ removed))
    (at_ : latest.log.toList[shared.length]? = some known) (anchor : known.type = .TIME)
    (unchanged : ∀ found, load = .ok found → found = latest)
    (sameStream : commitId.baseID = streamIdFromState latest) (commit : commitId.commitCid = c.cid)
    (loaded : Repository.loadAtCommit env store load commitId = .ok r) :
    r.log.toList.length ≠ 1 ∧ (lastAnchorOrGenesisEntry r.log).cid = known.cid ∧
      (lastAnchorOrGenesisEntry r.log).timestamp = known.timestamp := by
  obtain ⟨handler, front, c', registered, length, applied, last⟩ :=
    loadAtCommit_applied of at_ unchanged sameStream commit loaded
  obtain ⟨lawful, -⟩ := HandlersMap.get_lawful registered
  have records : Records store.toDispatcher known c := by
    obtain ⟨c'', here, records⟩ := of.getElem? at_
    rw [List.append_assoc, List.getElem?_append_right (Nat.le_refl _), Nat.sub_self] at here
    obtain rfl := Option.some.inj here
    exact records
  have isTime := records.anchor.mp anchor
  cases shared with
  | nil => exact absurd isTime of.genesis
  | cons g shared =>
    have behind : c ∈ shared ++ [c] ++ removed := by simp
    have kind : isAnchorCommitData c' = true := last.kind.trans ((of.kinds c behind).mp isTime)
    cases front with
    | nil => cases length
    | cons g' front =>
      obtain ⟨first, built, ran⟩ := applyLog_genesis applied
      have ran : applyLogFrom handler true first (front ++ [c']) = .ok r := ran
      have log := (applyLogFrom_log lawful ran).2
      rw [entered_all ran, List.take_length, List.foldl_append, List.foldl_cons, List.foldl_nil, nextLog, if_pos kind]
        at log
      have nonempty : front.foldl (nextLog env handler.type) first.log.toList ≠ [] := by
        intro empty
        have image := foldl_nextLog_untimed env handler.type first.log.toList front
        rw [empty] at image
        exact first.log.nonempty (List.map_eq_nil_iff.mp (List.append_eq_nil_iff.mp image.symm).1)
      generalize front.foldl (nextLog env handler.type) first.log.toList = before at log nonempty
      obtain ⟨stamped, isStamped, sameLength⟩ :=
        applyAnchorTimestampsToLog_concat before (show (anchorEntry c').type = .TIME from rfl)
      rw [isStamped] at log
      have isEntry : lastAnchorOrGenesisEntry r.log = anchorEntry c' := by
        unfold lastAnchorOrGenesisEntry
        rw [log, List.reverse_append]
        simp [anchorEntry]
      refine ⟨?_, ?_, ?_⟩
      · rw [log, List.length_append, sameLength, List.length_singleton]
        have := List.length_pos_iff.mpr nonempty
        omega
      · rw [isEntry]
        exact last.cid.trans records.cid.symm
      · rw [isEntry]
        exact last.anchor isTime

end

/-- The anchors of a log, which are its versions behind the genesis. -/
def anchors (log : List LogEntry) : List LogEntry := log.filter fun entry => entry.type = .TIME

/-- The text of a version that is an anchor. -/
def versionText (anchor : LogEntry) : String := anchor.cid.toString

/-- The versions of a log: the genesis and the anchors. -/
def versions (log : List LogEntry) : List String := "0" :: (anchors log).map versionText

/-- The didDocumentMetadata of a version. -/
def metadataOf (loads : Loads) (id : StreamID) (version : String) : Except JsError DIDDocumentMetadata :=
  (resolve loads id.toString { commit := some version }).map (·.didDocumentMetadata)

/-- From a version on, `nextVersionId` leads through the others in order and stops at the last one. -/
def Follows (resolved : String → Except JsError DIDDocumentMetadata) : String → List String → Prop
  | version, [] => ∃ metadata, resolved version = .ok metadata ∧ metadata.nextVersionId = none
  | version, next :: rest =>
    (∃ metadata, resolved version = .ok metadata ∧ metadata.nextVersionId = some next) ∧ Follows resolved next rest

/-- The version is the anchor, `nextUpdate` is its time, and it is resolved as the version it was announced as. -/
structure Announces (resolved : String → Except JsError DIDDocumentMetadata) (metadata : DIDDocumentMetadata)
    (next : String) (anchor : LogEntry) : Prop where
  versionId : next = versionText anchor
  nextUpdate : ∃ seconds time, anchor.timestamp = .seconds seconds ∧ formatTime seconds = .ok time ∧
    metadata.nextUpdate = some time
  resolves : ∃ itsMetadata, resolved next = .ok itsMetadata ∧ itsMetadata.versionId = some next ∧
    itsMetadata.updated = metadata.nextUpdate

/-- Every version is resolved, the next one that it names is the next anchor, and all of them are visited once. -/
structure VersionChain (resolved : String → Except JsError DIDDocumentMetadata) (log : List LogEntry) : Prop where
  resolves : ∀ version ∈ versions log, ∃ metadata, resolved version = .ok metadata
  next : ∀ (i : Nat) version metadata next, (versions log)[i]? = some version → resolved version = .ok metadata →
    metadata.nextVersionId = some next → ∃ anchor, (anchors log)[i]? = some anchor ∧
      Announces resolved metadata next anchor
  visits : Follows resolved "0" ((anchors log).map versionText)
  once : ((anchors log).map versionText).Nodup

/-- A date can be written. -/
def InDateRange : Timestamp → Prop
  | .seconds n => n ≤ MAX_DATE_SECONDS
  | .undefined | .null => True

/-- Each anchor is later than the one before it, and no other entry is later than the anchor before it: ahead of the
first anchor there is no time, and that anchor has one. All anchors have a time that can be written. -/
def Chained : Timestamp → List LogEntry → Prop
  | _, [] => True
  | passed, entry :: log =>
    if entry.type = .TIME then isNext passed entry = true ∧ InDateRange entry.timestamp ∧ Chained entry.timestamp log
    else isNext passed entry = false ∧ Chained passed log

/-- What a version gives: the metadata at its time. -/
def metadataAt (log : List LogEntry) (updated : Timestamp) (versionId : String) :
    Except JsError DIDDocumentMetadata := do
  let next := log.find? (isNext updated)
  let updated ← formatTime? updated
  let nextUpdate ← formatTime? ((next.map (·.timestamp)).getD .undefined)
  return { updated, nextUpdate, versionId := some versionId, nextVersionId := next.map (·.cid.toString) }

/-- The seconds of a time; no time counts as 0. -/
def secondsOf (t : Timestamp) : Nat := t.toNumber.getD 0

theorem isNext_iff {passed : Timestamp} {entry : LogEntry} :
    isNext passed entry = true ↔ secondsOf passed < secondsOf entry.timestamp := by
  unfold isNext secondsOf
  cases passed <;> cases entry.timestamp <;> simp [Timestamp.truthy, Timestamp.toNumber]
  omega

theorem isNext_eq_false {passed : Timestamp} {entry : LogEntry} :
    isNext passed entry = false ↔ secondsOf entry.timestamp ≤ secondsOf passed := by
  rw [← Bool.not_eq_true, isNext_iff, Nat.not_lt]

theorem seconds_of_next {passed : Timestamp} {entry : LogEntry} (next : isNext passed entry = true) :
    ∃ n, entry.timestamp = .seconds (n + 1) := by
  rw [isNext_iff] at next
  cases time : entry.timestamp with
  | seconds n =>
    rw [time] at next
    have positive : 0 < n := Nat.lt_of_le_of_lt (Nat.zero_le _) next
    exact ⟨n - 1, congrArg _ (Nat.sub_add_cancel positive).symm⟩
  | undefined => simp [time, secondsOf, Timestamp.toNumber] at next
  | null => simp [time, secondsOf, Timestamp.toNumber] at next

theorem formatTime_ok {n : Nat} : (∃ text, formatTime n = .ok text) ↔ n ≤ MAX_DATE_SECONDS := by
  unfold formatTime
  split
  next above => simp [above]
  next within => simpa using Nat.le_of_not_lt within

theorem formatTime?_ok {t : Timestamp} : (∃ text, formatTime? t = .ok text) ↔ InDateRange t := by
  cases t with
  | undefined => simp [formatTime?, InDateRange]
  | null => simp [formatTime?, InDateRange]
  | seconds n =>
    cases n with
    | zero => simp [formatTime?, InDateRange]
    | succ n =>
      rw [show InDateRange (.seconds (n + 1)) = (n + 1 ≤ MAX_DATE_SECONDS) from rfl, ← formatTime_ok]
      show (∃ text, (formatTime (n + 1)).map some = .ok text) ↔ _
      cases formatTime (n + 1) <;> simp [Except.map]

section

variable {log before after : List LogEntry} {passed : Timestamp} {anchor : LogEntry}

theorem metadataAt_ok {updated : Timestamp} {versionId : String} {metadata : DIDDocumentMetadata} :
    metadataAt log updated versionId = .ok metadata ↔
      formatTime? updated = .ok metadata.updated ∧
      formatTime? (((log.find? (isNext updated)).map (·.timestamp)).getD .undefined) = .ok metadata.nextUpdate ∧
      metadata.versionId = some versionId ∧
      metadata.nextVersionId = (log.find? (isNext updated)).map (·.cid.toString) := by
  constructor
  · intro given
    obtain ⟨_, isUpdated, given⟩ := bind_eq_ok.mp given
    obtain ⟨_, isNextUpdate, given⟩ := bind_eq_ok.mp given
    obtain rfl := Except.ok.inj given
    exact ⟨isUpdated, isNextUpdate, rfl, rfl⟩
  · rintro ⟨isUpdated, isNextUpdate, isVersion, isNextVersion⟩
    refine bind_eq_ok.mpr ⟨_, isUpdated, bind_eq_ok.mpr ⟨_, isNextUpdate, ?_⟩⟩
    rw [← isVersion, ← isNextVersion]
    rfl

theorem anchors_cons_anchor (isAnchor : anchor.type = .TIME) : anchors (anchor :: log) = anchor :: anchors log :=
  List.filter_cons_of_pos (by simpa using isAnchor)

theorem anchors_cons_other (other : anchor.type ≠ .TIME) : anchors (anchor :: log) = anchors log :=
  List.filter_cons_of_neg (by simpa using other)

theorem mem_anchors : anchor ∈ anchors log ↔ anchor ∈ log ∧ anchor.type = .TIME := by
  simp [anchors]

/-- The log around one of its anchors. -/
theorem anchors_split {i : Nat} (at_ : (anchors log)[i]? = some anchor) :
    ∃ before after, log = before ++ anchor :: after ∧ anchor.type = .TIME ∧
      (anchors after)[0]? = (anchors log)[i + 1]? := by
  induction log generalizing i with
  | nil => cases at_
  | cons entry log ih =>
    by_cases isAnchor : entry.type = .TIME
    · rw [anchors_cons_anchor isAnchor] at at_ ⊢
      cases i with
      | zero =>
        obtain rfl := Option.some.inj at_
        exact ⟨[], log, rfl, isAnchor, rfl⟩
      | succ i =>
        obtain ⟨before, after, rfl, isTime, following⟩ := ih at_
        exact ⟨entry :: before, after, rfl, isTime, following⟩
    · rw [anchors_cons_other isAnchor] at at_ ⊢
      obtain ⟨before, after, rfl, isTime, following⟩ := ih at_
      exact ⟨entry :: before, after, rfl, isTime, following⟩

/-- In a chained log the next version is the next anchor. -/
theorem find_chained (chained : Chained passed log) : log.find? (isNext passed) = (anchors log)[0]? := by
  induction log with
  | nil => rfl
  | cons entry log ih =>
    unfold Chained at chained
    split at chained
    next isAnchor =>
      rw [List.find?_cons_of_pos chained.1, anchors_cons_anchor isAnchor]
      rfl
    next other =>
      rw [List.find?_cons_of_neg (Bool.eq_false_iff.mp chained.1), anchors_cons_other other]
      exact ih chained.2

/-- What is ahead of an anchor is not later than it, and behind it the log is chained. -/
theorem chained_at (isAnchor : anchor.type = .TIME) (chained : Chained passed (before ++ anchor :: after)) :
    isNext passed anchor = true ∧ (∀ entry ∈ before, isNext anchor.timestamp entry = false) ∧
      InDateRange anchor.timestamp ∧ Chained anchor.timestamp after := by
  induction before generalizing passed with
  | nil =>
    rw [List.nil_append, Chained, if_pos isAnchor] at chained
    exact ⟨chained.1, fun _ => nofun, chained.2⟩
  | cons entry before ih =>
    rw [List.cons_append, Chained] at chained
    split at chained
    next =>
      obtain ⟨next, _, chained⟩ := chained
      obtain ⟨later, earlier, behind⟩ := ih chained
      rw [isNext_iff] at next later
      refine ⟨isNext_iff.mpr (Nat.lt_trans next later), List.forall_mem_cons.mpr ⟨?_, earlier⟩, behind⟩
      exact isNext_eq_false.mpr (Nat.le_of_lt later)
    next =>
      obtain ⟨later, earlier, behind⟩ := ih chained.2
      refine ⟨later, List.forall_mem_cons.mpr ⟨?_, earlier⟩, behind⟩
      exact isNext_eq_false.mpr (Nat.le_trans (isNext_eq_false.mp chained.1) (Nat.le_of_lt (isNext_iff.mp later)))

theorem find_at (isAnchor : anchor.type = .TIME) (chained : Chained passed (before ++ anchor :: after)) :
    (before ++ anchor :: after).find? (isNext anchor.timestamp) = (anchors after)[0]? := by
  obtain ⟨_, earlier, _, behind⟩ := chained_at isAnchor chained
  have itself : isNext anchor.timestamp anchor = false := isNext_eq_false.mpr (Nat.le_refl _)
  rw [List.find?_append, List.find?_eq_none.mpr (fun entry member => Bool.eq_false_iff.mp (earlier entry member)),
    Option.none_or, List.find?_cons_of_neg (Bool.eq_false_iff.mp itself)]
  exact find_chained behind

end

/-- What a resolver gives for the versions of a log: at the genesis it may have the time of the entry or none. -/
structure Resolves (resolved : String → Except JsError DIDDocumentMetadata) (log : List LogEntry) : Prop where
  genesis : ∃ updated, resolved "0" = metadataAt log updated "0" ∧
    (updated.truthy = true → ∃ entry ∈ log.head?, updated = entry.timestamp)
  anchor : ∀ anchor ∈ anchors log, resolved (versionText anchor) =
    metadataAt log anchor.timestamp (versionText anchor)

/-- The entries are told apart by their texts, and the genesis has no other time than that of the first anchor. -/
structure Entries (log : List LogEntry) : Prop where
  distinct : (log.map versionText).Nodup
  genesis : ∀ entry ∈ log.head?, entry.type ≠ .TIME ∧
    (entry.timestamp.truthy = true → entry.timestamp = firstAnchorTimestamp log)
  anchored : .TIME ∈ log.map (·.type)

section

variable {log before after : List LogEntry} {resolved : String → Except JsError DIDDocumentMetadata} {passed : Timestamp}
  {version : String} {entry anchor : LogEntry}

theorem Entries.eq_of_text (of : Entries log) (member : entry ∈ log) (anchorMember : anchor ∈ log)
    (same : versionText entry = versionText anchor) : entry = anchor :=
  List.inj_on_of_nodup_map of.distinct member anchorMember same

theorem follows_next {texts : List String} (follows : Follows resolved version texts) :
    ∃ metadata, resolved version = .ok metadata ∧ metadata.nextVersionId = texts[0]? := by
  cases texts with
  | nil => exact follows
  | cons next rest => exact follows.1

/-- What the next version is found to be, when it is the next anchor. -/
theorem found_of_follows (of : Entries log) (split : log = before ++ after)
    (isVersion : resolved version = metadataAt log passed version)
    (follows : Follows resolved version ((anchors after).map versionText)) :
    log.find? (isNext passed) = (anchors after)[0]? := by
  obtain ⟨metadata, given, next⟩ := follows_next follows
  obtain ⟨_, _, _, isNextVersion⟩ := metadataAt_ok.mp (isVersion.symm.trans given)
  rw [isNextVersion, List.getElem?_map] at next
  cases found : log.find? (isNext passed) with
  | none =>
    rw [found] at next
    cases anchor : (anchors after)[0]? with
    | none => rfl
    | some anchor =>
      rw [anchor] at next
      cases next
  | some entry =>
    rw [found] at next
    cases at_ : (anchors after)[0]? with
    | none =>
      rw [at_] at next
      cases next
    | some anchor =>
      rw [at_] at next
      have member : anchor ∈ log := by
        rw [split]
        exact List.mem_append_right _ (mem_anchors.mp (List.mem_of_getElem? at_)).1
      rw [of.eq_of_text (List.mem_of_find?_eq_some found) member (Option.some.inj next)]

/-- If all anchors behind a version are visited, the log is chained behind it. -/
theorem chained_of_follows (of : Entries log) (resolves : Resolves resolved log) (split : log = before ++ after)
    (isVersion : resolved version = metadataAt log passed version)
    (follows : Follows resolved version ((anchors after).map versionText)) : Chained passed after := by
  induction after generalizing before passed version with
  | nil => trivial
  | cons entry after ih =>
    have found := found_of_follows of split isVersion follows
    have split' : log = (before ++ [entry]) ++ after := by rw [split, List.append_assoc, List.singleton_append]
    have member : entry ∈ log := by
      rw [split]
      exact List.mem_append_right _ List.mem_cons_self
    unfold Chained
    split
    next isAnchor =>
      rw [anchors_cons_anchor isAnchor] at follows found
      have itself := resolves.anchor entry (mem_anchors.mpr ⟨member, isAnchor⟩)
      obtain ⟨metadata, given, _⟩ := follows_next follows.2
      obtain ⟨isUpdated, _⟩ := metadataAt_ok.mp (itself.symm.trans given)
      exact ⟨List.find?_some found, formatTime?_ok.mp ⟨_, isUpdated⟩, ih split' itself follows.2⟩
    next other =>
      rw [anchors_cons_other other] at follows found
      refine ⟨Bool.eq_false_iff.mpr fun next => ?_, ih split' isVersion follows⟩
      -- this entry, or one ahead of it, would be found
      obtain ⟨earlier, isEarlier⟩ : ∃ earlier, (before ++ [entry]).find? (isNext passed) = some earlier :=
        Option.isSome_iff_exists.mp (List.find?_isSome.mpr ⟨entry, by simp, next⟩)
      rw [split', List.find?_append, isEarlier, Option.some_or] at found
      have ahead := List.mem_of_find?_eq_some isEarlier
      have behind := (mem_anchors.mp (List.mem_of_getElem? found.symm)).1
      have distinct := List.Nodup.of_map _ of.distinct
      rw [split'] at distinct
      exact (List.nodup_append.mp distinct).2.2 earlier ahead earlier behind rfl

/-- In a chained log all anchors behind a version are visited. -/
theorem follows_of_chained {first : Timestamp} (chained : Chained first log) (resolves : Resolves resolved log)
    (split : log = before ++ after) (isVersion : resolved version = metadataAt log passed version)
    (inRange : InDateRange passed) (found : log.find? (isNext passed) = (anchors after)[0]?) :
    Follows resolved version ((anchors after).map versionText) := by
  induction after generalizing before passed version with
  | nil =>
    obtain ⟨updated, isUpdated⟩ := formatTime?_ok.mpr inRange
    have found : log.find? (isNext passed) = none := found
    refine ⟨{ updated, nextUpdate := none, versionId := some version, nextVersionId := none }, ?_, rfl⟩
    rw [isVersion, metadataAt_ok, found]
    exact ⟨isUpdated, rfl, rfl, rfl⟩
  | cons entry after ih =>
    have split' : log = (before ++ [entry]) ++ after := by rw [split, List.append_assoc, List.singleton_append]
    by_cases isAnchor : entry.type = .TIME
    · rw [anchors_cons_anchor isAnchor] at found ⊢
      have isFound : log.find? (isNext passed) = some entry := found
      obtain ⟨_, _, itsRange, _⟩ := chained_at isAnchor (split ▸ chained)
      obtain ⟨updated, isUpdated⟩ := formatTime?_ok.mpr inRange
      obtain ⟨nextUpdate, isNextUpdate⟩ := formatTime?_ok.mpr itsRange
      refine ⟨⟨{ updated, nextUpdate, versionId := some version, nextVersionId := some (versionText entry) }, ?_, rfl⟩,
        ?_⟩
      · rw [isVersion, metadataAt_ok, isFound]
        exact ⟨isUpdated, isNextUpdate, rfl, rfl⟩
      · refine ih split' (resolves.anchor entry (mem_anchors.mpr ⟨?_, isAnchor⟩)) itsRange ?_
        · rw [split]
          exact List.mem_append_right _ List.mem_cons_self
        · rw [split]
          exact find_at isAnchor (split ▸ chained)
    · rw [anchors_cons_other isAnchor] at found ⊢
      exact ih split' isVersion inRange found

theorem truthy_iff {t : Timestamp} : t.truthy = true ↔ 0 < secondsOf t := by
  cases t <;> simp [Timestamp.truthy, secondsOf, Timestamp.toNumber, Nat.pos_iff_ne_zero]

theorem untimed_next {t : Timestamp} (untimed : ¬t.truthy = true) : isNext t = isNext .undefined := by
  funext entry
  have zero : secondsOf t = secondsOf .undefined := Nat.eq_zero_of_not_pos fun positive => untimed (truthy_iff.mpr positive)
  rw [Bool.eq_iff_iff, isNext_iff, isNext_iff, zero]

theorem chained_untimed {t : Timestamp} (untimed : ¬t.truthy = true) (log : List LogEntry) :
    Chained t log ↔ Chained .undefined log := by
  induction log with
  | nil => exact Iff.rfl
  | cons entry log ih => rw [Chained, Chained, untimed_next untimed, ih]

theorem inRange_untimed {t : Timestamp} (untimed : ¬t.truthy = true) : InDateRange t := by
  cases t with
  | seconds n =>
    have zero : n = 0 := Nat.eq_zero_of_not_pos fun positive => untimed (truthy_iff.mpr positive)
    exact zero ▸ Nat.zero_le _
  | undefined | null => trivial

theorem firstAnchorTimestamp_anchors (anchored : .TIME ∈ log.map (·.type)) :
    ∃ anchor, (anchors log)[0]? = some anchor ∧ firstAnchorTimestamp log = anchor.timestamp := by
  induction log with
  | nil => cases anchored
  | cons entry log ih =>
    by_cases isAnchor : entry.type = .TIME
    · exact ⟨entry, by rw [anchors_cons_anchor isAnchor]; rfl, by rw [firstAnchorTimestamp_cons, if_pos isAnchor]⟩
    · rw [anchors_cons_other isAnchor, firstAnchorTimestamp_cons, if_neg isAnchor]
      exact ih (by simpa [Ne.symm isAnchor] using anchored)

/-- The genesis has no time, if the first anchor is found behind it. -/
theorem genesis_untimed (of : Entries log) {updated : Timestamp}
    (isTime : updated.truthy = true → ∃ entry ∈ log.head?, updated = entry.timestamp)
    (found : log.find? (isNext updated) = (anchors log)[0]?) : ¬updated.truthy = true := by
  intro truthy
  obtain ⟨genesis, isHead, rfl⟩ := isTime truthy
  obtain ⟨anchor, isFirst, time⟩ := firstAnchorTimestamp_anchors of.anchored
  have sameTime := ((of.genesis genesis isHead).2 truthy).trans time
  have next := List.find?_some (found.trans isFirst)
  rw [isNext_iff, sameTime] at next
  exact Nat.lt_irrefl _ next

theorem untimed_of_chained (of : Entries log) (chained : Chained .undefined log) {updated : Timestamp}
    (isTime : updated.truthy = true → ∃ entry ∈ log.head?, updated = entry.timestamp) : ¬updated.truthy = true := by
  intro truthy
  obtain ⟨genesis, isHead, rfl⟩ := isTime truthy
  obtain ⟨rest, rfl⟩ := List.head?_eq_some_iff.mp isHead
  rw [Chained, if_neg (of.genesis genesis isHead).1, isNext_eq_false] at chained
  exact Nat.not_lt.mpr chained.1 (truthy_iff.mp truthy)

theorem announces_of_next {metadata : DIDDocumentMetadata} {next : String} (resolves : Resolves resolved log)
    (given : resolved version = .ok metadata) (isVersion : resolved version = metadataAt log passed version)
    (isNextVersion : metadata.nextVersionId = some next) (member : anchor ∈ anchors log)
    (found : log.find? (isNext passed) = some anchor)
    (itsMetadata : ∃ itsMetadata, resolved (versionText anchor) = .ok itsMetadata) :
    Announces resolved metadata next anchor := by
  obtain ⟨isUpdated, isNextUpdate, _, isNextText⟩ := metadataAt_ok.mp (isVersion.symm.trans given)
  rw [found] at isNextUpdate isNextText
  obtain rfl : versionText anchor = next := Option.some.inj (isNextText.symm.trans isNextVersion)
  obtain ⟨itsMetadata, itsGiven⟩ := itsMetadata
  obtain ⟨itsUpdated, _, itsVersion, _⟩ := metadataAt_ok.mp ((resolves.anchor anchor member).symm.trans itsGiven)
  have itsTime : formatTime? anchor.timestamp = .ok metadata.nextUpdate := isNextUpdate
  refine ⟨rfl, ?_, itsMetadata, itsGiven, itsVersion, Except.ok.inj (itsUpdated.symm.trans itsTime)⟩
  obtain ⟨n, seconds⟩ := seconds_of_next (List.find?_some found)
  rw [seconds] at itsTime
  obtain ⟨time, formatted, isSome⟩ := map_eq_ok.mp itsTime
  exact ⟨n + 1, time, seconds, formatted, isSome.symm⟩

theorem versionChain_of_chained (of : Entries log) (resolves : Resolves resolved log)
    (chained : Chained .undefined log) : VersionChain resolved log := by
  obtain ⟨updated, isGenesis, isTime⟩ := resolves.genesis
  have untimed := untimed_of_chained of chained isTime
  have first : log.find? (isNext updated) = (anchors log)[0]? := by
    rw [untimed_next untimed]
    exact find_chained chained
  have follows := @follows_of_chained log [] log resolved updated "0" .undefined chained resolves rfl isGenesis
    (inRange_untimed untimed) first
  have atAnchor (anchor : LogEntry) (member : anchor ∈ anchors log) :
      ∃ metadata, resolved (versionText anchor) = .ok metadata := by
    obtain ⟨i, at_⟩ := List.mem_iff_getElem?.mp member
    obtain ⟨before, after, split, isAnchor, _⟩ := anchors_split at_
    have inRange := (chained_at isAnchor (split ▸ chained)).2.2.1
    have behind := @follows_of_chained log (before ++ [anchor]) after resolved anchor.timestamp (versionText anchor)
      .undefined chained resolves (by rw [split, List.append_assoc, List.singleton_append])
      (resolves.anchor anchor member) inRange (by rw [split]; exact find_at isAnchor (split ▸ chained))
    obtain ⟨metadata, given, _⟩ := follows_next behind
    exact ⟨metadata, given⟩
  refine ⟨?_, ?_, follows, ?_⟩
  · refine List.forall_mem_cons.mpr ⟨?_, fun version member => ?_⟩
    · obtain ⟨metadata, given, _⟩ := follows_next follows
      exact ⟨metadata, given⟩
    · obtain ⟨anchor, isAnchor, rfl⟩ := List.mem_map.mp member
      exact atAnchor anchor isAnchor
  · intro i version metadata next at_ given isNextVersion
    obtain ⟨passed, isVersion, found⟩ : ∃ passed, resolved version = metadataAt log passed version ∧
        log.find? (isNext passed) = (anchors log)[i]? := by
      cases i with
      | zero =>
        obtain rfl := Option.some.inj at_
        exact ⟨updated, isGenesis, first⟩
      | succ i =>
        have isText : ((anchors log).map versionText)[i]? = some version := at_
        rw [List.getElem?_map] at isText
        obtain ⟨anchor, here, rfl⟩ := Option.map_eq_some_iff.mp isText
        obtain ⟨before, after, split, isAnchor, following⟩ := anchors_split here
        refine ⟨anchor.timestamp, resolves.anchor anchor (List.mem_of_getElem? here), ?_⟩
        rw [← following, split]
        exact find_at isAnchor (split ▸ chained)
    cases isFound : (anchors log)[i]? with
    | none =>
      obtain ⟨_, _, _, isNextText⟩ := metadataAt_ok.mp (isVersion.symm.trans given)
      rw [found, isFound, isNextVersion] at isNextText
      cases isNextText
    | some anchor =>
      have member := List.mem_of_getElem? isFound
      exact ⟨anchor, rfl, announces_of_next resolves given isVersion isNextVersion member (found.trans isFound)
        (atAnchor anchor member)⟩
  · exact of.distinct.sublist (List.Sublist.map _ List.filter_sublist)

/-- The versions of a log form a chain exactly if the log is chained. -/
theorem chain_iff (of : Entries log) (resolves : Resolves resolved log) :
    VersionChain resolved log ↔ Chained .undefined log := by
  constructor
  · intro chain
    obtain ⟨updated, isGenesis, isTime⟩ := resolves.genesis
    have found := @found_of_follows log [] log resolved updated "0" of rfl isGenesis chain.visits
    have untimed := genesis_untimed of isTime found
    rw [← chained_untimed untimed]
    exact @chained_of_follows log [] log resolved updated "0" of resolves rfl isGenesis chain.visits
  · exact versionChain_of_chained of resolves

end

theorem bytes_ne_nil {cid : Cid} (wellFormed : cid.WellFormed) : cid.bytes ≠ [] := by
  obtain ⟨b, rest, bytes, _⟩ := wellFormed.lead
  rw [bytes]
  exact List.cons_ne_nil _ _

/-- The commits of a stream that are versions: the genesis and the anchors. -/
def Version (latest : StreamState) (commitId : CommitID) : Prop :=
  ∃ entry ∈ latest.log.toList, (entry = latest.log.first ∨ entry.type = .TIME) ∧
    commitId = .make latest.type (streamIdFromState latest).cid (some entry.cid)

/-- A node that has the stream: it gives the latest state, and its repository loads the stream at a commit. -/
structure Serves (env : Environment) (store : CommitStore) (load : Except JsError StreamState) (latest : StreamState)
    (loads : Loads) : Prop where
  parses : loads.parseCID = fun text => (Cid.parse text).toOption
  current : loads.load (.streamID (streamIdFromState latest)) none = .ok latest
  version : ∀ commitId, Version latest commitId →
    loads.load (.commitID commitId) none = Repository.loadAtCommit env store load commitId
  unchanged : ∀ found, load = .ok found → found = latest

/-- The latest state of a 3ID: a tile with a log that can be read, of which every version can be loaded. -/
structure ThreeIdLog (env : Environment) (store : CommitStore) (load : Except JsError StreamState)
    (latest : StreamState) (commits : List CommitData) : Prop where
  tile : latest.type = TILE_TYPE_ID
  recorded : RecordedLog store latest commits
  id : (streamIdFromState latest).Readable
  cids : ∀ entry ∈ latest.log.toList, entry.cid.WellFormed
  versions : ∀ commitId, Version latest commitId → ∃ r, Repository.loadAtCommit env store load commitId = .ok r
  genesisTime : latest.log.first.timestamp.truthy = true →
    latest.log.first.timestamp = firstAnchorTimestamp latest.log.toList
  anchored : .TIME ∈ latest.log.toList.map (·.type)

section

variable {env : Environment} {store : CommitStore} {load : Except JsError StreamState} {latest : StreamState}
  {loads : Loads} {commits : List CommitData}

theorem recorded_cids {dispatcher : Dispatcher} {recorded : List LogEntry}
    (records : List.Forall₂ (Records dispatcher) recorded commits) :
    recorded.map (·.cid) = commits.map (·.cid) := by
  induction records with
  | nil => rfl
  | cons first _ ih => rw [List.map_cons, List.map_cons, first.cid, ih]

theorem ThreeIdLog.entries (of : ThreeIdLog env store load latest commits) : Entries latest.log.toList := by
  refine ⟨?_, fun entry isHead => ?_, of.anchored⟩
  · obtain ⟨tip, path⟩ := of.recorded.path
    have distinct : (latest.log.toList.map (·.cid)).Nodup := by
      rw [recorded_cids of.recorded.records]
      exact path_nodup path of.recorded.stored
    have inj := List.inj_on_of_nodup_map distinct
    refine List.Nodup.map_on (fun a ha b hb same => inj ha hb ?_) (List.Nodup.of_map _ distinct)
    exact Cid.toString_injective same
  · have head := NonEmptyArray.head?_toList latest.log
    obtain rfl := Option.some.inj (head.symm.trans isHead)
    refine ⟨?_, of.genesisTime⟩
    have at_ : latest.log.toList[0]? = some latest.log.first := by rwa [← List.head?_eq_getElem?]
    obtain ⟨c, here, records⟩ := of.recorded.getElem? at_
    intro isAnchor
    cases commits with
    | nil => cases here
    | cons g cs =>
      obtain rfl := Option.some.inj here
      exact of.recorded.genesis (records.anchor.mp isAnchor)

/-- A version, as the commit that is asked for. -/
theorem resolve_version (of : ThreeIdLog env store load latest commits) (serves : Serves env store load latest loads)
    {version : String} {commit : Option Cid} (nonempty : version ≠ "")
    (parsed : StreamRefParsing.parseCommit loads.parseCID (streamIdFromState latest).cid (.text version) = .ok commit)
    (real : ∀ c ∈ commit, c.WellFormed) {r : StreamState}
    (isVersion : Version latest (.make latest.type (streamIdFromState latest).cid commit))
    (loaded : Repository.loadAtCommit env store load (.make latest.type (streamIdFromState latest).cid commit) = .ok r) :
    metadataOf loads (streamIdFromState latest) version = extractMetadata r latest := by
  have reads : StreamID.fromString loads.parseCID (streamIdFromState latest).toString = .ok (streamIdFromState latest) := by
    rw [serves.parses]
    exact of.id.read
  have asked : requestedCommit loads.parseCID (streamIdFromState latest) { commit := some version } =
      .ok (some (.make latest.type (streamIdFromState latest).cid commit)) := by
    unfold requestedCommit
    simp only [Option.filter, decide_eq_true nonempty, if_true]
    exact bind_eq_ok.mpr ⟨commit, parsed, rfl⟩
  have apart : (CommitID.make latest.type (streamIdFromState latest).cid commit).toString ≠
      (streamIdFromState latest).toString := by
    refine CommitID.toString_ne_baseID (.make latest.type (streamIdFromState latest).cid commit) fun c member => ?_
    refine bytes_ne_nil (real c ?_)
    cases commit with
    | none => cases member
    | some given =>
      by_cases isGenesis : given = (streamIdFromState latest).cid
      · simp [CommitID.make, isGenesis] at member
      · simpa [CommitID.make, isGenesis] using member
  have found := (serves.version _ isVersion).trans loaded
  unfold metadataOf
  rw [resolve_commit reads asked serves.current found apart]
  cases extractMetadata r latest <;> rfl

/-- The log around one of its entries. -/
theorem ThreeIdLog.around (of : ThreeIdLog env store load latest commits) {i : Nat} {known : LogEntry}
    (at_ : latest.log.toList[i]? = some known) : ∃ shared c removed, shared.length = i ∧ known.cid = c.cid ∧
      RecordedLog store latest ((shared ++ [c]) ++ removed) := by
  obtain ⟨c, here, records⟩ := of.recorded.getElem? at_
  refine ⟨commits.take i, c, commits.drop (i + 1), ?_, records.cid, ?_⟩
  · have within := (List.getElem?_eq_some_iff.mp here).1
    rw [List.length_take]
    omega
  · have cut : commits.take (i + 1) = commits.take i ++ [c] := by
      rw [List.take_add_one, here]
      rfl
    rw [← cut, List.take_append_drop]
    exact of.recorded

theorem ThreeIdLog.resolve_genesis (of : ThreeIdLog env store load latest commits)
    (serves : Serves env store load latest loads) :
    ∃ updated, metadataOf loads (streamIdFromState latest) "0" = metadataAt latest.log.toList updated "0" ∧
      (updated.truthy = true → ∃ entry ∈ latest.log.toList.head?, updated = entry.timestamp) := by
  have head := NonEmptyArray.head?_toList latest.log
  have at_ : latest.log.toList[0]? = some latest.log.first := by rwa [← List.head?_eq_getElem?]
  obtain ⟨shared, c, removed, length, sameCid, recorded⟩ := of.around at_
  obtain rfl := List.eq_nil_of_length_eq_zero length
  have isGenesis : CommitID.make latest.type (streamIdFromState latest).cid (some latest.log.first.cid) =
      .make latest.type (streamIdFromState latest).cid none := by
    have same : latest.log.first.cid = (streamIdFromState latest).cid := rfl
    simp [CommitID.make, same]
  have isVersion : Version latest (.make latest.type (streamIdFromState latest).cid none) :=
    ⟨latest.log.first, List.mem_of_getElem? at_, .inl rfl, isGenesis.symm⟩
  obtain ⟨r, loaded⟩ := of.versions _ isVersion
  have isCommit : (CommitID.make latest.type (streamIdFromState latest).cid none).commitCid = c.cid := sameCid
  obtain ⟨single, -, time⟩ := log_at_genesis of.tile recorded at_ serves.unchanged rfl isCommit loaded
  refine ⟨(lastAnchorOrGenesisEntry r.log).timestamp, ?_, fun truthy => ⟨_, head, time truthy⟩⟩
  rw [resolve_version of serves (by decide) rfl (fun _ isSome => by cases isSome) isVersion loaded]
  dsimp only [extractMetadata]
  rw [if_pos single]
  rfl

theorem ThreeIdLog.resolve_anchor (of : ThreeIdLog env store load latest commits)
    (serves : Serves env store load latest loads) {anchor : LogEntry} (member : anchor ∈ anchors latest.log.toList) :
    metadataOf loads (streamIdFromState latest) (versionText anchor) =
      metadataAt latest.log.toList anchor.timestamp (versionText anchor) := by
  obtain ⟨inLog, isAnchor⟩ := mem_anchors.mp member
  have wellFormed := of.cids anchor inLog
  obtain ⟨i, at_⟩ := List.mem_iff_getElem?.mp inLog
  obtain ⟨shared, c, removed, rfl, sameCid, recorded⟩ := of.around at_
  have isVersion : Version latest (.make latest.type (streamIdFromState latest).cid (some anchor.cid)) :=
    ⟨anchor, inLog, .inr isAnchor, rfl⟩
  obtain ⟨r, loaded⟩ := of.versions _ isVersion
  have head := NonEmptyArray.head?_toList latest.log
  have notGenesis : (streamIdFromState latest).cid ≠ anchor.cid := by
    intro same
    have isFirst : latest.log.first = anchor :=
      of.entries.eq_of_text (List.mem_of_head? head) inLog (congrArg Cid.toString same)
    exact (of.entries.genesis latest.log.first head).1 (isFirst ▸ isAnchor)
  have parsed : StreamRefParsing.parseCommit loads.parseCID (streamIdFromState latest).cid
      (.text (versionText anchor)) = .ok (some anchor.cid) := by
    have notSpecial : ¬(anchor.cid.toString = "" ∨ anchor.cid.toString = "0") :=
      not_or.mpr ⟨Cid.toString_ne wellFormed rfl, Cid.toString_ne wellFormed rfl⟩
    unfold StreamRefParsing.parseCommit versionText
    simp only [if_neg notSpecial, serves.parses, Cid.parse_toString wellFormed, Except.toOption, if_neg notGenesis]
  have isCommit : (CommitID.make latest.type (streamIdFromState latest).cid (some anchor.cid)).commitCid = c.cid := by
    rw [← sameCid]
    simp [CommitID.make, Ne.symm notGenesis, CommitID.commitCid]
  obtain ⟨several, cid, time⟩ := log_at_anchor recorded at_ isAnchor serves.unchanged rfl isCommit loaded
  have nonempty : versionText anchor ≠ "" := Cid.toString_ne wellFormed rfl
  rw [resolve_version of serves nonempty parsed
    (fun _ isSome => Option.some.inj isSome ▸ wellFormed) isVersion loaded]
  dsimp only [extractMetadata]
  rw [if_neg several, cid, time]
  rfl

/-- The versions of a 3ID form a chain exactly if each anchor in its log is later than the one before it and no other
entry is. -/
theorem versionChain_iff (of : ThreeIdLog env store load latest commits)
    (serves : Serves env store load latest loads) :
    VersionChain (metadataOf loads (streamIdFromState latest)) latest.log.toList ↔
      Chained .undefined latest.log.toList :=
  chain_iff of.entries ⟨of.resolve_genesis serves, fun _ member => of.resolve_anchor serves member⟩

end

/-- The log of a 3ID as the anchor handler leaves it is not chained: the genesis has the time of the first anchor. -/
theorem not_chained_of_anchoredTimes {log : List LogEntry} (of : Entries log) (timed : AnchoredTimes log) :
    ¬Chained .undefined log := by
  intro chained
  cases log with
  | nil => exact absurd of.anchored List.not_mem_nil
  | cons genesis log =>
    have notAnchor := (of.genesis genesis rfl).1
    obtain ⟨anchor, isFirst, time⟩ := firstAnchorTimestamp_anchors of.anchored
    have found := find_chained chained
    rw [isFirst] at found
    have later := isNext_iff.mp (List.find?_some found)
    rw [Chained, if_neg notAnchor, isNext_eq_false, timed [] genesis log rfl of.anchored, time] at chained
    exact Nat.not_lt.mpr chained.1 later

namespace VersionChainFixture

def cid (n : UInt8) : Cid := .v1 0x71 (createMultihash 0x12 (List.replicate 32 n))

theorem cid_wellFormed (n : UInt8) : (cid n).WellFormed :=
  .v1 _ _ _ (by decide) (by decide) (by simp; decide)

/-- A 3ID with an update that is anchored. -/
def blocks : List BlockStore.Block :=
  [⟨cid 1, .plain { header := some [("controllers", .arr [.str "did:key:z6Mk"])] }⟩,
   ⟨cid 2, .signed ⟨cid 20, "", ""⟩⟩,
   ⟨cid 20, .plain { id := some (cid 1), prev := some (cid 1), header := some [] }⟩,
   ⟨cid 3, .plain { id := some (cid 1), prev := some (cid 2), proof := some (cid 9) }⟩]

def height (cid : Cid) : Nat := (cid.bytes.getLastD 0).toNat

def threeIdStore : CommitStore where
  toDispatcher := BlockStore.dispatcher blocks (fun _ => some ⟨"eip155:1", cid 8, cid 2, none⟩) fun _ => some 100
  height := height
  acyclic cid c prev found link := by
    have ordered : ∀ block ∈ blocks, ∀ prev ∈ (BlockStore.payload blocks block.stored).prev,
        height prev < height block.cid := by
      decide +kernel
    obtain ⟨block, member, rfl, payload⟩ := BlockStore.getCommitData_payload found
    exact ordered block member prev (payload ▸ link)

def commits : List CommitData :=
  [cid 1, cid 2, cid 3].filterMap fun cid => (Utils.getCommitData threeIdStore.toDispatcher cid).toOption

/-- The state, with the time that the entries ahead of the anchor have. -/
def threeId (copied : Timestamp) : StreamState where
  type := TILE_TYPE_ID
  content := .obj []
  metadata := [("controllers", .arr [.str "did:key:z6Mk"])]
  signature := .SIGNED
  anchorStatus := .ANCHORED
  anchorProof := some ⟨"eip155:1", cid 8, cid 2, none⟩
  log := ⟨[⟨cid 1, .INIT, copied, none⟩, ⟨cid 2, .DATA, copied, none⟩, ⟨cid 3, .TIME, .seconds 100, none⟩],
    nofun⟩

def loaded (copied : Timestamp) : StreamRef → Except JsError StreamState
  | .streamID _ => .ok (threeId copied)
  | .commitID commitId => Repository.loadAtCommit .permissive threeIdStore (.ok (threeId copied)) commitId

/-- The stream is kept, and what is loaded of it is loaded from the repository. -/
def loads (copied : Timestamp) : Loads where
  parseCID text := (Cid.parse text).toOption
  load ref _ := do
    let state ← loaded copied ref
    if streamIdFromState state = ref.baseID then return state else throw ⟨"Not a commit of the stream"⟩
  identifies ref _ state loaded := by
    obtain ⟨found, _, checked⟩ := bind_eq_ok.mp loaded
    split at checked
    next same =>
      obtain rfl := Except.ok.inj checked
      exact same
    next => cases checked

theorem recorded (copied : Timestamp) : RecordedLog threeIdStore (threeId copied) commits := by
  refine ⟨?_, ⟨cid 3, ?_⟩, ?_⟩
  · unfold Stored
    decide +kernel
  · exact ⟨rfl, rfl, rfl, rfl⟩
  · have other {entry : LogEntry} {c : CommitData} (cid : entry.cid = c.cid) (isEntry : entry.type ≠ .TIME)
        (isCommit : c.type ≠ .TIME) : Records threeIdStore.toDispatcher entry c :=
      ⟨cid, iff_of_false isEntry isCommit, fun anchor => absurd anchor isCommit⟩
    exact .cons (other rfl nofun (by decide +kernel))
      (.cons (other rfl nofun (by decide +kernel))
        (.cons ⟨rfl, by decide +kernel, fun _ => ⟨100, by decide +kernel, rfl⟩⟩ .nil))

theorem version_cases {copied : Timestamp} {commitId : CommitID} (isVersion : Version (threeId copied) commitId) :
    commitId = .make TILE_TYPE_ID (cid 1) none ∨ commitId = .make TILE_TYPE_ID (cid 1) (some (cid 3)) := by
  obtain ⟨entry, member, isKind, rfl⟩ := isVersion
  simp only [threeId, List.mem_cons, List.not_mem_nil, or_false] at member
  rcases member with rfl | rfl | rfl
  · exact .inl rfl
  · rcases isKind with first | anchor
    · cases first
    · cases anchor
  · exact .inr rfl

theorem loads_version {copied : Timestamp} (given : copied = .undefined ∨ copied = .seconds 100) {commitId : CommitID}
    (isVersion : Version (threeId copied) commitId) :
    ∃ r, Repository.loadAtCommit .permissive threeIdStore (.ok (threeId copied)) commitId = .ok r ∧
      (loads copied).load (.commitID commitId) none = .ok r := by
  have found : (Repository.loadAtCommit .permissive threeIdStore (.ok (threeId copied)) commitId).toOption.map
      streamIdFromState = some commitId.baseID := by
    rcases given with rfl | rfl <;> rcases version_cases isVersion with rfl | rfl <;> decide +kernel
  cases loaded : Repository.loadAtCommit .permissive threeIdStore (.ok (threeId copied)) commitId with
  | error e =>
    rw [loaded] at found
    cases found
  | ok r =>
    rw [loaded] at found
    refine ⟨r, rfl, bind_eq_ok.mpr ⟨r, loaded, ?_⟩⟩
    exact if_pos (Option.some.inj found)

theorem threeIdLog {copied : Timestamp} (given : copied = .undefined ∨ copied = .seconds 100) :
    ThreeIdLog .permissive threeIdStore (.ok (threeId copied)) (threeId copied) commits where
  tile := rfl
  recorded := recorded copied
  id := ⟨Nat.zero_le _, cid_wellFormed 1, rfl⟩
  cids := by
    simp only [threeId, List.mem_cons, List.not_mem_nil, or_false]
    rintro entry (rfl | rfl | rfl) <;> exact cid_wellFormed _
  versions commitId isVersion := by
    obtain ⟨r, loaded, _⟩ := loads_version given isVersion
    exact ⟨r, loaded⟩
  genesisTime := by rcases given with rfl | rfl <;> decide +kernel
  anchored := by rcases given with rfl | rfl <;> decide +kernel

theorem serves {copied : Timestamp} (given : copied = .undefined ∨ copied = .seconds 100) :
    Serves .permissive threeIdStore (.ok (threeId copied)) (threeId copied) (loads copied) where
  parses := rfl
  current := rfl
  version commitId isVersion := by
    obtain ⟨r, loaded, served⟩ := loads_version given isVersion
    rw [loaded, served]
  unchanged found same := (Except.ok.inj same).symm

end VersionChainFixture

open VersionChainFixture

/-- A log from before the handler copied times: all is well. -/
theorem versionChain_iff_untimed :
    VersionChain (metadataOf (loads .undefined) (streamIdFromState (threeId .undefined)))
      (threeId .undefined).log.toList ↔ Chained .undefined (threeId .undefined).log.toList :=
  versionChain_iff (threeIdLog (.inl rfl)) (serves (.inl rfl))

/-- The log that the handler leaves: from version 0 no anchor is found, as none has a later time than the genesis. -/
theorem no_next_version : ¬∀ env store load latest commits loads, ThreeIdLog env store load latest commits →
    Serves env store load latest loads →
      VersionChain (metadataOf loads (streamIdFromState latest)) latest.log.toList := by
  intro all
  have chain := all _ _ _ _ _ _ (threeIdLog (.inr rfl)) (serves (.inr rfl))
  obtain ⟨metadata, given, next⟩ := follows_next chain.visits
  have none : (metadataOf (loads (.seconds 100)) (streamIdFromState (threeId (.seconds 100))) "0").toOption.map
      (·.nextVersionId) = some none := by
    decide +kernel
  rw [given] at none
  have noNext : metadata.nextVersionId = Option.none := Option.some.inj none
  rw [noNext] at next
  cases next

end Ceramic.ThreeIdResolver
