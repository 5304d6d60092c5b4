import Ceramic.IncrementalSync
import Ceramic.LogSyncing

/-! Resetting a state to a commit of its log against loading the log up to that commit. -/
namespace Ceramic

open StateManipulator StreamUtils AnchorTimestampExtractor SignatureUtils

/-- Handlers do not read the `expirationTime` of a commit. -/
theorem applyCommit_expirationTime {env : Environment} {type : Nat} {handler : StreamHandler}
    (registered : HandlersMap.get env type = .ok handler) (c : CommitData) (e : Option Int)
    (given : Option StreamState) :
    handler.applyCommit { c with expirationTime := e } given = handler.applyCommit c given := by
  obtain ⟨member, _⟩ := HandlersMap.get_mem registered
  simp only [HandlersMap.defaultHandlers, List.mem_cons, List.not_mem_nil, or_false] at member
  rcases member with rfl | rfl | rfl | rfl <;> rfl

/-- The same commit, but for its `expirationTime`. -/
def SameButExpiration (c c' : CommitData) : Prop := c' = { c with expirationTime := c'.expirationTime }

theorem applyLogFrom_expirationTime {env : Environment} {type : Nat} {handler : StreamHandler}
    (registered : HandlersMap.get env type = .ok handler) {cs cs' : List CommitData}
    (same : List.Forall₂ SameButExpiration cs cs') (throwing : Bool) (s : StreamState) :
    applyLogFrom handler throwing s cs' = applyLogFrom handler throwing s cs := by
  induction same generalizing s with
  | nil => rfl
  | @cons c c' cs cs' first _ ih =>
    have outcome : handler.applyCommit c' (some s) = handler.applyCommit c (some s) := by
      rw [first]
      exact applyCommit_expirationTime registered c _ _
    simp only [applyLogFrom, outcome, ih]

theorem applyLog_expirationTime {env : Environment} {type : Nat} {handler : StreamHandler}
    (registered : HandlersMap.get env type = .ok handler) {cs cs' : List CommitData}
    (same : List.Forall₂ SameButExpiration cs cs') (throwing : Bool) :
    applyLog handler none cs' throwing = applyLog handler none cs throwing := by
  cases same with
  | nil => rfl
  | @cons c c' cs cs' first rest =>
    have outcome : handler.applyCommit c' none = handler.applyCommit c none := by
      rw [first]
      exact applyCommit_expirationTime registered c _ _
    simp only [applyLog, outcome, applyLogFrom_expirationTime registered rest]

/-- An entry of a log and the commit it is of; the time of an anchor has been validated. -/
structure Records (dispatcher : Dispatcher) (entry : LogEntry) (c : CommitData) : Prop where
  cid : entry.cid = c.cid
  anchor : entry.type = .TIME ↔ c.type = .TIME
  time : c.type = .TIME → ∃ t, verifyAnchorCommit dispatcher c = .ok t ∧ entry.timestamp = .seconds t

section

variable {dispatcher : Dispatcher} {recorded : List LogEntry} {cs : List CommitData}

/-- Without the times of removed anchors, a log gets the times it has by itself. -/
theorem copyFrom_recorded (records : List.Forall₂ (Records dispatcher) recorded cs) (later : List LogEntry) :
    ∃ copied, copyFrom false (recorded ++ later) cs = .ok (copied, carriedTime dispatcher cs) ∧
      List.Forall₂ SameButExpiration (verifyAnchorAndApplyTimestamps dispatcher cs) copied := by
  induction records with
  | nil => exact ⟨[], by cases later <;> rfl, .nil⟩
  | @cons entry c recorded cs first _ ih =>
    obtain ⟨copied, copies, same⟩ := ih
    refine ⟨_, copyFrom_of_cons copies first.cid |>.trans (congrArg Except.ok (Prod.ext rfl ?_)), ?_⟩
    · by_cases anchor : c.type = .TIME
      · obtain ⟨t, verified, time⟩ := first.time anchor
        simp [carriedTime, anchor, verified, first.anchor.mpr anchor, time]
      · simp [carriedTime, anchor, mt first.anchor.mp anchor]
    · rw [extracted_cons]
      refine .cons ?_ same
      unfold SameButExpiration stamped
      by_cases anchor : c.type = .TIME
      · obtain ⟨t, verified, time⟩ := first.time anchor
        simp [carriedTime, anchor, verified, first.anchor.mpr anchor, time]
      · simp [carriedTime, anchor, mt first.anchor.mp anchor]

/-- The commit with the time and the expiration of its entry. -/
def timedBy (entry : LogEntry) (c : CommitData) : CommitData :=
  { c with expirationTime := entry.expirationTime, timestamp := entry.timestamp }

/-- With them, each commit gets the time of its entry. -/
theorem copyTrustedTimestamps_all (records : List.Forall₂ (Records dispatcher) recorded cs) (later : List LogEntry) :
    copyTrustedTimestamps (recorded ++ later) cs true = .ok (List.zipWith timedBy recorded cs) := by
  obtain ⟨t, copies⟩ : ∃ t, copyFrom true (recorded ++ later) cs = .ok (List.zipWith timedBy recorded cs, t) := by
    induction records with
    | nil => exact ⟨_, by cases later <;> rfl⟩
    | cons first _ ih =>
      obtain ⟨t, copies⟩ := ih
      exact ⟨_, copyFrom_of_cons copies first.cid⟩
  exact bind_eq_ok.mpr ⟨_, copies, rfl⟩

/-- The first time among the entries is that of the first anchor, if there is one. -/
theorem firstAnchorTimestamp_recorded (records : List.Forall₂ (Records dispatcher) recorded cs) :
    (∃ n, firstAnchorTimestamp recorded = .seconds n ∧ carriedTime dispatcher cs = .seconds n) ∨
      (firstAnchorTimestamp recorded = .undefined ∧ carriedTime dispatcher cs = .null) := by
  induction records with
  | nil => exact .inr ⟨rfl, rfl⟩
  | @cons entry c recorded cs first _ ih =>
    rw [firstAnchorTimestamp_cons, carriedTime]
    by_cases anchor : c.type = .TIME
    · obtain ⟨t, verified, time⟩ := first.time anchor
      rw [if_pos (first.anchor.mpr anchor), if_pos anchor, verified, time]
      exact .inl ⟨t, rfl, rfl⟩
    · rw [if_neg (mt first.anchor.mp anchor), if_neg anchor]
      exact ih

/-- The time of an entry is that of its commit in the whole log, if the entry has its own. -/
theorem timestamp_recorded {entry : LogEntry} {c : CommitData}
    (records : List.Forall₂ (Records dispatcher) (entry :: recorded) (c :: cs))
    (own : TimestampProvenance (entry :: recorded)) :
    entry.timestamp = carriedTime dispatcher (c :: cs) ∨
      (entry.timestamp = .undefined ∧ carriedTime dispatcher (c :: cs) = .null) := by
  rw [((provenance_cons entry recorded).mp own).1]
  rcases firstAnchorTimestamp_recorded records with ⟨n, time, carried⟩ | untimed
  · exact .inl (time.trans carried.symm)
  · exact .inr untimed

/-- A signature is checked for the time of the commit, or for now if it has none. -/
theorem verifyCommitSignature_sameTime {env : Environment} {c c' : CommitData} (retimed : Retimed c c')
    (same : c'.timestamp = c.timestamp ∨ (c'.timestamp = .undefined ∧ c.timestamp = .null)) (controller : JsValue)
    (model : Option StreamID) (streamId : StreamID) :
    verifyCommitSignature env c' controller model streamId = verifyCommitSignature env c controller model streamId := by
  obtain ⟨timestamp, expirationTime, rfl⟩ : ∃ timestamp expirationTime, c' = { c with timestamp, expirationTime } :=
    ⟨_, _, retimed.eq⟩
  have authz : verifyCapabilityAuthz { c with timestamp, expirationTime } streamId model =
    verifyCapabilityAuthz c streamId model := rfl
  unfold verifyCommitSignature
  rw [authz]
  rcases same with same | ⟨untimed, none⟩
  · rw [← same]
  · dsimp only at untimed ⊢
    rw [untimed, none]

/-- A commit, the same one with the time of an entry, and that entry. -/
structure TimedBy (known : LogEntry) (c c' : CommitData) : Prop where
  retimed : Retimed c c'
  anchor : isAnchorCommitData c = true → c'.timestamp = c.timestamp
  time : c'.timestamp = known.timestamp

theorem TimedBy.isAnchor {known : LogEntry} {c c' : CommitData} (fit : TimedBy known c c') :
    isAnchorCommitData c' = isAnchorCommitData c := by
  rw [fit.retimed.eq]
  rfl

theorem retimed_stamped {entry : LogEntry} {c : CommitData} (first : Records dispatcher entry c)
    (behind : List CommitData) : Retimed (stamped dispatcher c behind) (timedBy entry c) := by
  have noError : (stamped dispatcher c behind).anchorValidationError = c.anchorValidationError := by
    unfold stamped
    by_cases anchor : c.type = .TIME
    · obtain ⟨t, verified, _⟩ := first.time anchor
      simp [anchor, verified]
    · simp [anchor]
  constructor
  rw [noError]
  rfl

theorem timedBy_stamped {entry : LogEntry} {c : CommitData} (kind : isAnchorCommitData c = true → c.type = .TIME)
    (first : Records dispatcher entry c) (behind : List CommitData) :
    TimedBy entry (stamped dispatcher c behind) (timedBy entry c) := by
  refine ⟨retimed_stamped first behind, fun anchor => ?_, rfl⟩
  have isTime : c.type = .TIME := kind anchor
  obtain ⟨t, verified, time⟩ := first.time isTime
  change entry.timestamp = carriedTime dispatcher (c :: behind)
  rw [time, carriedTime, if_pos isTime, verified]

/-- A signature that verified for the time of its commit verifies for the time of its entry. -/
theorem signatureKept_stamped (env : Environment) {entry : LogEntry} {c : CommitData}
    (records : List.Forall₂ (Records dispatcher) (entry :: recorded) (c :: cs))
    (own : TimestampProvenance (entry :: recorded)) :
    SignatureKept env env (stamped dispatcher c cs) (timedBy entry c) := by
  intro controller model streamId verified
  obtain ⟨first, _⟩ := List.forall₂_cons.mp records
  refine (verifyCommitSignature_sameTime (retimed_stamped first cs) ?_ controller model streamId).trans verified
  exact timestamp_recorded records own

/-- The commit as it was applied, and as it is applied again with the time of its entry. -/
structure Reapplied (env : Environment) (c c' : CommitData) : Prop where
  kept : SignatureKept env env c c'
  retimed : Retimed c c'
  anchor : isAnchorCommitData c = true → c'.timestamp = c.timestamp

/-- The extracted log, and the commits with the times of their entries. -/
theorem reapplied_extracted (env : Environment) (kinds : ∀ c ∈ cs, isAnchorCommitData c = true → c.type = .TIME)
    (records : List.Forall₂ (Records dispatcher) recorded cs) (own : TimestampProvenance recorded) :
    List.Forall₂ (Reapplied env) (verifyAnchorAndApplyTimestamps dispatcher cs) (List.zipWith timedBy recorded cs) := by
  induction cs generalizing recorded with
  | nil =>
    obtain rfl := List.forall₂_nil_right_iff.mp records
    exact .nil
  | cons c cs ih =>
    cases records with
    | cons first rest =>
      rw [extracted_cons]
      refine .cons ?_ (ih (fun d member => kinds d (List.mem_cons_of_mem _ member)) rest ((provenance_cons _ _).mp own).2)
      have fit := timedBy_stamped (kinds c List.mem_cons_self) first cs
      exact ⟨signatureKept_stamped env (.cons first rest) own, fit.retimed, fit.anchor⟩

end

theorem Retimed.refl (c : CommitData) : Retimed c c := ⟨rfl⟩

theorem Retimed.symm {c c' : CommitData} (retimed : Retimed c c') : Retimed c' c := by
  constructor
  rw [retimed.eq]

theorem RetimedLog.symm {cs cs' : List CommitData} (retimed : RetimedLog cs cs') : RetimedLog cs' cs := by
  induction retimed with
  | nil => exact .nil
  | @cons c c' cs cs' first _ ih =>
    refine .cons ⟨first.1.symm, fun anchor => (first.2 ?_).symm⟩ ih
    rwa [first.1.eq] at anchor

/-- An environment in which every signature verifies. -/
def Environment.accepting (env : Environment) : Environment := { env with verifyJWS := fun _ _ => .ok () }

theorem signatureKept_accepting (env : Environment) {c c' : CommitData} (same : Retimed c c') :
    SignatureKept env env.accepting c c' := by
  intro controller model streamId verified
  unfold verifyCommitSignature at verified ⊢
  rw [same.eq]
  have authz : verifyCapabilityAuthz { c with
      timestamp := c'.timestamp, expirationTime := c'.expirationTime } streamId model =
      verifyCapabilityAuthz c streamId model := rfl
  rw [authz]
  cases granted : verifyCapabilityAuthz c streamId model with
  | error e => simp [granted, bind, Except.bind] at verified
  | ok cacao => rfl

/-- A log that is accepted is accepted there with other times, anchors excepted. -/
theorem applyLog_accepting {env : Environment} {type : Nat} {handler : StreamHandler}
    (registered : HandlersMap.get env type = .ok handler) {g g' : CommitData} {cs cs' : List CommitData}
    {s : StreamState} (genesis : Retimed g g') (retimed : RetimedLog cs cs')
    (applied : applyLog handler none (g :: cs) true = .ok s) :
    ∃ handler' s', HandlersMap.get env.accepting type = .ok handler' ∧
      applyLog handler' none (g' :: cs') true = .ok s' ∧ SameButTimes s s' := by
  have others : SameButSignatures env env.accepting := ⟨rfl⟩
  obtain ⟨handler', rel, registered', retimes⟩ := HandlersMap.get_retimes others registered
  obtain ⟨start, built, behind⟩ := applyLog_genesis applied
  obtain ⟨start', built', related⟩ := retimes.genesis (signatureKept_accepting env genesis) genesis built
  obtain ⟨s', ran', related'⟩ := applyLogFrom_lift
    (fun fit => retimes.step (signatureKept_accepting env fit.1) fit.1 fit.2) retimed related behind
  refine ⟨handler', s', registered', ?_, retimes.same related'⟩
  simpa [applyLog, built'] using ran'

/-- The same log applied with other times, anchors excepted: if both are accepted, the states differ in times only. -/
theorem sameButTimes_of_applied {env : Environment} {type : Nat} {handler : StreamHandler}
    (registered : HandlersMap.get env type = .ok handler) {g g' : CommitData} {cs cs' : List CommitData}
    {s s' : StreamState} (genesis : Retimed g g') (retimed : RetimedLog cs cs')
    (applied : applyLog handler none (g :: cs) true = .ok s)
    (applied' : applyLog handler none (g' :: cs') true = .ok s') : SameButTimes s s' := by
  obtain ⟨accepting, state, found, ran, same⟩ := applyLog_accepting registered genesis retimed applied
  obtain ⟨accepting', state', found', ran', same'⟩ :=
    applyLog_accepting registered (.refl g') (.refl cs') applied'
  obtain rfl := Except.ok.inj (found.symm.trans found')
  obtain rfl := Except.ok.inj (ran.symm.trans ran')
  exact same.trans same'.symm

/-- The log in which each entry with no anchor at or after it has the time that `source` has in its place. -/
def laterTimes : List LogEntry → List LogEntry → List LogEntry
  | known :: source, entry :: log =>
    (if .TIME ∈ (entry :: log).map (·.type) then entry else { entry with timestamp := known.timestamp }) ::
      laterTimes source log
  | _, log => log

theorem laterTimes_untimed (source log : List LogEntry) :
    (laterTimes source log).map (·.untimed) = log.map (·.untimed) := by
  induction log generalizing source with
  | nil => cases source <;> rfl
  | cons entry log ih =>
    cases source with
    | nil => rfl
    | cons known source =>
      by_cases anchored : .TIME ∈ (entry :: log).map (·.type)
      · rw [laterTimes, if_pos anchored, List.map_cons, List.map_cons, ih source]
      · have other : entry.type ≠ .TIME := fun anchor => anchored (by simp [anchor])
        rw [laterTimes, if_neg anchored, List.map_cons, List.map_cons, ih source,
          untimed_timestamp entry known.timestamp other]

/-- Behind the last anchor there is nothing. -/
theorem laterTimes_anchored (source : List LogEntry) {log : List LogEntry}
    (last : (log.map (·.type)).getLast? = some .TIME) : laterTimes source log = log := by
  induction log generalizing source with
  | nil => cases source <;> rfl
  | cons entry log ih =>
    cases source with
    | nil => rfl
    | cons known source =>
      rw [laterTimes, if_pos (List.mem_of_getLast? last)]
      congr 1
      cases log with
      | nil => cases source <;> rfl
      | cons next log => exact ih source (by simpa using last)

theorem laterTimes_append {source log : List LogEntry} (known : LogEntry) {entry : LogEntry}
    (sameLength : source.length = log.length) (other : entry.type ≠ .TIME) :
    laterTimes (source ++ [known]) (log ++ [entry]) =
      laterTimes source log ++ [{ entry with timestamp := known.timestamp }] := by
  induction source generalizing log with
  | nil =>
    obtain rfl := List.length_eq_zero_iff.mp sameLength.symm
    simp [laterTimes, Ne.symm other]
  | cons first source ih =>
    cases log with
    | nil => cases sameLength
    | cons e log =>
      have shorter : source.length = log.length := Nat.succ.inj sameLength
      simp only [List.cons_append, laterTimes, ih shorter]
      have anchored : .TIME ∈ (e :: (log ++ [entry])).map (·.type) ↔ .TIME ∈ (e :: log).map (·.type) := by
        simp [Ne.symm other]
      simp only [anchored]

/-- The log in which each entry with no anchor at or after it has the given time. -/
def laterTimed (t : Timestamp) : List LogEntry → List LogEntry
  | [] => []
  | entry :: log =>
    (if .TIME ∈ (entry :: log).map (·.type) then entry else { entry with timestamp := t }) :: laterTimed t log

/-- Two logs with the anchors in the same places. -/
def SameAnchors : List LogEntry → List LogEntry → Prop :=
  List.Forall₂ fun entry entry' => entry.type = .TIME ↔ entry'.type = .TIME

theorem SameAnchors.mem_iff {log log' : List LogEntry} (same : SameAnchors log log') :
    .TIME ∈ log.map (·.type) ↔ .TIME ∈ log'.map (·.type) := by
  induction same with
  | nil => rfl
  | @cons entry entry' log log' first _ ih =>
    rw [List.map_cons, List.map_cons, List.mem_cons, List.mem_cons, ih, eq_comm, first, eq_comm]

/-- Between two anchors all entries have the time of the second. -/
theorem laterTimes_uniform {t : Timestamp} {source log : List LogEntry} (same : SameAnchors source log)
    (uniform : ∀ before known after, source = before ++ known :: after → .TIME ∉ (known :: after).map (·.type) →
      known.timestamp = t) : laterTimes source log = laterTimed t log := by
  induction same with
  | nil => rfl
  | @cons known entry source log first rest ih =>
    have behind := ih fun before k after split => uniform (known :: before) k after (by rw [split]; rfl)
    have both : SameAnchors (known :: source) (entry :: log) := .cons first rest
    rw [laterTimes, laterTimed, behind]
    by_cases anchored : .TIME ∈ (entry :: log).map (·.type)
    · rw [if_pos anchored, if_pos anchored]
    · rw [if_neg anchored, if_neg anchored, uniform [] known source rfl (mt both.mem_iff.mp anchored)]

theorem laterTimed_anchored (t : Timestamp) {log : List LogEntry}
    (last : (log.map (·.type)).getLast? = some .TIME) : laterTimed t log = log := by
  have uniform : laterTimes (log.map fun entry => { entry with timestamp := t }) log = laterTimed t log := by
    have same : SameAnchors (log.map fun entry => { entry with timestamp := t }) log := by
      unfold SameAnchors
      rw [List.forall₂_map_left_iff, List.forall₂_same]
      exact fun _ _ => Iff.rfl
    refine laterTimes_uniform same fun before known after split _ => ?_
    have member : known ∈ log.map fun entry => { entry with timestamp := t } := by simp [split]
    obtain ⟨entry, _, rfl⟩ := List.mem_map.mp member
    rfl
  exact uniform.symm.trans (laterTimes_anchored _ last)

theorem laterTimed_getLast? {t : Timestamp} {log : List LogEntry} {type : EventType}
    (last : (log.map (·.type)).getLast? = some type) (other : type ≠ .TIME) :
    ((laterTimed t log).map (·.timestamp)).getLast? = some t := by
  induction log with
  | nil => cases last
  | cons entry log ih =>
    cases log with
    | nil =>
      obtain rfl : entry.type = type := by simpa using last
      simp [laterTimed, Ne.symm other]
    | cons next log =>
      have behind := ih (by simpa using last)
      rw [laterTimed]
      simpa [laterTimed] using behind

theorem laterTimed_inj {t t' : Timestamp} {log : List LogEntry} {type : EventType}
    (last : (log.map (·.type)).getLast? = some type) :
    laterTimed t log = laterTimed t' log ↔ type = .TIME ∨ t = t' := by
  by_cases anchor : type = .TIME
  · subst anchor
    simp [laterTimed_anchored _ last]
  · constructor
    · intro same
      have times := congrArg (fun log => (log.map (·.timestamp)).getLast?) same
      simp only [laterTimed_getLast? last anchor] at times
      exact .inr (Option.some.inj times)
    · rintro (isTime | rfl)
      · exact absurd isTime anchor
      · rfl

/-- The time an entry gets from a commit with the given time. -/
def enteredTime (streamType : Nat) (t : Timestamp) : Timestamp :=
  if streamType = CAIP10_LINK_TYPE_ID then .undefined else if t.truthy then t else .undefined

theorem logEntryOf_retimed {env : Environment} (streamType : Nat) {c c' : CommitData} (retimed : Retimed c c')
    (type : EventType) : logEntryOf env streamType c' type =
      { logEntryOf env streamType c type with timestamp := enteredTime streamType c'.timestamp } := by
  rw [retimed.eq]
  unfold logEntryOf enteredTime
  by_cases caip10 : streamType = CAIP10_LINK_TYPE_ID
  · simp [caip10]
  · simp [caip10, commitDataToLogEntry, capabilityExpiration]

/-- The entry with the time it would get if its commit were applied again. -/
def LogEntry.reentered (streamType : Nat) (entry : LogEntry) : LogEntry :=
  { entry with timestamp := enteredTime streamType entry.timestamp }

/-- One commit that is applied again: its entry has its old time, until an anchor follows. -/
theorem nextLog_laterTimes (env : Environment) (streamType : Nat) {source log : List LogEntry} {known : LogEntry}
    {c c' : CommitData} (fit : TimedBy known c c') (sameLength : source.length = log.length) :
    nextLog env streamType (laterTimes source log) c' =
      laterTimes (source ++ [known.reentered streamType]) (nextLog env streamType log c) := by
  unfold nextLog
  rw [fit.isAnchor]
  by_cases anchor : isAnchorCommitData c = true
  · have sameEntry : anchorEntry c' = anchorEntry c := by
      unfold anchorEntry
      rw [fit.anchor anchor, fit.retimed.eq]
    rw [if_pos anchor, if_pos anchor, sameEntry]
    have last : ((applyAnchorTimestampsToLog (log ++ [anchorEntry c])).map (·.type)).getLast? = some .TIME := by
      rw [applyAnchorTimestampsToLog_map _ (fun _ _ => rfl)]
      simp [anchorEntry]
    rw [laterTimes_anchored _ last]
    refine eq_of_provenance (provenance_restamped _) (provenance_restamped _) ?_
    simp [untimed_restamped, laterTimes_untimed]
  · rw [if_neg anchor, if_neg anchor, laterTimes_append _ sameLength (by simp),
      logEntryOf_retimed streamType fit.retimed, fit.time]
    rfl

/-- A log that is applied again with the times of its entries. -/
theorem foldl_laterTimes (env : Environment) (streamType : Nat) {source recorded log : List LogEntry}
    {cs cs' : List CommitData} (fits : List.Forall₂ (fun known (pair : CommitData × CommitData) =>
      TimedBy known pair.1 pair.2) recorded (cs.zip cs'))
    (sameCount : cs.length = cs'.length) (sameLength : source.length = log.length) :
    cs'.foldl (nextLog env streamType) (laterTimes source log) =
      laterTimes (source ++ recorded.map (·.reentered streamType)) (cs.foldl (nextLog env streamType) log) := by
  induction cs generalizing source recorded log cs' with
  | nil =>
    obtain rfl := List.length_eq_zero_iff.mp sameCount.symm
    obtain rfl := List.forall₂_nil_right_iff.mp fits
    simp
  | cons c cs ih =>
    cases cs' with
    | nil => cases sameCount
    | cons c' cs' =>
      cases fits with
      | @cons known _ recorded _ fit rest =>
        have longer : (source ++ [known.reentered streamType]).length = (nextLog env streamType log c).length := by
          have counted := congrArg List.length (nextLog_untimed env streamType log c)
          simp only [List.length_map, List.length_append, List.length_singleton] at counted
          simp [counted, sameLength]
        have behind := ih rest (Nat.succ.inj sameCount) longer
        rw [List.foldl_cons, List.foldl_cons, nextLog_laterTimes env streamType fit sameLength, behind]
        simp

theorem timedBy_extracted {dispatcher : Dispatcher} {recorded : List LogEntry} {cs : List CommitData}
    (kinds : ∀ c ∈ cs, isAnchorCommitData c = true → c.type = .TIME)
    (records : List.Forall₂ (Records dispatcher) recorded cs) :
    List.Forall₂ (fun known (pair : CommitData × CommitData) => TimedBy known pair.1 pair.2) recorded
      ((verifyAnchorAndApplyTimestamps dispatcher cs).zip (List.zipWith timedBy recorded cs)) := by
  induction records with
  | nil => exact .nil
  | @cons entry c recorded cs first rest ih =>
    rw [extracted_cons]
    refine .cons (timedBy_stamped (kinds c List.mem_cons_self) first cs) ?_
    exact ih fun d member => kinds d (List.mem_cons_of_mem _ member)

theorem retimedLog_extracted {dispatcher : Dispatcher} {recorded : List LogEntry} {cs : List CommitData}
    (kinds : ∀ c ∈ cs, isAnchorCommitData c = true → c.type = .TIME)
    (records : List.Forall₂ (Records dispatcher) recorded cs) :
    RetimedLog (verifyAnchorAndApplyTimestamps dispatcher cs) (List.zipWith timedBy recorded cs) := by
  induction records with
  | nil => exact .nil
  | @cons entry c recorded cs first rest ih =>
    rw [extracted_cons]
    have fit := timedBy_stamped (kinds c List.mem_cons_self) first cs
    exact .cons ⟨fit.retimed, fit.anchor⟩ (ih fun d member => kinds d (List.mem_cons_of_mem _ member))

/-- The entries of the commits that were entered, compared without the times that are carried. -/
theorem records_of_untimed {dispatcher : Dispatcher} (env : Environment) (streamType : Nat)
    {recorded : List LogEntry} {cs : List CommitData} (kinds : ∀ c ∈ cs, c.type = .TIME ↔ isAnchorCommitData c = true)
    (anchors : AnchorsValid dispatcher cs)
    (same : recorded.map (·.untimed) = (verifyAnchorAndApplyTimestamps dispatcher cs).map
      fun c => (entryOf env streamType c).untimed) : List.Forall₂ (Records dispatcher) recorded cs := by
  induction cs generalizing recorded with
  | nil =>
    obtain rfl : recorded = [] := by simpa using same
    exact .nil
  | cons c cs ih =>
    cases recorded with
    | nil => simp at same
    | cons entry recorded =>
      rw [extracted_cons] at same
      obtain ⟨sameEntry, rest⟩ := List.cons_eq_cons.mp same
      refine .cons ?_ (ih (fun d member => kinds d (List.mem_cons_of_mem _ member))
        (fun d member => anchors d (List.mem_cons_of_mem _ member)) rest)
      have sameType : entry.type = .TIME ↔ c.type = .TIME := by
        have types := congrArg LogEntry.type sameEntry
        rw [untimed_type, untimed_type] at types
        rw [types, entryOf_type, kinds c List.mem_cons_self]
        rfl
      refine ⟨?_, sameType, fun anchor => ?_⟩
      · have cids := congrArg LogEntry.cid sameEntry
        rwa [untimed_cid, untimed_cid, entryOf_cid] at cids
      · obtain ⟨t, verified⟩ := anchors c List.mem_cons_self anchor
        refine ⟨t, verified, ?_⟩
        have isAnchor : isAnchorCommitData (stamped dispatcher c cs) = true := (kinds c List.mem_cons_self).mp anchor
        have entered : entry = anchorEntry (stamped dispatcher c cs) := by
          simpa [LogEntry.untimed, sameType.mpr anchor, entryOf, isAnchor, anchorEntry] using sameEntry
        rw [entered]
        simp [anchorEntry, stamped, carriedTime, anchor, verified]

/-- The log of a state that was loaded from a valid log. -/
theorem records_of_loaded {env : Environment} {handler : StreamHandler} (lawful : handler.Lawful env)
    {dispatcher : Dispatcher} {g : CommitData} {cs : List CommitData} {s : StreamState} (genesis : g.type ≠ .TIME)
    (kinds : ∀ c ∈ cs, c.type = .TIME ↔ isAnchorCommitData c = true) (anchors : AnchorsValid dispatcher cs)
    (applied : applyLog handler none (verifyAnchorAndApplyTimestamps dispatcher (g :: cs)) true = .ok s) :
    List.Forall₂ (Records dispatcher) s.log.toList (g :: cs) ∧ TimestampProvenance s.log.toList := by
  have stampedKinds : ∀ c ∈ verifyAnchorAndApplyTimestamps dispatcher cs,
      c.type = .TIME ↔ isAnchorCommitData c = true := forall_extracted (fun _ _ kind => kind) kinds
  refine ⟨?_, provenance_extracted lawful genesis stampedKinds applied⟩
  rw [extracted_cons] at applied
  obtain ⟨start, built, behind⟩ := applyLog_genesis applied
  have log := (applyLogFrom_log lawful behind).2
  rw [entered_all behind, List.take_length, (lawful.genesis built).2] at log
  have untimed := foldl_nextLog_untimed env handler.type
    [logEntryOf env handler.type (stamped dispatcher g cs) .INIT] (verifyAnchorAndApplyTimestamps dispatcher cs)
  rw [← log] at untimed
  cases entries : s.log.toList with
  | nil => exact absurd entries s.log.nonempty
  | cons entry recorded =>
    rw [entries] at untimed
    obtain ⟨first, rest⟩ := List.cons_eq_cons.mp untimed
    refine .cons ⟨?_, ?_, fun anchor => absurd anchor genesis⟩ (records_of_untimed env handler.type kinds anchors rest)
    · have cids := congrArg LogEntry.cid first
      rwa [untimed_cid, untimed_cid, logEntryOf_cid] at cids
    · have types := congrArg LogEntry.type first
      rw [untimed_type, untimed_type, logEntryOf_type] at types
      simp [types, genesis]

theorem sameAnchors_recorded {dispatcher : Dispatcher} {recorded recorded' : List LogEntry} {cs : List CommitData}
    (records : List.Forall₂ (Records dispatcher) recorded cs)
    (records' : List.Forall₂ (Records dispatcher) recorded' cs) : SameAnchors recorded recorded' := by
  induction records generalizing recorded' with
  | nil =>
    obtain rfl := List.forall₂_nil_right_iff.mp records'
    exact .nil
  | cons first _ ih =>
    cases records' with
    | cons first' rest' => exact .cons (first.anchor.trans first'.anchor.symm) (ih rest')

theorem last_recorded {dispatcher : Dispatcher} {recorded : List LogEntry} {cs : List CommitData} {c : CommitData}
    (records : List.Forall₂ (Records dispatcher) recorded (cs ++ [c])) :
    ∃ entry, recorded.getLast? = some entry ∧ Records dispatcher entry c := by
  induction cs generalizing recorded with
  | nil =>
    cases records with
    | @cons entry _ _ _ last rest =>
      obtain rfl := List.forall₂_nil_right_iff.mp rest
      exact ⟨entry, rfl, last⟩
  | cons d cs ih =>
    cases records with
    | @cons first _ recorded _ _ rest =>
      obtain ⟨entry, last, same⟩ := ih rest
      exact ⟨entry, by simp [List.getLast?_cons, last], same⟩

theorem laterTimes_longer {source log : List LogEntry} (sameLength : source.length = log.length)
    (more : List LogEntry) : laterTimes (source ++ more) log = laterTimes source log := by
  induction source generalizing log with
  | nil =>
    obtain rfl := List.length_eq_zero_iff.mp sameLength.symm
    cases more <;> rfl
  | cons known source ih =>
    cases log with
    | nil => cases sameLength
    | cons entry log => rw [List.cons_append, laterTimes, laterTimes, ih (Nat.succ.inj sameLength)]

theorem firstAnchorTimestamp_behind {log : List LogEntry} (none : .TIME ∉ log.map (·.type)) (later : List LogEntry) :
    firstAnchorTimestamp (log ++ later) = firstAnchorTimestamp later := by
  induction log with
  | nil => rfl
  | cons entry log ih =>
    rw [List.map_cons, List.mem_cons, not_or] at none
    rw [List.cons_append, firstAnchorTimestamp_cons, if_neg (Ne.symm none.1), ih none.2]

/-- Behind the last anchor of the first part, a log has the first time of the second part. -/
theorem later_of_own {recorded later : List LogEntry} (own : TimestampProvenance (recorded ++ later))
    {before after : List LogEntry} {known : LogEntry} (split : recorded = before ++ known :: after)
    (none : .TIME ∉ (known :: after).map (·.type)) : known.timestamp = firstAnchorTimestamp later := by
  have time := own before known (after ++ later) (by rw [split]; simp)
  rw [time, ← List.cons_append, firstAnchorTimestamp_behind none]

/-- The first state but for the times of the entries with no anchor at or after them, which are those of `source`. -/
def DiffersInLaterTimes (source s s' : StreamState) : Prop :=
  s' = { s with log := s'.log } ∧ s'.log.toList = laterTimes source.log.toList s.log.toList

/-- Whether the entries behind the last anchor keep their times when the log is cut behind a commit: it is an
anchor itself, or no anchor follows, or the stream type keeps times and the time of the first one is not 0. -/
def KeepsTimes (dispatcher : Dispatcher) (streamType : Nat) (c : CommitData) (removed : List CommitData) : Prop :=
  c.type = .TIME ∨ carriedTime dispatcher removed = .null ∨
    (streamType ≠ CAIP10_LINK_TYPE_ID ∧ (carriedTime dispatcher removed).truthy = true)

theorem enteredTime_kept {dispatcher : Dispatcher} {later : List LogEntry} {removed : List CommitData}
    (records : List.Forall₂ (Records dispatcher) later removed) (streamType : Nat) :
    enteredTime streamType (firstAnchorTimestamp later) = firstAnchorTimestamp later ↔
      carriedTime dispatcher removed = .null ∨
        (streamType ≠ CAIP10_LINK_TYPE_ID ∧ (carriedTime dispatcher removed).truthy = true) := by
  unfold enteredTime
  rcases firstAnchorTimestamp_recorded records with ⟨n, time, carried⟩ | ⟨untimed, none⟩
  · rw [time, carried]
    by_cases caip10 : streamType = CAIP10_LINK_TYPE_ID
    · simp [caip10]
    · by_cases zero : n = 0 <;> simp [caip10, Timestamp.truthy, zero]
  · simp [untimed, none, Timestamp.truthy]

/-- The log of a state that was built from the same commits with other times. -/
theorem log_reapplied {env : Environment} {handler : StreamHandler} (lawful : handler.Lawful env)
    {dispatcher : Dispatcher} {recorded : List LogEntry} {g : CommitData} {cs : List CommitData} {p r : StreamState}
    (kinds : ∀ c ∈ cs, isAnchorCommitData c = true → c.type = .TIME)
    (records : List.Forall₂ (Records dispatcher) recorded (g :: cs))
    (loaded : applyLog handler none (verifyAnchorAndApplyTimestamps dispatcher (g :: cs)) true = .ok p)
    (reapplied : applyLog handler none (List.zipWith timedBy recorded (g :: cs)) true = .ok r) :
    r.log.toList = laterTimes (recorded.map (·.reentered handler.type)) p.log.toList := by
  cases records with
  | @cons entry _ recorded _ first rest =>
    have fits := timedBy_extracted kinds rest
    rw [extracted_cons] at loaded
    obtain ⟨start, built, behind⟩ := applyLog_genesis loaded
    obtain ⟨start', built', behind'⟩ := applyLog_genesis reapplied
    have log := (applyLogFrom_log lawful behind).2
    have log' := (applyLogFrom_log lawful behind').2
    rw [entered_all behind, List.take_length, (lawful.genesis built).2] at log
    rw [entered_all behind', List.take_length, (lawful.genesis built').2] at log'
    have genesis : [logEntryOf env handler.type (timedBy entry g) .INIT] =
        laterTimes [entry.reentered handler.type]
          [logEntryOf env handler.type (stamped dispatcher g cs) .INIT] := by
      rw [logEntryOf_retimed handler.type (retimed_stamped first cs)]
      simp [laterTimes, LogEntry.reentered, timedBy]
    have counted : recorded.length = cs.length := rest.length_eq
    have start : [entry.reentered handler.type].length =
        [logEntryOf env handler.type (stamped dispatcher g cs) .INIT].length := rfl
    have run := foldl_laterTimes env handler.type fits (by simp [counted]) start
    rw [log, log', genesis]
    exact run

theorem genesis_of_path {store : CommitStore} {g : CommitData} {cs : List CommitData} {tip : Cid}
    (stored : Stored store (g :: cs)) (path : Path none (g :: cs) (some tip)) : g.type ≠ .TIME := by
  have init := (stored.fresh g List.mem_cons_self).genesis path.1
  simp [init]

theorem kinds_of_path {store : CommitStore} {g : CommitData} {cs : List CommitData} {tip : Cid}
    (stored : Stored store (g :: cs)) (path : Path none (g :: cs) (some tip)) :
    ∀ c ∈ cs, c.type = .TIME ↔ isAnchorCommitData c = true :=
  fun c member => (stored.fresh c (List.mem_cons_of_mem _ member)).anchor (path_linked path.2 c member)

/-- A log of which every commit is accepted gives the same state without throwing. -/
theorem applyLog_throwing {handler : StreamHandler} {g : CommitData} {cs : List CommitData} {s : StreamState}
    (applied : applyLog handler none (g :: cs) true = .ok s) (throwing : Bool) :
    applyLog handler none (g :: cs) throwing = .ok s := by
  obtain ⟨start, built, ran⟩ := applyLog_genesis applied
  simp [applyLog, built, applyLogFrom_throwing ran throwing]

/-- A state with validated anchors: the entries of its log are those of a log that can be read, in order. -/
structure RecordedLog (store : CommitStore) (s : StreamState) (log : List CommitData) : Prop where
  stored : Stored store log
  path : ∃ tip, Path none log (some tip)
  records : List.Forall₂ (Records store.toDispatcher) s.log.toList log

namespace RecordedLog

variable {store : CommitStore} {s : StreamState} {front removed shared : List CommitData} {c : CommitData}

/-- The entries up to a cut, and those behind it. -/
theorem parts (of : RecordedLog store s (front ++ removed)) :
    ∃ recorded later, s.log.toList = recorded ++ later ∧
      List.Forall₂ (Records store.toDispatcher) recorded front ∧
      List.Forall₂ (Records store.toDispatcher) later removed := by
  refine ⟨_, _, (List.take_append_drop front.length s.log.toList).symm, ?_, ?_⟩
  · exact List.forall₂_take_append _ _ _ of.records
  · exact List.forall₂_drop_append _ _ _ of.records

theorem getElem? {log : List CommitData} (of : RecordedLog store s log) {i : Nat} {entry : LogEntry}
    (at_ : s.log.toList[i]? = some entry) : ∃ c, log[i]? = some c ∧ Records store.toDispatcher entry c := by
  obtain ⟨within, rfl⟩ := List.getElem?_eq_some_iff.mp at_
  have withinLog : i < log.length := of.records.length_eq ▸ within
  exact ⟨log[i], List.getElem?_eq_getElem withinLog, of.records.get within withinLog⟩

theorem genesis {g : CommitData} {cs : List CommitData} (of : RecordedLog store s (g :: cs)) : g.type ≠ .TIME := by
  obtain ⟨tip, path⟩ := of.path
  exact genesis_of_path of.stored path

theorem kinds {g : CommitData} {cs : List CommitData} (of : RecordedLog store s (g :: cs)) :
    ∀ c ∈ cs, c.type = .TIME ↔ isAnchorCommitData c = true := by
  obtain ⟨tip, path⟩ := of.path
  exact kinds_of_path of.stored path

/-- The log up to the cut is what a walk from its last commit finds. -/
theorem fetched (of : RecordedLog store s (front ++ removed)) (cut : front = shared ++ [c]) :
    LogSyncer.syncFullLog store (streamIdFromState s) (some c.cid) = .ok front := by
  obtain ⟨tip, path⟩ := of.path
  obtain ⟨recorded, later, log, records, _⟩ := of.parts
  have upTo : Path none front (some c.cid) := by
    rw [cut, List.append_assoc, path_append] at path
    obtain ⟨middle, before, at_⟩ := path
    rw [cut, path_snoc]
    exact ⟨at_.1 ▸ before, rfl⟩
  cases records with
  | nil => simp at cut
  | cons first _ =>
    refine LogSyncer.syncFullLog_complete upTo (stored_append.mp of.stored).1 ?_
    have head := NonEmptyArray.head?_toList s.log
    rw [log] at head
    exact first.cid.symm.trans (congrArg LogEntry.cid (Option.some.inj head))

variable {env : Environment} {handler : StreamHandler}

/-- The prefix as it is loaded. -/
theorem load_eq (of : RecordedLog store s (front ++ removed)) (registered : HandlersMap.get env s.type = .ok handler)
    (cut : front = shared ++ [c]) (allowSyncErrors throwing : Bool) :
    StreamLoader.loadStateFromTip env store (streamIdFromState s) c.cid allowSyncErrors throwing =
      (applyLog handler none (verifyAnchorAndApplyTimestamps store.toDispatcher front) throwing).map some := by
  have registered : HandlersMap.get env (streamIdFromState s).type = .ok handler := registered
  unfold StreamLoader.loadStateFromTip applyFullLog
  rw [of.fetched cut]
  cases front with
  | nil => simp at cut
  | cons g cs => simp [registered, bind, Except.bind]

theorem contained (of : RecordedLog store s (front ++ removed)) (cut : front = shared ++ [c]) :
    c.cid ∈ s.log.toList.map (·.cid) := by
  obtain ⟨recorded, later, log, records, _⟩ := of.parts
  obtain ⟨entry, last, same⟩ := last_recorded (cut ▸ records)
  rw [log, List.map_append, List.mem_append]
  exact .inl (List.mem_map.mpr ⟨entry, List.mem_of_getLast? last, same.cid⟩)

/-- And as it is built again from the log of the state. -/
theorem reset_eq (of : RecordedLog store s (front ++ removed)) (registered : HandlersMap.get env s.type = .ok handler)
    (cut : front = shared ++ [c]) {copyTimestamps : Bool} {copied : List CommitData}
    (copies : copyTrustedTimestamps s.log.toList front copyTimestamps = .ok copied) :
    resetStateToCommit env store s c.cid copyTimestamps = applyLog handler none copied true := by
  have contained : stateContainsCommit s c.cid = true := by
    obtain ⟨entry, member, same⟩ := List.mem_map.mp (of.contained cut)
    simpa [stateContainsCommit] using ⟨entry, member, same⟩
  unfold resetStateToCommit
  simp [contained, of.fetched cut, copies, registered, bind, Except.bind]

end RecordedLog

/-- A state that was loaded from a valid log, seen from a cut in it. -/
structure LoadedFrom (env : Environment) (store : CommitStore) (handler : StreamHandler) (g : CommitData)
    (cs removed : List CommitData) (s : StreamState) : Prop where
  stored : Stored store (g :: (cs ++ removed))
  path : ∃ tip, Path none (g :: (cs ++ removed)) (some tip)
  anchors : AnchorsValid store.toDispatcher (g :: (cs ++ removed))
  registered : HandlersMap.get env handler.type = .ok handler
  applied : applyLog handler none (verifyAnchorAndApplyTimestamps store.toDispatcher (g :: (cs ++ removed))) true = .ok s

namespace LoadedFrom

variable {env : Environment} {store : CommitStore} {handler : StreamHandler} {g : CommitData}
  {cs removed : List CommitData} {s : StreamState}

theorem lawful (loaded : LoadedFrom env store handler g cs removed s) : handler.Lawful env :=
  (HandlersMap.get_lawful loaded.registered).1

theorem genesis (loaded : LoadedFrom env store handler g cs removed s) : g.type ≠ .TIME := by
  obtain ⟨tip, path⟩ := loaded.path
  exact genesis_of_path loaded.stored path

theorem kinds (loaded : LoadedFrom env store handler g cs removed s) :
    ∀ c ∈ cs ++ removed, c.type = .TIME ↔ isAnchorCommitData c = true := by
  obtain ⟨tip, path⟩ := loaded.path
  exact kinds_of_path loaded.stored path

theorem records (loaded : LoadedFrom env store handler g cs removed s) :
    List.Forall₂ (Records store.toDispatcher) s.log.toList (g :: (cs ++ removed)) ∧
      TimestampProvenance s.log.toList := by
  refine records_of_loaded loaded.lawful loaded.genesis loaded.kinds (fun c member => ?_) loaded.applied
  exact loaded.anchors c (List.mem_cons_of_mem _ member)

/-- The log of the state, seen from the cut. -/
theorem recorded (loaded : LoadedFrom env store handler g cs removed s) :
    RecordedLog store s ((g :: cs) ++ removed) :=
  ⟨loaded.stored, loaded.path, loaded.records.1⟩

/-- The log up to the cut, with the times of its entries, is accepted. -/
theorem reapplied (loaded : LoadedFrom env store handler g cs removed s) {recorded later : List LogEntry}
    (log : s.log.toList = recorded ++ later) (records : List.Forall₂ (Records store.toDispatcher) recorded (g :: cs)) :
    ∃ r, applyLog handler none (List.zipWith timedBy recorded (g :: cs)) true = .ok r := by
  obtain ⟨all, own⟩ := loaded.records
  have applied := loaded.applied
  cases records with
  | @cons entry _ recorded _ first rest =>
    rw [log, List.cons_append] at all own
    rw [extracted_cons] at applied
    obtain ⟨_, behind⟩ := List.forall₂_cons.mp all
    obtain ⟨start, built, ran⟩ := applyLog_genesis applied
    have sameEnv : SameButSignatures env env := ⟨rfl⟩
    obtain ⟨handler', rel, registered, retimes⟩ := HandlersMap.get_retimes sameEnv loaded.registered
    obtain rfl := Except.ok.inj (loaded.registered.symm.trans registered)
    obtain ⟨start', built', related⟩ := retimes.genesis (signatureKept_stamped env all own)
      (retimed_stamped first _) built
    have fits := reapplied_extracted env (fun c member => (loaded.kinds c member).mpr) behind
      ((provenance_cons _ _).mp own).2
    obtain ⟨_, ran', _⟩ := applyLogFrom_lift (fun fit => retimes.step fit.kept fit.retimed fit.anchor) fits related ran
    rw [List.zipWith_append rest.length_eq] at ran'
    obtain ⟨r, accepted, _⟩ := applyLogFrom_split ran'
    exact ⟨r, by simpa [applyLog, built'] using accepted⟩

theorem type (loaded : LoadedFrom env store handler g cs removed s) : s.type = handler.type := by
  have applied := loaded.applied
  rw [extracted_cons] at applied
  exact (applyLog_log loaded.lawful applied).1

theorem registeredType (loaded : LoadedFrom env store handler g cs removed s) :
    HandlersMap.get env s.type = .ok handler :=
  loaded.type.symm ▸ loaded.registered

end LoadedFrom

namespace LoadedFrom

variable {env : Environment} {store : CommitStore} {handler : StreamHandler} {g : CommitData}
  {cs removed : List CommitData} {s : StreamState}

theorem front (loaded : LoadedFrom env store handler g cs removed s) {p : StreamState}
    (prefixLoaded : applyLog handler none (verifyAnchorAndApplyTimestamps store.toDispatcher (g :: cs)) true = .ok p) :
    LoadedFrom env store handler g cs [] p := by
  have inside : ∀ c ∈ g :: (cs ++ []), c ∈ g :: (cs ++ removed) := by
    intro c member
    rw [List.append_nil] at member
    rw [← List.cons_append]
    exact List.mem_append_left _ member
  obtain ⟨tip, path⟩ := loaded.path
  obtain ⟨middle, before, _⟩ := path_split path
  refine ⟨fun c member => loaded.stored c (inside c member), ⟨middle, by simpa using before⟩,
    fun c member => loaded.anchors c (inside c member), loaded.registered, ?_⟩
  simpa using prefixLoaded

/-- Without the times of removed anchors, a state that is reset is the one that is loaded from the prefix. -/
theorem reset_without_times (loaded : LoadedFrom env store handler g cs removed s) {shared : List CommitData}
    {c : CommitData} (cut : g :: cs = shared ++ [c]) :
    resetStateToCommit env store s c.cid false =
      applyLog handler none (verifyAnchorAndApplyTimestamps store.toDispatcher (g :: cs)) true := by
  obtain ⟨recorded, later, log, records, _⟩ := loaded.recorded.parts
  obtain ⟨copied, copies, same⟩ := copyFrom_recorded records later
  have copies : copyTrustedTimestamps s.log.toList (g :: cs) false = .ok copied := by
    rw [log]
    exact bind_eq_ok.mpr ⟨_, copies, rfl⟩
  rw [loaded.recorded.reset_eq loaded.registeredType cut copies, applyLog_expirationTime loaded.registered same true]

/-- With them, it has the times of the state that is reset behind the last anchor that stays. -/
theorem reset_with_times (loaded : LoadedFrom env store handler g cs removed s) {shared : List CommitData}
    {c : CommitData} (cut : g :: cs = shared ++ [c]) :
    ∃ r, resetStateToCommit env store s c.cid true = .ok r ∧ ∀ p,
      applyLog handler none (verifyAnchorAndApplyTimestamps store.toDispatcher (g :: cs)) true = .ok p →
        (DiffersInLaterTimes s p r ↔ KeepsTimes store.toDispatcher handler.type c removed) := by
  obtain ⟨recorded, later, log, records, behind⟩ := loaded.recorded.parts
  have own : TimestampProvenance (recorded ++ later) := log ▸ loaded.records.2
  have anchorKinds : ∀ d ∈ cs, isAnchorCommitData d = true → d.type = .TIME :=
    fun d member => (loaded.kinds d (List.mem_append_left _ member)).mpr
  have copies : copyTrustedTimestamps s.log.toList (g :: cs) true = .ok (List.zipWith timedBy recorded (g :: cs)) := by
    rw [log]
    exact copyTrustedTimestamps_all records later
  obtain ⟨r, accepted⟩ := loaded.reapplied log records
  refine ⟨r, (loaded.recorded.reset_eq loaded.registeredType cut copies).trans accepted, fun p prefixLoaded => ?_⟩
  have relogged := log_reapplied loaded.lawful anchorKinds records prefixLoaded accepted
  have prefixRecords : List.Forall₂ (Records store.toDispatcher) p.log.toList (g :: cs) := by
    simpa using (loaded.front prefixLoaded).records.1
  have same : SameAnchors recorded p.log.toList := sameAnchors_recorded records prefixRecords
  have sameReentered : SameAnchors (recorded.map (·.reentered handler.type)) p.log.toList :=
    List.forall₂_map_left_iff.mpr same
  -- all entries behind the last anchor have one time, in the log of the state and in that of the reset one
  have source : laterTimes s.log.toList p.log.toList = laterTimed (firstAnchorTimestamp later) p.log.toList := by
    rw [log, laterTimes_longer same.length_eq]
    exact laterTimes_uniform same fun before known after split none => later_of_own own split none
  have again : r.log.toList = laterTimed (enteredTime handler.type (firstAnchorTimestamp later)) p.log.toList := by
    rw [relogged]
    refine laterTimes_uniform sameReentered fun before known after split none => ?_
    obtain ⟨front, rest, whole, _, tail⟩ := List.map_eq_append_iff.mp split
    obtain ⟨entry, entries, rfl, rfl, rfl⟩ := List.map_eq_cons_iff.mp tail
    have none : .TIME ∉ (entry :: entries).map (·.type) := by simpa [LogEntry.reentered] using none
    exact congrArg (enteredTime handler.type) (later_of_own own whole none)
  obtain ⟨entry, last, isLast⟩ := last_recorded (cut ▸ prefixRecords)
  have lastType : (p.log.toList.map (·.type)).getLast? = some entry.type := by
    rw [List.getLast?_map, last]
    rfl
  have fields : r = { p with log := r.log } := by
    rw [extracted_cons] at prefixLoaded
    cases records with
    | cons first rest =>
      exact (sameButTimes_of_applied loaded.registered (retimed_stamped first cs)
        (retimedLog_extracted anchorKinds rest) prefixLoaded accepted).fields
  unfold DiffersInLaterTimes KeepsTimes
  rw [again, source, laterTimed_inj lastType, isLast.anchor, enteredTime_kept behind]
  exact and_iff_right fields

end LoadedFrom

/-- Resetting a state to a commit of its log gives what loading the log up to that commit gives. With the times
of removed anchors, it gives that but for the times behind the last anchor that stays, which are the state's
unless its handler does not enter them. -/
theorem reset_replays_prefix {env : Environment} {store : CommitStore} {streamType : Nat}
    {shared removed : List CommitData} {c : CommitData} {tip : Cid} {s : StreamState}
    (stored : Stored store (shared ++ c :: removed)) (path : Path none (shared ++ c :: removed) (some tip))
    (anchors : AnchorsValid store.toDispatcher (shared ++ c :: removed))
    (loaded : applyFullLog env streamType
      (verifyAnchorAndApplyTimestamps store.toDispatcher (shared ++ c :: removed)) true = .ok s)
    (allowSyncErrors : Bool) :
    (resetStateToCommit env store s c.cid false).map some =
      StreamLoader.loadStateFromTip env store (streamIdFromState s) c.cid allowSyncErrors true ∧
    (∀ p throwing, resetStateToCommit env store s c.cid false = .ok p →
      StreamLoader.loadStateFromTip env store (streamIdFromState s) c.cid allowSyncErrors throwing = .ok (some p)) ∧
    ∃ r, resetStateToCommit env store s c.cid true = .ok r ∧ ∀ p,
      StreamLoader.loadStateFromTip env store (streamIdFromState s) c.cid allowSyncErrors true = .ok (some p) →
        (DiffersInLaterTimes s p r ↔ KeepsTimes store.toDispatcher streamType c removed) := by
  obtain ⟨g, cs, cut⟩ : ∃ g cs, g :: cs = shared ++ [c] := by
    cases shared with
    | nil => exact ⟨c, [], rfl⟩
    | cons g shared => exact ⟨g, shared ++ [c], rfl⟩
  have whole : shared ++ c :: removed = g :: (cs ++ removed) := by
    rw [← List.cons_append, cut, List.append_assoc]
    rfl
  rw [whole] at stored path anchors loaded
  obtain ⟨handler, registered, applied⟩ := applyFullLog_extracted.mp loaded
  obtain ⟨_, rfl⟩ := HandlersMap.get_lawful registered
  have loaded : LoadedFrom env store handler g cs removed s := ⟨stored, ⟨tip, path⟩, anchors, registered, applied⟩
  refine ⟨?_, fun p throwing reset => ?_, ?_⟩
  · rw [loaded.reset_without_times cut, loaded.recorded.load_eq loaded.registeredType cut]
  · rw [loaded.reset_without_times cut] at reset
    rw [loaded.recorded.load_eq loaded.registeredType cut]
    rw [extracted_cons] at reset ⊢
    rw [applyLog_throwing reset throwing]
    rfl
  · obtain ⟨r, reset, differs⟩ := loaded.reset_with_times cut
    refine ⟨r, reset, fun p prefixLoaded => differs p ?_⟩
    rw [loaded.recorded.load_eq loaded.registeredType cut] at prefixLoaded
    obtain ⟨p', ran, same⟩ := map_eq_ok.mp prefixLoaded
    exact Option.some.inj same ▸ ran

namespace BlockStore

def firstUpdate : CommitData where
  cid := ⟨[2]⟩
  type := .DATA
  commit := { id := some ⟨[1]⟩, prev := some ⟨[1]⟩, header := some [] }
  envelope := some ⟨⟨[2, 0]⟩, "", ""⟩

theorem reset_replays_prefix_updates :
    (resetStateToCommit .permissive updatesStore updatedState ⟨[2]⟩ false).map some =
      StreamLoader.loadStateFromTip .permissive updatesStore (streamIdFromState updatedState) ⟨[2]⟩ false true ∧
    (∀ p throwing, resetStateToCommit .permissive updatesStore updatedState ⟨[2]⟩ false = .ok p →
      StreamLoader.loadStateFromTip .permissive updatesStore (streamIdFromState updatedState) ⟨[2]⟩ false throwing =
        .ok (some p)) ∧
    ∃ r, resetStateToCommit .permissive updatesStore updatedState ⟨[2]⟩ true = .ok r ∧ ∀ p,
      StreamLoader.loadStateFromTip .permissive updatesStore (streamIdFromState updatedState) ⟨[2]⟩ false true =
        .ok (some p) → (DiffersInLaterTimes updatedState p r ↔
          KeepsTimes updatesStore.toDispatcher TILE_TYPE_ID firstUpdate (readCommits [⟨[3]⟩, ⟨[4]⟩])) := by
  have stored : Stored updatesStore (readCommits [⟨[1]⟩] ++ firstUpdate :: readCommits [⟨[3]⟩, ⟨[4]⟩]) := by
    unfold Stored
    decide
  have path : Path none (readCommits [⟨[1]⟩] ++ firstUpdate :: readCommits [⟨[3]⟩, ⟨[4]⟩]) (some ⟨[4]⟩) :=
    ⟨rfl, rfl, rfl, rfl, rfl⟩
  have anchors : ∀ c ∈ readCommits [⟨[1]⟩] ++ firstUpdate :: readCommits [⟨[3]⟩, ⟨[4]⟩], c.type = .TIME →
      verifyAnchorCommit updatesStore.toDispatcher c = .ok 100 := by
    decide
  exact reset_replays_prefix stored path (fun c member time => ⟨100, anchors c member time⟩) (by decide) false

/-- A Caip10Link genesis and its anchor. -/
def anchoredLink : List Block :=
  [⟨⟨[1]⟩, .plain { header := some [("controllers", .arr [.str "0x1@eip155:1"])] }⟩,
   ⟨⟨[2]⟩, .plain { id := some ⟨[1]⟩, prev := some ⟨[1]⟩, proof := some ⟨[9]⟩ }⟩]

def linkStore : CommitStore :=
  store anchoredLink (fun _ => some ⟨"eip155:1", ⟨[8]⟩, ⟨[1]⟩, none⟩) (fun _ => some 100) (by decide)

def linkState : StreamState where
  type := CAIP10_LINK_TYPE_ID
  content := .null
  metadata := [("controllers", .arr [.str "0x1@eip155:1"])]
  signature := .GENESIS
  anchorStatus := .ANCHORED
  anchorProof := some ⟨"eip155:1", ⟨[8]⟩, ⟨[1]⟩, none⟩
  log := ⟨[⟨⟨[1]⟩, .INIT, .seconds 100, none⟩, ⟨⟨[2]⟩, .TIME, .seconds 100, none⟩], by decide⟩

/-- What is left of it without the anchor. -/
def linkGenesis : StreamState where
  type := CAIP10_LINK_TYPE_ID
  content := .null
  next := some { content := some .null }
  metadata := [("controllers", .arr [.str "0x1@eip155:1"])]
  signature := .GENESIS
  anchorStatus := .NOT_REQUESTED
  log := .singleton ⟨⟨[1]⟩, .INIT, .undefined, none⟩

/-- The genesis loses the time of its anchor. -/
theorem reset_link_loses_time :
    StreamLoader.loadStateFromTip .permissive linkStore ⟨CAIP10_LINK_TYPE_ID, ⟨[1]⟩⟩ ⟨[2]⟩ false true =
      .ok (some linkState) ∧
    ∃ p, StreamLoader.loadStateFromTip .permissive linkStore ⟨CAIP10_LINK_TYPE_ID, ⟨[1]⟩⟩ ⟨[1]⟩ false true =
      .ok (some p) ∧ ∃ r, resetStateToCommit .permissive linkStore linkState ⟨[1]⟩ true = .ok r ∧
      ¬DiffersInLaterTimes linkState p r := by
  refine ⟨by decide, linkGenesis, by decide, linkGenesis, by decide, fun differs => ?_⟩
  exact absurd differs.2 (by decide)

end BlockStore

end Ceramic
