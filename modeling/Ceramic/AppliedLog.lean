import Ceramic.FetchedLog
import Ceramic.Timestamps

/-! The log of the state that `_applyLog` returns, in terms of the commits that got
into it, and when its timestamps are its own. -/
namespace Ceramic

open StateManipulator StreamUtils AnchorTimestampExtractor

/-- How many commits get into the log: those before the first refused one, and that
one too if its handler had entered it before it threw. -/
def entered (handler : StreamHandler) : StreamState → List CommitData → Nat
  | _, [] => 0
  | s, c :: cs =>
    match handler.applyCommit c (some s) with
    | .applied next => entered handler next cs + 1
    | .threw _ left => if (left.getD s).log = s.log then 0 else 1

theorem entered_le (handler : StreamHandler) (s : StreamState) (cs : List CommitData) :
    entered handler s cs ≤ cs.length := by
  induction cs generalizing s with
  | nil => simp [entered]
  | cons c cs ih =>
    unfold entered
    split
    next next applied => simpa using ih next
    next => split <;> simp

/-- The entry a commit becomes when it is not the genesis. -/
def entryOf (env : Environment) (streamType : Nat) (c : CommitData) : LogEntry :=
  if isAnchorCommitData c then anchorEntry c else logEntryOf env streamType c .DATA

@[simp] theorem entryOf_cid (env : Environment) (streamType : Nat) (c : CommitData) :
    (entryOf env streamType c).cid = c.cid := by
  unfold entryOf
  split <;> simp [anchorEntry]

theorem entryOf_type (env : Environment) (streamType : Nat) (c : CommitData) :
    (entryOf env streamType c).type = .TIME ↔ isAnchorCommitData c = true := by
  unfold entryOf
  split
  next anchor => simp [anchor, anchorEntry]
  next other => simp [other]

theorem nextLog_untimed (env : Environment) (streamType : Nat) (log : List LogEntry)
    (c : CommitData) : (nextLog env streamType log c).map (·.untimed) =
      log.map (·.untimed) ++ [(entryOf env streamType c).untimed] := by
  unfold nextLog entryOf
  split
  · simp [untimed_restamped]
  · simp

/-- Entering commits adds their entries and otherwise moves timestamps only. -/
theorem foldl_nextLog_untimed (env : Environment) (streamType : Nat) (log : List LogEntry)
    (cs : List CommitData) : (cs.foldl (nextLog env streamType) log).map (·.untimed) =
      log.map (·.untimed) ++ cs.map fun c => (entryOf env streamType c).untimed := by
  induction cs generalizing log with
  | nil => simp
  | cons c cs ih => simp [ih, nextLog_untimed]

theorem applyLogFrom_log {env : Environment} {handler : StreamHandler} (lawful : handler.Lawful env)
    {throwing : Bool} {s s' : StreamState} {cs : List CommitData}
    (h : applyLogFrom handler throwing s cs = .ok s') :
    s'.type = s.type ∧
    s'.log.toList = (cs.take (entered handler s cs)).foldl (nextLog env handler.type) s.log.toList := by
  induction cs generalizing s with
  | nil =>
    obtain rfl : s = s' := by simpa [applyLogFrom] using h
    exact ⟨rfl, by simp⟩
  | cons c cs ih =>
    cases outcome : handler.applyCommit c (some s) with
    | applied next =>
      simp only [applyLogFrom, outcome] at h
      obtain ⟨type, log⟩ := ih h
      refine ⟨type.trans (lawful.type outcome), ?_⟩
      simp [entered, outcome, log, lawful.log outcome]
    | threw e left =>
      obtain ⟨written, rfl, type, logs⟩ := lawful.left outcome
      simp only [applyLogFrom, outcome, Option.getD_some] at h
      split at h
      · cases h
      obtain rfl := Except.ok.inj h
      refine ⟨type, ?_⟩
      by_cases same : written.log = s.log
      · simp [entered, outcome, same]
      · rcases logs with unchanged | ⟨other, appended⟩
        · exact absurd unchanged same
        · simp [entered, outcome, same, appended, nextLog, other]

/-- With `throwOnInvalidCommit` a result means that every commit was applied. -/
theorem entered_all {handler : StreamHandler} {s s' : StreamState} {cs : List CommitData}
    (h : applyLogFrom handler true s cs = .ok s') : entered handler s cs = cs.length := by
  induction cs generalizing s with
  | nil => rfl
  | cons c cs ih =>
    cases outcome : handler.applyCommit c (some s) with
    | applied next =>
      simp only [applyLogFrom, outcome] at h
      simp [entered, outcome, ih h]
    | threw e left => simp [applyLogFrom, outcome] at h

/-- The timestamp the next older commit gets when it is not a valid anchor. -/
def headTime (cs : List CommitData) : Timestamp :=
  match cs with
  | [] => .null
  | c :: _ => c.timestamp

/-- Each commit but an anchor has the timestamp of the commit behind it. -/
def Carried : List CommitData → Prop
  | [] => True
  | c :: cs => (c.type ≠ .TIME → c.timestamp = headTime cs) ∧ Carried cs

theorem headTime_extracted (dispatcher : Dispatcher) (cs : List CommitData) :
    headTime (verifyAnchorAndApplyTimestamps dispatcher cs) = carriedTime dispatcher cs := by
  cases cs with
  | nil => rfl
  | cons c cs => simp [headTime, stamped]

theorem carried_extracted (dispatcher : Dispatcher) (cs : List CommitData) :
    Carried (verifyAnchorAndApplyTimestamps dispatcher cs) := by
  induction cs with
  | nil => trivial
  | cons c cs ih =>
    rw [extracted_cons]
    refine ⟨fun other => ?_, ih⟩
    have other : c.type ≠ .TIME := other
    rw [headTime_extracted]
    simp [stamped, carriedTime, other]

/-- The entry made for a commit has the timestamp it is due when no anchor follows. -/
def EntersOwnTime (streamType : Nat) (c : CommitData) : Prop :=
  c.type = .TIME ∨ streamType = CAIP10_LINK_TYPE_ID ∨ c.timestamp.truthy = false

theorem logEntryOf_untimed_iff (env : Environment) (streamType : Nat) (c : CommitData)
    (type : EventType) : (logEntryOf env streamType c type).timestamp = .undefined ↔
      streamType = CAIP10_LINK_TYPE_ID ∨ c.timestamp.truthy = false := by
  unfold logEntryOf
  split
  next caip10 => simp [caip10]
  next other =>
    unfold commitDataToLogEntry
    cases c.timestamp <;> simp [other, Timestamp.truthy]

/-- One more commit: an anchor stamps the whole log, and another commit leaves the
timestamps the log's own if they were and its own entry has none. -/
theorem provenance_nextLog (env : Environment) (streamType : Nat) (log : List LogEntry)
    {c : CommitData} (kind : c.type = .TIME ↔ isAnchorCommitData c = true)
    (own : EntersOwnTime streamType c → c.type ≠ .TIME → TimestampProvenance log) :
    TimestampProvenance (nextLog env streamType log c) ↔ EntersOwnTime streamType c := by
  unfold nextLog
  by_cases anchor : c.type = .TIME
  · rw [if_pos (kind.mp anchor)]
    exact iff_of_true (provenance_restamped _) (.inl anchor)
  · rw [if_neg (mt kind.mpr anchor), provenance_append_other _ (by simp), logEntryOf_untimed_iff]
    constructor
    · rintro ⟨_, untimed⟩
      exact .inr untimed
    · intro enters
      exact ⟨own enters anchor, enters.resolve_left anchor⟩

/-- The timestamps of a log that commits were entered into are its own exactly when
those of the last entry are. `last` is the commit entered before, where there is one
whose entry may still wait for its anchor. -/
theorem provenance_run (env : Environment) (streamType : Nat) (log : List LogEntry)
    (last : Option CommitData) (cs rest : List CommitData)
    (kinds : ∀ c ∈ cs, c.type = .TIME ↔ isAnchorCommitData c = true)
    (carried : Carried (last.toList ++ cs ++ rest))
    (start : TimestampProvenance log ↔ ∀ c ∈ last, EntersOwnTime streamType c) :
    TimestampProvenance (cs.foldl (nextLog env streamType) log) ↔
      ∀ c ∈ (last.toList ++ cs).getLast?, EntersOwnTime streamType c := by
  induction cs generalizing log last with
  | nil => cases last <;> simpa using start
  | cons c cs ih =>
    have own : EntersOwnTime streamType c → c.type ≠ .TIME → TimestampProvenance log := by
      intro enters other
      refine start.mpr fun before member => ?_
      obtain rfl := Option.mem_def.mp member
      by_cases anchor : before.type = .TIME
      · exact .inl anchor
      · have same : before.timestamp = c.timestamp := carried.1 anchor
        rcases enters.resolve_left other with caip10 | untimed
        · exact .inr (.inl caip10)
        · exact .inr (.inr (same ▸ untimed))
    have tail : Carried ((some c).toList ++ cs ++ rest) := by
      cases last with
      | none => exact carried
      | some before => exact carried.2
    have step := ih (nextLog env streamType log c) (some c) (fun d member => kinds d (by simp [member]))
      tail (by simpa using provenance_nextLog env streamType log (kinds c (by simp)) own)
    simpa [List.getLast?_append] using step

end Ceramic
