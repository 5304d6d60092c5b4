import Ceramic.StreamLoader

/-! Where the timestamps in a log come from. The extractor hands every fetched commit
the time of the first valid anchor at or behind it, and applying an anchor commit
stamps the log again; the log of a state ought to hold no other timestamps. -/
namespace Ceramic

open StateManipulator AnchorTimestampExtractor

/-- Each entry has the timestamp of the first anchor at or after it, and none when
there is no such anchor. -/
def TimestampProvenance (log : List LogEntry) : Prop :=
  ∀ before entry after, log = before ++ entry :: after →
    entry.timestamp = firstAnchorTimestamp (entry :: after)

theorem firstAnchorTimestamp_cons (entry : LogEntry) (log : List LogEntry) :
    firstAnchorTimestamp (entry :: log) =
      if entry.type = .TIME then entry.timestamp else firstAnchorTimestamp log := by
  by_cases anchor : entry.type = .TIME <;> simp [firstAnchorTimestamp, anchor]

theorem firstAnchorTimestamp_append_other (log : List LogEntry) {entry : LogEntry}
    (other : entry.type ≠ .TIME) :
    firstAnchorTimestamp (log ++ [entry]) = firstAnchorTimestamp log := by
  induction log with
  | nil => simp [firstAnchorTimestamp, other]
  | cons first log ih => simp [firstAnchorTimestamp_cons, ih]

@[simp] theorem firstAnchorTimestamp_restamped (log : List LogEntry) :
    firstAnchorTimestamp (applyAnchorTimestampsToLog log) = firstAnchorTimestamp log := by
  induction log with
  | nil => rfl
  | cons entry log ih =>
    by_cases anchor : entry.type = .TIME
    · simp [applyAnchorTimestampsToLog_anchor _ _ anchor, firstAnchorTimestamp_cons, anchor]
    · simp [applyAnchorTimestampsToLog_other _ _ anchor, firstAnchorTimestamp_cons, anchor, ih]

theorem provenance_nil : TimestampProvenance [] := by
  intro before entry after h
  simp at h

theorem provenance_cons (entry : LogEntry) (log : List LogEntry) :
    TimestampProvenance (entry :: log) ↔
      entry.timestamp = firstAnchorTimestamp (entry :: log) ∧ TimestampProvenance log := by
  constructor
  · intro all
    refine ⟨all [] entry log rfl, fun before e after h => ?_⟩
    exact all (entry :: before) e after (by rw [h]; rfl)
  · rintro ⟨first, rest⟩ before e after h
    cases before with
    | nil =>
      obtain ⟨rfl, rfl⟩ := List.cons_eq_cons.mp h
      exact first
    | cons b before =>
      obtain ⟨rfl, rfl⟩ := List.cons_eq_cons.mp h
      exact rest before e after rfl

/-- Stamping a log again changes nothing exactly when its timestamps are its own. -/
theorem provenance_iff_restamped (log : List LogEntry) :
    TimestampProvenance log ↔ applyAnchorTimestampsToLog log = log := by
  induction log with
  | nil => exact iff_of_true provenance_nil rfl
  | cons entry log ih =>
    rw [provenance_cons, firstAnchorTimestamp_cons, ih]
    by_cases anchor : entry.type = .TIME
    · simp [applyAnchorTimestampsToLog_anchor _ _ anchor, anchor]
    · rw [applyAnchorTimestampsToLog_other _ _ anchor, if_neg anchor, List.cons_eq_cons]
      constructor
      · rintro ⟨time, rest⟩
        exact ⟨by rw [← time], rest⟩
      · rintro ⟨time, rest⟩
        exact ⟨(congrArg LogEntry.timestamp time).symm, rest⟩

theorem provenance_restamped (log : List LogEntry) :
    TimestampProvenance (applyAnchorTimestampsToLog log) := by
  induction log with
  | nil => exact provenance_nil
  | cons entry log ih =>
    by_cases anchor : entry.type = .TIME
    · rw [applyAnchorTimestampsToLog_anchor _ _ anchor, provenance_cons]
      exact ⟨by simp [firstAnchorTimestamp_cons, anchor], ih⟩
    · rw [applyAnchorTimestampsToLog_other _ _ anchor, provenance_cons]
      exact ⟨by simp [firstAnchorTimestamp_cons, anchor], ih⟩

theorem provenance_append_other (log : List LogEntry) {entry : LogEntry}
    (other : entry.type ≠ .TIME) :
    TimestampProvenance (log ++ [entry]) ↔
      TimestampProvenance log ∧ entry.timestamp = .undefined := by
  induction log with
  | nil => simp [provenance_cons, provenance_nil, firstAnchorTimestamp, other]
  | cons first log ih =>
    rw [List.cons_append, provenance_cons, provenance_cons, ih, ← List.cons_append,
      firstAnchorTimestamp_append_other _ other, and_assoc]

/-- An entry without the timestamp it got from elsewhere. -/
def LogEntry.untimed (entry : LogEntry) : LogEntry :=
  if entry.type = .TIME then entry else { entry with timestamp := .undefined }

@[simp] theorem untimed_type (entry : LogEntry) : entry.untimed.type = entry.type := by
  unfold LogEntry.untimed
  split <;> rfl

@[simp] theorem untimed_cid (entry : LogEntry) : entry.untimed.cid = entry.cid := by
  unfold LogEntry.untimed
  split <;> rfl

@[simp] theorem untimed_expirationTime (entry : LogEntry) :
    entry.untimed.expirationTime = entry.expirationTime := by
  unfold LogEntry.untimed
  split <;> rfl

theorem untimed_timestamp (entry : LogEntry) (t : Timestamp) (other : entry.type ≠ .TIME) :
    ({ entry with timestamp := t } : LogEntry).untimed = entry.untimed := by
  simp [LogEntry.untimed, other]

theorem untimed_restamped (log : List LogEntry) :
    (applyAnchorTimestampsToLog log).map (·.untimed) = log.map (·.untimed) := by
  induction log with
  | nil => rfl
  | cons entry log ih =>
    by_cases anchor : entry.type = .TIME
    · simp [applyAnchorTimestampsToLog_anchor _ _ anchor, ih]
    · simp [applyAnchorTimestampsToLog_other _ _ anchor, untimed_timestamp, anchor, ih]

/-- A log whose timestamps are its own is given by its untimed entries. -/
theorem eq_of_provenance {log1 log2 : List LogEntry} (own1 : TimestampProvenance log1)
    (own2 : TimestampProvenance log2)
    (same : log1.map (·.untimed) = log2.map (·.untimed)) : log1 = log2 := by
  induction log1 generalizing log2 with
  | nil =>
    cases log2 with
    | nil => rfl
    | cons entry2 log2 => simp at same
  | cons entry1 log1 ih =>
    cases log2 with
    | nil => simp at same
    | cons entry2 log2 =>
      obtain ⟨time1, rest1⟩ := (provenance_cons entry1 log1).mp own1
      obtain ⟨time2, rest2⟩ := (provenance_cons entry2 log2).mp own2
      obtain ⟨sameEntry, sameLog⟩ := List.cons_eq_cons.mp (by simpa using same)
      obtain rfl := ih rest1 rest2 sameLog
      have sameType : entry1.type = entry2.type := by simpa using congrArg LogEntry.type sameEntry
      congr 1
      by_cases anchor : entry1.type = .TIME
      · simpa [LogEntry.untimed, anchor, ← sameType] using sameEntry
      · have other : entry2.type ≠ .TIME := sameType ▸ anchor
        rw [firstAnchorTimestamp_cons, if_neg anchor] at time1
        rw [firstAnchorTimestamp_cons, if_neg other, ← time1] at time2
        cases entry1
        cases entry2
        simp_all [LogEntry.untimed]

end Ceramic
