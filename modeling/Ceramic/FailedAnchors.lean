import Ceramic.StateManipulator
import Ceramic.AnchorTimestampExtractor

/-! What an anchor that failed validation does to the comparison of two conflicting
logs. Logs are compared before their commits are applied, and an anchor counts there
by its type alone. -/
namespace Ceramic

open StateManipulator

/-- The first anchor of a log, valid or not. -/
def firstAnchor (log : List LogEntry) : Option LogEntry := log.find? fun entry => entry.type = .TIME

theorem findAnchorIndex_cons (entry : LogEntry) (log : List LogEntry) :
    findAnchorIndex (entry :: log) =
      if entry.type = .TIME then some 0 else (findAnchorIndex log).map (· + 1) := by
  simp [findAnchorIndex, List.findIdx?_cons]

theorem firstAnchor_cons (entry : LogEntry) (log : List LogEntry) :
    firstAnchor (entry :: log) = if entry.type = .TIME then some entry else firstAnchor log := by
  by_cases anchor : entry.type = .TIME <;> simp [firstAnchor, anchor]

theorem relevantLength_cons (entry : LogEntry) (log : List LogEntry) :
    relevantLength (entry :: log) = if entry.type = .TIME then 1 else relevantLength log + 1 := by
  unfold relevantLength
  rw [findAnchorIndex_cons]
  by_cases anchor : entry.type = .TIME
  · simp [anchor]
  · cases findAnchorIndex log <;> simp [anchor]

/-- The index finds the first anchor, and the timestamp read there is its own. -/
theorem findAnchorIndex_firstAnchor (log : List LogEntry) :
    (findAnchorIndex log = none ∧ firstAnchor log = none) ∨
    ∃ index anchor, findAnchorIndex log = some index ∧ firstAnchor log = some anchor ∧
      timestampAt log index = anchor.timestamp := by
  induction log with
  | nil => exact .inl ⟨rfl, rfl⟩
  | cons entry log ih =>
    rw [findAnchorIndex_cons, firstAnchor_cons]
    by_cases anchor : entry.type = .TIME
    · exact .inr ⟨0, entry, by simp [anchor], by simp [anchor], rfl⟩
    · rcases ih with ⟨noIndex, noAnchor⟩ | ⟨index, found, atIndex, first, time⟩
      · exact .inl (by simp [anchor, noIndex, noAnchor])
      · exact .inr ⟨index + 1, found, by simp [anchor, atIndex], by simp [anchor, first],
          by simpa [timestampAt] using time⟩

/-- The rules without the indices. -/
theorem pickLogToAccept_eq (log1 log2 : List LogEntry) :
    pickLogToAccept log1 log2 =
      match firstAnchor log1, firstAnchor log2 with
      | some _, none => .log1
      | none, some _ => .log2
      | some anchor1, some anchor2 =>
        if anchor1.timestamp.lt anchor2.timestamp then .log1
        else if anchor2.timestamp.lt anchor1.timestamp then .log2
        else pickByLength log1 log2
      | none, none => pickByLength log1 log2 := by
  unfold pickLogToAccept
  rcases findAnchorIndex_firstAnchor log1 with ⟨i1, a1⟩ | ⟨index1, anchor1, i1, a1, time1⟩ <;>
    rcases findAnchorIndex_firstAnchor log2 with ⟨i2, a2⟩ | ⟨index2, anchor2, i2, a2, time2⟩
  · simp [i1, a1, i2, a2]
  · simp [i1, a1, i2, a2]
  · simp [i1, a1, i2, a2]
  · simp [i1, a1, i2, a2, time1, time2]

def entries (log : List CommitData) : List LogEntry := log.map (·.toLogEntry)

def isFailedAnchor (c : CommitData) : Bool :=
  c.type = .TIME && c.anchorValidationError.isSome

def isValidAnchor (c : CommitData) : Bool :=
  c.type = .TIME && c.anchorValidationError.isNone

def hasValidAnchor (log : List CommitData) : Bool := log.any isValidAnchor

/-- A log without its first failed anchor and all that follows it. -/
def beforeFailure (log : List CommitData) : List CommitData := log.takeWhile (!isFailedAnchor ·)

inductive Anchoring where
  | unanchored | validated | failed
  deriving DecidableEq, Repr

/-- How the first anchor of a log fared. -/
def anchoring (log : List CommitData) : Anchoring :=
  match log.find? (fun c => c.type = .TIME) with
  | none => .unanchored
  | some c => if c.anchorValidationError.isNone then .validated else .failed

theorem anchoring_cons (c : CommitData) (log : List CommitData) :
    anchoring (c :: log) = if c.type = .TIME
      then (if c.anchorValidationError.isNone then .validated else .failed)
      else anchoring log := by
  by_cases anchor : c.type = .TIME <;> simp [anchoring, anchor]

@[simp] theorem entries_nil : entries [] = [] := rfl

@[simp] theorem entries_cons (c : CommitData) (log : List CommitData) :
    entries (c :: log) = c.toLogEntry :: entries log := rfl

@[simp] theorem entries_length (log : List CommitData) : (entries log).length = log.length := by
  simp [entries]

@[simp] theorem toLogEntry_type (c : CommitData) : c.toLogEntry.type = c.type := rfl

theorem beforeFailure_other {c : CommitData} (other : c.type ≠ .TIME) (log : List CommitData) :
    beforeFailure (c :: log) = c :: beforeFailure log := by
  simp [beforeFailure, isFailedAnchor, other]

theorem unanchored_log {log : List CommitData} (kind : anchoring log = .unanchored) :
    beforeFailure log = log ∧ firstAnchor (entries log) = none := by
  induction log with
  | nil => exact ⟨rfl, rfl⟩
  | cons c log ih =>
    rw [anchoring_cons] at kind
    split at kind
    · split at kind <;> cases kind
    next other =>
      obtain ⟨whole, none⟩ := ih kind
      rw [beforeFailure_other other, whole]
      exact ⟨rfl, by simp [firstAnchor_cons, other, none]⟩

/-- Cutting after a valid first anchor keeps that anchor and its position. -/
theorem validated_log {log : List CommitData} (kind : anchoring log = .validated) :
    ∃ anchor, firstAnchor (entries log) = some anchor ∧
      firstAnchor (entries (beforeFailure log)) = some anchor ∧
      relevantLength (entries (beforeFailure log)) = relevantLength (entries log) := by
  induction log with
  | nil => cases kind
  | cons c log ih =>
    rw [anchoring_cons] at kind
    split at kind
    next anchor =>
      split at kind
      next valid =>
        have kept : beforeFailure (c :: log) = c :: beforeFailure log := by
          simp [beforeFailure, isFailedAnchor, Option.isNone_iff_eq_none.mp valid]
        exact ⟨c.toLogEntry, by simp [firstAnchor_cons, anchor], by simp [kept, firstAnchor_cons, anchor],
          by simp [kept, relevantLength_cons, anchor]⟩
      · cases kind
    next other =>
      obtain ⟨anchor, first, firstKept, length⟩ := ih kind
      rw [beforeFailure_other other]
      exact ⟨anchor, by simpa [firstAnchor_cons, other] using first,
        by simpa [firstAnchor_cons, other] using firstKept,
        by simpa [relevantLength_cons, other] using length⟩

/-- Cutting at a failed first anchor leaves no anchor. -/
theorem failed_log {log : List CommitData} (kind : anchoring log = .failed) :
    ∃ anchor, firstAnchor (entries log) = some anchor ∧
      firstAnchor (entries (beforeFailure log)) = none := by
  induction log with
  | nil => cases kind
  | cons c log ih =>
    rw [anchoring_cons] at kind
    split at kind
    next anchor =>
      split at kind
      · cases kind
      next invalid =>
        have cut : beforeFailure (c :: log) = [] := by
          simp [beforeFailure, isFailedAnchor, anchor, invalid]
        exact ⟨c.toLogEntry, by simp [firstAnchor_cons, anchor], by rw [cut]; rfl⟩
    next other =>
      obtain ⟨anchor, first, firstKept⟩ := ih kind
      rw [beforeFailure_other other]
      exact ⟨anchor, by simpa [firstAnchor_cons, other] using first,
        by simpa [firstAnchor_cons, other] using firstKept⟩

def pickOf (log1 log2 : List CommitData) : SelectedLog := pickLogToAccept (entries log1) (entries log2)

def lastCidLower (log1 log2 : List CommitData) : Bool :=
  match log1.getLast?, log2.getLast? with
  | some c1, some c2 => c1.cid.bytesLt c2.cid
  | _, _ => false

/-- The timestamp of a log's first anchor; a failed one has that of the next valid
anchor, or `null`. -/
def anchorTime (log : List CommitData) : Timestamp := firstAnchorTimestamp (entries log)

def lengthToAnchor (log : List CommitData) : Nat := relevantLength (entries log)

/-- Length up to the anchor, then the last CID. -/
def longerOrLower (log1 log2 : List CommitData) : Bool :=
  decide (lengthToAnchor log2 < lengthToAnchor log1) ||
    (decide (lengthToAnchor log1 = lengthToAnchor log2) && lastCidLower log1 log2)

theorem pickByLength_entries (log1 log2 : List CommitData) :
    pickByLength (entries log1) (entries log2) =
      if longerOrLower log1 log2 then .log1 else .log2 := by
  have last : pickByCid (entries log1) (entries log2) =
      if lastCidLower log1 log2 then .log1 else .log2 := by
    unfold pickByCid lastCidLower entries
    rw [List.getLast?_map, List.getLast?_map]
    cases log1.getLast? <;> cases log2.getLast? <;> rfl
  unfold pickByLength longerOrLower lengthToAnchor
  rw [last]
  split
  · simp_all
  split
  next shorter =>
    have : ¬relevantLength (entries log1) = relevantLength (entries log2) := by omega
    simp [this]
    omega
  next equal =>
    have : relevantLength (entries log1) = relevantLength (entries log2) := by omega
    simp [this]

/-- A log without a valid anchor loses to one with a valid anchor, and cutting either
log before its first failed anchor does not change the choice. -/
structure FailedAnchorsGiveNothing (log1 log2 : List CommitData) : Prop where
  second_wins : hasValidAnchor log1 = false → hasValidAnchor log2 = true → pickOf log1 log2 = .log2
  first_wins : hasValidAnchor log1 = true → hasValidAnchor log2 = false → pickOf log1 log2 = .log1
  cut_first : pickOf log1 log2 = pickOf (beforeFailure log1) log2
  cut_second : pickOf log1 log2 = pickOf log1 (beforeFailure log2)

/-- When a failed anchor cannot matter: neither log starts its anchors with a failed
one and no tie is left to a CID behind a failed anchor, or the choice it brings about
is the one that is due without it. Two logs whose first anchors both failed each need
the other to win. -/
def FailedAnchorsHarmless (log1 log2 : List CommitData) : Prop :=
  match anchoring log1, anchoring log2 with
  | .unanchored, .unanchored | .validated, .unanchored | .unanchored, .validated => True
  | .validated, .validated =>
    (anchorTime log1).lt (anchorTime log2) ∨ (anchorTime log2).lt (anchorTime log1) ∨
    lengthToAnchor log1 ≠ lengthToAnchor log2 ∨
    (lastCidLower (beforeFailure log1) log2 = lastCidLower log1 log2 ∧
      lastCidLower log1 (beforeFailure log2) = lastCidLower log1 log2)
  | .failed, .unanchored => longerOrLower (beforeFailure log1) log2
  | .unanchored, .failed => ¬longerOrLower log1 (beforeFailure log2)
  | .failed, .validated =>
    (anchorTime log2).lt (anchorTime log1) ∨
    (¬(anchorTime log1).lt (anchorTime log2) ∧ ¬longerOrLower log1 log2 ∧
      ¬longerOrLower log1 (beforeFailure log2))
  | .validated, .failed =>
    (anchorTime log1).lt (anchorTime log2) ∨
    (¬(anchorTime log2).lt (anchorTime log1) ∧ longerOrLower log1 log2 ∧
      longerOrLower (beforeFailure log1) log2)
  | .failed, .failed => False

theorem anchorTime_eq {log : List CommitData} {anchor : LogEntry}
    (first : firstAnchor (entries log) = some anchor) : anchorTime log = anchor.timestamp := by
  unfold firstAnchor at first
  simp [anchorTime, firstAnchorTimestamp, first]

theorem hasValidAnchor_unanchored {log : List CommitData} (kind : anchoring log = .unanchored) :
    hasValidAnchor log = false := by
  induction log with
  | nil => rfl
  | cons c log ih =>
    rw [anchoring_cons] at kind
    split at kind
    · split at kind <;> cases kind
    next other =>
      have := ih kind
      simp only [hasValidAnchor] at this
      simp [hasValidAnchor, isValidAnchor, other, this]

theorem hasValidAnchor_validated {log : List CommitData} (kind : anchoring log = .validated) :
    hasValidAnchor log = true := by
  induction log with
  | nil => cases kind
  | cons c log ih =>
    rw [anchoring_cons] at kind
    split at kind
    next anchor =>
      split at kind
      next valid => simp [hasValidAnchor, isValidAnchor, anchor, valid]
      · cases kind
    next other =>
      have := ih kind
      simp only [hasValidAnchor] at this
      simp [hasValidAnchor, this]

theorem pickOf_unanchored {log1 log2 : List CommitData} (first1 : firstAnchor (entries log1) = none)
    (first2 : firstAnchor (entries log2) = none) :
    pickOf log1 log2 = if longerOrLower log1 log2 then .log1 else .log2 := by
  rw [pickOf, pickLogToAccept_eq, first1, first2, pickByLength_entries]

theorem pickOf_first {log1 log2 : List CommitData} {anchor1 : LogEntry}
    (first1 : firstAnchor (entries log1) = some anchor1)
    (first2 : firstAnchor (entries log2) = none) : pickOf log1 log2 = .log1 := by
  rw [pickOf, pickLogToAccept_eq, first1, first2]

theorem pickOf_second {log1 log2 : List CommitData} {anchor2 : LogEntry}
    (first1 : firstAnchor (entries log1) = none)
    (first2 : firstAnchor (entries log2) = some anchor2) : pickOf log1 log2 = .log2 := by
  rw [pickOf, pickLogToAccept_eq, first1, first2]

theorem pickOf_anchored {log1 log2 : List CommitData} {anchor1 anchor2 : LogEntry}
    (first1 : firstAnchor (entries log1) = some anchor1)
    (first2 : firstAnchor (entries log2) = some anchor2) :
    pickOf log1 log2 = if anchor1.timestamp.lt anchor2.timestamp then .log1
      else if anchor2.timestamp.lt anchor1.timestamp then .log2
      else if longerOrLower log1 log2 then .log1 else .log2 := by
  rw [pickOf, pickLogToAccept_eq, first1, first2, pickByLength_entries]

/-- Failed anchors give no advantage exactly where they are harmless. -/
theorem failed_anchors_give_nothing_iff (log1 log2 : List CommitData) :
    FailedAnchorsGiveNothing log1 log2 ↔ FailedAnchorsHarmless log1 log2 := by
  unfold FailedAnchorsHarmless
  cases kind1 : anchoring log1 <;> cases kind2 : anchoring log2 <;> dsimp only
  case unanchored.unanchored =>
    have valid1 := hasValidAnchor_unanchored kind1
    have valid2 := hasValidAnchor_unanchored kind2
    have whole1 := (unanchored_log kind1).1
    have whole2 := (unanchored_log kind2).1
    exact ⟨fun _ => trivial, fun _ => ⟨by simp [valid2], by simp [valid1], by rw [whole1], by rw [whole2]⟩⟩
  case unanchored.validated =>
    have valid1 := hasValidAnchor_unanchored kind1
    obtain ⟨whole1, first1⟩ := unanchored_log kind1
    obtain ⟨anchor2, first2, cut2, _⟩ := validated_log kind2
    have whole := pickOf_second first1 first2
    exact ⟨fun _ => trivial, fun _ => ⟨fun _ _ => whole, by simp [valid1], by rw [whole1],
      by rw [whole, pickOf_second first1 cut2]⟩⟩
  case unanchored.failed =>
    have valid1 := hasValidAnchor_unanchored kind1
    obtain ⟨whole1, first1⟩ := unanchored_log kind1
    obtain ⟨anchor2, first2, cut2⟩ := failed_log kind2
    have whole := pickOf_second first1 first2
    have cut := pickOf_unanchored first1 cut2
    constructor
    · intro nothing lower
      have := nothing.cut_second
      simp [whole, cut, lower] at this
    · intro higher
      exact ⟨fun _ _ => whole, by simp [valid1], by rw [whole1], by simp [whole, cut, higher]⟩
  case validated.unanchored =>
    have valid2 := hasValidAnchor_unanchored kind2
    obtain ⟨whole2, first2⟩ := unanchored_log kind2
    obtain ⟨anchor1, first1, cut1, _⟩ := validated_log kind1
    have whole := pickOf_first first1 first2
    exact ⟨fun _ => trivial, fun _ => ⟨by simp [valid2], fun _ _ => whole,
      by rw [whole, pickOf_first cut1 first2], by rw [whole2]⟩⟩
  case failed.unanchored =>
    have valid2 := hasValidAnchor_unanchored kind2
    obtain ⟨whole2, first2⟩ := unanchored_log kind2
    obtain ⟨anchor1, first1, cut1⟩ := failed_log kind1
    have whole := pickOf_first first1 first2
    have cut := pickOf_unanchored cut1 first2
    constructor
    · intro nothing
      have := nothing.cut_first
      simpa [whole, cut] using this
    · intro lower
      exact ⟨by simp [valid2], fun _ _ => whole, by simp [whole, cut, lower], by rw [whole2]⟩
  case validated.validated =>
    have valid1 := hasValidAnchor_validated kind1
    have valid2 := hasValidAnchor_validated kind2
    obtain ⟨anchor1, first1, cut1, length1⟩ := validated_log kind1
    obtain ⟨anchor2, first2, cut2, length2⟩ := validated_log kind2
    rw [anchorTime_eq first1, anchorTime_eq first2]
    have whole := pickOf_anchored first1 first2
    have cutFirst := pickOf_anchored cut1 first2
    have cutSecond := pickOf_anchored first1 cut2
    have sameLength1 : lengthToAnchor (beforeFailure log1) = lengthToAnchor log1 := length1
    have sameLength2 : lengthToAnchor (beforeFailure log2) = lengthToAnchor log2 := length2
    constructor
    · rintro ⟨_, _, first, second⟩
      rw [whole, cutFirst] at first
      rw [whole, cutSecond] at second
      simp only [longerOrLower, sameLength1, sameLength2] at first second
      grind
    · intro untied
      refine ⟨by simp [valid1], by simp [valid2], ?_, ?_⟩
      · rw [whole, cutFirst]
        simp only [longerOrLower, sameLength1]
        grind
      · rw [whole, cutSecond]
        simp only [longerOrLower, sameLength2]
        grind
  case validated.failed =>
    have valid1 := hasValidAnchor_validated kind1
    obtain ⟨anchor1, first1, cut1, length1⟩ := validated_log kind1
    obtain ⟨anchor2, first2, cut2⟩ := failed_log kind2
    rw [anchorTime_eq first1, anchorTime_eq first2]
    have whole := pickOf_anchored first1 first2
    have cutFirst := pickOf_anchored cut1 first2
    have cutSecond := pickOf_first first1 cut2
    constructor
    · rintro ⟨_, _, first, second⟩
      rw [second, cutSecond, cutFirst] at first
      rw [whole, cutSecond] at second
      grind
    · intro due
      have wins : pickOf log1 log2 = .log1 := by
        rw [whole]
        grind [Timestamp.lt_asymm]
      refine ⟨by simp [valid1], fun _ _ => wins, ?_, by rw [wins, cutSecond]⟩
      rw [wins, cutFirst]
      grind [Timestamp.lt_asymm]
  case failed.validated =>
    have valid2 := hasValidAnchor_validated kind2
    obtain ⟨anchor1, first1, cut1⟩ := failed_log kind1
    obtain ⟨anchor2, first2, cut2, length2⟩ := validated_log kind2
    rw [anchorTime_eq first1, anchorTime_eq first2]
    have whole := pickOf_anchored first1 first2
    have cutFirst := pickOf_second cut1 first2
    have cutSecond := pickOf_anchored first1 cut2
    constructor
    · rintro ⟨_, _, first, second⟩
      rw [first, cutFirst, cutSecond] at second
      rw [whole, cutFirst] at first
      grind
    · intro due
      have wins : pickOf log1 log2 = .log2 := by
        rw [whole]
        grind [Timestamp.lt_asymm]
      refine ⟨fun _ _ => wins, by simp [valid2], by rw [wins, cutFirst], ?_⟩
      rw [wins, cutSecond]
      grind [Timestamp.lt_asymm]
  case failed.failed =>
    obtain ⟨anchor1, first1, cut1⟩ := failed_log kind1
    obtain ⟨anchor2, first2, cut2⟩ := failed_log kind2
    refine ⟨fun nothing => ?_, False.elim⟩
    have lost := nothing.cut_first.trans (pickOf_second cut1 first2)
    have won := nothing.cut_second.trans (pickOf_first first1 cut2)
    rw [lost] at won
    cases won

/-- A network on which only the proofs of one chain can be validated. -/
def oneChain : Dispatcher where
  retrieveCommit := fun _ => .ok none
  retrieveProof := fun _ => .error ⟨"not found"⟩
  getCacaoCidFromCommit := fun _ => .ok none
  retrieveCacao := fun _ => .error ⟨"not found"⟩
  retrieveMerkleNode := fun _ _ => .error ⟨"not found"⟩
  validateChainInclusion := fun proof =>
    if proof.chainId = "eip155:1" then .ok 100
    else .error ⟨"Anchor proof chainId '" ++ proof.chainId ++ "' is not supported"⟩

def anchorOf (cid prev : Cid) (chainId : String) : CommitData where
  cid := cid
  type := .TIME
  commit := { id := some prev, prev := some prev, proof := some ⟨[9]⟩ }
  proof := some { chainId, txHash := ⟨[8]⟩, root := prev, txType := none }

def anchoredOn (chainId : String) (cid : Cid) : List CommitData :=
  AnchorTimestampExtractor.verifyAnchorAndApplyTimestamps oneChain [anchorOf cid ⟨[1]⟩ chainId]

/-- An anchor that failed validation has no timestamp, and none is less than any. -/
theorem failed_anchor_beats_valid_anchor :
    hasValidAnchor (anchoredOn "eip155:5" ⟨[2]⟩) = false ∧
    hasValidAnchor (anchoredOn "eip155:1" ⟨[3]⟩) = true ∧
    pickOf (anchoredOn "eip155:5" ⟨[2]⟩) (anchoredOn "eip155:1" ⟨[3]⟩) = .log1 ∧
    ¬FailedAnchorsGiveNothing (anchoredOn "eip155:5" ⟨[2]⟩) (anchoredOn "eip155:1" ⟨[3]⟩) := by
  have beats : pickOf (anchoredOn "eip155:5" ⟨[2]⟩) (anchoredOn "eip155:1" ⟨[3]⟩) = .log1 := by
    decide
  refine ⟨by decide, by decide, beats, fun nothing => ?_⟩
  have loses := nothing.second_wins (by decide) (by decide)
  rw [beats] at loses
  cases loses

end Ceramic
