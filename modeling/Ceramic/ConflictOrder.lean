import Ceramic.CommitTree
import Ceramic.Library.Tournament
import Mathlib.Data.Prod.Lex
import Mathlib.Data.List.Lex

/-! The order in which `_pickLogToAccept` prefers conflicting logs. The last criterion compares the bytes of two
CIDs with `<`, which orders their decimal texts. -/
namespace Ceramic

open StateManipulator

namespace Cid

/-- What stands behind the digits of a byte in a text. -/
def joinedTail : List UInt8 → List Nat
  | [] => []
  | c :: rest => 44 :: joined (c :: rest)

theorem joined_eq (b : UInt8) (rest : List UInt8) : joined (b :: rest) = decimal b ++ joinedTail rest := by
  cases rest with
  | nil => exact (List.append_nil _).symm
  | cons c rest => rfl

/-- The digits of different bytes decide, whatever follows them. -/
theorem digits_lt_iff {ds es rest rest' : List Nat} (digits : ∀ unit ∈ ds, 44 < unit)
    (digits' : ∀ unit ∈ es, 44 < unit) (different : ds ≠ es) (ends : ∀ unit ∈ rest.head?, unit = 44)
    (ends' : ∀ unit ∈ rest'.head?, unit = 44) : ds ++ rest < es ++ rest' ↔ ds < es := by
  induction ds generalizing es with
  | nil =>
    cases es with
    | nil => exact absurd rfl different
    | cons e es =>
      refine iff_of_true ?_ (List.nil_lt_cons e es)
      cases rest with
      | nil => exact List.nil_lt_cons e _
      | cons unit rest =>
        obtain rfl := ends unit rfl
        exact List.cons_lt_cons_iff.mpr (.inl (digits' e List.mem_cons_self))
  | cons d ds ih =>
    cases es with
    | nil =>
      refine iff_of_false ?_ (List.not_lt_nil _)
      cases rest' with
      | nil => exact List.not_lt_nil _
      | cons unit rest' =>
        obtain rfl := ends' unit rfl
        have above := digits d List.mem_cons_self
        intro lower
        rcases List.cons_lt_cons_iff.mp lower with less | ⟨same, _⟩
        · omega
        · omega
    | cons e es =>
      rw [List.cons_append, List.cons_append, List.cons_lt_cons_iff, List.cons_lt_cons_iff]
      by_cases same : d = e
      · subst same
        have behind : ds ++ rest < es ++ rest' ↔ ds < es := by
          refine ih (fun unit member => digits unit (List.mem_cons_of_mem _ member))
            (fun unit member => digits' unit (List.mem_cons_of_mem _ member)) (fun same => different (by rw [same]))
        rw [behind]
      · simp [same]

theorem joinedTail_head (rest : List UInt8) : ∀ unit ∈ (joinedTail rest).head?, unit = 44 := by
  cases rest with
  | nil => simp [joinedTail]
  | cons c rest => simp [joinedTail]

theorem append_lt_append_iff (front rest rest' : List Nat) : front ++ rest < front ++ rest' ↔ rest < rest' := by
  induction front with
  | nil => rfl
  | cons d front ih =>
    rw [List.cons_append, List.cons_append, List.cons_lt_cons_iff, ih]
    simp

theorem joinedTail_lt_iff (rest rest' : List UInt8) : joinedTail rest < joinedTail rest' ↔ joined rest < joined rest' := by
  have nonempty (c : UInt8) (rest : List UInt8) : [] < joined (c :: rest) := by
    rw [joined_eq]
    cases digits : decimal c with
    | nil => exact absurd digits (decimal_ne_nil c)
    | cons unit units => exact List.nil_lt_cons unit _
  cases rest with
  | nil =>
    cases rest' with
    | nil => rfl
    | cons c' rest' => exact iff_of_true (List.nil_lt_cons _ _) (nonempty c' rest')
  | cons c rest =>
    cases rest' with
    | nil => exact iff_of_false (List.not_lt_nil _) (List.not_lt_nil _)
    | cons c' rest' => simp [joinedTail]

/-- The bytes of two identifiers, where they first differ, are ordered like their decimal texts. -/
def TextsAgree : List UInt8 → List UInt8 → Prop
  | a :: as, b :: bs => if a = b then TextsAgree as bs else (decimal a < decimal b ↔ a.toNat < b.toNat)
  | _, _ => True

def bytewise (cid : Cid) : List Nat := cid.bytes.map UInt8.toNat

/-- What `<` compares. -/
def text (cid : Cid) : List Nat := joined cid.bytes

theorem textsAgree_iff (as bs : List UInt8) :
    TextsAgree as bs ↔ (joined as < joined bs ↔ as.map UInt8.toNat < bs.map UInt8.toNat) := by
  induction as generalizing bs with
  | nil =>
    cases bs with
    | nil => simp [TextsAgree, joined]
    | cons b bs =>
      have text : joined [] < joined (b :: bs) := by
        rw [← joinedTail_lt_iff]
        exact List.nil_lt_cons _ _
      simp [TextsAgree, text]
  | cons a as ih =>
    cases bs with
    | nil => simp [TextsAgree, joined]
    | cons b bs =>
      rw [joined_eq, joined_eq, List.map_cons, List.map_cons, List.cons_lt_cons_iff]
      by_cases same : a = b
      · subst same
        rw [append_lt_append_iff, joinedTail_lt_iff, TextsAgree, if_pos rfl, ih]
        simp
      · have numbers : a.toNat ≠ b.toNat := fun equal => same (UInt8.toNat_inj.mp equal)
        rw [digits_lt_iff (decimal_digits a) (decimal_digits b) (fun equal => same (decimal_injective equal))
          (joinedTail_head as) (joinedTail_head bs), TextsAgree, if_neg same]
        simp [numbers]

end Cid

/-- A log of the kind that is compared: new commits behind a divergence point, with validated anchors. -/
structure Suffix (log : List LogEntry) : Prop where
  nonempty : log ≠ []
  anchored : ∀ entry ∈ log, entry.type = .TIME → ∃ n, entry.timestamp = .seconds n

/-- The time of the first anchor. -/
def firstAnchorSeconds (log : List LogEntry) : Nat :=
  match firstAnchor log with
  | some entry => (entry.timestamp.toNumber).getD 0
  | none => 0

/-- Where a log stands: anchored ones first, then by the time of the first anchor, then longer ones, then by the
text of the last CID. -/
def rankBy (text : Cid → List Nat) (log : List LogEntry) : Bool ×ₗ Nat ×ₗ Natᵒᵈ ×ₗ List Nat :=
  toLex ((firstAnchor log).isNone, toLex (firstAnchorSeconds log,
    toLex (OrderDual.toDual (relevantLength log), (log.getLast?.map fun entry => text entry.cid).getD [])))

/-- The log `_pickLogToAccept` returns. -/
def acceptedLog (log1 log2 : List LogEntry) : List LogEntry :=
  match pickLogToAccept log1 log2 with
  | .log1 => log1
  | .log2 => log2

/-- The order as it is documented. -/
def Precedes (log1 log2 : List LogEntry) : Prop := rankBy Cid.bytewise log1 < rankBy Cid.bytewise log2

/-- The bytes, or text, of the last CID. -/
def lastText (text : Cid → List Nat) (log : List LogEntry) : List Nat :=
  (log.getLast?.map fun entry => text entry.cid).getD []

theorem rankBy_lt_iff (text : Cid → List Nat) (log1 log2 : List LogEntry) :
    rankBy text log1 < rankBy text log2 ↔
      (firstAnchor log1).isNone < (firstAnchor log2).isNone ∨
      (firstAnchor log1).isNone = (firstAnchor log2).isNone ∧
        (firstAnchorSeconds log1 < firstAnchorSeconds log2 ∨
        firstAnchorSeconds log1 = firstAnchorSeconds log2 ∧
          (relevantLength log2 < relevantLength log1 ∨
          relevantLength log1 = relevantLength log2 ∧ lastText text log1 < lastText text log2)) := by
  unfold rankBy
  rw [Prod.Lex.toLex_lt_toLex, Prod.Lex.toLex_lt_toLex, Prod.Lex.toLex_lt_toLex, OrderDual.toDual_lt_toDual]
  rfl

theorem pickByCid_iff {log1 log2 : List LogEntry} (nonempty1 : log1 ≠ []) (nonempty2 : log2 ≠ []) :
    pickByCid log1 log2 = .log1 ↔
      lastText Cid.text log1 < lastText Cid.text log2 := by
  unfold pickByCid lastText
  rw [List.getLast?_eq_some_getLast nonempty1, List.getLast?_eq_some_getLast nonempty2]
  simp [Cid.bytesLt, Cid.text]

theorem pickByLength_iff {log1 log2 : List LogEntry} (nonempty1 : log1 ≠ []) (nonempty2 : log2 ≠ []) :
    pickByLength log1 log2 = .log1 ↔ relevantLength log2 < relevantLength log1 ∨
      relevantLength log1 = relevantLength log2 ∧
        lastText Cid.text log1 < lastText Cid.text log2 := by
  unfold pickByLength
  by_cases longer : relevantLength log1 > relevantLength log2
  · simp [longer]
  · by_cases shorter : relevantLength log1 < relevantLength log2
    · have different : relevantLength log1 ≠ relevantLength log2 := by omega
      simp [longer, shorter, different]
    · have equal : relevantLength log1 = relevantLength log2 := by omega
      rw [if_neg longer, if_neg shorter, pickByCid_iff nonempty1 nonempty2]
      simp [equal]

theorem Suffix.firstAnchor_time {log : List LogEntry} (suffix : Suffix log) {anchor : LogEntry}
    (found : firstAnchor log = some anchor) : anchor.timestamp = .seconds (firstAnchorSeconds log) := by
  have isTime : anchor.type = .TIME := by simpa using List.find?_some found
  obtain ⟨n, time⟩ := suffix.anchored anchor (List.mem_of_find?_eq_some found) isTime
  simp [firstAnchorSeconds, found, time, Timestamp.toNumber]

/-- The first log is picked when it stands before the second. -/
theorem pickLogToAccept_iff {log1 log2 : List LogEntry} (suffix1 : Suffix log1) (suffix2 : Suffix log2) :
    pickLogToAccept log1 log2 = .log1 ↔
      rankBy Cid.text log1 < rankBy Cid.text log2 := by
  rw [rankBy_lt_iff, ← pickByLength_iff suffix1.nonempty suffix2.nonempty, pickLogToAccept_eq]
  cases found1 : firstAnchor log1 with
  | none =>
    cases found2 : firstAnchor log2 with
    | none => simp [firstAnchorSeconds, found1, found2]
    | some anchor2 => simp
  | some anchor1 =>
    cases found2 : firstAnchor log2 with
    | none => simp
    | some anchor2 =>
      have time1 := suffix1.firstAnchor_time found1
      have time2 := suffix2.firstAnchor_time found2
      simp only [time1, time2, Timestamp.lt_seconds, decide_eq_true_eq]
      by_cases earlier : firstAnchorSeconds log1 < firstAnchorSeconds log2
      · simp [earlier]
      · by_cases later : firstAnchorSeconds log2 < firstAnchorSeconds log1
        · have different : firstAnchorSeconds log1 ≠ firstAnchorSeconds log2 := by omega
          simp [earlier, later, different]
        · have equal : firstAnchorSeconds log1 = firstAnchorSeconds log2 := by omega
          simp [equal]

theorem acceptedLog_eq {log1 log2 : List LogEntry} (suffix1 : Suffix log1) (suffix2 : Suffix log2) :
    acceptedLog log1 log2 =
      if rankBy Cid.text log1 < rankBy Cid.text log2
      then log1 else log2 := by
  unfold acceptedLog
  by_cases first : pickLogToAccept log1 log2 = .log1
  · rw [first, if_pos ((pickLogToAccept_iff suffix1 suffix2).mp first)]
  · have second : pickLogToAccept log1 log2 = .log2 := by
      cases picked : pickLogToAccept log1 log2 with
      | log1 => exact absurd picked first
      | log2 => rfl
    rw [second, if_neg (mt (pickLogToAccept_iff suffix1 suffix2).mpr first)]

/-- Logs with no commit in common end in different CIDs, so they do not stand in one place. -/
theorem rankBy_ne {log1 log2 : List LogEntry} (suffix1 : Suffix log1) (suffix2 : Suffix log2)
    (disjoint : (log1.map (·.cid)).Disjoint (log2.map (·.cid))) :
    rankBy Cid.text log1 ≠ rankBy Cid.text log2 := by
  intro same
  have texts : lastText Cid.text log1 = lastText Cid.text log2 :=
    congrArg (fun rank => (ofLex (ofLex (ofLex rank).2).2).2) same
  unfold lastText at texts
  rw [List.getLast?_eq_some_getLast suffix1.nonempty, List.getLast?_eq_some_getLast suffix2.nonempty] at texts
  have bytes := Cid.joined_injective texts
  have cids : (log1.getLast suffix1.nonempty).cid = (log2.getLast suffix2.nonempty).cid := by
    cases cid1 : (log1.getLast suffix1.nonempty).cid
    cases cid2 : (log2.getLast suffix2.nonempty).cid
    simpa [cid1, cid2] using bytes
  have inFirst := List.mem_map_of_mem (f := (·.cid)) (List.getLast_mem suffix1.nonempty)
  have inSecond := List.mem_map_of_mem (f := (·.cid)) (List.getLast_mem suffix2.nonempty)
  exact disjoint inFirst (cids ▸ inSecond)

/-- Logs that differ in none of the criteria before the last. -/
def Tied (log1 log2 : List LogEntry) : Prop :=
  (firstAnchor log1).isNone = (firstAnchor log2).isNone ∧ firstAnchorSeconds log1 = firstAnchorSeconds log2 ∧
    relevantLength log1 = relevantLength log2

/-- Whether the decimal texts decide like the bytes, when it comes to the last CIDs. -/
def LastCidsAgree (log1 log2 : List LogEntry) : Prop :=
  ∀ entry1 ∈ log1.getLast?, ∀ entry2 ∈ log2.getLast?, Cid.TextsAgree entry1.cid.bytes entry2.cid.bytes

theorem lastCidsAgree_iff {log1 log2 : List LogEntry} (suffix1 : Suffix log1) (suffix2 : Suffix log2) :
    LastCidsAgree log1 log2 ↔
      (lastText Cid.text log1 < lastText Cid.text log2 ↔
        lastText Cid.bytewise log1 < lastText Cid.bytewise log2) := by
  unfold LastCidsAgree lastText
  rw [List.getLast?_eq_some_getLast suffix1.nonempty, List.getLast?_eq_some_getLast suffix2.nonempty]
  simp [Cid.textsAgree_iff, Cid.bytewise, Cid.text]

/-- The order of the code is the documented one unless the decimal texts of the last CIDs decide otherwise. -/
theorem pick_iff_precedes {log1 log2 : List LogEntry} (suffix1 : Suffix log1) (suffix2 : Suffix log2) :
    (pickLogToAccept log1 log2 = .log1 ↔ Precedes log1 log2) ↔ (Tied log1 log2 → LastCidsAgree log1 log2) := by
  rw [lastCidsAgree_iff suffix1 suffix2, pickLogToAccept_iff suffix1 suffix2]
  unfold Precedes Tied
  rw [rankBy_lt_iff, rankBy_lt_iff]
  by_cases anchored : (firstAnchor log1).isNone = (firstAnchor log2).isNone
  · by_cases time : firstAnchorSeconds log1 = firstAnchorSeconds log2
    · by_cases length : relevantLength log1 = relevantLength log2
      · simp [anchored, time, length]
      · simp [length]
    · simp [time]
  · simp [anchored]

theorem acceptedLog_first_iff {log1 log2 : List LogEntry} (different : log1 ≠ log2) :
    acceptedLog log1 log2 = log1 ↔ pickLogToAccept log1 log2 = .log1 := by
  unfold acceptedLog
  cases pickLogToAccept log1 log2 with
  | log1 => exact iff_of_true rfl rfl
  | log2 => exact iff_of_false (Ne.symm different) (by simp)

/-- Which of several logs is accepted does not depend on the order of the comparisons; it is the first one in the
documented order unless a comparison comes down to two last CIDs whose decimal texts are ordered otherwise. -/
theorem accepts_in_order {logs : List (List LogEntry)} (suffixes : ∀ log ∈ logs, Suffix log)
    (disjoint : ∀ log1 ∈ logs, ∀ log2 ∈ logs, log1 ≠ log2 → (log1.map (·.cid)).Disjoint (log2.map (·.cid))) :
    (∀ bracket bracket' : Tournament.Bracket (List LogEntry), (∀ log, log ∈ bracket.entrants ↔ log ∈ logs) →
      (∀ log, log ∈ bracket'.entrants ↔ log ∈ logs) → bracket.winner acceptedLog = bracket'.winner acceptedLog) ∧
    (∀ log1 ∈ logs, ∀ log2 ∈ logs, ∀ log3 ∈ logs, acceptedLog log1 log2 = log1 → acceptedLog log2 log3 = log2 →
      acceptedLog log1 log3 = log1) ∧
    ∀ log1 ∈ logs, ∀ log2 ∈ logs, log1 ≠ log2 → acceptedLog log1 log2 = acceptedLog log2 log1 ∧
      ((acceptedLog log1 log2 = log1 ↔ Precedes log1 log2) ↔ (Tied log1 log2 → LastCidsAgree log1 log2)) := by
  have distinct : ∀ log1 ∈ logs, ∀ log2 ∈ logs,
      rankBy Cid.text log1 = rankBy Cid.text log2 → log1 = log2 := by
    intro log1 in1 log2 in2 same
    by_contra different
    exact rankBy_ne (suffixes log1 in1) (suffixes log2 in2) (disjoint log1 in1 log2 in2 different) same
  -- a log that is accepted stands before the other, or they are one
  have standing : ∀ log1 ∈ logs, ∀ log2 ∈ logs, acceptedLog log1 log2 = log1 ↔
      rankBy Cid.text log1 ≤ rankBy Cid.text log2 := by
    intro log1 in1 log2 in2
    rw [acceptedLog_eq (suffixes log1 in1) (suffixes log2 in2), le_iff_lt_or_eq]
    by_cases lower : rankBy Cid.text log1 < rankBy Cid.text log2
    · simp [lower]
    · rw [if_neg lower, or_iff_right lower]
      exact ⟨fun same => by rw [same], fun same => (distinct log1 in1 log2 in2 same).symm⟩
  refine ⟨fun bracket bracket' all all' => ?_, fun log1 in1 log2 in2 log3 in3 first second => ?_,
    fun log1 in1 log2 in2 different => ⟨?_, ?_⟩⟩
  · have same : ∀ log, log ∈ bracket.entrants ↔ log ∈ bracket'.entrants := fun log => (all log).trans (all' log).symm
    refine @Tournament.Bracket.winner_unique _ _ _ acceptedLog (rankBy Cid.text) bracket bracket' same
      (fun log1 in1 log2 in2 => ?_) fun log1 in1 log2 in2 => ?_
    · exact acceptedLog_eq (suffixes log1 ((all log1).mp in1)) (suffixes log2 ((all log2).mp in2))
    · exact distinct log1 ((all log1).mp in1) log2 ((all log2).mp in2)
  · rw [standing log1 in1 log2 in2] at first
    rw [standing log2 in2 log3 in3] at second
    exact (standing log1 in1 log3 in3).mpr (first.trans second)
  · rw [acceptedLog_eq (suffixes log1 in1) (suffixes log2 in2), acceptedLog_eq (suffixes log2 in2) (suffixes log1 in1)]
    rcases lt_trichotomy (rankBy Cid.text log1)
      (rankBy Cid.text log2) with lower | same | higher
    · rw [if_pos lower, if_neg lower.asymm]
    · exact absurd (distinct log1 in1 log2 in2 same) different
    · rw [if_neg higher.asymm, if_pos higher]
  · rw [acceptedLog_first_iff different]
    exact pick_iff_precedes (suffixes log1 in1) (suffixes log2 in2)

/-- A log of one unanchored commit, whose digest starts with the given byte. -/
def oneUpdate (byte : UInt8) : List LogEntry :=
  [{ cid := ⟨[1, 0x71, 0x12, 0x20, byte] ++ List.replicate 31 0⟩, type := .DATA }]

theorem accepts_in_order_updates :
    (∀ bracket bracket' : Tournament.Bracket (List LogEntry),
      (∀ log, log ∈ bracket.entrants ↔ log ∈ [oneUpdate 9, oneUpdate 10]) →
      (∀ log, log ∈ bracket'.entrants ↔ log ∈ [oneUpdate 9, oneUpdate 10]) →
        bracket.winner acceptedLog = bracket'.winner acceptedLog) ∧
    (∀ log1 ∈ [oneUpdate 9, oneUpdate 10], ∀ log2 ∈ [oneUpdate 9, oneUpdate 10],
      ∀ log3 ∈ [oneUpdate 9, oneUpdate 10], acceptedLog log1 log2 = log1 → acceptedLog log2 log3 = log2 →
        acceptedLog log1 log3 = log1) ∧
    ∀ log1 ∈ [oneUpdate 9, oneUpdate 10], ∀ log2 ∈ [oneUpdate 9, oneUpdate 10], log1 ≠ log2 →
      acceptedLog log1 log2 = acceptedLog log2 log1 ∧
      ((acceptedLog log1 log2 = log1 ↔ Precedes log1 log2) ↔ (Tied log1 log2 → LastCidsAgree log1 log2)) := by
  refine accepts_in_order (fun log member => ⟨?_, ?_⟩) ?_
  · rcases List.mem_pair.mp member with rfl | rfl <;> simp [oneUpdate]
  · rcases List.mem_pair.mp member with rfl | rfl <;> simp [oneUpdate]
  · intro log1 in1 log2 in2 different
    rcases List.mem_pair.mp in1 with rfl | rfl
    · rcases List.mem_pair.mp in2 with rfl | rfl
      · exact absurd rfl different
      · simp [oneUpdate]
    · rcases List.mem_pair.mp in2 with rfl | rfl
      · simp [oneUpdate]
      · exact absurd rfl different

/-- The text of 10 stands before that of 9. -/
theorem decimal_text_decides :
    acceptedLog (oneUpdate 9) (oneUpdate 10) = oneUpdate 10 ∧ Precedes (oneUpdate 9) (oneUpdate 10) := by
  refine ⟨by decide, ?_⟩
  unfold Precedes
  rw [rankBy_lt_iff]
  decide

end Ceramic
