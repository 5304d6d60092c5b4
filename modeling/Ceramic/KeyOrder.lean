import Ceramic.MonotonicKey

/-! When the keys of the feed increase, for any readings of the clock. Keys are compared as texts, that is
as the decimal fractions with their digits. -/
namespace Ceramic

/-- The text that comes first is the smaller fraction, and of two equal fractions the shorter text. -/
theorem lt_iff_fraction_lt {base : Nat} {a b : List Nat} (smallA : ∀ d ∈ a, d < base) (smallB : ∀ d ∈ b, d < base) :
    a < b ↔ ofDigits base a * base ^ b.length < ofDigits base b * base ^ a.length ∨
      ofDigits base a * base ^ b.length = ofDigits base b * base ^ a.length ∧ a.length < b.length := by
  induction a generalizing b with
  | nil =>
    cases b with
    | nil => simp [ofDigits]
    | cons y b =>
      have zero : ofDigits base [] = 0 := rfl
      rw [zero, Nat.zero_mul, List.length_nil, Nat.pow_zero, Nat.mul_one]
      refine iff_of_true (List.nil_lt_cons y b) ?_
      rcases Nat.eq_zero_or_pos (ofDigits base (y :: b)) with same | positive
      · exact .inr ⟨same.symm, Nat.succ_pos _⟩
      · exact .inl positive
  | cons x a ih =>
    cases b with
    | nil => simp [ofDigits]
    | cons y b =>
      have restA : ∀ d ∈ a, d < base := fun d member => smallA d (List.mem_cons_of_mem _ member)
      have restB : ∀ d ∈ b, d < base := fun d member => smallB d (List.mem_cons_of_mem _ member)
      have positive : 0 < base := Nat.zero_lt_of_lt (smallA x List.mem_cons_self)
      have boundA := ofDigits_lt restA
      have boundB := ofDigits_lt restB
      rw [List.cons_lt_cons_iff, ih restA restB, ofDigits_cons, ofDigits_cons, List.length_cons, List.length_cons,
        Nat.pow_succ, Nat.pow_succ, ← Nat.mul_assoc, ← Nat.mul_assoc, Nat.mul_lt_mul_right positive,
        Nat.mul_left_inj positive.ne', Nat.add_lt_add_iff_right]
      generalize ofDigits base a = restValueA at *
      generalize ofDigits base b = restValueB at *
      generalize base ^ a.length = unitA at *
      generalize base ^ b.length = unitB at *
      have scaledA : restValueA * unitB < unitA * unitB := Nat.mul_lt_mul_of_pos_right boundA (Nat.zero_lt_of_lt boundB)
      have scaledB : restValueB * unitA < unitA * unitB := by
        rw [Nat.mul_comm unitA]
        exact Nat.mul_lt_mul_of_pos_right boundB (Nat.zero_lt_of_lt boundA)
      have expandA : (x * unitA + restValueA) * unitB = x * (unitA * unitB) + restValueA * unitB := by ring
      have expandB : (y * unitB + restValueB) * unitA = y * (unitA * unitB) + restValueB * unitA := by ring
      rw [expandA, expandB]
      rcases Nat.lt_trichotomy x y with less | rfl | greater
      · have := Nat.mul_le_mul_right (unitA * unitB) less
        rw [Nat.succ_mul] at this
        refine iff_of_true (.inl less) (.inl (by omega))
      · rw [Nat.add_lt_add_iff_left, Nat.add_left_cancel_iff]
        simp
      · have := Nat.mul_le_mul_right (unitA * unitB) greater
        rw [Nat.succ_mul] at this
        constructor
        · rintro (less | ⟨same, -⟩) <;> omega
        · rintro (less | ⟨same, -⟩) <;> omega

namespace MonotonicKey

/-- The keys that are handed out at some readings of the clock. -/
def keys (generator : MonotonicKey) : List Nat → List FeedKey
  | [] => []
  | now :: readings =>
    let (key, generator) := generator.next now
    key :: keys generator readings

/-- The key of a time and a counter comes before the first key of another time: as a fraction it is
smaller, or as large and written with fewer digits. -/
def Precedes (time counter now : Nat) : Prop :=
  let value := (time * 10 ^ 6 + counter) * 10 ^ (decimalDigits now).length
  let next := now * 10 ^ 6 * 10 ^ (decimalDigits time).length
  value < next ∨ value = next ∧ (decimalDigits time).length < (decimalDigits now).length

/-- The readings after some keys of a time: at most a million keys for a time on end, and each reading
of another time comes after the last key. -/
def InOrder (time given : Nat) : List Nat → Prop
  | [] => True
  | now :: readings =>
    if now = time then given < 10 ^ 6 ∧ InOrder time (given + 1) readings
    else Precedes time (given - 1) now ∧ InOrder now 1 readings

/-- The condition on the readings of the clock. -/
def Ordered : List Nat → Prop
  | [] => True
  | first :: readings => InOrder first 1 readings

/-- The last of some keys of a time. -/
def lastKey (time given : Nat) : FeedKey := decimalDigits time ++ padStart 6 (decimalDigits (given - 1))

theorem next_of_eq (time given : Nat) :
    (⟨time, given⟩ : MonotonicKey).next time = (lastKey time (given + 1), ⟨time, given + 1⟩) := if_pos rfl

theorem next_of_ne {time now : Nat} (other : now ≠ time) (given : Nat) :
    (⟨time, given⟩ : MonotonicKey).next now = (lastKey now 1, ⟨now, 1⟩) := if_neg other.symm

/-- The digits of a key: those of the time and six more. -/
theorem lastKey_spec {time given : Nat} (positive : 1 ≤ given) (room : given ≤ 10 ^ 6) :
    (lastKey time given).length = (decimalDigits time).length + 6 ∧ (∀ d ∈ lastKey time given, d < 10) ∧
      ofDigits 10 (lastKey time given) = time * 10 ^ 6 + (given - 1) := by
  obtain ⟨six, digits, value⟩ := padStart_spec (show given - 1 < 10 ^ 6 by omega)
  refine ⟨?_, fun d member => ?_, ?_⟩
  · rw [lastKey, List.length_append, six]
  · rcases List.mem_append.mp member with front | back
    · exact decimalDigits_lt time d front
    · exact digits d back
  · rw [lastKey, ofDigits_append, ofDigits_decimalDigits, six, value]

/-- The counter has room for a million keys: the next one is a digit longer and comes before the last. -/
theorem lastKey_lt_succ {time given : Nat} (positive : 1 ≤ given) (room : given ≤ 10 ^ 6) :
    lastKey time given < lastKey time (given + 1) ↔ given < 10 ^ 6 := by
  rcases Nat.lt_or_eq_of_le room with less | rfl
  · obtain ⟨length, digits, value⟩ := @lastKey_spec time given positive room
    obtain ⟨length', digits', value'⟩ := @lastKey_spec time (given + 1) (by omega) less
    rw [lt_iff_ofDigits_lt (length.trans length'.symm) digits digits', value, value']
    omega
  · have longer : padStart 6 (decimalDigits (10 ^ 6)) < padStart 6 (decimalDigits (10 ^ 6 - 1)) := by decide
    refine iff_of_false (fun less => ?_) (lt_irrefl _)
    exact List.lt_asymm less (List.append_left_lt longer)

/-- The first key of another time is behind the last key exactly if it comes after it. -/
theorem lastKey_lt_other {time given now : Nat} (positive : 1 ≤ given) (room : given ≤ 10 ^ 6) :
    lastKey time given < lastKey now 1 ↔ Precedes time (given - 1) now := by
  obtain ⟨length, digits, value⟩ := @lastKey_spec time given positive room
  obtain ⟨length', digits', value'⟩ := @lastKey_spec now 1 (le_refl _) (by decide)
  have million : 0 < 10 ^ 6 := Nat.pow_pos (by decide)
  rw [lt_iff_fraction_lt digits digits', length, length', value, value']
  have split (length : Nat) : 10 ^ (length + 6) = 10 ^ length * 10 ^ 6 := Nat.pow_add 10 length 6
  rw [split (decimalDigits now).length, split (decimalDigits time).length, ← Nat.mul_assoc, ← Nat.mul_assoc,
    Nat.mul_lt_mul_right million, Nat.mul_left_inj million.ne', Nat.add_lt_add_iff_right]
  unfold Precedes
  rw [Nat.sub_self 1, Nat.add_zero (now * 10 ^ 6)]

theorem isChain_keys {time given : Nat} (positive : 1 ≤ given) (room : given ≤ 10 ^ 6) (readings : List Nat) :
    (lastKey time given :: keys ⟨time, given⟩ readings).IsChain (· < ·) ↔ InOrder time given readings := by
  induction readings generalizing time given with
  | nil => exact iff_of_true (.singleton _) trivial
  | cons now readings ih =>
    by_cases same : now = time
    · subst same
      rw [keys, next_of_eq, InOrder, if_pos rfl]
      dsimp only
      rw [List.isChain_cons_cons, lastKey_lt_succ positive room]
      exact and_congr_right fun less => ih (by omega) less
    · rw [keys, next_of_ne same, InOrder, if_neg same]
      dsimp only
      rw [List.isChain_cons_cons, lastKey_lt_other positive room, ih (le_refl _) (by decide)]

/-- The first key is that of its time, whenever the generator was made. -/
theorem keys_make (created first : Nat) (readings : List Nat) :
    keys (make created) (first :: readings) = lastKey first 1 :: keys ⟨first, 1⟩ readings := by
  by_cases same : first = created
  · subst same
    have isNext : (make first).next first = (lastKey first 1, ⟨first, 1⟩) := next_of_eq first 0
    rw [keys, isNext]
  · have isNext : (make created).next first = (lastKey first 1, ⟨first, 1⟩) := next_of_ne same 0
    rw [keys, isNext]

/-- At times with equally many digits the fractions are in the order of the times. -/
theorem precedes_iff {time counter now : Nat} (same : (decimalDigits time).length = (decimalDigits now).length)
    (room : counter < 10 ^ 6) : Precedes time counter now ↔ time < now := by
  unfold Precedes
  dsimp only
  rw [same, Nat.mul_lt_mul_right (Nat.pow_pos (by decide)), Nat.mul_left_inj (Nat.pow_pos (by decide)).ne']
  constructor
  · rintro (less | ⟨-, irrefl⟩) <;> omega
  · intro less
    exact .inl (by omega)

/-- Readings with equally many digits, after some keys of a time. -/
theorem inOrder_iff {width time given : Nat} (positive : 1 ≤ given) (room : given ≤ 10 ^ 6) {readings : List Nat}
    (digits : ∀ reading ∈ time :: readings, (decimalDigits reading).length = width) :
    InOrder time given readings ↔ (time :: readings).Pairwise (· ≤ ·) ∧ given + readings.count time ≤ 10 ^ 6 ∧
      ∀ other ≠ time, readings.count other ≤ 10 ^ 6 := by
  induction readings generalizing time given with
  | nil =>
    refine iff_of_true trivial ⟨List.pairwise_singleton _ _, room, fun other _ => ?_⟩
    exact Nat.zero_le _
  | cons now readings ih =>
    have width_time := digits time List.mem_cons_self
    replace digits : ∀ reading ∈ now :: readings, (decimalDigits reading).length = width :=
      fun reading member => digits reading (List.mem_cons_of_mem _ member)
    have width_now := digits now List.mem_cons_self
    by_cases same : now = time
    · subst same
      rw [InOrder, if_pos rfl, List.count_cons_self]
      constructor
      · rintro ⟨less, rest⟩
        obtain ⟨sorted, count, others⟩ := (ih (by omega) less digits).mp rest
        refine ⟨sorted.cons fun later member => ?_, by omega, fun other ne => ?_⟩
        · rcases List.mem_cons.mp member with rfl | behind
          · exact le_refl _
          · exact List.rel_of_pairwise_cons sorted behind
        · rw [List.count_cons_of_ne ne.symm]
          exact others other ne
      · rintro ⟨sorted, count, others⟩
        refine ⟨by omega, (ih (by omega) (by omega) digits).mpr ⟨sorted.of_cons, by omega, fun other ne => ?_⟩⟩
        have counted := others other ne
        rwa [List.count_cons_of_ne ne.symm] at counted
    · rw [InOrder, if_neg same, precedes_iff (width_time.trans width_now.symm) (by omega),
        ih (le_refl _) (by decide) digits, List.count_cons_of_ne same]
      constructor
      · rintro ⟨less, sorted, count, others⟩
        have later : ∀ reading ∈ now :: readings, time < reading := by
          intro reading member
          rcases List.mem_cons.mp member with rfl | behind
          · exact less
          · exact lt_of_lt_of_le less (List.rel_of_pairwise_cons sorted behind)
        have gone : readings.count time = 0 :=
          List.count_eq_zero.mpr fun member => lt_irrefl _ (later time (List.mem_cons_of_mem _ member))
        refine ⟨sorted.cons fun reading member => (later reading member).le, by omega, fun other ne => ?_⟩
        by_cases isNow : other = now
        · subst isNow
          rw [List.count_cons_self]
          omega
        · rw [List.count_cons_of_ne (Ne.symm isNow)]
          exact others other isNow
      · rintro ⟨sorted, count, others⟩
        have forward : time ≤ now := List.rel_of_pairwise_cons sorted List.mem_cons_self
        have atNow := others now same
        rw [List.count_cons_self] at atNow
        refine ⟨lt_of_le_of_ne forward (Ne.symm same), sorted.of_cons, by omega, fun other ne => ?_⟩
        by_cases isTime : other = time
        · subst isTime
          omega
        · have counted := others other isTime
          rwa [List.count_cons_of_ne (Ne.symm ne)] at counted

/-- Each key comes after all before it exactly if the readings of the clock are in order. Readings with
equally many digits are so exactly if they never go back and none occurs more than a million times. -/
theorem keys_increase_iff (created : Nat) (readings : List Nat) :
    ((keys (make created) readings).Pairwise (· < ·) ↔ Ordered readings) ∧
      ∀ width, (∀ reading ∈ readings, (decimalDigits reading).length = width) →
        (Ordered readings ↔ readings.Pairwise (· ≤ ·) ∧ ∀ reading, readings.count reading ≤ 10 ^ 6) := by
  cases readings with
  | nil => exact ⟨iff_of_true .nil trivial, fun _ _ => iff_of_true trivial (by simp)⟩
  | cons first readings =>
    constructor
    · rw [keys_make, ← List.isChain_iff_pairwise, isChain_keys (le_refl _) (by decide)]
      exact Iff.rfl
    · intro width digits
      rw [Ordered, inOrder_iff (le_refl _) (by decide) digits]
      refine and_congr_right fun _ => ⟨fun ⟨count, others⟩ reading => ?_, fun counts => ⟨?_, fun other ne => ?_⟩⟩
      · by_cases isFirst : reading = first
        · subst isFirst
          rw [List.count_cons_self]
          omega
        · rw [List.count_cons_of_ne (Ne.symm isFirst)]
          exact others reading isFirst
      · have count := counts first
        rw [List.count_cons_self] at count
        omega
      · have count := counts other
        rwa [List.count_cons_of_ne ne.symm] at count

/-- Two keys in one millisecond and one in the next. -/
theorem keys_increase_iff_forward :
    (keys (make 1700000000000) [1700000000000, 1700000000000, 1700000000001]).Pairwise (· < ·) :=
  (keys_increase_iff 1700000000000 _).1.mpr
    (((keys_increase_iff 1700000000000 _).2 13 (by decide)).mpr ⟨by decide, fun reading => by
      refine le_trans (List.count_le_length) ?_
      decide⟩)

/-- A clock that is set back. -/
theorem keys_decrease : ¬∀ created readings, (keys (make created) readings).Pairwise (· < ·) := by
  intro increase
  have back := increase 1700000000000 [1700000000001, 1700000000000]
  revert back
  decide

end MonotonicKey

end Ceramic
