import Ceramic.Multiformats
import Mathlib.Data.List.Lex
import Mathlib.Tactic.Ring

/-! The keys of the feed: the time in milliseconds and six digits of a counter. A key is the
list of its digits, and keys are compared as texts are. -/
namespace Ceramic

abbrev FeedKey := List Nat

/-- The digits of `String(n)`. -/
def decimalDigits (n : Nat) : List Nat := if n = 0 then [0] else digits 10 n n

/-- `padStart(width, '0')`. -/
def padStart (width : Nat) (ds : List Nat) : List Nat := List.replicate (width - ds.length) 0 ++ ds

/-- `previous` is the time of the last key, the counter that of the next key at that time. -/
structure MonotonicKey where
  previous : Nat
  counter : Nat
  deriving DecidableEq, Repr

namespace MonotonicKey

/-- `new MonotonicKey()`, at a time. -/
def make (now : Nat) : MonotonicKey := { previous := now, counter := 0 }

def next (generator : MonotonicKey) (now : Nat) : FeedKey × MonotonicKey :=
  if generator.previous = now then
    (decimalDigits generator.previous ++ padStart 6 (decimalDigits generator.counter),
      { generator with counter := generator.counter + 1 })
  else (decimalDigits now ++ [0, 0, 0, 0, 0, 0], { previous := now, counter := 1 })

example : ((make 1700000000000).next 1700000000000).1 =
    [1, 7, 0, 0, 0, 0, 0, 0, 0, 0, 0, 0, 0, 0, 0, 0, 0, 0, 0] := by decide

end MonotonicKey

/-- Of two numbers with equally many digits, the one whose text comes first is smaller. -/
theorem lt_iff_ofDigits_lt {base : Nat} {a b : List Nat} (sameLength : a.length = b.length)
    (smallA : ∀ d ∈ a, d < base) (smallB : ∀ d ∈ b, d < base) :
    a < b ↔ ofDigits base a < ofDigits base b := by
  induction a generalizing b with
  | nil =>
    obtain rfl : b = [] := List.eq_nil_of_length_eq_zero sameLength.symm
    simp
  | cons x a ih =>
    obtain ⟨y, b, rfl⟩ := List.exists_cons_of_length_eq_add_one sameLength.symm
    have restLength : a.length = b.length := by simpa using sameLength
    have restA : ∀ d ∈ a, d < base := fun d member => smallA d (List.mem_cons_of_mem _ member)
    have restB : ∀ d ∈ b, d < base := fun d member => smallB d (List.mem_cons_of_mem _ member)
    have boundA := ofDigits_lt restA
    have boundB := ofDigits_lt restB
    rw [List.cons_lt_cons_iff, ih restLength restA restB, ofDigits_cons, ofDigits_cons, restLength]
    rw [restLength] at boundA
    generalize base ^ b.length = unit at *
    rcases Nat.lt_trichotomy x y with less | rfl | greater
    · have := Nat.mul_le_mul_right unit less
      rw [Nat.succ_mul] at this
      omega
    · omega
    · have := Nat.mul_le_mul_right unit greater
      rw [Nat.succ_mul] at this
      omega

theorem digits_zero (base fuel : Nat) : digits base fuel 0 = [] := by
  cases fuel <;> simp [digits]

theorem length_digits {base k fuel n : Nat} (many : 1 < base) (enough : n ≤ fuel)
    (low : base ^ k ≤ n) (high : n < base ^ (k + 1)) : (digits base fuel n).length = k + 1 := by
  induction k generalizing fuel n with
  | zero =>
    obtain ⟨fuel, rfl⟩ : ∃ f, fuel = f + 1 := ⟨fuel - 1, by simp at low; omega⟩
    have small : n / base = 0 := Nat.div_eq_of_lt (by simpa using high)
    have nonzero : n ≠ 0 := by simp at low; omega
    simp [digits, nonzero, small, digits_zero]
  | succ k ih =>
    have positive : 0 < n := lt_of_lt_of_le (Nat.pow_pos (by omega)) low
    obtain ⟨fuel, rfl⟩ : ∃ f, fuel = f + 1 := ⟨fuel - 1, by omega⟩
    have smaller : n / base < n := Nat.div_lt_self positive many
    have rest := @ih fuel (n / base) (by omega)
      ((Nat.le_div_iff_mul_le (by omega)).mpr (by rw [← Nat.pow_succ]; exact low))
      (Nat.div_lt_of_lt_mul (by rw [Nat.mul_comm, ← Nat.pow_succ]; exact high))
    simp [digits, positive.ne', rest]

theorem length_digits_le {base k fuel n : Nat} (small : n < base ^ k) :
    (digits base fuel n).length ≤ k := by
  induction k generalizing fuel n with
  | zero =>
    obtain rfl : n = 0 := by simpa using small
    simp [digits_zero]
  | succ k ih =>
    cases fuel with
    | zero => simp [digits]
    | succ fuel =>
      have rest := @ih fuel (n / base)
        (Nat.div_lt_of_lt_mul (by rw [Nat.mul_comm, ← Nat.pow_succ]; exact small))
      by_cases zero : n = 0
      · simp [digits, zero]
      · simp only [digits, zero, if_false, List.length_append, List.length_singleton]
        omega

theorem ofDigits_decimalDigits (n : Nat) : ofDigits 10 (decimalDigits n) = n := by
  unfold decimalDigits
  split
  next zero => simp [zero, ofDigits]
  next => exact ofDigits_digits (Nat.lt_pow_self (by decide))

theorem decimalDigits_lt (n : Nat) : ∀ d ∈ decimalDigits n, d < 10 := by
  unfold decimalDigits
  split
  · simp
  · exact digits_lt (by decide) n n

/-- Times of thirteen digits: from 2001 to 2286. -/
def ValidTime (ms : Nat) : Prop := 10 ^ 12 ≤ ms ∧ ms < 10 ^ 13

/-- A key of nineteen digits. -/
structure TimeKey (key : FeedKey) : Prop where
  length : key.length = 19
  digits : ∀ d ∈ key, d < 10

theorem TimeKey.lt_iff {a b : FeedKey} (keyA : TimeKey a) (keyB : TimeKey b) :
    a < b ↔ ofDigits 10 a < ofDigits 10 b :=
  lt_iff_ofDigits_lt (keyA.length.trans keyB.length.symm) keyA.digits keyB.digits

theorem length_decimalDigits {ms : Nat} (valid : ValidTime ms) : (decimalDigits ms).length = 13 := by
  unfold decimalDigits
  rw [if_neg (by have := valid.1; omega)]
  exact length_digits (by decide) (le_refl ms) valid.1 valid.2

/-- A time of thirteen digits followed by six more. -/
theorem timeKey_append {ms : Nat} (valid : ValidTime ms) {back : List Nat} (six : back.length = 6)
    (digits : ∀ d ∈ back, d < 10) : TimeKey (decimalDigits ms ++ back) ∧
      ofDigits 10 (decimalDigits ms ++ back) = ms * 10 ^ 6 + ofDigits 10 back := by
  refine ⟨⟨?_, fun d member => ?_⟩, ?_⟩
  · rw [List.length_append, length_decimalDigits valid, six]
  · rcases List.mem_append.mp member with front | back
    · exact decimalDigits_lt ms d front
    · exact digits d back
  · rw [ofDigits_append, ofDigits_decimalDigits, six]

theorem padStart_spec {counter : Nat} (small : counter < 10 ^ 6) :
    (padStart 6 (decimalDigits counter)).length = 6 ∧
      (∀ d ∈ padStart 6 (decimalDigits counter), d < 10) ∧
      ofDigits 10 (padStart 6 (decimalDigits counter)) = counter := by
  have bound : (decimalDigits counter).length ≤ 6 := by
    unfold decimalDigits
    split
    · simp
    · exact length_digits_le small
  have zeros : ∀ k, ofDigits 10 (List.replicate k 0) = 0 := by
    intro k
    induction k with
    | zero => rfl
    | succ k ih =>
      rw [List.replicate_succ]
      exact ih
  unfold padStart
  refine ⟨?_, fun d member => ?_, ?_⟩
  · rw [List.length_append, List.length_replicate]
    omega
  · rcases List.mem_append.mp member with front | back
    · rw [(List.mem_replicate.mp front).2]
      decide
    · exact decimalDigits_lt counter d back
  · rw [ofDigits_append, zeros, Nat.zero_mul, Nat.zero_add, ofDigits_decimalDigits]

namespace MonotonicKey

/-- The number that the next key is at least. -/
def bound (generator : MonotonicKey) : Nat := generator.previous * 10 ^ 6 + generator.counter

/-- The clock is not behind that of the last key, and there are keys left in its millisecond. -/
structure Ticks (generator : MonotonicKey) (now : Nat) : Prop where
  forward : generator.previous ≤ now
  valid : now < 10 ^ 13
  room : generator.previous = now → generator.counter < 10 ^ 6

/-- A generator of valid keys. -/
structure Valid (generator : MonotonicKey) : Prop where
  previous : ValidTime generator.previous
  counter : generator.counter ≤ 10 ^ 6

theorem next_spec {generator : MonotonicKey} {now : Nat} (valid : generator.Valid)
    (ticks : generator.Ticks now) : TimeKey (generator.next now).1 ∧
      generator.bound ≤ ofDigits 10 (generator.next now).1 ∧
      ofDigits 10 (generator.next now).1 < (generator.next now).2.bound ∧
      (generator.next now).2.Valid := by
  have time : ValidTime now := ⟨valid.previous.1.trans ticks.forward, ticks.valid⟩
  unfold next
  split
  next same =>
    obtain ⟨six, digits, value⟩ := padStart_spec (ticks.room same)
    obtain ⟨key, number⟩ := timeKey_append valid.previous six digits
    rw [value] at number
    have room := ticks.room same
    exact ⟨key, number ▸ le_refl _, by dsimp only [bound]; omega, valid.previous, room⟩
  next other =>
    obtain ⟨key, number⟩ := timeKey_append time (rfl : [0, 0, 0, 0, 0, 0].length = 6) (by decide)
    have later : generator.previous < now := lt_of_le_of_ne ticks.forward other
    have counter := valid.counter
    have zero : ofDigits 10 [0, 0, 0, 0, 0, 0] = 0 := rfl
    rw [zero] at number
    exact ⟨key, by dsimp only [bound]; omega, by dsimp only [bound]; omega, time, by dsimp only; omega⟩

end MonotonicKey

end Ceramic
