import Mathlib.Data.List.Basic

/-! Numbers in bytes of seven bits, the lowest first, with the high bit on each byte but the last. A number is in
front of any bytes in one way only, and written without superfluous bytes in one way only. -/
namespace Varint

/-- Some bytes stand for a number. -/
inductive Stands : List UInt8 → Nat → Prop where
  | last (b : UInt8) : b.toNat < 128 → Stands [b] b.toNat
  | more (b : UInt8) {w : List UInt8} {n : Nat} : 128 ≤ b.toNat → Stands w n →
      Stands (b :: w) (b.toNat - 128 + 128 * n)

/-- Whether the number in front of some bytes ends in a zero byte. -/
def endsInZero : List UInt8 → Bool
  | [] => false
  | b :: rest => if b.toNat < 128 then b == 0 else endsInZero rest

/-- Whether the number in front of some bytes has no superfluous last byte. -/
def isMinimal : List UInt8 → Bool
  | [] => true
  | b :: rest => decide (b.toNat < 128) || !endsInZero rest

variable {w v rest behind : List UInt8} {n m : Nat}

theorem Stands.nonempty (stands : Stands w n) : w ≠ [] := by
  cases stands <;> simp

/-- No number is in front of another one. -/
theorem Stands.cut (first : Stands w n) (second : Stands v m) (same : w ++ rest = v ++ behind) :
    w = v ∧ n = m ∧ rest = behind := by
  induction first generalizing v m with
  | last b low =>
    cases second with
    | last c _ =>
      obtain ⟨rfl, rfl⟩ := List.cons.inj same
      exact ⟨rfl, rfl, rfl⟩
    | more c high _ =>
      obtain ⟨rfl, _⟩ := List.cons.inj same
      omega
  | more b high _ ih =>
    cases second with
    | last c low =>
      obtain ⟨rfl, _⟩ := List.cons.inj same
      omega
    | more c _ stands =>
      obtain ⟨rfl, tails⟩ := List.cons.inj same
      obtain ⟨rfl, rfl, rfl⟩ := ih stands tails
      exact ⟨rfl, rfl, rfl⟩

theorem Stands.endsInZero_append (stands : Stands w n) (rest : List UInt8) :
    endsInZero (w ++ rest) = endsInZero w := by
  induction stands with
  | last b low => simp [endsInZero, low]
  | more b high _ ih => simp [endsInZero, Nat.not_lt.mpr high, ih]

/-- What is behind a number does not matter for how it is written. -/
theorem Stands.isMinimal_append (stands : Stands w n) (rest : List UInt8) :
    isMinimal (w ++ rest) = isMinimal w := by
  cases stands with
  | last b low => simp [isMinimal, low]
  | more b high stands => simp [isMinimal, Nat.not_lt.mpr high, stands.endsInZero_append]

theorem Stands.endsInZero_of_zero (stands : Stands w n) (zero : n = 0) : endsInZero w = true := by
  induction stands with
  | last b low =>
    have byte : b = 0 := UInt8.toNat_inj.mp (by simpa using zero)
    simp [endsInZero, byte]
  | more b high _ ih => simp [endsInZero, Nat.not_lt.mpr high, ih (by omega)]

theorem isMinimal_of_ends (ends : endsInZero w = false) : isMinimal w = true := by
  cases w with
  | nil => rfl
  | cons b w =>
    by_cases low : b.toNat < 128
    · simp [isMinimal, low]
    · simp only [endsInZero, if_neg low] at ends
      simp [isMinimal, ends]

/-- A number is written without superfluous bytes in one way. -/
theorem Stands.unique (first : Stands w n) (second : Stands v n) (minimal : isMinimal w = true)
    (other : isMinimal v = true) : w = v := by
  induction first generalizing v with
  | last b low =>
    generalize same : b.toNat = n at second
    cases second with
    | last c _ => rw [UInt8.toNat_inj.mp same]
    | more c high stands =>
      have ends := stands.endsInZero_of_zero (by omega)
      simp [isMinimal, Nat.not_lt.mpr high, ends] at other
  | @more b w n high stands ih =>
    generalize same : b.toNat - 128 + 128 * n = m at second
    have byte := b.toNat_lt
    have ends : endsInZero w = false := by simpa [isMinimal, Nat.not_lt.mpr high] using minimal
    cases second with
    | last c low =>
      have isZero := stands.endsInZero_of_zero (by omega)
      rw [ends] at isZero
      cases isZero
    | @more c v k highC standsC =>
      have byteC := c.toNat_lt
      have first : b = c := UInt8.toNat_inj.mp (by omega)
      have rest : n = k := by omega
      subst first rest
      have endsC : endsInZero v = false := by simpa [isMinimal, Nat.not_lt.mpr highC] using other
      rw [ih standsC (isMinimal_of_ends ends) (isMinimal_of_ends endsC)]

/-- A number in front of some bytes is written as a minimal one is exactly if it has no superfluous byte. -/
theorem Stands.eq_iff (stands : Stands w n) (written : Stands v n) (minimal : isMinimal v = true)
    (rest : List UInt8) : v = w ↔ isMinimal (w ++ rest) = true := by
  rw [stands.isMinimal_append]
  constructor
  · rintro rfl
    exact minimal
  · exact fun other => written.unique stands minimal other

end Varint
