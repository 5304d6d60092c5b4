import Mathlib.Tactic.Ring

/-! The order of numbers by their decimal texts. Texts of one length are ordered as the numbers
are, and a power of ten comes before its predecessor. -/
namespace DecimalText

theorem append_lt_append {α : Type} [LT α] {a b : List α} (same : a.length = b.length) (less : a < b)
    (c d : List α) : a ++ c < b ++ d := by
  induction a generalizing b with
  | nil =>
    obtain rfl := List.eq_nil_of_length_eq_zero same.symm
    cases less
  | cons x a ih =>
    obtain ⟨y, b, rfl⟩ := List.exists_cons_of_length_eq_add_one same.symm
    rw [List.cons_append, List.cons_append, List.cons_lt_cons_iff]
    refine (List.cons_lt_cons_iff.mp less).imp_right fun ⟨first, rest⟩ => ⟨first, ?_⟩
    exact ih (by simpa using same) rest

theorem digitChar_lt {m n : Nat} (less : m < n) (small : n < 10) : Nat.digitChar m < Nat.digitChar n := by
  have table : ∀ n < 10, ∀ m < n, Nat.digitChar m < Nat.digitChar n := by decide
  exact table n small m less

/-- Of two numbers with equally many digits, the text of the smaller one comes first. -/
theorem toDigits_lt {m n : Nat} (less : m < n)
    (same : (Nat.toDigits 10 m).length = (Nat.toDigits 10 n).length) :
    Nat.toDigits 10 m < Nat.toDigits 10 n := by
  induction n using Nat.strongRecOn generalizing m with
  | ind n ih =>
    have short := Nat.length_toDigits_le_iff (n := n) (b := 10) (k := 1) (by decide) (by decide)
    have short' := Nat.length_toDigits_le_iff (n := m) (b := 10) (k := 1) (by decide) (by decide)
    rw [same, short] at short'
    by_cases small : n < 10
    · rw [Nat.toDigits_of_lt_base (by omega), Nat.toDigits_of_lt_base small, List.cons_lt_cons_iff]
      exact .inl (digitChar_lt less small)
    · rw [Nat.toDigits_of_base_le (n := m) (by decide) (by omega),
        Nat.toDigits_of_base_le (n := n) (by decide) (by omega)]
      rw [Nat.toDigits_of_base_le (n := m) (by decide) (by omega),
        Nat.toDigits_of_base_le (n := n) (by decide) (by omega), List.length_append, List.length_append] at same
      rcases Nat.lt_or_ge (m / 10) (n / 10) with front | front
      · exact append_lt_append (by simpa using same) (ih _ (by omega) front (by simpa using same)) _ _
      · have equal : m / 10 = n / 10 := by omega
        rw [equal]
        apply List.append_left_lt
        rw [List.cons_lt_cons_iff]
        exact .inl (digitChar_lt (by omega) (Nat.mod_lt _ (by decide)))

theorem toDigits_mul_ten {n d : Nat} (positive : 0 < n) (digit : d < 10) :
    Nat.toDigits 10 (10 * n + d) = Nat.toDigits 10 n ++ Nat.toDigits 10 d :=
  (Nat.toDigits_append_toDigits (by decide) positive digit).symm

theorem toDigits_pow (k : Nat) : ∃ rest, Nat.toDigits 10 (10 ^ k) = '1' :: rest := by
  induction k with
  | zero => exact ⟨[], by decide⟩
  | succ k ih =>
    obtain ⟨rest, front⟩ := ih
    refine ⟨rest ++ Nat.toDigits 10 0, ?_⟩
    have split : 10 ^ (k + 1) = 10 * 10 ^ k + 0 := by ring
    rw [split, toDigits_mul_ten (Nat.pow_pos (by decide)) (by decide), front, List.cons_append]

theorem toDigits_pow_pred (k : Nat) : ∃ rest, Nat.toDigits 10 (10 ^ (k + 1) - 1) = '9' :: rest := by
  induction k with
  | zero => exact ⟨[], by decide⟩
  | succ k ih =>
    obtain ⟨rest, front⟩ := ih
    refine ⟨rest ++ Nat.toDigits 10 9, ?_⟩
    have large : 10 ≤ 10 ^ (k + 1) := Nat.le_self_pow (by omega) 10
    have split : 10 ^ (k + 2) - 1 = 10 * (10 ^ (k + 1) - 1) + 9 := by
      rw [Nat.pow_succ 10 (k + 1)]
      omega
    rw [split, toDigits_mul_ten (by omega) (by decide), front, List.cons_append]

/-- A power of ten comes before its predecessor. -/
theorem toDigits_pow_lt (k : Nat) :
    Nat.toDigits 10 (10 ^ (k + 1)) < Nat.toDigits 10 (10 ^ (k + 1) - 1) := by
  obtain ⟨rest, pow⟩ := toDigits_pow (k + 1)
  obtain ⟨rest', pred⟩ := toDigits_pow_pred k
  rw [pow, pred, List.cons_lt_cons_iff]
  exact .inl (by decide)

theorem length_toDigits_mono {m n : Nat} (le : m ≤ n) :
    (Nat.toDigits 10 m).length ≤ (Nat.toDigits 10 n).length := by
  have low := (Nat.length_toDigits_le_iff (b := 10) (n := n) (by decide) Nat.length_toDigits_pos).mp (Nat.le_refl _)
  exact (Nat.length_toDigits_le_iff (by decide) Nat.length_toDigits_pos).mpr (Nat.lt_of_le_of_lt le low)

/-- Numbers with fewer digits are below a power of ten that those with more are not below. -/
theorem pow_between {m n : Nat} (longer : (Nat.toDigits 10 m).length < (Nat.toDigits 10 n).length) :
    ∃ k, m < 10 ^ (k + 1) ∧ 10 ^ (k + 1) ≤ n := by
  obtain ⟨k, length⟩ := Nat.exists_eq_succ_of_ne_zero (Nat.ne_of_gt (Nat.length_toDigits_pos (b := 10) (n := m)))
  refine ⟨k, (Nat.length_toDigits_le_iff (by decide) (by omega)).mp (by omega), ?_⟩
  by_contra less
  have := (Nat.length_toDigits_le_iff (b := 10) (n := n) (k := k + 1) (by decide) (by omega)).mpr (by omega)
  omega

end DecimalText
