import Ceramic.StreamRefParsing
import Mathlib.Data.List.DropRight

/-! The encodings whose letters stand for a few bits each, and content identifiers read from their text. -/
namespace Ceramic

/-- The encoding with `bits` bits a letter, unpadded: the last partial group is filled with zero bits. -/
def rfc4648Encode (bits : Nat) (alphabet : List Char) (bytes : List UInt8) : List Char :=
  let groups := (8 * bytes.length + (bits - 1)) / bits
  let padded := bigEndian bytes * 2 ^ (bits * groups - 8 * bytes.length)
  (List.range groups).map fun i =>
    alphabet.getD (padded / (2 ^ bits) ^ (groups - 1 - i) % 2 ^ bits) (alphabet.headD '0')

/-- The last bytes of a number. -/
def lastBytes : Nat → Nat → List UInt8
  | 0, _ => []
  | count + 1, n => lastBytes count (n / 256) ++ [UInt8.ofNat (n % 256)]

/-- The decoding: bits that make no whole byte have to be zero and fewer than a letter has. -/
def rfc4648Decode (name : String) (bits : Nat) (alphabet text : List Char) :
    Except JsError (List UInt8) :=
  let text := text.rdropWhile (· == '=')
  let left := bits * text.length % 8
  let value := ofDigits (2 ^ bits) (text.map alphabet.idxOf)
  if !text.all (· ∈ alphabet) then .error ⟨"Non-" ++ name ++ " character"⟩
  else if bits ≤ left || value % 2 ^ left != 0 then .error ⟨"Unexpected end of data"⟩
  else .ok (lastBytes (bits * text.length / 8) (value / 2 ^ left))

def base64Alphabet : List Char :=
  "ABCDEFGHIJKLMNOPQRSTUVWXYZabcdefghijklmnopqrstuvwxyz0123456789+/".toList

theorem base32Encode_eq (bytes : List UInt8) :
    base32Encode bytes = 'b' :: rfc4648Encode 5 base32Alphabet bytes := rfl

theorem lastBytes_bigEndian (bytes : List UInt8) : lastBytes bytes.length (bigEndian bytes) = bytes := by
  induction bytes using List.reverseRecOn with
  | nil => rfl
  | append_singleton front b ih =>
    have byte := b.toNat_lt
    have quotient : (256 * bigEndian front + b.toNat) / 256 = bigEndian front := by omega
    have remainder : (256 * bigEndian front + b.toNat) % 256 = b.toNat := by omega
    rw [bigEndian_push, List.length_append, List.length_singleton, lastBytes, quotient, remainder, ih,
      UInt8.ofNat_toNat]

/-- All digits of a number, the last one last. -/
theorem ofDigits_range {base : Nat} {groups n : Nat} (low : n < base ^ groups) :
    ofDigits base ((List.range groups).map fun i => n / base ^ (groups - 1 - i) % base) = n := by
  induction groups generalizing n with
  | zero =>
    rw [Nat.pow_zero] at low
    obtain rfl : n = 0 := by omega
    rfl
  | succ groups ih =>
    rw [Nat.pow_succ'] at low
    have front : (List.range groups).map (fun i => n / base ^ (groups + 1 - 1 - i) % base) =
        (List.range groups).map fun i => n / base / base ^ (groups - 1 - i) % base := by
      apply List.map_congr_left
      intro i member
      have less := List.mem_range.mp member
      obtain ⟨k, rfl⟩ : ∃ k, groups = i + 1 + k := ⟨groups - (i + 1), by omega⟩
      rw [show i + 1 + k + 1 - 1 - i = k + 1 by omega, show i + 1 + k - 1 - i = k by omega,
        Nat.pow_succ', Nat.div_div_eq_div_mul]
    rw [List.range_succ, List.map_append, front, List.map_singleton, ofDigits_append,
      ih (Nat.div_lt_of_lt_mul low)]
    simp only [Nat.add_sub_cancel, Nat.sub_self, Nat.pow_zero, Nat.div_one, List.length_singleton, Nat.pow_one,
      ofDigits, List.foldl_cons, List.foldl_nil, Nat.mul_zero, Nat.zero_add]
    rw [Nat.mul_comm]
    exact Nat.div_add_mod n base

section

variable {bits : Nat} {alphabet : List Char} (valid : IsAlphabet alphabet) (size : alphabet.length = 2 ^ bits)
include valid size

/-- The letters of an encoding stand for its groups of bits. -/
theorem idxOf_rfc4648Encode (bytes : List UInt8) :
    (rfc4648Encode bits alphabet bytes).map alphabet.idxOf =
      let groups := (8 * bytes.length + (bits - 1)) / bits
      let padded := bigEndian bytes * 2 ^ (bits * groups - 8 * bytes.length)
      (List.range groups).map fun i => padded / (2 ^ bits) ^ (groups - 1 - i) % 2 ^ bits := by
  unfold rfc4648Encode
  dsimp only
  rw [List.map_map]
  apply List.map_congr_left
  intro i _
  apply valid.letters
  rw [size]
  exact Nat.mod_lt _ (Nat.two_pow_pos bits)

omit size in
theorem mem_rfc4648Encode {bytes : List UInt8} {c : Char} (member : c ∈ rfc4648Encode bits alphabet bytes) :
    c ∈ alphabet := by
  obtain ⟨i, _, rfl⟩ := List.mem_map.mp member
  have nonempty : alphabet ≠ [] := by
    rintro rfl
    exact absurd valid.enough (by decide)
  obtain ⟨leader, letters, rfl⟩ := List.exists_cons_of_ne_nil nonempty
  exact Cid.getD_mem List.mem_cons_self _

/-- Bytes are read back from their encoding. -/
theorem rfc4648Decode_encode (positive : 0 < bits) (small : bits ≤ 8) (unpadded : '=' ∉ alphabet) (name : String)
    (bytes : List UInt8) : rfc4648Decode name bits alphabet (rfc4648Encode bits alphabet bytes) = .ok bytes := by
  have letters : ∀ c ∈ rfc4648Encode bits alphabet bytes, c ∈ alphabet :=
    fun c member => mem_rfc4648Encode valid member
  have noPadding : (rfc4648Encode bits alphabet bytes).rdropWhile (· == '=') =
      rfc4648Encode bits alphabet bytes := by
    apply List.rdropWhile_eq_self_iff.mpr
    intro nonempty isPadding
    have last := letters _ (List.getLast_mem nonempty)
    rw [beq_iff_eq.mp isPadding] at last
    exact unpadded last
  have digitsOf := idxOf_rfc4648Encode valid size bytes
  have length : (rfc4648Encode bits alphabet bytes).length = (8 * bytes.length + (bits - 1)) / bits := by
    simp [rfc4648Encode]
  dsimp only at digitsOf
  generalize groupsEq : (8 * bytes.length + (bits - 1)) / bits = groups at digitsOf length
  have low : 8 * bytes.length ≤ bits * groups ∧ bits * groups < 8 * bytes.length + bits := by
    have whole := Nat.div_add_mod (8 * bytes.length + (bits - 1)) bits
    have less := Nat.mod_lt (8 * bytes.length + (bits - 1)) positive
    rw [groupsEq] at whole
    omega
  obtain ⟨padding, total⟩ : ∃ padding, bits * groups = 8 * bytes.length + padding := Nat.exists_eq_add_of_le low.1
  have left : bits * groups % 8 = padding := by omega
  have count : bits * groups / 8 = bytes.length := by omega
  have shift : bits * groups - 8 * bytes.length = padding := by omega
  rw [shift] at digitsOf
  have fits : bigEndian bytes * 2 ^ padding < (2 ^ bits) ^ groups := by
    calc bigEndian bytes * 2 ^ padding < 256 ^ bytes.length * 2 ^ padding :=
          Nat.mul_lt_mul_of_pos_right (bigEndian_lt bytes) (Nat.two_pow_pos _)
      _ = 2 ^ (8 * bytes.length + padding) := by rw [show 256 = 2 ^ 8 from rfl, ← Nat.pow_mul, ← Nat.pow_add]
      _ = (2 ^ bits) ^ groups := by rw [← total, Nat.pow_mul]
  have value := ofDigits_range fits
  rw [← digitsOf] at value
  have whole : (rfc4648Encode bits alphabet bytes).all (· ∈ alphabet) = true :=
    List.all_eq_true.mpr fun c member => by simpa using letters c member
  have complete : (bits ≤ padding || bigEndian bytes * 2 ^ padding % 2 ^ padding != 0) = false := by
    have fewer : ¬bits ≤ padding := by omega
    simp [fewer]
  unfold rfc4648Decode
  dsimp only
  rw [noPadding, whole, length, left, count, value, complete, Nat.mul_div_cancel _ (Nat.two_pow_pos padding),
    lastBytes_bigEndian]
  rfl

end

theorem base32_isAlphabet : IsAlphabet base32Alphabet := ⟨by decide +kernel, by decide⟩

theorem base64_isAlphabet : IsAlphabet base64Alphabet := ⟨by decide +kernel, by decide⟩

/-- `uint8arrays.toString(bytes, 'base64')`. -/
def base64Encode (bytes : List UInt8) : String := String.ofList (rfc4648Encode 6 base64Alphabet bytes)

/-- `uint8arrays.fromString(text, 'base64')`. -/
def base64Decode (text : String) : Except JsError (List UInt8) :=
  rfc4648Decode "base64" 6 base64Alphabet text.toList

theorem base64Decode_encode (bytes : List UInt8) : base64Decode (base64Encode bytes) = .ok bytes := by
  unfold base64Decode base64Encode
  rw [String.toList_ofList]
  exact rfc4648Decode_encode base64_isAlphabet (by decide) (by decide) (by decide) (by decide) "base64" bytes

/-- Only no bytes have an empty text. -/
theorem base64Encode_eq_empty {bytes : List UInt8} : base64Encode bytes = "" ↔ bytes = [] := by
  constructor
  · intro empty
    have decoded := base64Decode_encode bytes
    rw [empty] at decoded
    exact (Except.ok.inj decoded).symm
  · rintro rfl
    rfl

end Ceramic
