import Ceramic.StreamId

/-! The texts of identifiers: that of a content identifier names no other one and has no slash,
and that of a stream identifier names no other one. -/
namespace Ceramic

/-- Unsigned LEB128, and the bytes behind it. -/
def varintDecode : List UInt8 → Nat × List UInt8
  | [] => (0, [])
  | b :: rest =>
    if b.toNat < 128 then (b.toNat, rest)
    else ((b.toNat - 128) + 128 * (varintDecode rest).1, (varintDecode rest).2)

/-- Where there are enough bytes for a varint, its last byte is below 128 and those before it are not. -/
@[elab_as_elim]
theorem varintBytes_induction {motive : Nat → List UInt8 → Prop}
    (last : ∀ n b, b.toNat = n → n < 128 → motive n [b])
    (more : ∀ n b bytes, b.toNat = n % 128 + 128 → 128 ≤ n → motive (n / 128) bytes → motive n (b :: bytes))
    {fuel n : Nat} (enough : n < fuel) : motive n (varintBytes fuel n) := by
  induction fuel generalizing n with
  | zero => omega
  | succ fuel ih =>
    unfold varintBytes
    split
    next low =>
      have byte : (UInt8.ofNat n).toNat = n := by
        rw [UInt8.toNat_ofNat']
        omega
      exact last n _ byte low
    next high =>
      have byte : (UInt8.ofNat (n % 128 + 128)).toNat = n % 128 + 128 := by
        rw [UInt8.toNat_ofNat']
        omega
      exact more n _ _ byte (Nat.le_of_not_lt high) (ih (by omega))

/-- What a varint is followed by stays. -/
theorem varintDecode_varintBytes {fuel n : Nat} (enough : n < fuel) (rest : List UInt8) :
    varintDecode (varintBytes fuel n ++ rest) = (n, rest) := by
  refine varintBytes_induction (fun n b byte low => ?_) (fun n b bytes byte high ih => ?_) enough
  · rw [List.cons_append, List.nil_append, varintDecode, byte, if_pos low]
  · rw [List.cons_append, varintDecode, byte, if_neg (by omega), ih]
    exact Prod.ext (by dsimp only; omega) rfl

theorem bigEndian_cons (b : UInt8) (bytes : List UInt8) :
    bigEndian (b :: bytes) = b.toNat * 256 ^ bytes.length + bigEndian bytes := by
  have split := bigEndian_append [b] bytes
  simpa [bigEndian] using split

/-- Bytes of one length are known by their number. -/
theorem bigEndian_injective {a b : List UInt8} (length : a.length = b.length)
    (same : bigEndian a = bigEndian b) : a = b := by
  induction a generalizing b with
  | nil => exact (List.length_eq_zero_iff.mp length.symm).symm
  | cons x xs ih =>
    cases b with
    | nil => cases length
    | cons y ys =>
      have tails : xs.length = ys.length := Nat.succ.inj length
      rw [bigEndian_cons, bigEndian_cons, ← tails] at same
      have lowX := bigEndian_lt xs
      have lowY := bigEndian_lt ys
      rw [← tails] at lowY
      have heads : x.toNat = y.toNat := by
        have left := Nat.mul_add_div (Nat.zero_lt_of_lt lowX) x.toNat (bigEndian xs)
        have right := Nat.mul_add_div (Nat.zero_lt_of_lt lowX) y.toNat (bigEndian ys)
        rw [Nat.mul_comm, same, Nat.mul_comm, right, Nat.div_eq_of_lt lowX, Nat.div_eq_of_lt lowY] at left
        omega
      rw [UInt8.toNat_inj.mp heads, ih tails (by rw [heads] at same; omega)]

/-- A number is known by its last digits, if it has no more. -/
theorem eq_of_digits {base groups x y : Nat} (lowX : x < base ^ groups) (lowY : y < base ^ groups)
    (same : ∀ i < groups, x / base ^ i % base = y / base ^ i % base) : x = y := by
  induction groups generalizing x y with
  | zero =>
    rw [Nat.pow_zero] at lowX lowY
    omega
  | succ groups ih =>
    rw [Nat.pow_succ'] at lowX lowY
    have last := same 0 (Nat.succ_pos _)
    rw [Nat.pow_zero, Nat.div_one, Nat.div_one] at last
    have rest : x / base = y / base := by
      refine ih (Nat.div_lt_of_lt_mul lowX) (Nat.div_lt_of_lt_mul lowY) fun i less => ?_
      have digit := same (i + 1) (Nat.succ_lt_succ less)
      rwa [Nat.pow_succ', ← Nat.div_div_eq_div_mul, ← Nat.div_div_eq_div_mul] at digit
    rw [← Nat.div_add_mod x base, ← Nat.div_add_mod y base, rest, last]

theorem base32_padded_lt (bytes : List UInt8) :
    bigEndian bytes * 2 ^ (5 * ((8 * bytes.length + 4) / 5) - 8 * bytes.length) <
      32 ^ ((8 * bytes.length + 4) / 5) := by
  calc _ < 256 ^ bytes.length * 2 ^ (5 * ((8 * bytes.length + 4) / 5) - 8 * bytes.length) :=
        Nat.mul_lt_mul_of_pos_right (bigEndian_lt bytes) (Nat.two_pow_pos _)
    _ = 2 ^ (8 * bytes.length + (5 * ((8 * bytes.length + 4) / 5) - 8 * bytes.length)) := by
        rw [show 256 = 2 ^ 8 from rfl, ← Nat.pow_mul, ← Nat.pow_add]
    _ = 2 ^ (5 * ((8 * bytes.length + 4) / 5)) := by congr 1; omega
    _ = 32 ^ ((8 * bytes.length + 4) / 5) := by rw [Nat.pow_mul]

theorem base32Encode_injective {a b : List UInt8} (same : base32Encode a = base32Encode b) : a = b := by
  have letters : ∀ d < 32, base32Alphabet.idxOf (base32Alphabet.getD d 'a') = d := by decide +kernel
  have texts := (List.cons.inj same).2
  have groups : (8 * a.length + 4) / 5 = (8 * b.length + 4) / 5 := by
    simpa using congrArg List.length texts
  have length : a.length = b.length := by omega
  rw [← length] at texts
  have lowB := base32_padded_lt b
  rw [← length] at lowB
  have padded := eq_of_digits (base32_padded_lt a) lowB fun i less => by
    have at_i := List.map_inj_left.mp texts ((8 * a.length + 4) / 5 - 1 - i) (List.mem_range.mpr (by omega))
    have digit := congrArg base32Alphabet.idxOf at_i
    rw [letters _ (Nat.mod_lt _ (by decide)), letters _ (Nat.mod_lt _ (by decide))] at digit
    rwa [show (8 * a.length + 4) / 5 - 1 - ((8 * a.length + 4) / 5 - 1 - i) = i by omega] at digit
  exact bigEndian_injective length (Nat.eq_of_mul_eq_mul_right (Nat.two_pow_pos _) padded)

theorem base58_isAlphabet : IsAlphabet base58Alphabet := ⟨by decide +kernel, by decide⟩

namespace Cid

theorem isV0_lead {cid : Cid} (v0 : cid.isV0 = true) : ∃ rest, cid.bytes = 0x12 :: 0x20 :: rest ∧
    rest.length = 32 := by
  simp only [isV0, Bool.and_eq_true, beq_iff_eq] at v0
  obtain ⟨front, length⟩ := v0
  refine ⟨cid.bytes.drop 2, ?_, by simp [length]⟩
  conv_lhs => rw [← List.take_append_drop 2 cid.bytes, front]
  rfl

/-- The text of a version 0 identifier does not begin with the multibase prefix of base32. -/
theorem baseX_ne_base32 {cid : Cid} (v0 : cid.isV0 = true) (bytes : List UInt8) :
    baseX base58Alphabet cid.bytes ≠ base32Encode bytes := by
  intro same
  obtain ⟨rest, split, length⟩ := isV0_lead v0
  have lead : cid.bytes.takeWhile (· == 0) = [] := by
    rw [split]
    rfl
  have digits := digits_of_baseX base58_isAlphabet lead
  have value := ofDigits_of_baseX base58_isAlphabet lead
  rw [same, base32Encode, List.map_cons] at digits value
  rw [ofDigits_cons, split, bigEndian_cons, bigEndian_cons, List.length_cons, length] at value
  have lowRest := bigEndian_lt rest
  rw [length] at lowRest
  generalize tail : List.map _ _ = ds at digits value
  have letters := digits_lt (show 0 < base58Alphabet.length by decide) (8 * cid.bytes.length)
    (bigEndian cid.bytes)
  have lowTail := ofDigits_lt fun d member =>
    letters d (digits ▸ List.mem_cons_of_mem (base58Alphabet.idxOf 'b') member)
  simp only [show base58Alphabet.length = 58 from rfl, show base58Alphabet.idxOf 'b' = 34 from by decide,
    show (0x12 : UInt8).toNat = 18 from rfl, show (0x20 : UInt8).toNat = 32 from rfl] at value lowTail
  rcases Nat.lt_or_ge ds.length 45 with short | long
  · have bound : 58 ^ ds.length ≤ 58 ^ 44 := Nat.pow_le_pow_right (by decide) (by omega)
    norm_num at value bound lowTail lowRest
    omega
  · have bound : 58 ^ 45 ≤ 58 ^ ds.length := Nat.pow_le_pow_right (by decide) long
    norm_num at value bound lowRest
    omega

theorem toString_injective {a b : Cid} (same : a.toString = b.toString) : a = b := by
  have texts := String.ofList_injective same
  have bytes : a.bytes = b.bytes := by
    cases v0a : a.isV0 <;> cases v0b : b.isV0 <;>
      simp only [v0a, v0b, if_true, Bool.false_eq_true, if_false] at texts
    · exact base32Encode_injective texts
    · exact absurd texts.symm (baseX_ne_base32 v0b a.bytes)
    · exact absurd texts (baseX_ne_base32 v0a b.bytes)
    · obtain ⟨restA, splitA, lengthA⟩ := isV0_lead v0a
      obtain ⟨restB, splitB, lengthB⟩ := isV0_lead v0b
      refine bigEndian_injective (by rw [splitA, splitB]; simp [lengthA, lengthB]) ?_
      rw [← ofDigits_of_baseX base58_isAlphabet (by rw [splitA]; rfl), texts,
        ofDigits_of_baseX base58_isAlphabet (by rw [splitB]; rfl)]
  cases a
  cases b
  exact congrArg Cid.mk bytes

theorem getD_mem {alphabet : List Char} {leader : Char} (member : leader ∈ alphabet) (d : Nat) :
    alphabet.getD d leader ∈ alphabet := by
  rw [List.getD_eq_getElem?_getD]
  cases found : alphabet[d]? with
  | none => exact member
  | some letter => exact List.mem_of_getElem? found

theorem mem_baseX {alphabet : List Char} {bytes : List UInt8} {c : Char} (nonempty : alphabet ≠ [])
    (member : c ∈ baseX alphabet bytes) : c ∈ alphabet := by
  have leader : alphabet.headD '0' ∈ alphabet := by
    cases alphabet with
    | nil => exact absurd rfl nonempty
    | cons first rest => exact List.mem_cons_self ..
  rcases List.mem_append.mp member with zeros | rest
  · rwa [List.eq_of_mem_replicate zeros]
  · obtain ⟨d, _, rfl⟩ := List.mem_map.mp rest
    exact getD_mem leader d

theorem slash_notMem_toString (cid : Cid) : '/' ∉ cid.toString.toList := by
  unfold toString
  rw [String.toList_ofList]
  intro member
  split at member
  · have letter := mem_baseX (by decide) member
    revert letter
    decide
  · rcases List.mem_cons.mp member with isPrefix | digit
    · revert isPrefix
      decide
    · obtain ⟨i, _, same⟩ := List.mem_map.mp digit
      have letter : '/' ∈ base32Alphabet := same ▸ getD_mem (by decide) _
      revert letter
      decide

end Cid

/-- Without leading zeros the number of bytes gives their count. -/
theorem length_eq_of_bigEndian {a b : List UInt8} {x y : UInt8} (leadA : x ≠ 0) (leadB : y ≠ 0)
    (same : bigEndian (x :: a) = bigEndian (y :: b)) : a.length = b.length := by
  have low {z : UInt8} (lead : z ≠ 0) (bytes : List UInt8) :
      256 ^ bytes.length ≤ bigEndian (z :: bytes) := by
    have positive : 0 < z.toNat := Nat.pos_of_ne_zero fun zero => lead (UInt8.toNat_inj.mp zero)
    rw [bigEndian_cons]
    exact Nat.le_trans (Nat.le_mul_of_pos_left _ positive) (Nat.le_add_right _ _)
  have bound {c d : List UInt8} {z w : UInt8} (lead : z ≠ 0)
      (same : bigEndian (z :: c) = bigEndian (w :: d)) : c.length ≤ d.length := by
    have less : 256 ^ c.length < 256 ^ (d.length + 1) := calc
      256 ^ c.length ≤ bigEndian (z :: c) := low lead c
      _ = bigEndian (w :: d) := same
      _ < 256 ^ (d.length + 1) := bigEndian_lt _
    have := (Nat.pow_lt_pow_iff_right (by decide)).mp less
    omega
  exact Nat.le_antisymm (bound leadA same) (bound leadB same.symm)

namespace StreamID

theorem toString_injective {a b : StreamID} (same : a.toString = b.toString) : a = b := by
  have lead (id : StreamID) : id.bytes = 0xCE :: 0x01 :: (varintEncode id.type ++ id.cid.bytes) := rfl
  have numbers := bigEndian_of_base36Encode (by rw [lead]; rfl) (by rw [lead]; rfl)
    (String.ofList_injective same)
  rw [lead a, lead b] at numbers
  have length := length_eq_of_bigEndian (by decide) (by decide) numbers
  have bytes := bigEndian_injective (by simp only [List.length_cons] at length ⊢; omega) numbers
  have parts : varintEncode a.type ++ a.cid.bytes = varintEncode b.type ++ b.cid.bytes :=
    (List.cons.inj (List.cons.inj bytes).2).2
  have decoded := congrArg varintDecode parts
  unfold varintEncode at decoded
  rw [varintDecode_varintBytes (Nat.lt_succ_self _), varintDecode_varintBytes (Nat.lt_succ_self _)] at decoded
  obtain ⟨type, cid⟩ := Prod.mk.inj decoded
  obtain ⟨typeA, ⟨bytesA⟩⟩ := a
  obtain ⟨typeB, ⟨bytesB⟩⟩ := b
  obtain rfl : typeA = typeB := type
  obtain rfl : bytesA = bytesB := cid
  rfl

end StreamID

end Ceramic
