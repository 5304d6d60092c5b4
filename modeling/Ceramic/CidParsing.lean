import Ceramic.Rfc4648

/-! Content identifiers read from bytes and from text. -/
namespace Ceramic

namespace Cid

/-- The version and the identifier in some bytes; a first byte of 18 begins a bare multihash. -/
def decode (bytes : List UInt8) : Except JsError (Nat × Cid) := do
  let (version, afterVersion, _) ← readVarint bytes
  let (version, codec, multihash) ←
    if version = 18 then pure (0, DAG_PB_CODE, bytes)
    else do
      let (codec, rest, _) ← readVarint afterVersion
      pure (version, codec, rest)
  if !isCidVersion version then throw ⟨"Invalid CID version " ++ ToString.toString version⟩
  let multihash ← decodeMultiHash multihash
  return (version, if version = 0 then ⟨multihash⟩ else .v1 codec multihash)

/-- An identifier behind a multibase prefix, which version 0 does not have. -/
def decodePrefixed (bytes : List UInt8) : Except JsError Cid := do
  let (version, cid) ← decode bytes
  if version = 0 then throw ⟨"Version 0 CID string must not include multibase prefix"⟩
  return cid

/-- `CID.parse` on characters. -/
def parseText : List Char → Except JsError Cid
  | 'Q' :: rest => do
    let (_, cid) ← decode (← baseXDecode "base58btc" base58Alphabet ('Q' :: rest))
    return cid
  | 'z' :: rest => do decodePrefixed (← baseXDecode "base58btc" base58Alphabet rest)
  | 'b' :: rest => do decodePrefixed (← rfc4648Decode "base32" 5 base32Alphabet rest)
  | 'k' :: rest => do decodePrefixed (← baseXDecode "base36" base36Alphabet rest)
  | _ => .error ⟨"To parse non base32, base36 or base58btc encoded CID multibase decoder must be provided"⟩

/-- `CID.parse`. -/
def parse (source : String) : Except JsError Cid := parseText source.toList

theorem parseText_v0 (rest : List Char) : parseText ('Q' :: rest) = (do
    let (_, cid) ← decode (← baseXDecode "base58btc" base58Alphabet ('Q' :: rest))
    return cid) := rfl

theorem parseText_base32 (rest : List Char) : parseText ('b' :: rest) = (do
    decodePrefixed (← rfc4648Decode "base32" 5 base32Alphabet rest)) := rfl

theorem decode_v1 {code hashCode : Nat} {digest : List UInt8} (safe : code ≤ MAX_SAFE_INTEGER)
    (safeHash : hashCode ≤ MAX_SAFE_INTEGER) (length : digest.length ≤ MAX_SAFE_INTEGER) :
    decode (Cid.v1 code (createMultihash hashCode digest)).bytes =
      .ok (1, .v1 code (createMultihash hashCode digest)) := by
  unfold decode Cid.v1
  dsimp only
  rw [List.append_assoc, readVarint_append (by decide)]
  simp only [bind, Except.bind, Nat.reduceEqDiff, if_false]
  rw [readVarint_append safe]
  simp only [pure, Except.pure]
  rw [decodeMultiHash_createMultihash safeHash length]
  rfl

theorem decode_v0 {cid : Cid} (v0 : cid.isV0 = true) : decode cid.bytes = .ok (0, cid) := by
  obtain ⟨rest, bytes, length⟩ := isV0_lead v0
  have multihash : decodeMultiHash cid.bytes = .ok cid.bytes := by
    have made : cid.bytes = createMultihash 0x12 rest := by
      unfold createMultihash
      rw [bytes, length]
      rfl
    rw [made]
    exact decodeMultiHash_createMultihash (by decide) (by rw [length]; decide)
  have version : readVarint cid.bytes = .ok (18, 0x20 :: rest, 1) := by
    have read : readVarint (varintEncode 18 ++ (0x20 :: rest)) = _ := readVarint_append (by decide) _
    rw [bytes]
    exact read
  unfold decode
  rw [version]
  simp only [bind, Except.bind, if_true, pure, Except.pure]
  rw [multihash]
  rfl

/-- The text of a version 0 identifier begins with `Q`. -/
theorem baseX_v0 {cid : Cid} (v0 : cid.isV0 = true) : ∃ rest, baseX base58Alphabet cid.bytes = 'Q' :: rest := by
  obtain ⟨rest, split, length⟩ := isV0_lead v0
  have lead : cid.bytes.takeWhile (· == 0) = [] := by
    rw [split]
    rfl
  have low : bigEndian cid.bytes < base58Alphabet.length ^ (8 * cid.bytes.length) := by
    calc bigEndian cid.bytes < 256 ^ cid.bytes.length := bigEndian_lt _
      _ = 2 ^ (8 * cid.bytes.length) := by rw [Nat.pow_mul]
      _ ≤ base58Alphabet.length ^ (8 * cid.bytes.length) := Nat.pow_le_pow_left (by decide) _
  have value := ofDigits_digits low
  have first := digits_head low
  have letters := digits_lt (show 0 < base58Alphabet.length by decide) (8 * cid.bytes.length)
    (bigEndian cid.bytes)
  unfold baseX
  dsimp only
  rw [lead, List.length_nil, List.replicate_zero, List.nil_append]
  have number : bigEndian cid.bytes = 0x1220 * 256 ^ 32 + bigEndian rest := by
    rw [split, bigEndian_cons, bigEndian_cons, List.length_cons, length]
    simp only [show (0x12 : UInt8).toNat = 18 from rfl, show (0x20 : UInt8).toNat = 32 from rfl]
    norm_num
    omega
  have lowRest := bigEndian_lt rest
  rw [length] at lowRest
  generalize digits base58Alphabet.length (8 * cid.bytes.length) (bigEndian cid.bytes) = ds at *
  cases ds with
  | nil =>
    rw [number, ofDigits, List.foldl_nil] at value
    omega
  | cons d ds =>
    have positive : d ≠ 0 := first d rfl
    have lowTail := ofDigits_lt fun e member => letters e (List.mem_cons_of_mem d member)
    rw [ofDigits_cons, number] at value
    simp only [show base58Alphabet.length = 58 from rfl] at value lowTail
    have digit : d = 23 := by
      rcases Nat.lt_trichotomy ds.length 45 with short | exactly | long
      · have bound : 58 ^ ds.length ≤ 58 ^ 44 := Nat.pow_le_pow_right (by decide) (by omega)
        have small := letters d List.mem_cons_self
        simp only [show base58Alphabet.length = 58 from rfl] at small
        have product : d * 58 ^ ds.length ≤ 57 * 58 ^ 44 := Nat.mul_le_mul (by omega) bound
        norm_num at value bound lowTail lowRest product
        omega
      · rw [exactly] at value lowTail
        norm_num at value lowTail lowRest
        omega
      · have bound : 58 ^ 46 ≤ 58 ^ ds.length := Nat.pow_le_pow_right (by decide) (by omega)
        have product : 1 * 58 ^ 46 ≤ d * 58 ^ ds.length := Nat.mul_le_mul (by omega) bound
        norm_num at value lowRest product
        omega
    exact ⟨_, by rw [digit]; rfl⟩

/-- Every identifier is read back from its text. -/
theorem parse_toString {cid : Cid} (wellFormed : cid.WellFormed) : parse cid.toString = .ok cid := by
  unfold parse toString
  rw [String.toList_ofList]
  cases wellFormed with
  | v0 cid v0 =>
    obtain ⟨rest, text⟩ := baseX_v0 v0
    have nonzero : ∀ b ∈ cid.bytes.head?, b ≠ 0 := by
      obtain ⟨behind, bytes, _⟩ := isV0_lead v0
      intro b isHead
      rw [bytes] at isHead
      obtain rfl := Option.some.inj isHead
      decide
    have decoded : baseXDecode "base58btc" base58Alphabet (baseX base58Alphabet cid.bytes) = .ok cid.bytes :=
      baseXDecode_baseX base58_isAlphabet (by decide) nonzero
    rw [if_pos v0, text, parseText_v0, ← text, decoded]
    simp only [bind, Except.bind]
    rw [decode_v0 v0]
    rfl
  | v1 code hashCode digest safe safeHash length =>
    have decoded := rfc4648Decode_encode base32_isAlphabet (show _ = 2 ^ 5 from rfl) (by decide) (by decide) (by decide)
      "base32" (Cid.v1 code (createMultihash hashCode digest)).bytes
    rw [if_neg (by simp [Cid.v1_isV0]), base32Encode_eq, parseText_base32, decoded]
    simp only [bind, Except.bind, decodePrefixed]
    rw [decode_v1 safe safeHash length]
    rfl

/-- A text that is refused is not the text of an identifier. -/
theorem toString_ne {cid : Cid} (wellFormed : cid.WellFormed) {text : String}
    (refused : (parse text).toOption = none) : cid.toString ≠ text := by
  rintro rfl
  rw [parse_toString wellFormed] at refused
  cases refused

end Cid

/-- `toCID`. -/
def toCID : JsValue → Except JsError Cid
  | .cid cid => .ok cid
  | .str text => Cid.parse text
  | .bytes bytes => do
    let (_, cid) ← Cid.decode bytes
    return cid
  | _ => .error ⟨"cannot be converted to a CID"⟩

end Ceramic
