import Ceramic.IdText
import Ceramic.Js

/-! Varints and content identifiers at the front of some bytes. A version 1 identifier delimits
itself; a version 0 identifier is a bare multihash and has no byte that tells its version. -/
namespace Ceramic

def MAX_SAFE_INTEGER : Nat := 2 ^ 53 - 1

/-- The code of `dag-pb`. -/
def DAG_PB_CODE : Nat := 0x70

/-- `create` of a multihash digest. -/
def createMultihash (code : Nat) (digest : List UInt8) : List UInt8 :=
  varintEncode code ++ varintEncode digest.length ++ digest

/-- The version 1 identifier of a codec and a multihash. -/
def Cid.v1 (code : Nat) (multihash : List UInt8) : Cid :=
  ⟨varintEncode 1 ++ varintEncode code ++ multihash⟩

/-- `CID.create`. -/
def Cid.create (version code : Nat) (multihash : List UInt8) : Except JsError Cid :=
  if version = 0 then
    if code = DAG_PB_CODE then .ok ⟨multihash⟩
    else .error ⟨"Version 0 CID must use dag-pb (code: 112) block encoding"⟩
  else .ok (.v1 code multihash)

/-- A content identifier as `multiformats` makes it. -/
inductive Cid.WellFormed : Cid → Prop where
  | v0 (cid : Cid) : cid.isV0 = true → WellFormed cid
  | v1 (code hashCode : Nat) (digest : List UInt8) : code ≤ MAX_SAFE_INTEGER →
      hashCode ≤ MAX_SAFE_INTEGER → digest.length ≤ MAX_SAFE_INTEGER →
      WellFormed (.v1 code (createMultihash hashCode digest))

/-- `varint.encode`, as far as it does not throw. -/
def encodeVarint (n : Nat) : Except JsError (List UInt8) :=
  if MAX_SAFE_INTEGER < n then .error ⟨"Could not encode varint"⟩ else .ok (varintEncode n)

/-- `varint.decode` with a bound on the number of bytes, and the bytes behind it. -/
def decodeVarint : Nat → List UInt8 → Except JsError (Nat × List UInt8)
  | 0, _ | _ + 1, [] => .error ⟨"Could not decode varint"⟩
  | count + 1, b :: rest =>
    if b.toNat < 128 then .ok (b.toNat, rest)
    else do
      let (value, rest) ← decodeVarint count rest
      return (b.toNat - 128 + 128 * value, rest)

/-- The nearest double, of two as near the even one: one holds 53 bits of a number. -/
def toDouble (n : Nat) : Nat :=
  if n ≤ MAX_SAFE_INTEGER then n
  else
    let unit := 2 ^ (n.log2 - 52)
    if 2 * (n % unit) < unit ∨ 2 * (n % unit) = unit ∧ n / unit % 2 = 0 then n / unit * unit
    else (n / unit + 1) * unit

/-- At most eight bytes are read: the shift goes up to 49. -/
def readVarint (bytes : List UInt8) : Except JsError (Nat × List UInt8 × Nat) := do
  let (value, remainder) ← decodeVarint 8 bytes
  return (toDouble value, remainder, bytes.length - remainder.length)

/-- `decode` of a multihash digest gives the same bytes back, if its size is right. -/
def decodeMultiHash (bytes : List UInt8) : Except JsError (List UInt8) := do
  let (_, afterCode, _) ← readVarint bytes
  let (size, digest, _) ← readVarint afterCode
  if digest.length = size then return bytes else throw ⟨"Incorrect length"⟩

def isCidVersion (input : Nat) : Bool := input = 0 || input = 1

def readCid (bytes : List UInt8) : Except JsError (Cid × List UInt8) := do
  let (cidVersion, cidVersionRemainder, _) ← readVarint bytes
  if isCidVersion cidVersion then
    let (codec, codecRemainder, _) ← readVarint cidVersionRemainder
    let (_, mhCodecRemainder, mhCodecLength) ← readVarint codecRemainder
    let (mhLength, _, mhLengthLength) ← readVarint mhCodecRemainder
    let multihashBytes := codecRemainder.take (mhCodecLength + mhLengthLength + mhLength)
    let multihashBytesRemainder := codecRemainder.drop (mhCodecLength + mhLengthLength + mhLength)
    let cid ← Cid.create cidVersion codec (← decodeMultiHash multihashBytes)
    return (cid, multihashBytesRemainder)
  else throw ⟨"Unknown CID version " ++ toString cidVersion⟩

theorem decodeVarint_varintBytes {count fuel n : Nat} (enough : n < fuel) (short : n < 128 ^ (count + 1))
    (rest : List UInt8) : decodeVarint (count + 1) (varintBytes fuel n ++ rest) = .ok (n, rest) := by
  suffices all : ∀ count, n < 128 ^ (count + 1) →
      decodeVarint (count + 1) (varintBytes fuel n ++ rest) = .ok (n, rest) from all count short
  refine varintBytes_induction (fun n b byte low count _ => ?_) (fun n b bytes byte high ih count short => ?_) enough
  · rw [List.cons_append, List.nil_append, decodeVarint, byte, if_pos low]
  · cases count with
    | zero => omega
    | succ count =>
      have fewer : n / 128 < 128 ^ (count + 1) := by
        rw [Nat.pow_succ] at short
        omega
      have value : n % 128 + 128 - 128 + 128 * (n / 128) = n := by omega
      rw [List.cons_append, decodeVarint, byte, if_neg (by omega), ih count fewer]
      exact congrArg (fun n => Except.ok (n, rest)) value

theorem toDouble_safe {n : Nat} (safe : n ≤ MAX_SAFE_INTEGER) : toDouble n = n := if_pos safe

theorem readVarint_append {n : Nat} (safe : n ≤ MAX_SAFE_INTEGER) (rest : List UInt8) :
    readVarint (varintEncode n ++ rest) = .ok (n, rest, (varintEncode n).length) := by
  have short : n < 128 ^ (7 + 1) := Nat.lt_of_le_of_lt safe (by decide)
  unfold readVarint varintEncode
  rw [decodeVarint_varintBytes (Nat.lt_succ_self n) short rest]
  simp only [bind, Except.bind, pure, Except.pure, List.length_append, Nat.add_sub_cancel, toDouble_safe safe]

/-- A digest is read back whole. -/
theorem decodeMultiHash_createMultihash {code : Nat} {digest : List UInt8} (safe : code ≤ MAX_SAFE_INTEGER)
    (length : digest.length ≤ MAX_SAFE_INTEGER) :
    decodeMultiHash (createMultihash code digest) = .ok (createMultihash code digest) := by
  unfold decodeMultiHash createMultihash
  rw [List.append_assoc, readVarint_append safe]
  simp only [bind, Except.bind]
  rw [readVarint_append length]
  simp [pure, Except.pure]

/-- A version 1 identifier is read back, and the bytes behind it stay. -/
theorem readCid_v1 {code hashCode : Nat} {digest : List UInt8} (safe : code ≤ MAX_SAFE_INTEGER)
    (safeHash : hashCode ≤ MAX_SAFE_INTEGER) (length : digest.length ≤ MAX_SAFE_INTEGER)
    (rest : List UInt8) :
    readCid ((Cid.v1 code (createMultihash hashCode digest)).bytes ++ rest) =
      .ok (.v1 code (createMultihash hashCode digest), rest) := by
  have front : (varintEncode hashCode).length + (varintEncode digest.length).length + digest.length =
      (createMultihash hashCode digest).length := by
    simp [createMultihash, Nat.add_assoc]
  unfold readCid Cid.v1
  dsimp only
  rw [List.append_assoc, List.append_assoc, readVarint_append (by decide)]
  simp only [bind, Except.bind]
  rw [if_pos (by decide), readVarint_append safe]
  dsimp only
  have split : createMultihash hashCode digest ++ rest =
      varintEncode hashCode ++ (varintEncode digest.length ++ (digest ++ rest)) := by
    simp [createMultihash]
  rw [split, readVarint_append safeHash]
  dsimp only
  rw [readVarint_append length]
  dsimp only
  rw [← split, front, List.take_left, List.drop_left, decodeMultiHash_createMultihash safeHash length]
  rfl

/-- A version 0 identifier cannot be read: its first byte is taken for a version. -/
theorem readCid_v0 {cid : Cid} (v0 : cid.isV0 = true) (rest : List UInt8) :
    readCid (cid.bytes ++ rest) = .error ⟨"Unknown CID version 18"⟩ := by
  obtain ⟨behind, bytes, _⟩ := Cid.isV0_lead v0
  rw [bytes]
  rfl

theorem Cid.v1_isV0 (code : Nat) (multihash : List UInt8) : (Cid.v1 code multihash).isV0 = false := by
  simp [Cid.isV0, Cid.v1, varintEncode, varintBytes]

/-- An identifier is read back exactly if it is not of version 0. -/
theorem readCid_append {cid : Cid} (wellFormed : cid.WellFormed) (rest : List UInt8) :
    (cid.isV0 = false ∧ readCid (cid.bytes ++ rest) = .ok (cid, rest)) ∨
      (cid.isV0 = true ∧ readCid (cid.bytes ++ rest) = .error ⟨"Unknown CID version 18"⟩) := by
  cases wellFormed with
  | v0 cid v0 => exact .inr ⟨v0, readCid_v0 v0 rest⟩
  | v1 code hashCode digest safe safeHash length =>
    exact .inl ⟨Cid.v1_isV0 .., readCid_v1 safe safeHash length rest⟩

end Ceramic
