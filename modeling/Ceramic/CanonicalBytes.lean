import Ceramic.Library.Varint
import Ceramic.StreamRefParsing

/-! Which bytes are read as an identifier although they are not the ones that it is written as: a varint may have
superfluous bytes, and what is behind a commit is not looked at. -/
namespace Ceramic

open Varint (Stands isMinimal endsInZero)

theorem stands_varintBytes {fuel n : Nat} (enough : n < fuel) : Stands (varintBytes fuel n) n := by
  refine varintBytes_induction (fun n b byte low => ?_) (fun n b bytes byte high ih => ?_) enough
  · have stands := Stands.last b (by omega)
    rwa [byte] at stands
  · have stands := Stands.more b (by omega) ih
    rwa [byte, show n % 128 + 128 - 128 + 128 * (n / 128) = n by omega] at stands

theorem varintBytes_ends {fuel n : Nat} (enough : n < fuel) (positive : n ≠ 0) :
    endsInZero (varintBytes fuel n) = false := by
  revert positive
  refine varintBytes_induction (fun n b byte low positive => ?_) (fun n b bytes byte high ih _ => ?_) enough
  · have nonzero : b ≠ 0 := by
      intro zero
      rw [zero] at byte
      exact positive byte.symm
    simp [endsInZero, byte, low, nonzero]
  · rw [endsInZero, byte, if_neg (by omega)]
    exact ih (by omega)

theorem stands_varintEncode (n : Nat) : Stands (varintEncode n) n := stands_varintBytes (Nat.lt_succ_self n)

theorem isMinimal_varintEncode (n : Nat) : isMinimal (varintEncode n) = true := by
  by_cases zero : n = 0
  · subst zero
    rfl
  · exact Varint.isMinimal_of_ends (varintBytes_ends (Nat.lt_succ_self n) zero)

theorem varintDecode_of_stands {w : List UInt8} {n : Nat} (stands : Stands w n) (rest : List UInt8) :
    varintDecode (w ++ rest) = (n, rest) := by
  induction stands with
  | last b low => simp [varintDecode, low]
  | more b high _ ih => simp [varintDecode, Nat.not_lt.mpr high, ih]

theorem decodeVarint_ok {count n : Nat} {bytes rest : List UInt8} (read : decodeVarint count bytes = .ok (n, rest)) :
    ∃ w, bytes = w ++ rest ∧ Stands w n := by
  induction count generalizing bytes n with
  | zero => cases read
  | succ count ih =>
    cases bytes with
    | nil => cases read
    | cons b bytes =>
      by_cases low : b.toNat < 128
      · rw [decodeVarint, if_pos low] at read
        obtain ⟨rfl, rfl⟩ := Prod.mk.inj (Except.ok.inj read)
        exact ⟨[b], rfl, .last b low⟩
      · rw [decodeVarint, if_neg low] at read
        obtain ⟨⟨m, behind⟩, found, same⟩ := bind_eq_ok.mp read
        obtain ⟨rfl, rfl⟩ := Prod.mk.inj (Except.ok.inj same)
        obtain ⟨w, rfl, stands⟩ := ih found
        exact ⟨b :: w, rfl, .more b (Nat.le_of_not_lt low) stands⟩

theorem readVarint_ok {bytes rest : List UInt8} {value length : Nat} (read : readVarint bytes = .ok (value, rest, length)) :
    ∃ w n, bytes = w ++ rest ∧ Stands w n ∧ value = toDouble n ∧ length = w.length := by
  obtain ⟨⟨n, behind⟩, found, same⟩ := bind_eq_ok.mp read
  obtain ⟨rfl, behindIt⟩ := Prod.mk.inj (Except.ok.inj same)
  obtain ⟨rfl, rfl⟩ := Prod.mk.inj behindIt
  obtain ⟨w, rfl, stands⟩ := decodeVarint_ok found
  exact ⟨w, n, rfl, stands, rfl, by simp⟩

/-- A number that is no safe integer is not taken for one. -/
theorem safe_of_toDouble {n : Nat} (safe : toDouble n ≤ MAX_SAFE_INTEGER) : n ≤ MAX_SAFE_INTEGER := by
  by_contra large
  have big : 2 ^ 53 ≤ n := by
    have : MAX_SAFE_INTEGER + 1 = 2 ^ 53 := by decide
    omega
  have positive : n ≠ 0 := by
    have := Nat.two_pow_pos 53
    omega
  have bits : 53 ≤ n.log2 := (Nat.le_log2 positive).mpr big
  have unit : 2 ^ 52 * 2 ^ (n.log2 - 52) = 2 ^ n.log2 := by
    rw [← Nat.pow_add]
    congr 1
    omega
  have quotient : 2 ^ 52 ≤ n / 2 ^ (n.log2 - 52) := by
    rw [Nat.le_div_iff_mul_le (Nat.two_pow_pos _), unit]
    exact Nat.log2_self_le positive
  have floor : 2 ^ 53 ≤ n / 2 ^ (n.log2 - 52) * 2 ^ (n.log2 - 52) := by
    calc 2 ^ 53 ≤ 2 ^ n.log2 := Nat.pow_le_pow_right (by decide) bits
      _ = 2 ^ 52 * 2 ^ (n.log2 - 52) := unit.symm
      _ ≤ n / 2 ^ (n.log2 - 52) * 2 ^ (n.log2 - 52) := Nat.mul_le_mul_right _ quotient
  have above : 2 ^ 53 ≤ toDouble n := by
    unfold toDouble
    rw [if_neg large]
    dsimp only
    split
    · exact floor
    · exact Nat.le_trans floor (Nat.mul_le_mul_right _ (Nat.le_succ _))
  have : MAX_SAFE_INTEGER + 1 = 2 ^ 53 := by decide
  omega

/-- A number that is taken for a small one is this one. -/
theorem eq_of_toDouble {n m : Nat} (safe : m ≤ MAX_SAFE_INTEGER) (same : toDouble n = m) : n = m := by
  rw [← same, toDouble_safe (safe_of_toDouble (same ▸ safe))]

theorem toDouble_le (n : Nat) : toDouble n ≤ 2 * n := by
  unfold toDouble
  split
  · omega
  next large =>
    have positive : n ≠ 0 := by
      rintro rfl
      exact large (Nat.zero_le _)
    have unit : 2 ^ (n.log2 - 52) ≤ n :=
      Nat.le_trans (Nat.pow_le_pow_right (by decide) (Nat.sub_le ..)) (Nat.log2_self_le positive)
    have floor := Nat.div_mul_le_self n (2 ^ (n.log2 - 52))
    dsimp only
    split
    · omega
    · rw [Nat.add_mul, Nat.one_mul]
      omega

theorem Stands.lt {w : List UInt8} {n : Nat} (stands : Stands w n) : n < 128 ^ w.length := by
  induction stands with
  | last b low => simpa using low
  | @more b w n high _ ih =>
    have byte := b.toNat_lt
    rw [List.length_cons, Nat.pow_succ]
    omega

theorem varintBytes_length {fuel n k : Nat} (bound : n < 128 ^ (k + 1)) : (varintBytes fuel n).length ≤ k + 1 := by
  induction fuel generalizing n k with
  | zero => exact Nat.zero_le _
  | succ fuel ih =>
    unfold varintBytes
    split
    next => exact Nat.succ_le_succ (Nat.zero_le k)
    next high =>
      cases k with
      | zero => omega
      | succ k =>
        rw [Nat.pow_succ] at bound
        exact Nat.succ_le_succ (ih (Nat.div_lt_of_lt_mul (by rwa [Nat.mul_comm])))

/-- What is behind the multihash in front of some bytes. -/
def behindMultihash (bytes : List UInt8) : List UInt8 :=
  let (size, digest) := varintDecode (varintDecode bytes).2
  digest.drop (toDouble size)

/-- What is behind the CID in front of some bytes, if its version takes one byte. -/
def behindCid (bytes : List UInt8) : List UInt8 := behindMultihash (varintDecode bytes.tail).2

/-- A CID of version 1, of which neither the version nor the codec has superfluous bytes, and a double holds the
codec. -/
def isPlainCid (bytes : List UInt8) : Bool :=
  bytes.head? == some 1 && isMinimal bytes.tail &&
    toDouble (varintDecode bytes.tail).1 == (varintDecode bytes.tail).1

theorem decodeMultiHash_ok {bytes multihash : List UInt8} (read : decodeMultiHash bytes = .ok multihash) :
    multihash = bytes := by
  obtain ⟨⟨_, afterCode, _⟩, _, read⟩ := bind_eq_ok.mp read
  obtain ⟨⟨size, digest, _⟩, _, read⟩ := bind_eq_ok.mp read
  dsimp only at read
  split at read
  · exact (Except.ok.inj read).symm
  · cases read

theorem readCid_ok {bytes rest : List UInt8} {cid : Cid} (read : readCid bytes = .ok (cid, rest)) :
    ∃ v version w code multihash, bytes = v ++ (w ++ (multihash ++ rest)) ∧ Stands v version ∧
      (version = 0 ∨ version = 1) ∧ Stands w code ∧ Cid.create version (toDouble code) multihash = .ok cid ∧
      behindMultihash (multihash ++ rest) = rest := by
  obtain ⟨⟨cidVersion, cidVersionRemainder, _⟩, first, read⟩ := bind_eq_ok.mp read
  obtain ⟨v, version, rfl, standsV, rfl, _⟩ := readVarint_ok first
  dsimp only at read
  split at read
  next isVersion =>
    have isVersion : toDouble version = 0 ∨ toDouble version = 1 := by simpa [isCidVersion] using isVersion
    have exact : toDouble version = version := by
      refine toDouble_safe (safe_of_toDouble ?_)
      have : (1 : Nat) ≤ MAX_SAFE_INTEGER := by decide
      omega
    obtain ⟨⟨codec, codecRemainder, _⟩, second, read⟩ := bind_eq_ok.mp read
    obtain ⟨w, code, rfl, standsW, rfl, _⟩ := readVarint_ok second
    obtain ⟨⟨hashCode, mhCodecRemainder, mhCodecLength⟩, third, read⟩ := bind_eq_ok.mp read
    obtain ⟨x, hash, rfl, standsX, _, rfl⟩ := readVarint_ok third
    obtain ⟨⟨mhLength, digest, mhLengthLength⟩, fourth, read⟩ := bind_eq_ok.mp read
    obtain ⟨y, size, rfl, standsY, rfl, rfl⟩ := readVarint_ok fourth
    obtain ⟨multihash, decoded, read⟩ := bind_eq_ok.mp read
    obtain ⟨made, created, same⟩ := bind_eq_ok.mp read
    obtain ⟨rfl, rfl⟩ := Prod.mk.inj (Except.ok.inj same)
    rw [exact] at isVersion created
    refine ⟨v, version, w, code, multihash, ?_, standsV, isVersion, standsW, created, ?_⟩
    · rw [decodeMultiHash_ok decoded, List.take_append_drop]
    · rw [decodeMultiHash_ok decoded, List.take_append_drop, behindMultihash, varintDecode_of_stands standsX,
        varintDecode_of_stands standsY, Nat.add_assoc, ← List.drop_drop, List.drop_left, ← List.drop_drop,
        List.drop_left]
  next => cases read

theorem Stands.eq_one {v rest : List UInt8} {version : Nat} (stands : Stands v version)
    (isHead : (v ++ rest).head? = some 1) : v = [1] ∧ version = 1 := by
  cases stands with
  | last b low =>
    obtain rfl : b = 1 := Option.some.inj isHead
    exact ⟨rfl, rfl⟩
  | more b high stands =>
    obtain rfl : b = 1 := Option.some.inj isHead
    exact absurd high (by decide)

/-- A rounded codec may take one byte more than it was read from. -/
theorem readCid_length {bytes rest : List UInt8} {cid : Cid} (read : readCid bytes = .ok (cid, rest)) :
    cid.bytes.length ≤ bytes.length + 1 := by
  obtain ⟨v, version, w, code, multihash, rfl, standsV, isVersion, standsW, created, _⟩ := readCid_ok read
  have longV := List.length_pos_iff.mpr standsV.nonempty
  simp only [List.length_append]
  rcases isVersion with rfl | rfl
  · unfold Cid.create at created
    rw [if_pos rfl] at created
    split at created
    · obtain rfl := Except.ok.inj created
      dsimp only
      omega
    · cases created
  · obtain rfl : Cid.v1 (toDouble code) multihash = cid := Except.ok.inj created
    have bound : toDouble code < 128 ^ (w.length + 1) := by
      have double := toDouble_le code
      have low := Stands.lt standsW
      rw [Nat.pow_succ]
      omega
    have written : (varintEncode (toDouble code)).length ≤ w.length + 1 := varintBytes_length bound
    have one : (varintEncode 1).length = 1 := rfl
    simp only [Cid.v1, List.length_append]
    omega

/-- A CID is written as it was read exactly if it is a plain one. -/
theorem cid_eq_iff {bytes rest behind : List UInt8} {cid : Cid} (read : readCid bytes = .ok (cid, rest))
    (short : behind.length ≤ rest.length + 1) :
    cid.bytes ++ behind = bytes ↔ isPlainCid bytes = true ∧ behind = rest := by
  obtain ⟨v, version, w, code, multihash, rfl, standsV, isVersion, standsW, created, _⟩ := readCid_ok read
  rcases isVersion with rfl | rfl
  · -- the version is not written, and what is written is too short
    have made : cid = ⟨multihash⟩ := by
      unfold Cid.create at created
      rw [if_pos rfl] at created
      split at created
      · exact (Except.ok.inj created).symm
      · cases created
    subst made
    have longV := List.length_pos_iff.mpr standsV.nonempty
    have longW := List.length_pos_iff.mpr standsW.nonempty
    refine iff_of_false (fun same => ?_) (fun ⟨plain, _⟩ => ?_)
    · have lengths := congrArg List.length same
      simp only [List.length_append] at lengths
      omega
    · simp only [isPlainCid, Bool.and_eq_true, beq_iff_eq] at plain
      exact absurd (Stands.eq_one standsV plain.1.1).2 (by decide)
  · obtain rfl : Cid.v1 (toDouble code) multihash = cid := Except.ok.inj created
    simp only [isPlainCid, Bool.and_eq_true, beq_iff_eq]
    constructor
    · intro same
      simp only [Cid.v1, List.append_assoc] at same
      obtain ⟨rfl, _, same⟩ := (stands_varintEncode 1).cut standsV same
      obtain ⟨rfl, double, same⟩ := (stands_varintEncode (toDouble code)).cut standsW same
      have behindIt := List.append_cancel_left same
      have tail : (varintEncode 1 ++ (varintEncode (toDouble code) ++ (multihash ++ rest))).tail =
          varintEncode (toDouble code) ++ (multihash ++ rest) := rfl
      refine ⟨⟨⟨rfl, ?_⟩, ?_⟩, behindIt⟩
      · rw [tail, standsW.isMinimal_append]
        exact isMinimal_varintEncode _
      · rw [tail, varintDecode_of_stands standsW]
        exact double
    · rintro ⟨⟨⟨isHead, minimal⟩, double⟩, rfl⟩
      obtain ⟨rfl, _⟩ := Stands.eq_one standsV isHead
      rw [List.singleton_append, List.tail_cons] at minimal double
      rw [varintDecode_of_stands standsW] at double
      have written := (standsW.eq_iff (stands_varintEncode code) (isMinimal_varintEncode code) _).mpr minimal
      simp only [Cid.v1, double, written, List.append_assoc]
      rfl

theorem behindCid_of_plain {bytes rest : List UInt8} {cid : Cid} (read : readCid bytes = .ok (cid, rest))
    (plain : isPlainCid bytes = true) : behindCid bytes = rest := by
  obtain ⟨v, version, w, code, multihash, rfl, standsV, _, standsW, _, behind⟩ := readCid_ok read
  simp only [isPlainCid, Bool.and_eq_true, beq_iff_eq] at plain
  obtain ⟨rfl, _⟩ := Stands.eq_one standsV plain.1.1
  rw [behindCid, List.singleton_append, List.tail_cons, varintDecode_of_stands standsW]
  exact behind

/-- The bytes from the genesis on, if the codec in front is the one of identifiers. -/
def genesisIn (input : List UInt8) : List UInt8 := (varintDecode (input.drop 2)).2

/-- The codec and the type without superfluous bytes, and the type a safe integer. -/
def isPlainFront (input : List UInt8) : Bool :=
  input.take 2 == varintEncode STREAMID_CODEC && isMinimal (input.drop 2) &&
    decide ((varintDecode (input.drop 2)).1 ≤ MAX_SAFE_INTEGER)

/-- Bytes in which the identifier of a stream is in front as it is written. -/
def isPlainStream (input : List UInt8) : Bool := isPlainFront input && isPlainCid (genesisIn input)

/-- Behind the genesis is a zero byte, or else another CID than that of the genesis, and nothing behind it. -/
def isPlainCommit (input : List UInt8) : Bool :=
  let commit := behindCid (genesisIn input)
  isPlainStream input && (commit == [0] ||
    isPlainCid commit && behindCid commit == [] && genesisIn input != commit ++ commit)

namespace StreamRefParsing

/-- What is in front of the commit in bytes that are read. -/
structure Front (input : List UInt8) (type : Nat) (genesis : Cid) (rest : List UInt8) : Prop where
  parts : ∃ v w t at', input = v ++ (w ++ at') ∧ Stands v STREAMID_CODEC ∧ Stands w t ∧ type = toDouble t ∧
    readCid at' = .ok (genesis, rest)

/-- What the bytes behind the genesis are read as. -/
def commitOf (type : Nat) (genesis : Cid) (rest : List UInt8) : Except JsError StreamRefComponents :=
  if rest = [] then return .streamId type genesis
  else if rest = [0] then return .commitId type genesis none
  else do
    let (commit, _) ← readCid rest
    return .commitId type genesis (some commit)

theorem fromBytes_ok {input : List UInt8} {title : String} {ref : StreamRefComponents}
    (read : fromBytes input title = .ok ref) :
    ∃ type genesis rest, Front input type genesis rest ∧ commitOf type genesis rest = .ok ref := by
  obtain ⟨⟨streamCodec, codecRemainder, _⟩, first, read⟩ := bind_eq_ok.mp read
  obtain ⟨v, codec, rfl, standsV, rfl, _⟩ := readVarint_ok first
  dsimp only at read
  by_cases isStream : toDouble codec = STREAMID_CODEC
  · rw [if_neg (by simpa using isStream)] at read
    obtain rfl := eq_of_toDouble (by decide) isStream
    obtain ⟨⟨type, typeRemainder, _⟩, second, read⟩ := bind_eq_ok.mp read
    obtain ⟨w, t, rfl, standsW, rfl, _⟩ := readVarint_ok second
    obtain ⟨⟨genesis, rest⟩, third, read⟩ := bind_eq_ok.mp read
    exact ⟨_, genesis, rest, ⟨v, w, t, typeRemainder, rfl, standsV, standsW, rfl, third⟩, read⟩
  · rw [if_pos isStream] at read
    cases read

variable {input rest behind : List UInt8} {type : Nat} {genesis : Cid}

/-- The identifier in front of the commit is written as it was read exactly if it is written without superfluous
bytes. -/
theorem Front.eq_iff (front : Front input type genesis rest) (short : behind.length ≤ rest.length + 1) :
    (type ≤ MAX_SAFE_INTEGER ∧
      varintEncode STREAMID_CODEC ++ varintEncode type ++ (genesis.bytes ++ behind) = input) ↔
      isPlainStream input = true ∧ behind = rest := by
  obtain ⟨v, w, t, at', rfl, standsV, standsW, rfl, read⟩ := front
  simp only [isPlainStream, isPlainFront, Bool.and_eq_true, beq_iff_eq, decide_eq_true_eq]
  constructor
  · rintro ⟨safe, same⟩
    rw [List.append_assoc] at same
    obtain ⟨rfl, _, same⟩ := (stands_varintEncode STREAMID_CODEC).cut standsV same
    obtain ⟨rfl, double, same⟩ := (stands_varintEncode (toDouble t)).cut standsW same
    have dropped : (varintEncode STREAMID_CODEC ++ (varintEncode (toDouble t) ++ at')).drop 2 =
        varintEncode (toDouble t) ++ at' := rfl
    obtain ⟨plain, rfl⟩ := (cid_eq_iff read short).mp same
    refine ⟨⟨⟨⟨rfl, ?_⟩, ?_⟩, ?_⟩, rfl⟩
    · rw [dropped, standsW.isMinimal_append]
      exact isMinimal_varintEncode _
    · rw [dropped, varintDecode_of_stands standsW]
      exact double ▸ safe
    · rw [genesisIn, dropped, varintDecode_of_stands standsW]
      exact plain
  · rintro ⟨⟨⟨⟨codec, minimal⟩, safe⟩, plain⟩, rfl⟩
    have whole := List.take_append_drop 2 (v ++ (w ++ at'))
    rw [codec] at whole
    obtain ⟨rfl, _, dropped⟩ := (stands_varintEncode STREAMID_CODEC).cut standsV whole
    rw [dropped, standsW.isMinimal_append] at minimal
    rw [dropped, varintDecode_of_stands standsW] at safe
    rw [genesisIn, dropped, varintDecode_of_stands standsW] at plain
    have written := standsW.unique (stands_varintEncode t) minimal (isMinimal_varintEncode t)
    rw [toDouble_safe safe, ← written, (cid_eq_iff read (Nat.le_succ _)).mpr ⟨plain, rfl⟩]
    exact ⟨safe, List.append_assoc ..⟩

/-- Where the identifier is in front, what is behind it is found. -/
theorem Front.located (front : Front input type genesis rest) (plain : isPlainStream input = true) :
    behindCid (genesisIn input) = rest ∧ genesisIn input = genesis.bytes ++ rest := by
  obtain ⟨safe, written⟩ := (front.eq_iff (Nat.le_succ rest.length)).mpr ⟨plain, rfl⟩
  obtain ⟨v, w, t, at', rfl, standsV, standsW, rfl, read⟩ := front
  rw [List.append_assoc] at written
  obtain ⟨rfl, _, same⟩ := (stands_varintEncode STREAMID_CODEC).cut standsV written
  obtain ⟨rfl, _, same⟩ := (stands_varintEncode (toDouble t)).cut standsW same
  have genesisAt : genesisIn (varintEncode STREAMID_CODEC ++ (varintEncode (toDouble t) ++ at')) = at' := by
    have dropped : (varintEncode STREAMID_CODEC ++ (varintEncode (toDouble t) ++ at')).drop 2 =
        varintEncode (toDouble t) ++ at' := rfl
    rw [genesisIn, dropped, varintDecode_of_stands standsW]
  rw [genesisAt]
  obtain ⟨isPlain, _⟩ := (cid_eq_iff read (Nat.le_succ _)).mp same
  exact ⟨behindCid_of_plain read isPlain, same.symm⟩

end StreamRefParsing

theorem encodeRef_ok_iff {type : Nat} {bytes encoded : List UInt8} :
    encodeRef type bytes = .ok encoded ↔ type ≤ MAX_SAFE_INTEGER ∧ bytes = encoded := by
  by_cases safe : type ≤ MAX_SAFE_INTEGER
  · rw [encodeRef_safe safe, Except.ok.injEq]
    exact (and_iff_right safe).symm
  · rw [encodeRef_overflow (Nat.lt_of_not_le safe)]
    exact iff_of_false (by simp) fun ⟨isSafe, _⟩ => safe isSafe

open StreamRefParsing

theorem StreamID.encode_iff {input rest : List UInt8} {id : StreamID} (front : Front input id.type id.cid rest) :
    id.encode = .ok input ↔ isPlainStream input = true ∧ rest = [] := by
  have short : ([] : List UInt8).length ≤ rest.length + 1 := Nat.zero_le _
  have written := front.eq_iff short
  rw [List.append_nil] at written
  rw [StreamID.encode, encodeRef_ok_iff, eq_comm (a := rest)]
  exact written

theorem StreamRefParsing.commitOf_ok {type : Nat} {genesis : Cid} {rest : List UInt8} {ref : StreamRefComponents}
    (behind : commitOf type genesis rest = .ok ref) : ref.type = type ∧ ref.genesis = genesis := by
  unfold commitOf at behind
  split at behind
  · obtain rfl := Except.ok.inj behind
    exact ⟨rfl, rfl⟩
  · split at behind
    · obtain rfl := Except.ok.inj behind
      exact ⟨rfl, rfl⟩
    · obtain ⟨_, _, same⟩ := bind_eq_ok.mp behind
      obtain rfl := Except.ok.inj same
      exact ⟨rfl, rfl⟩

/-- The stream in front of some bytes is all of them exactly if it is written without superfluous bytes, and nothing
is behind it. -/
theorem StreamID.encode_parsed {input : List UInt8} {title : String} {ref : StreamRefComponents}
    (parsed : StreamRefParsing.fromBytes input title = .ok ref) :
    (⟨ref.type, ref.genesis⟩ : StreamID).encode = .ok input ↔
      isPlainStream input = true ∧ behindCid (genesisIn input) = [] := by
  obtain ⟨type, genesis, rest, front, behind⟩ := fromBytes_ok parsed
  obtain ⟨sameType, sameGenesis⟩ := commitOf_ok behind
  subst sameType sameGenesis
  have written : (⟨ref.type, ref.genesis⟩ : StreamID).encode = .ok input ↔ _ := encode_iff front
  rw [written]
  refine and_congr_right fun plain => ?_
  rw [(front.located plain).1]

/-- Bytes that are read as a stream are those of it exactly if it is written without superfluous bytes. -/
theorem StreamID.parsed_canonical {input : List UInt8} {title : String} {type : Nat} {genesis : Cid}
    (parsed : StreamRefParsing.fromBytes input title = .ok (.streamId type genesis)) :
    (⟨type, genesis⟩ : StreamID).encode = .ok input ↔ isPlainStream input = true := by
  obtain ⟨type', genesis', rest, front, behind⟩ := fromBytes_ok parsed
  unfold commitOf at behind
  split at behind
  next nothing =>
    obtain ⟨rfl, rfl⟩ := StreamRefComponents.streamId.inj (Except.ok.inj behind)
    exact (StreamID.encode_iff front).trans (and_iff_left nothing)
  next =>
    split at behind
    · cases behind
    · obtain ⟨_, _, same⟩ := bind_eq_ok.mp behind
      cases same

theorem StreamID.fromBytes_canonical {input : List UInt8} {id : StreamID} (read : fromBytes input = .ok id) :
    id.encode = .ok input ↔ isPlainStream input = true := by
  obtain ⟨ref, parsed, made⟩ := bind_eq_ok.mp read
  cases ref with
  | commitId => cases made
  | streamId type genesis =>
    obtain rfl : (⟨type, genesis⟩ : StreamID) = id := Except.ok.inj made
    exact parsed_canonical parsed

theorem CommitID.encode_iff {input rest : List UInt8} {id : CommitID} (front : Front input id.type id.cid rest)
    (short : id.commitBytes.length ≤ rest.length + 1) :
    id.encode = .ok input ↔ isPlainStream input = true ∧ id.commitBytes = rest := by
  rw [encode, encodeRef_ok_iff, bytes_eq]
  exact front.eq_iff short

theorem CommitID.commitBytes_make (type : Nat) (genesis c : Cid) :
    (CommitID.make type genesis (some c)).commitBytes = if c = genesis then [0] else c.bytes := by
  by_cases isGenesis : c = genesis <;> simp [CommitID.make, commitBytes, isGenesis]

/-- What is behind a genesis is written as it was read exactly if it is a plain CID, with nothing behind it, and not
the genesis. -/
theorem commit_alone {rest junk : List UInt8} {genesis c : Cid} (notZero : rest ≠ [0])
    (read : readCid rest = .ok (c, junk)) :
    (if c = genesis then [0] else c.bytes) = rest ↔ (rest == [0] || isPlainCid rest && behindCid rest == [] &&
      genesis.bytes ++ rest != rest ++ rest) = true := by
  have alone : c.bytes ++ [] = rest ↔ isPlainCid rest = true ∧ [] = junk := cid_eq_iff read (Nat.zero_le _)
  rw [List.append_nil] at alone
  simp only [Bool.or_eq_true, Bool.and_eq_true, beq_iff_eq, bne_iff_ne, ne_eq, List.append_left_inj, notZero, false_or]
  constructor
  · intro written
    split at written
    · exact absurd written.symm notZero
    next other =>
      obtain ⟨plain, nothing⟩ := alone.mp written
      refine ⟨⟨plain, (behindCid_of_plain read plain).trans nothing.symm⟩, fun same => other ?_⟩
      cases c
      cases genesis
      exact congrArg Cid.mk (written.trans same.symm)
  · rintro ⟨⟨plain, nothing⟩, other⟩
    have written := alone.mpr ⟨plain, (nothing.symm.trans (behindCid_of_plain read plain))⟩
    rw [if_neg, written]
    rintro rfl
    exact other written

/-- Bytes that are read as a commit are those of it exactly if they are all of it, without superfluous bytes, and the
commit is another one than the genesis. -/
theorem CommitID.parsed_canonical {input : List UInt8} {title : String} {type : Nat} {genesis : Cid}
    {commit : Option Cid} (parsed : StreamRefParsing.fromBytes input title = .ok (.commitId type genesis commit)) :
    (CommitID.make type genesis commit).encode = .ok input ↔ isPlainCommit input = true := by
  obtain ⟨type, genesis, rest, front, behind⟩ := fromBytes_ok parsed
  unfold commitOf at behind
  split at behind
  · cases behind
  next =>
    simp only [isPlainCommit, Bool.and_eq_true]
    split at behind
    next isZero =>
      obtain ⟨rfl, rfl, rfl⟩ := StreamRefComponents.commitId.inj (Except.ok.inj behind)
      have zero : (CommitID.make type genesis none).commitBytes = [0] := rfl
      have located : Front input (CommitID.make type genesis none).type (CommitID.make type genesis none).cid rest := front
      rw [encode_iff located (by rw [zero, isZero]; decide)]
      refine and_congr_right fun plain => ?_
      rw [(front.located plain).1, zero, isZero]
      simp
    next notZero =>
      obtain ⟨⟨c, junk⟩, readCommit, same⟩ := bind_eq_ok.mp behind
      obtain ⟨rfl, rfl, rfl⟩ := StreamRefComponents.commitId.inj (Except.ok.inj same)
      have short : (CommitID.make type genesis (some c)).commitBytes.length ≤ rest.length + 1 := by
        rw [CommitID.commitBytes_make]
        split
        · exact Nat.succ_le_succ (Nat.zero_le _)
        · exact readCid_length readCommit
      have made : Front input (CommitID.make type genesis (some c)).type
        (CommitID.make type genesis (some c)).cid rest := front
      rw [encode_iff made short]
      refine and_congr_right fun plain => ?_
      obtain ⟨located, whole⟩ := front.located plain
      rw [located, whole, CommitID.commitBytes_make]
      exact commit_alone notZero readCommit

theorem CommitID.fromBytes_canonical {input : List UInt8} {id : CommitID} (read : fromBytes input = .ok id) :
    id.encode = .ok input ↔ isPlainCommit input = true := by
  obtain ⟨ref, parsed, made⟩ := bind_eq_ok.mp read
  cases ref with
  | streamId => cases made
  | commitId type genesis commit =>
    obtain rfl : CommitID.make type genesis commit = id := Except.ok.inj made
    exact parsed_canonical parsed

end Ceramic
