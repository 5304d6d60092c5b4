import Ceramic.ReadingBytes

/-! Stream references read from bytes, from text and from a URL. -/
namespace Ceramic

/-- The bytes of a number, without leading zeros. -/
def bytesOf (fuel n : Nat) : List UInt8 := (digits 256 fuel n).map UInt8.ofNat

/-- The base-x decoding: one zero byte for each leader in front, then the bytes of the number. -/
def baseXDecode (name : String) (alphabet text : List Char) : Except JsError (List UInt8) :=
  if text.all (· ∈ alphabet) then
    .ok (List.replicate (text.takeWhile (· == alphabet.headD '0')).length 0 ++
      bytesOf text.length (ofDigits alphabet.length (text.map alphabet.idxOf)))
  else .error ⟨"Non-" ++ name ++ " character"⟩

/-- `base36.decode`. -/
def base36Decode (text : List Char) : Except JsError (List UInt8) :=
  match text with
  | 'k' :: rest => baseXDecode "base36" base36Alphabet rest
  | _ => .error ⟨"Unable to decode multibase string \"" ++ String.ofList text ++
      "\", base36 decoder only supports inputs prefixed with k"⟩

namespace StreamRefParsing

inductive StreamRefComponents where
  | streamId (type : Nat) (genesis : Cid)
  | commitId (type : Nat) (genesis : Cid) (commit : Option Cid)
  deriving DecidableEq, Repr

def fromBytes (input : List UInt8) (title : String) : Except JsError StreamRefComponents := do
  let (streamCodec, streamCodecRemainder, _) ← readVarint input
  if streamCodec ≠ STREAMID_CODEC then throw ⟨"Invalid " ++ title ++ ", does not include streamid codec"⟩
  let (type, streamtypeRemainder, _) ← readVarint streamCodecRemainder
  let (genesis, genesisRemainder) ← readCid streamtypeRemainder
  if genesisRemainder = [] then return .streamId type genesis
  else if genesisRemainder = [0] then return .commitId type genesis none
  else
    let (commit, _) ← readCid genesisRemainder
    return .commitId type genesis (some commit)

/-- `[a-zA-Z0-9]`. -/
def isAlphanumeric (c : Char) : Bool :=
  'a' ≤ c && c ≤ 'z' || 'A' ≤ c && c ≤ 'Z' || '0' ≤ c && c ≤ '9'

/-- `[a-zA-Z0-9]+` and what is behind it. -/
def matchWord (text : List Char) : Option (List Char × List Char) :=
  let word := text.takeWhile isAlphanumeric
  if word = [] then none else some (word, text.drop word.length)

def matchLiteral (literal : String) (text : List Char) : Option (List Char) :=
  if literal.toList.isPrefixOf text then some (text.drop literal.length) else none

/-- `(\?commit=([a-zA-Z0-9]+))?`. -/
def matchCommit (text : List Char) : Option (List Char) := do
  let rest ← matchLiteral "?commit=" text
  let (commit, _) ← matchWord rest
  return commit

/-- The groups 2 and 4 of `URL_PATTERN`, behind group 1. -/
def matchBase (text : List Char) : Option (List Char × Option (List Char)) := do
  let (word, rest) ← matchWord text
  return (word, matchCommit rest)

/-- `URL_PATTERN` matched at the front of a text. -/
def matchAt (text : List Char) : Option (List Char × Option (List Char)) :=
  match (matchLiteral "ceramic://" text).or (matchLiteral "/ceramic/" text) with
  | some rest => (matchBase rest).or (matchBase text)
  | none => matchBase text

/-- `URL_PATTERN.exec`: the first match. -/
def exec : List Char → Option (List Char × Option (List Char))
  | [] => none
  | c :: text => (matchAt (c :: text)).or (exec text)

inductive CommitInput where
  | null
  | number (n : Nat)
  | text (text : String)
  | cid (cid : Cid)
  deriving DecidableEq, Repr

/-- A commit; `parseCID` reads the text of one. -/
def parseCommit (parseCID : String → Option Cid) (genesis : Cid) :
    CommitInput → Except JsError (Option Cid)
  | .null | .number 0 => .ok none
  | .number _ => .error refused
  | .text text =>
    if text = "" ∨ text = "0" then .ok none
    else match parseCID text with
    | some commit => .ok (if genesis = commit then none else some commit)
    | none => .error refused
  | .cid commit => .ok (if genesis = commit then none else some commit)
where
  refused : JsError :=
    ⟨"Cannot specify commit as a number except to request commit 0 (the genesis commit)"⟩

def StreamRefComponents.type : StreamRefComponents → Nat
  | .streamId type _ | .commitId type _ _ => type

def StreamRefComponents.genesis : StreamRefComponents → Cid
  | .streamId _ genesis | .commitId _ genesis _ => genesis

def fromString (parseCID : String → Option Cid) (input title : String) :
    Except JsError StreamRefComponents := do
  match exec input.toList with
  | none => throw ⟨"Malformed " ++ title ++ " string: " ++ input⟩
  | some (base, commit) =>
    let bytes ← base36Decode base
    let streamRef ← fromBytes bytes "StreamRef"
    match commit with
    | some commit =>
      let commit ← parseCommit parseCID streamRef.genesis (.text (String.ofList commit))
      return .commitId streamRef.type streamRef.genesis commit
    | none => return streamRef

end StreamRefParsing

open StreamRefParsing

/-- `base36.encode` of the bytes of an identifier, of which `varint.encode` may throw. -/
def encodeRef (type : Nat) (bytes : List UInt8) : Except JsError (List UInt8) := do
  let _ ← encodeVarint type
  return bytes

namespace StreamID

/-- The `bytes` getter, which throws for a type that is no safe integer. -/
def encode (id : StreamID) : Except JsError (List UInt8) := encodeRef id.type id.bytes

def toText (id : StreamID) : Except JsError String := do
  let bytes ← id.encode
  return String.ofList (base36Encode bytes)

def toUrl (id : StreamID) : Except JsError String := do
  return "ceramic://" ++ (← id.toText)

/-- The identifier that was parsed, or the error for one with a commit. -/
def ofComponents (containsCommit : JsError) : StreamRefComponents → Except JsError StreamID
  | .streamId type genesis => .ok ⟨type, genesis⟩
  | .commitId _ _ _ => .error containsCommit

def fromBytes (bytes : List UInt8) : Except JsError StreamID := do
  let parsed ← StreamRefParsing.fromBytes bytes "StreamID"
  ofComponents ⟨"Invalid StreamID bytes " ++ String.ofList (base36Encode bytes) ++ ": contains commit"⟩ parsed

def fromString (parseCID : String → Option Cid) (input : String) : Except JsError StreamID := do
  let parsed ← StreamRefParsing.fromString parseCID input "StreamID"
  ofComponents ⟨"Invalid StreamID string " ++ input ++ ": contains commit"⟩ parsed

end StreamID

namespace CommitID

/-- The `bytes` getter, which throws for a type that is no safe integer. -/
def encode (id : CommitID) : Except JsError (List UInt8) := encodeRef id.type id.bytes

def toText (id : CommitID) : Except JsError String := do
  let bytes ← id.encode
  return String.ofList (base36Encode bytes)

def toUrl (id : CommitID) : Except JsError String := do
  return "ceramic://" ++ (← id.toText)

/-- The identifier that was parsed, or the error for one without a commit. -/
def ofComponents (noCommit : JsError) : StreamRefComponents → Except JsError CommitID
  | .commitId type genesis commit => .ok (.make type genesis commit)
  | .streamId _ _ => .error noCommit

def fromBytes (bytes : List UInt8) : Except JsError CommitID := do
  let parsed ← StreamRefParsing.fromBytes bytes "CommitID"
  ofComponents ⟨"Error while parsing CommitID from bytes " ++ String.ofList (base36Encode bytes) ++
    ": no commit information provided"⟩ parsed

def fromString (parseCID : String → Option Cid) (input : String) : Except JsError CommitID := do
  let parsed ← StreamRefParsing.fromString parseCID input "CommitID"
  ofComponents ⟨"Error while parsing CommitID from string " ++ input ++
    ": no commit information provided"⟩ parsed

end CommitID

theorem digits_of_zero (base fuel : Nat) : digits base fuel 0 = [] := by
  cases fuel <;> simp [digits]

theorem digits_ne_nil {base fuel n : Nat} (positive : n ≠ 0) (some : fuel ≠ 0) : digits base fuel n ≠ [] := by
  cases fuel with
  | zero => exact absurd rfl some
  | succ fuel => simp [digits, positive]

/-- The first digit of a number is not zero. -/
theorem digits_head {base fuel n : Nat} (enough : n < base ^ fuel) :
    ∀ d ∈ (digits base fuel n).head?, d ≠ 0 := by
  induction fuel generalizing n with
  | zero => simp [digits]
  | succ fuel ih =>
    rw [digits]
    split
    · simp
    next positive =>
      rw [Nat.pow_succ] at enough
      have front : n / base < base ^ fuel := Nat.div_lt_of_lt_mul (by rwa [Nat.mul_comm])
      intro d isHead
      by_cases single : n / base = 0
      · rw [single, digits_of_zero, List.nil_append, List.head?_cons] at isHead
        obtain rfl := Option.some.inj isHead
        have whole := Nat.div_add_mod n base
        rw [single, Nat.mul_zero] at whole
        omega
      · have nonempty : digits base fuel (n / base) ≠ [] := by
          refine digits_ne_nil single fun zero => ?_
          rw [zero, Nat.pow_zero] at front
          exact single (Nat.lt_one_iff.mp front)
        rw [List.head?_append_of_ne_nil _ nonempty] at isHead
        exact ih front d isHead

theorem bigEndian_push (front : List UInt8) (b : UInt8) :
    bigEndian (front ++ [b]) = 256 * bigEndian front + b.toNat := by
  rw [bigEndian_append, List.length_singleton, Nat.pow_one, Nat.mul_comm]
  simp [bigEndian]

/-- Digits below the base, the first of them not zero, are those of their number. -/
theorem digits_ofDigits {base fuel : Nat} {ds : List Nat} (positive : 0 < base) (small : ∀ d ∈ ds, d < base)
    (first : ∀ d ∈ ds.head?, d ≠ 0) (enough : ofDigits base ds < base ^ fuel) :
    digits base fuel (ofDigits base ds) = ds := by
  induction ds using List.reverseRecOn generalizing fuel with
  | nil => exact digits_of_zero base fuel
  | append_singleton front d ih =>
    have smallFront : ∀ e ∈ front, e < base := fun e member => small e (List.mem_append_left _ member)
    have firstFront : ∀ e ∈ front.head?, e ≠ 0 := by
      intro e isHead
      exact first e (by rw [List.head?_append, isHead]; rfl)
    have last : d < base := small d (List.mem_append_right _ List.mem_cons_self)
    have value : ofDigits base (front ++ [d]) = base * ofDigits base front + d := by
      simp [ofDigits]
    rw [value] at enough ⊢
    have nonzero : base * ofDigits base front + d ≠ 0 := by
      intro zero
      have noFront : ofDigits base front = 0 := by
        rcases Nat.mul_eq_zero.mp (Nat.add_eq_zero_iff.mp zero).1 with none | none
        · omega
        · exact none
      have isNil : digits base 0 (ofDigits base front) = front := ih smallFront firstFront (by rw [noFront]; exact Nat.one_pos)
      obtain rfl : front = [] := isNil.symm
      exact first d rfl (Nat.add_eq_zero_iff.mp zero).2
    cases fuel with
    | zero =>
      rw [Nat.pow_zero] at enough
      omega
    | succ fuel =>
      have quotient : (base * ofDigits base front + d) / base = ofDigits base front := by
        rw [Nat.mul_add_div positive, Nat.div_eq_of_lt last, Nat.add_zero]
      have remainder : (base * ofDigits base front + d) % base = d := by
        rw [Nat.mul_add_mod, Nat.mod_eq_of_lt last]
      have fewer : ofDigits base front < base ^ fuel := by
        rw [← quotient]
        rw [Nat.pow_succ, Nat.mul_comm (base ^ fuel)] at enough
        exact Nat.div_lt_of_lt_mul enough
      rw [digits, if_neg nonzero, quotient, remainder, ih smallFront firstFront fewer]

theorem bigEndian_eq (bytes : List UInt8) : bigEndian bytes = ofDigits 256 (bytes.map (·.toNat)) := by
  rw [bigEndian, ofDigits, List.foldl_map]

/-- Bytes without a leading zero are those of their number. -/
theorem bytesOf_bigEndian {bytes : List UInt8} {fuel : Nat} (lead : ∀ b ∈ bytes.head?, b ≠ 0)
    (enough : bigEndian bytes < 256 ^ fuel) : bytesOf fuel (bigEndian bytes) = bytes := by
  rw [bigEndian_eq] at enough ⊢
  rw [bytesOf, digits_ofDigits (by decide) ?_ ?_ enough, List.map_map]
  · exact List.map_id'' (fun b => UInt8.ofNat_toNat) bytes
  · intro d member
    obtain ⟨b, _, rfl⟩ := List.mem_map.mp member
    exact b.toNat_lt
  · intro d isHead
    rw [List.head?_map] at isHead
    obtain ⟨b, isFirst, rfl⟩ := Option.mem_map.mp isHead
    exact fun zero => lead b isFirst (UInt8.toNat_inj.mp zero)

/-- The base-x decoding reads bytes without a leading zero back. -/
theorem baseXDecode_baseX {name : String} {alphabet : List Char} (valid : IsAlphabet alphabet)
    (small : alphabet.length ≤ 256) {bytes : List UInt8} (lead : ∀ b ∈ bytes.head?, b ≠ 0) :
    baseXDecode name alphabet (baseX alphabet bytes) = .ok bytes := by
  have noZeros : bytes.takeWhile (· == 0) = [] := by
    cases bytes with
    | nil => rfl
    | cons b bytes => exact List.takeWhile_cons_of_neg (by simpa using lead b rfl)
  have nonempty : alphabet ≠ [] := by
    rintro rfl
    exact absurd valid.enough (by decide)
  have letters : (baseX alphabet bytes).all (· ∈ alphabet) = true :=
    List.all_eq_true.mpr fun c member => by simpa using Cid.mem_baseX nonempty member
  have value := ofDigits_of_baseX valid noZeros
  have digitsOf := digits_of_baseX valid noZeros
  have bound : bigEndian bytes < 256 ^ (baseX alphabet bytes).length := by
    have low := digits_lt (Nat.lt_of_lt_of_le (by decide) valid.enough) (8 * bytes.length) (bigEndian bytes)
    rw [← digitsOf] at low
    calc bigEndian bytes = ofDigits alphabet.length ((baseX alphabet bytes).map alphabet.idxOf) := value.symm
      _ < alphabet.length ^ ((baseX alphabet bytes).map alphabet.idxOf).length := ofDigits_lt low
      _ ≤ 256 ^ (baseX alphabet bytes).length := by
        rw [List.length_map]
        exact Nat.pow_le_pow_left small _
  have noLeaders : (baseX alphabet bytes).takeWhile (· == alphabet.headD '0') = [] := by
    have first : ∀ d ∈ ((baseX alphabet bytes).map alphabet.idxOf).head?, d ≠ 0 := by
      rw [digitsOf]
      refine digits_head ?_
      calc bigEndian bytes < 256 ^ bytes.length := bigEndian_lt bytes
        _ = 2 ^ (8 * bytes.length) := by rw [Nat.pow_mul]
        _ ≤ alphabet.length ^ (8 * bytes.length) := Nat.pow_le_pow_left valid.enough _
    cases text : baseX alphabet bytes with
    | nil => rfl
    | cons c rest =>
      rw [text] at first
      refine List.takeWhile_cons_of_neg fun isLeader => first _ rfl ?_
      obtain ⟨leader, letters, rfl⟩ := List.exists_cons_of_ne_nil nonempty
      rw [beq_iff_eq] at isLeader
      simp [isLeader]
  unfold baseXDecode
  rw [if_pos letters, noLeaders, value, bytesOf_bigEndian lead bound]
  rfl

namespace StreamRefParsing

theorem isAlphanumeric_base36 : ∀ c ∈ base36Alphabet, isAlphanumeric c = true :=
  List.all_eq_true.mp (by decide +kernel)

theorem isAlphanumeric_of_encode {bytes : List UInt8} {c : Char} (member : c ∈ base36Encode bytes) :
    isAlphanumeric c = true := by
  rcases List.mem_cons.mp member with rfl | inText
  · decide
  · exact isAlphanumeric_base36 c (Cid.mem_baseX (by decide) inText)

/-- A word is matched whole. -/
theorem matchWord_word {word : List Char} (nonempty : word ≠ []) (letters : ∀ c ∈ word, isAlphanumeric c = true) :
    matchWord word = some (word, []) := by
  have whole : word.takeWhile isAlphanumeric = word := List.takeWhile_eq_self_iff.mpr letters
  unfold matchWord
  dsimp only
  rw [whole, if_neg nonempty, List.drop_length]

/-- A literal with another character than letters and digits is not in front of a word. -/
theorem matchLiteral_word {literal : String} {word : List Char} {c : Char} (other : c ∈ literal.toList)
    (notLetter : isAlphanumeric c = false) (letters : ∀ c ∈ word, isAlphanumeric c = true) :
    matchLiteral literal word = none := by
  unfold matchLiteral
  refine if_neg fun isPrefix => ?_
  have letter := letters c ((List.isPrefixOf_iff_prefix.mp isPrefix).subset other)
  rw [notLetter] at letter
  cases letter

theorem matchLiteral_append (literal : String) (text : List Char) :
    matchLiteral literal (literal.toList ++ text) = some text := by
  unfold matchLiteral
  rw [if_pos (List.isPrefixOf_iff_prefix.mpr (List.prefix_append _ _)), ← String.length_toList, List.drop_left]

theorem matchBase_word {word : List Char} (nonempty : word ≠ [])
    (letters : ∀ c ∈ word, isAlphanumeric c = true) : matchBase word = some (word, none) := by
  unfold matchBase
  rw [matchWord_word nonempty letters]
  rfl

theorem exec_of_matchAt {text : List Char} {found : List Char × Option (List Char)}
    (matched : matchAt text = some found) : exec text = some found := by
  cases text with
  | nil => cases matched
  | cons c text => rw [exec, matched, Option.some_or]

theorem exec_word {word : List Char} (nonempty : word ≠ []) (letters : ∀ c ∈ word, isAlphanumeric c = true) :
    exec word = some (word, none) := by
  have colon : ':' ∈ "ceramic://".toList := by decide
  have slash : '/' ∈ "/ceramic/".toList := by decide
  apply exec_of_matchAt
  unfold matchAt
  rw [matchLiteral_word colon (by decide) letters, matchLiteral_word slash (by decide) letters, Option.none_or]
  exact matchBase_word nonempty letters

theorem exec_url {word : List Char} (nonempty : word ≠ []) (letters : ∀ c ∈ word, isAlphanumeric c = true) :
    exec ("ceramic://".toList ++ word) = some (word, none) := by
  apply exec_of_matchAt
  unfold matchAt
  rw [matchLiteral_append, Option.some_or]
  dsimp only
  rw [matchBase_word nonempty letters, Option.some_or]

variable (parseCID : String → Option Cid) {bytes : List UInt8}

theorem base36Decode_encode (lead : ∀ b ∈ bytes.head?, b ≠ 0) :
    base36Decode (base36Encode bytes) = .ok bytes :=
  baseXDecode_baseX base36_isAlphabet (by decide) lead

theorem fromString_of_exec {input : String} (title : String) (lead : ∀ b ∈ bytes.head?, b ≠ 0)
    (matched : exec input.toList = some (base36Encode bytes, none)) :
    fromString parseCID input title = fromBytes bytes "StreamRef" := by
  unfold fromString
  rw [matched]
  dsimp only
  rw [base36Decode_encode lead]
  simp only [bind, Except.bind]
  cases fromBytes bytes "StreamRef" <;> rfl

theorem fromString_encode (lead : ∀ b ∈ bytes.head?, b ≠ 0) (title : String) :
    fromString parseCID (String.ofList (base36Encode bytes)) title = fromBytes bytes "StreamRef" := by
  refine fromString_of_exec parseCID title lead ?_
  rw [String.toList_ofList]
  exact exec_word (by simp [base36Encode]) fun c member => isAlphanumeric_of_encode member

theorem fromString_url (lead : ∀ b ∈ bytes.head?, b ≠ 0) (title : String) :
    fromString parseCID ("ceramic://" ++ String.ofList (base36Encode bytes)) title =
      fromBytes bytes "StreamRef" := by
  have text : ("ceramic://" ++ String.ofList (base36Encode bytes)).toList =
      "ceramic://".toList ++ base36Encode bytes :=
    (String.toList_append ..).trans (congrArg _ String.toList_ofList)
  refine fromString_of_exec parseCID title lead (text ▸ ?_)
  exact exec_url (by simp [base36Encode]) fun c member => isAlphanumeric_of_encode member

/-- The bytes in front of those of a genesis. -/
theorem fromBytes_front {type : Nat} (safe : type ≤ MAX_SAFE_INTEGER) (rest : List UInt8) (title : String) :
    fromBytes (varintEncode STREAMID_CODEC ++ varintEncode type ++ rest) title = (do
      let (genesis, genesisRemainder) ← readCid rest
      if genesisRemainder = [] then return .streamId type genesis
      else if genesisRemainder = [0] then return .commitId type genesis none
      else
        let (commit, _) ← readCid genesisRemainder
        return .commitId type genesis (some commit)) := by
  unfold fromBytes
  rw [List.append_assoc, readVarint_append (by decide)]
  simp only [bind, Except.bind, ne_eq, not_true_eq_false, if_false]
  rw [readVarint_append safe]

variable {type : Nat} {cid : Cid} {title : String}

theorem fromBytes_v0 (safe : type ≤ MAX_SAFE_INTEGER) (v0 : cid.isV0 = true) (behind : List UInt8) :
    fromBytes (varintEncode STREAMID_CODEC ++ varintEncode type ++ (cid.bytes ++ behind)) title =
      .error ⟨"Unknown CID version 18"⟩ := by
  rw [fromBytes_front safe, readCid_v0 v0]
  rfl

theorem fromBytes_v1 (safe : type ≤ MAX_SAFE_INTEGER) (wellFormed : cid.WellFormed) (v1 : cid.isV0 = false)
    (behind : List UInt8) :
    fromBytes (varintEncode STREAMID_CODEC ++ varintEncode type ++ (cid.bytes ++ behind)) title = (do
      if behind = [] then return .streamId type cid
      else if behind = [0] then return .commitId type cid none
      else
        let (commit, _) ← readCid behind
        return .commitId type cid (some commit)) := by
  rcases readCid_append wellFormed behind with ⟨_, read⟩ | ⟨v0, _⟩
  · rw [fromBytes_front safe, read]
    rfl
  · rw [v1] at v0
    cases v0

end StreamRefParsing

theorem Cid.WellFormed.lead {cid : Cid} (wellFormed : cid.WellFormed) : ∃ b rest,
    cid.bytes = b :: rest ∧ b ≠ 0 := by
  cases wellFormed with
  | v0 cid v0 =>
    obtain ⟨rest, bytes, _⟩ := Cid.isV0_lead v0
    exact ⟨0x12, 0x20 :: rest, bytes, by decide⟩
  | v1 code hashCode digest => exact ⟨1, varintEncode code ++ createMultihash hashCode digest, rfl, by decide⟩

section

variable (parseCID : String → Option Cid)

/-- Some bytes are read in the same way as such, as text and as a URL. -/
structure Reads {Id : Type} (fromBytes : List UInt8 → Except JsError Id)
    (fromString : String → Except JsError Id) (bytes : List UInt8) (read : Except JsError Id → Prop) :
    Prop where
  ofBytes : read (fromBytes bytes)
  ofText : read (fromString (String.ofList (base36Encode bytes)))
  ofUrl : read (fromString ("ceramic://" ++ String.ofList (base36Encode bytes)))

variable {parseCID} {bytes : List UInt8} {result : Except JsError StreamRefComponents}

theorem StreamID.reads (lead : ∀ b ∈ bytes.head?, b ≠ 0)
    (parsed : ∀ title, StreamRefParsing.fromBytes bytes title = result)
    {read : Except JsError StreamID → Prop} (holds : ∀ e, read (result >>= ofComponents e)) :
    Reads fromBytes (fromString parseCID) bytes read where
  ofBytes := by
    unfold StreamID.fromBytes
    rw [parsed]
    exact holds _
  ofText := by
    unfold StreamID.fromString
    rw [fromString_encode parseCID lead, parsed]
    exact holds _
  ofUrl := by
    unfold StreamID.fromString
    rw [fromString_url parseCID lead, parsed]
    exact holds _

theorem CommitID.reads (lead : ∀ b ∈ bytes.head?, b ≠ 0)
    (parsed : ∀ title, StreamRefParsing.fromBytes bytes title = result)
    {read : Except JsError CommitID → Prop} (holds : ∀ e, read (result >>= ofComponents e)) :
    Reads fromBytes (fromString parseCID) bytes read where
  ofBytes := by
    unfold CommitID.fromBytes
    rw [parsed]
    exact holds _
  ofText := by
    unfold CommitID.fromString
    rw [fromString_encode parseCID lead, parsed]
    exact holds _
  ofUrl := by
    unfold CommitID.fromString
    rw [fromString_url parseCID lead, parsed]
    exact holds _

end

section

variable (parseCID : String → Option Cid)

/-- The identifier is read back from its bytes, its text and its URL. -/
def StreamID.RoundTrips (id : StreamID) : Prop :=
  (id.encode >>= fromBytes) = .ok id ∧ (id.toText >>= fromString parseCID) = .ok id ∧
    (id.toUrl >>= fromString parseCID) = .ok id

def CommitID.RoundTrips (id : CommitID) : Prop :=
  (id.encode >>= fromBytes) = .ok id ∧ (id.toText >>= fromString parseCID) = .ok id ∧
    (id.toUrl >>= fromString parseCID) = .ok id

/-- No encoding of the identifier is read as that of a commit. -/
def StreamID.NoCommit (id : StreamID) : Prop :=
  ∀ other, (id.encode >>= CommitID.fromBytes) ≠ .ok other ∧
    (id.toText >>= CommitID.fromString parseCID) ≠ .ok other ∧
    (id.toUrl >>= CommitID.fromString parseCID) ≠ .ok other

/-- No encoding of the identifier is read as that of a stream. -/
def CommitID.NoStream (id : CommitID) : Prop :=
  ∀ other, (id.encode >>= StreamID.fromBytes) ≠ .ok other ∧
    (id.toText >>= StreamID.fromString parseCID) ≠ .ok other ∧
    (id.toUrl >>= StreamID.fromString parseCID) ≠ .ok other

end

theorem encodeRef_safe {type : Nat} (safe : type ≤ MAX_SAFE_INTEGER) (bytes : List UInt8) :
    encodeRef type bytes = .ok bytes := by
  unfold encodeRef encodeVarint
  rw [if_neg (Nat.not_lt.mpr safe)]
  rfl

theorem encodeRef_overflow {type : Nat} (overflow : MAX_SAFE_INTEGER < type) (bytes : List UInt8) :
    encodeRef type bytes = .error ⟨"Could not encode varint"⟩ := by
  unfold encodeRef encodeVarint
  rw [if_pos overflow]
  rfl

section

variable {parseCID : String → Option Cid} {Id : Type} {fromBytes : List UInt8 → Except JsError Id}
  {fromString : String → Except JsError Id}

/-- The three ways to encode an identifier and to read it back. -/
theorem StreamID.reads_encoded {id : StreamID} (safe : id.type ≤ MAX_SAFE_INTEGER)
    {read : Except JsError Id → Prop} (reads : Reads fromBytes fromString id.bytes read) :
    read (id.encode >>= fromBytes) ∧ read (id.toText >>= fromString) ∧ read (id.toUrl >>= fromString) := by
  have encoded : id.encode = .ok id.bytes := encodeRef_safe safe id.bytes
  unfold toUrl toText
  rw [encoded]
  exact ⟨reads.ofBytes, reads.ofText, reads.ofUrl⟩

theorem CommitID.reads_encoded {id : CommitID} (safe : id.type ≤ MAX_SAFE_INTEGER)
    {read : Except JsError Id → Prop} (reads : Reads fromBytes fromString id.bytes read) :
    read (id.encode >>= fromBytes) ∧ read (id.toText >>= fromString) ∧ read (id.toUrl >>= fromString) := by
  have encoded : id.encode = .ok id.bytes := encodeRef_safe safe id.bytes
  unfold toUrl toText
  rw [encoded]
  exact ⟨reads.ofBytes, reads.ofText, reads.ofUrl⟩

/-- An identifier that cannot be encoded is not read back as anything. -/
theorem StreamID.not_encoded {id : StreamID} (overflow : MAX_SAFE_INTEGER < id.type) (other : Id) :
    (id.encode >>= fromBytes) ≠ .ok other ∧ (id.toText >>= fromString) ≠ .ok other ∧
      (id.toUrl >>= fromString) ≠ .ok other := by
  have failed : id.encode = .error _ := encodeRef_overflow overflow id.bytes
  unfold toUrl toText
  rw [failed]
  exact ⟨by simp [bind, Except.bind], by simp [bind, Except.bind], by simp [bind, Except.bind]⟩

theorem CommitID.not_encoded {id : CommitID} (overflow : MAX_SAFE_INTEGER < id.type) (other : Id) :
    (id.encode >>= fromBytes) ≠ .ok other ∧ (id.toText >>= fromString) ≠ .ok other ∧
      (id.toUrl >>= fromString) ≠ .ok other := by
  have failed : id.encode = .error _ := encodeRef_overflow overflow id.bytes
  unfold toUrl toText
  rw [failed]
  exact ⟨by simp [bind, Except.bind], by simp [bind, Except.bind], by simp [bind, Except.bind]⟩

end

/-- The codec in front of every identifier. -/
theorem streamCodec_lead (rest : List UInt8) :
    ∀ b ∈ (varintEncode STREAMID_CODEC ++ rest).head?, b ≠ 0 := by
  intro b isHead
  have front : varintEncode STREAMID_CODEC = [0xCE, 0x01] := by decide
  rw [front] at isHead
  obtain rfl := Option.some.inj isHead
  decide

theorem StreamID.lead (id : StreamID) : ∀ b ∈ id.bytes.head?, b ≠ 0 := by
  unfold StreamID.bytes
  rw [List.append_assoc]
  exact streamCodec_lead _

theorem CommitID.lead (id : CommitID) : ∀ b ∈ id.bytes.head?, b ≠ 0 := by
  unfold CommitID.bytes
  rw [List.append_assoc, List.append_assoc]
  exact streamCodec_lead _

/-- The components of a stream identifier, unless its genesis is of version 0. -/
theorem StreamID.parsed {id : StreamID} (safe : id.type ≤ MAX_SAFE_INTEGER) (wellFormed : id.cid.WellFormed)
    (title : String) : StreamRefParsing.fromBytes id.bytes title =
      if id.cid.isV0 = true then .error ⟨"Unknown CID version 18"⟩ else .ok (.streamId id.type id.cid) := by
  have bytes : id.bytes = varintEncode STREAMID_CODEC ++ varintEncode id.type ++ (id.cid.bytes ++ []) := by
    rw [List.append_nil]
    rfl
  rw [bytes]
  split
  next v0 => exact fromBytes_v0 safe v0 []
  next v1 =>
    rw [fromBytes_v1 safe wellFormed (Bool.eq_false_of_not_eq_true v1), if_pos rfl]
    rfl

/-- The bytes of a commit identifier behind those of its genesis. -/
def CommitID.commitBytes (id : CommitID) : List UInt8 :=
  match id.commit with
  | none => [0]
  | some c => c.bytes

theorem CommitID.bytes_eq (id : CommitID) : id.bytes =
    varintEncode STREAMID_CODEC ++ varintEncode id.type ++ (id.cid.bytes ++ id.commitBytes) := by
  unfold CommitID.bytes commitBytes
  exact List.append_assoc ..

/-- The components of a commit identifier, unless one of its CIDs is of version 0. -/
theorem CommitID.parsed {id : CommitID} (safe : id.type ≤ MAX_SAFE_INTEGER) (wellFormed : id.cid.WellFormed)
    (commits : ∀ c ∈ id.commit, c.WellFormed) (title : String) :
    StreamRefParsing.fromBytes id.bytes title =
      if id.cid.isV0 = true ∨ ∃ c ∈ id.commit, c.isV0 = true then .error ⟨"Unknown CID version 18"⟩
      else .ok (.commitId id.type id.cid id.commit) := by
  rw [CommitID.bytes_eq]
  by_cases v0 : id.cid.isV0 = true
  · rw [if_pos (.inl v0)]
    exact fromBytes_v0 safe v0 _
  rw [fromBytes_v1 safe wellFormed (Bool.eq_false_of_not_eq_true v0)]
  unfold commitBytes
  cases given : id.commit with
  | none =>
    have noCommit : ¬(id.cid.isV0 = true ∨ ∃ c ∈ (none : Option Cid), c.isV0 = true) := by simp [v0]
    rw [if_neg noCommit]
    rfl
  | some c =>
    have commitFormed := commits c given
    obtain ⟨b, rest, bytes, nonzero⟩ := commitFormed.lead
    have notEmpty : c.bytes ≠ [] := by simp [bytes]
    have notZero : c.bytes ≠ [0] := by simp [bytes, nonzero]
    dsimp only
    rw [if_neg notEmpty, if_neg notZero]
    rcases readCid_append commitFormed [] with ⟨version, read⟩ | ⟨version, read⟩
    · have allV1 : ¬(id.cid.isV0 = true ∨ ∃ c' ∈ some c, c'.isV0 = true) := by simp [v0, version]
      rw [List.append_nil] at read
      rw [read, if_neg allV1]
      rfl
    · rw [List.append_nil] at read
      rw [read, if_pos (.inr ⟨c, rfl, version⟩)]
      rfl

/-- The constructor keeps what it made. -/
theorem CommitID.make_commit (type : Nat) (cid : Cid) (commit : Option Cid) :
    CommitID.make type cid (CommitID.make type cid commit).commit = CommitID.make type cid commit := by
  cases commit with
  | none => rfl
  | some c =>
    by_cases same : c = cid <;> simp [CommitID.make, same]

variable {parseCID : String → Option Cid}

/-- What is read from the three encodings is the identifier itself, unless its genesis is of version 0. -/
theorem StreamID.reads_back {id : StreamID} (safe : id.type ≤ MAX_SAFE_INTEGER) (wellFormed : id.cid.WellFormed) :
    Reads fromBytes (fromString parseCID) id.bytes (fun result => result = .ok id ↔ id.cid.isV0 = false) := by
  refine reads id.lead (parsed safe wellFormed) fun e => ?_
  cases id.cid.isV0 <;> simp [bind, Except.bind, ofComponents]

theorem StreamID.roundTrips_iff {id : StreamID} (wellFormed : id.cid.WellFormed) :
    id.RoundTrips parseCID ↔ id.type ≤ MAX_SAFE_INTEGER ∧ id.cid.isV0 = false := by
  by_cases safe : id.type ≤ MAX_SAFE_INTEGER
  · have back : Reads fromBytes (fromString parseCID) id.bytes _ := reads_back safe wellFormed
    obtain ⟨bytes, text, url⟩ := reads_encoded safe back
    unfold RoundTrips
    rw [bytes, text, url]
    simp [safe]
  · constructor
    · intro ⟨bytes, _⟩
      unfold encode at bytes
      rw [encodeRef_overflow (Nat.lt_of_not_le safe)] at bytes
      cases bytes
    · intro ⟨isSafe, _⟩
      exact absurd isSafe safe

/-- An identifier is read back from its text. -/
theorem StreamID.text_roundTrips_iff {id : StreamID} (wellFormed : id.cid.WellFormed) :
    (id.toText >>= fromString parseCID) = .ok id ↔ id.type ≤ MAX_SAFE_INTEGER ∧ id.cid.isV0 = false := by
  constructor
  · intro text
    have safe : id.type ≤ MAX_SAFE_INTEGER := by
      by_contra overflow
      have notEncoded : (id.encode >>= fromBytes) ≠ .ok id ∧ (id.toText >>= fromString parseCID) ≠ .ok id ∧
        (id.toUrl >>= fromString parseCID) ≠ .ok id := not_encoded (Nat.lt_of_not_le overflow) id
      exact notEncoded.2.1 text
    have back : Reads fromBytes (fromString parseCID) id.bytes _ := reads_back safe wellFormed
    exact ⟨safe, (reads_encoded safe back).2.1.mp text⟩
  · exact fun condition => ((roundTrips_iff wellFormed).mpr condition).2.1

theorem CommitID.roundTrips_iff {id : CommitID} (made : CommitID.make id.type id.cid id.commit = id)
    (wellFormed : id.cid.WellFormed) (commits : ∀ c ∈ id.commit, c.WellFormed) :
    id.RoundTrips parseCID ↔
      id.type ≤ MAX_SAFE_INTEGER ∧ id.cid.isV0 = false ∧ ∀ c ∈ id.commit, c.isV0 = false := by
  by_cases safe : id.type ≤ MAX_SAFE_INTEGER
  · have back : Reads fromBytes (fromString parseCID) id.bytes
        (fun result => result = .ok id ↔ ¬(id.cid.isV0 = true ∨ ∃ c ∈ id.commit, c.isV0 = true)) := by
      refine reads id.lead (parsed safe wellFormed commits) fun e => ?_
      split
      next v0 => exact ⟨fun equal => (nomatch equal), fun allV1 => absurd v0 allV1⟩
      next allV1 => exact ⟨fun _ => allV1, fun _ => congrArg Except.ok made⟩
    obtain ⟨bytes, text, url⟩ := reads_encoded safe back
    unfold RoundTrips
    rw [bytes, text, url]
    simp [safe]
  · constructor
    · intro ⟨bytes, _⟩
      unfold encode at bytes
      rw [encodeRef_overflow (Nat.lt_of_not_le safe)] at bytes
      cases bytes
    · intro ⟨isSafe, _⟩
      exact absurd isSafe safe

theorem StreamID.noCommit {id : StreamID} (wellFormed : id.cid.WellFormed) : id.NoCommit parseCID := by
  intro other
  by_cases safe : id.type ≤ MAX_SAFE_INTEGER
  · have differs : Reads CommitID.fromBytes (CommitID.fromString parseCID) id.bytes (· ≠ .ok other) := by
      refine CommitID.reads id.lead (parsed safe wellFormed) fun e => ?_
      split <;> simp [bind, Except.bind, CommitID.ofComponents]
    exact reads_encoded safe differs
  · exact not_encoded (Nat.lt_of_not_le safe) other

theorem CommitID.noStream {id : CommitID} (wellFormed : id.cid.WellFormed)
    (commits : ∀ c ∈ id.commit, c.WellFormed) : id.NoStream parseCID := by
  intro other
  by_cases safe : id.type ≤ MAX_SAFE_INTEGER
  · have differs : Reads StreamID.fromBytes (StreamID.fromString parseCID) id.bytes (· ≠ .ok other) := by
      refine StreamID.reads id.lead (parsed safe wellFormed commits) fun e => ?_
      split <;> simp [bind, Except.bind, StreamID.ofComponents]
    exact reads_encoded safe differs
  · exact not_encoded (Nat.lt_of_not_le safe) other

theorem CommitID.mem_make {type : Nat} {cid : Cid} {commit : Option Cid} {c : Cid}
    (kept : c ∈ (CommitID.make type cid commit).commit) : c ∈ commit := by
  cases commit with
  | none => cases kept
  | some given =>
    by_cases same : given = cid <;> simp [CommitID.make, same] at kept
    exact congrArg some kept

/-- A commit that the constructor drops is the genesis. -/
theorem CommitID.all_make {type : Nat} {cid : Cid} {commit : Option Cid} {p : Cid → Prop} (genesis : p cid) :
    (∀ c ∈ (CommitID.make type cid commit).commit, p c) ↔ ∀ c ∈ commit, p c := by
  refine ⟨fun kept c given => ?_, fun all c kept => all c (mem_make kept)⟩
  by_cases same : c = cid
  · exact same ▸ genesis
  · obtain rfl := given
    exact kept c (by simp [CommitID.make, same])

/-- Identifiers are read back from each of their encodings exactly if their type is a safe integer
and no CID in them is of version 0; and those of streams and of commits are never confused. -/
theorem identifiers_roundTrip (parseCID : String → Option Cid) (type : Nat) (cid : Cid)
    (wellFormed : cid.WellFormed) (commit : Option Cid) (commits : ∀ c ∈ commit, c.WellFormed) :
    (StreamID.RoundTrips parseCID ⟨type, cid⟩ ↔ type ≤ MAX_SAFE_INTEGER ∧ cid.isV0 = false) ∧
    ((CommitID.make type cid commit).RoundTrips parseCID ↔
      type ≤ MAX_SAFE_INTEGER ∧ cid.isV0 = false ∧ ∀ c ∈ commit, c.isV0 = false) ∧
    StreamID.NoCommit parseCID ⟨type, cid⟩ ∧ (CommitID.make type cid commit).NoStream parseCID := by
  have kept : ∀ c ∈ (CommitID.make type cid commit).commit, c.WellFormed :=
    fun c isKept => commits c (CommitID.mem_make isKept)
  refine ⟨StreamID.roundTrips_iff wellFormed, ?_, StreamID.noCommit wellFormed,
    CommitID.noStream wellFormed kept⟩
  rw [CommitID.roundTrips_iff (CommitID.make_commit type cid commit) wellFormed kept]
  refine and_congr_right fun _ => and_congr_right fun v1 => ?_
  exact CommitID.all_make v1

namespace StreamRefFixture

def digest : List UInt8 := List.replicate 32 0xAB

def v1Cid : Cid := .v1 0x71 (createMultihash 0x12 digest)

def otherCid : Cid := .v1 0x85 (createMultihash 0x12 digest)

/-- The version 0 identifier, the bare multihash. -/
def v0Cid : Cid := ⟨createMultihash 0x12 digest⟩

theorem v1Cid_wellFormed : v1Cid.WellFormed := .v1 _ _ _ (by decide) (by decide) (by decide)

theorem otherCid_wellFormed : otherCid.WellFormed := .v1 _ _ _ (by decide) (by decide) (by decide)

theorem v0Cid_wellFormed : v0Cid.WellFormed := .v0 _ (by decide)

end StreamRefFixture

open StreamRefFixture

theorem identifiers_roundTrip_v1 : StreamID.RoundTrips (fun _ => none) ⟨0, v1Cid⟩ ∧
    (CommitID.make 0 v1Cid (some otherCid)).RoundTrips (fun _ => none) ∧
    (CommitID.make 0 v1Cid (some v1Cid)).RoundTrips (fun _ => none) := by
  obtain ⟨stream, commit, _, _⟩ := identifiers_roundTrip (fun _ => none) 0 v1Cid v1Cid_wellFormed
    (some otherCid) (fun _ given => Option.some.inj given ▸ otherCid_wellFormed)
  obtain ⟨_, genesis, _, _⟩ := identifiers_roundTrip (fun _ => none) 0 v1Cid v1Cid_wellFormed
    (some v1Cid) (fun _ given => Option.some.inj given ▸ v1Cid_wellFormed)
  exact ⟨stream.mpr (by decide), commit.mpr (by decide), genesis.mpr (by decide)⟩

/-- The constructor accepts a genesis of version 0, of which the bytes cannot be read. -/
theorem v0_not_readBack : v0Cid.WellFormed ∧ ¬StreamID.RoundTrips (fun _ => none) ⟨0, v0Cid⟩ ∧
    (StreamID.encode ⟨0, v0Cid⟩ >>= StreamID.fromBytes) = .error ⟨"Unknown CID version 18"⟩ := by
  refine ⟨v0Cid_wellFormed, fun roundTrips => ?_, by decide⟩
  have readBack : (StreamID.encode ⟨0, v0Cid⟩ >>= StreamID.fromBytes) = .ok ⟨0, v0Cid⟩ := roundTrips.1
  exact absurd readBack (by decide)

end Ceramic
