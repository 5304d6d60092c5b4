import Ceramic.CanonicalBytes

/-! Which texts are read as an identifier although they are not texts of it: the pattern of a URL matches anywhere in
a text, and a commit that the text names besides the one in the identifier replaces it. -/
namespace Ceramic

open StreamRefParsing

theorem bigEndian_bytesOf {fuel n : Nat} (enough : n < 256 ^ fuel) : bigEndian (bytesOf fuel n) = n := by
  have same : (bytesOf fuel n).map (·.toNat) = digits 256 fuel n := by
    rw [bytesOf, List.map_map]
    refine (List.map_congr_left fun d member => ?_).trans (List.map_id _)
    have low := digits_lt (by decide) fuel n d member
    simp [Nat.mod_eq_of_lt low]
  rw [bigEndian_eq, same, ofDigits_digits enough]

theorem getD_idxOf {alphabet : List Char} {c : Char} (leader : Char) (member : c ∈ alphabet) :
    alphabet.getD (alphabet.idxOf c) leader = c := by
  have low := List.idxOf_lt_length_of_mem member
  rw [List.getD_eq_getElem?_getD, List.getElem?_eq_getElem low, List.getElem_idxOf low, Option.getD_some]

/-- Text that bytes without a leading zero are read from is the text of them. -/
theorem baseX_baseXDecode {name : String} {alphabet text : List Char} {bytes : List UInt8} (enough : 2 ≤ alphabet.length)
    (small : alphabet.length ≤ 256) (decoded : baseXDecode name alphabet text = .ok bytes)
    (lead : ∀ b ∈ bytes.head?, b ≠ 0) : baseX alphabet bytes = text := by
  unfold baseXDecode at decoded
  split at decoded
  next letters =>
    have letters : ∀ c ∈ text, c ∈ alphabet := by simpa using letters
    have noLeaders : text.takeWhile (· == alphabet.headD '0') = [] := by
      by_contra some
      have long := List.length_pos_iff.mpr some
      rw [← Except.ok.inj decoded] at lead
      cases count : (text.takeWhile (· == alphabet.headD '0')).length with
      | zero => omega
      | succ count' =>
        rw [count] at lead
        exact lead 0 rfl rfl
    rw [noLeaders] at decoded
    have low : ∀ d ∈ text.map alphabet.idxOf, d < alphabet.length := by
      intro d member
      obtain ⟨c, inText, rfl⟩ := List.mem_map.mp member
      exact List.idxOf_lt_length_of_mem (letters c inText)
    have bound : ofDigits alphabet.length (text.map alphabet.idxOf) < 256 ^ text.length := by
      calc ofDigits alphabet.length (text.map alphabet.idxOf)
          < alphabet.length ^ (text.map alphabet.idxOf).length := ofDigits_lt low
        _ ≤ 256 ^ text.length := by
          rw [List.length_map]
          exact Nat.pow_le_pow_left small _
    have isBytes : bytesOf text.length (ofDigits alphabet.length (text.map alphabet.idxOf)) = bytes :=
      Except.ok.inj decoded
    have number : bigEndian bytes = ofDigits alphabet.length (text.map alphabet.idxOf) := by
      rw [← isBytes]
      exact bigEndian_bytesOf bound
    have noZeros : bytes.takeWhile (· == 0) = [] := by
      cases bytes with
      | nil => rfl
      | cons b bytes => exact List.takeWhile_cons_of_neg (by simpa using lead b rfl)
    have first : ∀ d ∈ (text.map alphabet.idxOf).head?, d ≠ 0 := by
      intro d isHead zero
      cases text with
      | nil => cases isHead
      | cons c text =>
        have index : alphabet.idxOf c = 0 := (Option.some.inj isHead).trans zero
        have leads : alphabet.headD '0' = c := by
          have found := getD_idxOf '0' (letters c List.mem_cons_self)
          rw [index] at found
          cases alphabet with
          | nil => exact found
          | cons _ _ => exact found
        have isLeader : (c == alphabet.headD '0') = true := beq_iff_eq.mpr leads.symm
        rw [List.takeWhile_cons, if_pos isLeader] at noLeaders
        cases noLeaders
    have enoughDigits : ofDigits alphabet.length (text.map alphabet.idxOf) < alphabet.length ^ (8 * bytes.length) := by
      calc ofDigits alphabet.length (text.map alphabet.idxOf) = bigEndian bytes := number.symm
        _ < 256 ^ bytes.length := bigEndian_lt bytes
        _ = 2 ^ (8 * bytes.length) := by rw [Nat.pow_mul]
        _ ≤ alphabet.length ^ (8 * bytes.length) := Nat.pow_le_pow_left enough _
    unfold baseX
    dsimp only
    rw [noZeros, List.length_nil, List.replicate_zero, List.nil_append, number,
      digits_ofDigits (Nat.lt_of_lt_of_le (by decide) enough) low first enoughDigits, List.map_map]
    exact (List.map_congr_left fun c member => getD_idxOf _ (letters c member)).trans (List.map_id text)
  next => cases decoded

theorem base36Encode_base36Decode {text : List Char} {bytes : List UInt8} (decoded : base36Decode text = .ok bytes)
    (lead : ∀ b ∈ bytes.head?, b ≠ 0) : base36Encode bytes = text := by
  unfold base36Decode at decoded
  split at decoded
  · exact congrArg _ (baseX_baseXDecode (by decide) (by decide) decoded lead)
  · cases decoded

/-- What may be in front of the text of an identifier. -/
def URL_LEADS : List String := ["", "ceramic://", "/ceramic/"]

/-- The text behind that. -/
def withoutLead (text : List Char) : List Char :=
  ((matchLiteral "ceramic://" text).or (matchLiteral "/ceramic/" text)).getD text

/-- Whether a word is read as bytes of some kind. -/
def readsAs (isPlain : List UInt8 → Bool) (word : List Char) : Bool :=
  match base36Decode word with
  | .ok bytes => isPlain bytes
  | .error _ => false

/-- The whole text is a word, perhaps with a lead in front. -/
def isPlainText (isPlain : List UInt8 → Bool) (input : String) : Bool :=
  (withoutLead input.toList).all isAlphanumeric && readsAs isPlain (withoutLead input.toList)

/-- The whole text is a word and a commit, perhaps with a lead in front, and the word is that of a stream alone. -/
def isPlainUrl (input : String) : Bool :=
  let text := withoutLead input.toList
  let word := text.takeWhile isAlphanumeric
  match matchLiteral "?commit=" (text.drop word.length) with
  | none => false
  | some commit => commit != [] && commit.all isAlphanumeric &&
      readsAs (fun bytes => isPlainStream bytes && behindCid (genesisIn bytes) == []) word

theorem matchLiteral_ok {literal : String} {text rest : List Char} (matched : matchLiteral literal text = some rest) :
    text = literal.toList ++ rest := by
  unfold matchLiteral at matched
  split at matched
  next isPrefix =>
    obtain ⟨behind, rfl⟩ := List.isPrefixOf_iff_prefix.mp isPrefix
    rw [← String.length_toList, List.drop_left] at matched
    rw [Option.some.inj matched]
  next => cases matched

theorem withoutLead_split (text : List Char) : ∃ lead ∈ URL_LEADS, text = lead.toList ++ withoutLead text := by
  unfold withoutLead
  cases scheme : matchLiteral "ceramic://" text with
  | some rest => exact ⟨"ceramic://", by decide, matchLiteral_ok scheme⟩
  | none =>
    cases path : matchLiteral "/ceramic/" text with
    | some rest => exact ⟨"/ceramic/", by decide, matchLiteral_ok path⟩
    | none => exact ⟨"", by decide, rfl⟩

theorem withoutLead_append {lead : String} (member : lead ∈ URL_LEADS) (text : List Char) :
    withoutLead (lead.toList ++ 'k' :: text) = 'k' :: text := by
  unfold withoutLead
  simp only [URL_LEADS, List.mem_cons, List.not_mem_nil, or_false] at member
  rcases member with rfl | rfl | rfl
  · rfl
  · rw [matchLiteral_append]
    rfl
  · rw [matchLiteral_append]
    rfl

theorem matchBase_append {word rest : List Char} (nonempty : word ≠ [])
    (letters : ∀ c ∈ word, isAlphanumeric c = true) (other : ∀ c ∈ rest.head?, isAlphanumeric c = false) :
    matchBase (word ++ rest) = some (word, matchCommit rest) := by
  have nothing : rest.takeWhile isAlphanumeric = [] := by
    cases rest with
    | nil => rfl
    | cons c rest => exact List.takeWhile_cons_of_neg (by simp [other c rfl])
  have whole : (word ++ rest).takeWhile isAlphanumeric = word := by
    rw [List.takeWhile_append_of_pos letters, nothing, List.append_nil]
  unfold matchBase matchWord
  dsimp only
  rw [whole, if_neg nonempty, List.drop_left]
  rfl

/-- What the pattern matches of a word behind a lead. -/
theorem exec_lead {lead : String} {word rest : List Char} (member : lead ∈ URL_LEADS)
    (letters : ∀ c ∈ 'k' :: word, isAlphanumeric c = true) (other : ∀ c ∈ rest.head?, isAlphanumeric c = false) :
    exec (lead.toList ++ ('k' :: word ++ rest)) = some ('k' :: word, matchCommit rest) := by
  have base := matchBase_append (List.cons_ne_nil 'k' word) letters other
  apply exec_of_matchAt
  unfold matchAt
  simp only [URL_LEADS, List.mem_cons, List.not_mem_nil, or_false] at member
  rcases member with rfl | rfl | rfl
  · exact base
  · rw [matchLiteral_append, Option.some_or]
    dsimp only
    rw [base, Option.some_or]
  · rw [matchLiteral_append]
    have noScheme : matchLiteral "ceramic://" ("/ceramic/".toList ++ ('k' :: word ++ rest)) = none := rfl
    rw [noScheme, Option.none_or]
    dsimp only
    rw [base, Option.some_or]

theorem matchCommit_append {commit : List Char} (nonempty : commit ≠ [])
    (letters : ∀ c ∈ commit, isAlphanumeric c = true) : matchCommit ("?commit=".toList ++ commit) = some commit := by
  unfold matchCommit
  rw [matchLiteral_append]
  simp only [Option.bind_eq_bind, Option.bind_some]
  rw [matchWord_word nonempty letters]
  rfl

theorem readsAs_iff {isPlain : List UInt8 → Bool} {word : List Char} :
    readsAs isPlain word = true ↔ ∃ bytes, base36Decode word = .ok bytes ∧ isPlain bytes = true := by
  unfold readsAs
  cases base36Decode word <;> simp

/-- A word that is read begins with the multibase prefix. -/
theorem base36Decode_lead {word : List Char} {bytes : List UInt8} (decoded : base36Decode word = .ok bytes) :
    ∃ rest, word = 'k' :: rest := by
  unfold base36Decode at decoded
  split at decoded
  · exact ⟨_, rfl⟩
  · cases decoded

theorem isPlainText_iff {isPlain : List UInt8 → Bool} {input : String} :
    isPlainText isPlain input = true ↔ ∃ lead ∈ URL_LEADS, ∃ word bytes, input.toList = lead.toList ++ (word ++ []) ∧
      (∀ c ∈ word, isAlphanumeric c = true) ∧ base36Decode word = .ok bytes ∧ isPlain bytes = true := by
  rw [isPlainText, Bool.and_eq_true, List.all_eq_true, readsAs_iff]
  constructor
  · rintro ⟨letters, bytes, decoded, plain⟩
    obtain ⟨lead, member, split⟩ := withoutLead_split input.toList
    refine ⟨lead, member, withoutLead input.toList, bytes, ?_, letters, decoded, plain⟩
    rw [List.append_nil]
    exact split
  · rintro ⟨lead, member, word, bytes, split, letters, decoded, plain⟩
    obtain ⟨rest, rfl⟩ := base36Decode_lead decoded
    rw [List.append_nil] at split
    rw [split, withoutLead_append member]
    exact ⟨letters, bytes, decoded, plain⟩

theorem isPlainUrl_iff {input : String} :
    isPlainUrl input = true ↔ ∃ lead ∈ URL_LEADS, ∃ word commit bytes,
      input.toList = lead.toList ++ (word ++ ("?commit=".toList ++ commit)) ∧
      (∀ c ∈ word, isAlphanumeric c = true) ∧ commit ≠ [] ∧ (∀ c ∈ commit, isAlphanumeric c = true) ∧
      base36Decode word = .ok bytes ∧ isPlainStream bytes = true ∧ behindCid (genesisIn bytes) = [] := by
  constructor
  · intro isPlain
    unfold isPlainUrl at isPlain
    dsimp only at isPlain
    split at isPlain
    · cases isPlain
    next commit matched =>
      simp only [Bool.and_eq_true, bne_iff_ne, List.all_eq_true, readsAs_iff, beq_iff_eq] at isPlain
      obtain ⟨⟨nonempty, letters⟩, bytes, decoded, plain, alone⟩ := isPlain
      obtain ⟨lead, member, split⟩ := withoutLead_split input.toList
      refine ⟨lead, member, _, commit, bytes, ?_, fun c inWord => List.mem_takeWhile_imp inWord, nonempty, letters,
        decoded, plain, alone⟩
      rw [← matchLiteral_ok matched]
      conv_lhs => rw [split]
      congr 1
      generalize withoutLead input.toList = text
      have cut := List.takeWhile_append_dropWhile (p := isAlphanumeric) (l := text)
      have behind := @List.drop_left _ (text.takeWhile isAlphanumeric) (text.dropWhile isAlphanumeric)
      rw [cut] at behind
      rw [behind, cut]
  · rintro ⟨lead, member, word, commit, bytes, split, wordLetters, nonempty, letters, decoded, plain, alone⟩
    obtain ⟨rest, rfl⟩ := base36Decode_lead decoded
    have text : withoutLead input.toList = 'k' :: rest ++ ("?commit=".toList ++ commit) := by
      rw [split]
      exact withoutLead_append member _
    have whole : (withoutLead input.toList).takeWhile isAlphanumeric = 'k' :: rest := by
      rw [text, List.takeWhile_append_of_pos wordLetters]
      exact List.append_nil _
    unfold isPlainUrl
    dsimp only
    rw [whole, text, List.drop_left, matchLiteral_append]
    simp only [Bool.and_eq_true, bne_iff_ne, List.all_eq_true, readsAs_iff, beq_iff_eq]
    exact ⟨⟨nonempty, letters⟩, bytes, decoded, plain, alone⟩

section Texts

variable {parseCID : String → Option Cid} {input title : String}

/-- The first byte that is read of an identifier is not zero. -/
theorem StreamRefParsing.Front.lead {bytes rest : List UInt8} {type : Nat} {genesis : Cid}
    (front : Front bytes type genesis rest) : ∀ b ∈ bytes.head?, b ≠ 0 := by
  obtain ⟨v, w, t, at', rfl, standsV, _⟩ := front
  rintro b isHead rfl
  generalize codec : STREAMID_CODEC = n at standsV
  cases standsV with
  | last c low =>
    obtain rfl : c = 0 := Option.some.inj isHead
    exact absurd codec (by decide)
  | more c high _ =>
    obtain rfl : c = 0 := Option.some.inj isHead
    exact absurd high (by decide)

/-- The word that a text is read from is the text of the bytes that are read. -/
theorem StreamRefParsing.fromString_ok {ref : StreamRefComponents}
    (read : StreamRefParsing.fromString parseCID input title = .ok ref) :
    ∃ bytes commit streamRef, exec input.toList = some (base36Encode bytes, commit) ∧
      base36Decode (base36Encode bytes) = .ok bytes ∧ StreamRefParsing.fromBytes bytes "StreamRef" = .ok streamRef ∧
      match commit with
      | none => ref = streamRef
      | some text => ∃ found, parseCommit parseCID streamRef.genesis (.text (String.ofList text)) = .ok found ∧
          ref = .commitId streamRef.type streamRef.genesis found := by
  unfold StreamRefParsing.fromString at read
  split at read
  · cases read
  next base commit matched =>
    obtain ⟨bytes, decoded, readRef⟩ := bind_eq_ok.mp read
    obtain ⟨streamRef, parsed, made⟩ := bind_eq_ok.mp readRef
    obtain ⟨_, _, _, front, _⟩ := fromBytes_ok parsed
    obtain rfl := base36Encode_base36Decode decoded front.lead
    refine ⟨bytes, commit, streamRef, matched, decoded, parsed, ?_⟩
    cases commit with
    | none => exact (Except.ok.inj made).symm
    | some text =>
      obtain ⟨found, isCommit, same⟩ := bind_eq_ok.mp made
      exact ⟨found, isCommit, (Except.ok.inj same).symm⟩

/-- Other bytes with the same text are the same. -/
theorem base36_injective {a b : List UInt8} (leadA : ∀ x ∈ a.head?, x ≠ 0) (leadB : ∀ x ∈ b.head?, x ≠ 0)
    (same : base36Encode a = base36Encode b) : a = b := by
  have decoded := base36Decode_encode leadA
  rw [same, base36Decode_encode leadB] at decoded
  exact (Except.ok.inj decoded).symm

theorem exec_text {lead : String} {word : List Char} {bytes : List UInt8} (member : lead ∈ URL_LEADS)
    (split : input.toList = lead.toList ++ (word ++ [])) (letters : ∀ c ∈ word, isAlphanumeric c = true)
    (decoded : base36Decode word = .ok bytes) : exec input.toList = some (word, none) := by
  obtain ⟨rest, rfl⟩ := base36Decode_lead decoded
  rw [split]
  exact exec_lead member letters (by simp)

theorem exec_commit {lead : String} {word commit : List Char} {bytes : List UInt8} (member : lead ∈ URL_LEADS)
    (split : input.toList = lead.toList ++ (word ++ ("?commit=".toList ++ commit)))
    (letters : ∀ c ∈ word, isAlphanumeric c = true) (decoded : base36Decode word = .ok bytes) (nonempty : commit ≠ [])
    (commitLetters : ∀ c ∈ commit, isAlphanumeric c = true) :
    exec input.toList = some (word, some commit) := by
  obtain ⟨rest, rfl⟩ := base36Decode_lead decoded
  have other : ∀ c ∈ ("?commit=".toList ++ commit).head?, isAlphanumeric c = false := by
    intro c isHead
    obtain rfl := Option.some.inj isHead
    decide
  rw [split, exec_lead member letters other, matchCommit_append nonempty commitLetters]

theorem encode_letters (bytes : List UInt8) : ∀ c ∈ base36Encode bytes, isAlphanumeric c = true :=
  fun _ member => isAlphanumeric_of_encode member

variable {bytes : List UInt8} {encoded : Except JsError (List UInt8)}

theorem toList_text (front : String) (other : List UInt8) : (front ++ String.ofList (base36Encode other)).toList =
    front.toList ++ (base36Encode other ++ []) := by
  rw [String.toList_append, String.toList_ofList, List.append_nil]

theorem toList_url (front param : String) (other : List UInt8) :
    (front ++ String.ofList (base36Encode other) ++ "?commit=" ++ param).toList =
      front.toList ++ (base36Encode other ++ ("?commit=".toList ++ param.toList)) := by
  simp only [String.toList_append, String.toList_ofList, List.append_assoc]

/-- What the pattern matches of a text that has no commit. -/
theorem exec_of_text {front : String} {other : List UInt8} (member : front ∈ URL_LEADS)
    (lead : ∀ b ∈ other.head?, b ≠ 0) :
    exec (front ++ String.ofList (base36Encode other)).toList = some (base36Encode other, none) :=
  exec_text member (toList_text front other) (encode_letters other) (base36Decode_encode lead)

/-- What the pattern matches of a text that has a commit. -/
theorem exec_of_url {front param : String} {other : List UInt8} (member : front ∈ URL_LEADS)
    (lead : ∀ b ∈ other.head?, b ≠ 0) (nonempty : param ≠ "") (letters : ∀ c ∈ param.toList, isAlphanumeric c = true) :
    exec (front ++ String.ofList (base36Encode other) ++ "?commit=" ++ param).toList =
      some (base36Encode other, some param.toList) :=
  exec_commit member (toList_url front param other) (encode_letters other) (base36Decode_encode lead)
    (fun nothing => nonempty (String.ext nothing)) letters

/-- A text without a commit is that of what is encoded exactly if its word is the whole of it, and is read as plain
bytes. -/
theorem text_canonical {isPlain : List UInt8 → Bool} (matched : exec input.toList = some (base36Encode bytes, none))
    (lead : ∀ b ∈ bytes.head?, b ≠ 0) (leads : ∀ other, encoded = .ok other → ∀ b ∈ other.head?, b ≠ 0)
    (canonical : encoded = .ok bytes ↔ isPlain bytes = true) :
    (∃ lead ∈ URL_LEADS, ∃ text, (do return String.ofList (base36Encode (← encoded))) = .ok text ∧
      input = lead ++ text) ↔ isPlainText isPlain input = true := by
  rw [isPlainText_iff]
  constructor
  · rintro ⟨front, member, text, toText, rfl⟩
    obtain ⟨other, found, same⟩ := bind_eq_ok.mp toText
    obtain rfl := Except.ok.inj same
    have word := (exec_of_text member (leads other found)).symm.trans matched
    obtain rfl := base36_injective (leads other found) lead (Prod.mk.inj (Option.some.inj word)).1
    exact ⟨front, member, base36Encode other, other, toList_text front other, encode_letters other,
      base36Decode_encode lead, canonical.mp found⟩
  · rintro ⟨front, member, word, other, split, letters, decoded, plain⟩
    have same := (exec_text member split letters decoded).symm.trans matched
    obtain rfl := (Prod.mk.inj (Option.some.inj same)).1
    obtain rfl := Except.ok.inj (decoded.symm.trans (base36Decode_encode lead))
    refine ⟨front, member, String.ofList (base36Encode other), ?_, String.ext ?_⟩
    · rw [canonical.mpr plain]
      rfl
    · exact split.trans (toList_text front other).symm

/-- A text with a commit is that of what is encoded and the commit exactly if they are the whole of it, and the word
is read as a plain stream alone. -/
theorem url_canonical {commit : List Char} {isCommit : String → Prop}
    (matched : exec input.toList = some (base36Encode bytes, some commit)) (lead : ∀ b ∈ bytes.head?, b ≠ 0)
    (leads : ∀ other, encoded = .ok other → ∀ b ∈ other.head?, b ≠ 0)
    (canonical : encoded = .ok bytes ↔ isPlainStream bytes = true ∧ behindCid (genesisIn bytes) = [])
    (named : isCommit (String.ofList commit)) :
    (∃ lead ∈ URL_LEADS, ∃ text commit, (do return String.ofList (base36Encode (← encoded))) = .ok text ∧ commit ≠ "" ∧
      (∀ c ∈ commit.toList, isAlphanumeric c = true) ∧ isCommit commit ∧
      input = lead ++ text ++ "?commit=" ++ commit) ↔ isPlainUrl input = true := by
  rw [isPlainUrl_iff]
  constructor
  · rintro ⟨front, member, text, param, toText, nonempty, letters, _, rfl⟩
    obtain ⟨other, found, same⟩ := bind_eq_ok.mp toText
    obtain rfl := Except.ok.inj same
    have word := (exec_of_url member (leads other found) nonempty letters).symm.trans matched
    obtain rfl := base36_injective (leads other found) lead (Prod.mk.inj (Option.some.inj word)).1
    obtain ⟨plain, alone⟩ := canonical.mp found
    exact ⟨front, member, base36Encode other, param.toList, other, toList_url front param other, encode_letters other,
      fun nothing => nonempty (String.ext nothing), letters, base36Decode_encode lead, plain, alone⟩
  · rintro ⟨front, member, word, param, other, split, wordLetters, nonempty, letters, decoded, plain, alone⟩
    have same := (exec_commit member split wordLetters decoded nonempty letters).symm.trans matched
    obtain ⟨rfl, isParam⟩ := Prod.mk.inj (Option.some.inj same)
    obtain rfl := Option.some.inj isParam
    obtain rfl := Except.ok.inj (decoded.symm.trans (base36Decode_encode lead))
    refine ⟨front, member, String.ofList (base36Encode other), String.ofList param, ?_, fun nothing => nonempty ?_, ?_,
      named, String.ext ?_⟩
    · rw [canonical.mpr ⟨plain, alone⟩]
      rfl
    · exact String.ofList_injective nothing
    · rw [String.toList_ofList]
      exact letters
    · rw [split]
      simp only [String.toList_append, String.toList_ofList, List.append_assoc]

end Texts

/-- A text that is the identifier's, perhaps with a lead in front. -/
def StreamID.Documented (id : StreamID) (input : String) : Prop :=
  ∃ lead ∈ URL_LEADS, ∃ text, id.toText = .ok text ∧ input = lead ++ text

/-- A text that is the identifier's, or the one of its stream and that of its commit. -/
def CommitID.Documented (parseCID : String → Option Cid) (id : CommitID) (input : String) : Prop :=
  (∃ lead ∈ URL_LEADS, ∃ text, id.toText = .ok text ∧ input = lead ++ text) ∨
  ∃ lead ∈ URL_LEADS, ∃ text commit, id.baseID.toText = .ok text ∧ commit ≠ "" ∧
    (∀ c ∈ commit.toList, isAlphanumeric c = true) ∧
    parseCommit parseCID id.cid (.text commit) = .ok id.commit ∧ input = lead ++ text ++ "?commit=" ++ commit

theorem StreamID.encode_lead (id : StreamID) (encoded : List UInt8) (found : id.encode = .ok encoded) :
    ∀ b ∈ encoded.head?, b ≠ 0 := (encodeRef_ok_iff.mp found).2 ▸ id.lead

theorem CommitID.encode_lead (id : CommitID) (encoded : List UInt8) (found : id.encode = .ok encoded) :
    ∀ b ∈ encoded.head?, b ≠ 0 := (encodeRef_ok_iff.mp found).2 ▸ id.lead

variable {parseCID : String → Option Cid} {input : String}

theorem StreamRefParsing.fromBytes_lead {bytes : List UInt8} {title : String} {ref : StreamRefComponents}
    (parsed : fromBytes bytes title = .ok ref) : ∀ b ∈ bytes.head?, b ≠ 0 := by
  obtain ⟨_, _, _, front, _⟩ := fromBytes_ok parsed
  exact front.lead

theorem StreamID.fromString_canonical {id : StreamID} (read : fromString parseCID input = .ok id) :
    id.Documented input ↔ isPlainText isPlainStream input = true := by
  obtain ⟨ref, parsed, made⟩ := bind_eq_ok.mp read
  obtain ⟨bytes, commit, streamRef, matched, _, parsedBytes, result⟩ := fromString_ok parsed
  cases ref with
  | commitId => cases made
  | streamId type genesis =>
    obtain rfl : (⟨type, genesis⟩ : StreamID) = id := Except.ok.inj made
    cases commit with
    | some => obtain ⟨_, _, same⟩ := result; cases same
    | none =>
      obtain rfl := result
      exact text_canonical matched (fromBytes_lead parsedBytes) (encode_lead _) (parsed_canonical parsedBytes)

/-- A commit that was parsed is no genesis. -/
theorem CommitID.make_parsed {type : Nat} {genesis : Cid} {text : String} {found : Option Cid}
    (isCommit : parseCommit parseCID genesis (.text text) = .ok found) :
    (CommitID.make type genesis found).commit = found := by
  rw [parseCommit] at isCommit
  split at isCommit
  · rw [← Except.ok.inj isCommit]
    rfl
  · split at isCommit
    next c _ =>
      rw [← Except.ok.inj isCommit]
      by_cases same : genesis = c
      · simp [CommitID.make, same]
      · simp [CommitID.make, same, Ne.symm same]
    · cases isCommit

theorem CommitID.fromString_canonical {id : CommitID} (read : fromString parseCID input = .ok id) :
    id.Documented parseCID input ↔ isPlainText isPlainCommit input = true ∨ isPlainUrl input = true := by
  obtain ⟨ref, parsed, made⟩ := bind_eq_ok.mp read
  obtain ⟨bytes, commit, streamRef, matched, _, parsedBytes, result⟩ := fromString_ok parsed
  have lead := fromBytes_lead parsedBytes
  cases ref with
  | streamId => cases made
  | commitId type genesis found =>
    obtain rfl : CommitID.make type genesis found = id := Except.ok.inj made
    cases commit with
    | none =>
      obtain rfl := result
      refine or_congr (text_canonical matched lead (encode_lead _) (parsed_canonical parsedBytes))
        (iff_of_false ?_ fun isUrl => ?_)
      · rintro ⟨front, member, text, param, toText, nonempty, letters, _, rfl⟩
        obtain ⟨other, encoded, same⟩ := bind_eq_ok.mp toText
        obtain rfl := Except.ok.inj same
        have both := (exec_of_url member (StreamID.encode_lead _ other encoded) nonempty letters).symm.trans matched
        cases (Prod.mk.inj (Option.some.inj both)).2
      · obtain ⟨front, member, word, param, other, split, wordLetters, nonempty, letters, decoded, _⟩ :=
          isPlainUrl_iff.mp isUrl
        have both := (exec_commit member split wordLetters decoded nonempty letters).symm.trans matched
        cases (Prod.mk.inj (Option.some.inj both)).2
    | some param =>
      obtain ⟨named, isCommit, same⟩ := result
      obtain ⟨rfl, rfl, rfl⟩ := StreamRefComponents.commitId.inj same
      have kept := @make_parsed parseCID streamRef.type _ _ _ isCommit
      refine or_congr (iff_of_false ?_ fun isText => ?_) ?_
      · rintro ⟨front, member, text, toText, rfl⟩
        obtain ⟨other, encoded, same⟩ := bind_eq_ok.mp toText
        obtain rfl := Except.ok.inj same
        have both := (exec_of_text member (encode_lead _ other encoded)).symm.trans matched
        cases (Prod.mk.inj (Option.some.inj both)).2
      · obtain ⟨front, member, word, other, split, letters, decoded, _⟩ := isPlainText_iff.mp isText
        have both := (exec_text member split letters decoded).symm.trans matched
        cases (Prod.mk.inj (Option.some.inj both)).2
      · rw [kept]
        exact url_canonical matched lead (StreamID.encode_lead _) (StreamID.encode_parsed parsedBytes) isCommit

/-- Accepted bytes are those of the identifier that they are read as, and an accepted text is one of its texts,
exactly where nothing in them is superfluous; and plain bytes of one identifier are the same. -/
theorem accepted_canonical_iff (parseCID : String → Option Cid) :
    (∀ input id, StreamID.fromBytes input = .ok id → (id.encode = .ok input ↔ isPlainStream input = true)) ∧
    (∀ input id, CommitID.fromBytes input = .ok id → (id.encode = .ok input ↔ isPlainCommit input = true)) ∧
    (∀ input id, StreamID.fromString parseCID input = .ok id →
      (id.Documented input ↔ isPlainText isPlainStream input = true)) ∧
    (∀ input id, CommitID.fromString parseCID input = .ok id →
      (id.Documented parseCID input ↔ isPlainText isPlainCommit input = true ∨ isPlainUrl input = true)) ∧
    (∀ input other id, StreamID.fromBytes input = .ok id → StreamID.fromBytes other = .ok id →
      isPlainStream input = true → isPlainStream other = true → input = other) ∧
    ∀ input other id, CommitID.fromBytes input = .ok id → CommitID.fromBytes other = .ok id →
      isPlainCommit input = true → isPlainCommit other = true → input = other := by
  refine ⟨fun _ _ => StreamID.fromBytes_canonical, fun _ _ => CommitID.fromBytes_canonical,
    fun _ _ => StreamID.fromString_canonical, fun _ _ => CommitID.fromString_canonical,
    fun input other id read again plain plainOther => ?_, fun input other id read again plain plainOther => ?_⟩
  · have written := (StreamID.fromBytes_canonical read).mpr plain
    exact Except.ok.inj (written.symm.trans ((StreamID.fromBytes_canonical again).mpr plainOther))
  · have written := (CommitID.fromBytes_canonical read).mpr plain
    exact Except.ok.inj (written.symm.trans ((CommitID.fromBytes_canonical again).mpr plainOther))

namespace CanonicalFixture

/-- Two CIDs with an empty digest. -/
def genesis : Cid := .v1 0x71 (createMultihash 0 [])

def commit : Cid := .v1 0x85 (createMultihash 0 [])

def stream : StreamID := ⟨0, genesis⟩

end CanonicalFixture

open CanonicalFixture

set_option maxRecDepth 2000 in
theorem accepted_canonical_plain :
    stream.encode = .ok stream.bytes ∧
    (CommitID.make 0 genesis (some commit)).encode = .ok (CommitID.make 0 genesis (some commit)).bytes ∧
    stream.Documented "ceramic://kfuxy3ve7xmo" ∧
    (CommitID.make 0 genesis none).Documented (fun _ => none) "/ceramic/kfuxy3ve7xmo?commit=0" := by
  obtain ⟨streamBytes, commitBytes, streamText, commitText, _⟩ := accepted_canonical_iff fun _ => none
  exact ⟨(streamBytes _ _ (by decide)).mpr (by decide), (commitBytes _ _ (by decide)).mpr (by decide),
    (streamText _ _ (by decide)).mpr (by decide), (commitText _ _ (by decide)).mpr (.inr (by decide))⟩

set_option maxRecDepth 2000 in
/-- A byte behind a commit, a second byte of a zero, and a parameter that is not looked at. -/
theorem superfluous_accepted :
    (CommitID.fromBytes ((CommitID.make 0 genesis (some commit)).bytes ++ [7]) =
        .ok (CommitID.make 0 genesis (some commit)) ∧
      (CommitID.make 0 genesis (some commit)).encode ≠ .ok ((CommitID.make 0 genesis (some commit)).bytes ++ [7])) ∧
    (StreamID.fromBytes (varintEncode STREAMID_CODEC ++ [0x80, 0x00] ++ genesis.bytes) = .ok stream ∧
      stream.encode ≠ .ok (varintEncode STREAMID_CODEC ++ [0x80, 0x00] ++ genesis.bytes)) ∧
    StreamID.fromString (fun _ => none) "ceramic://kfuxy3ve7xmo?version=0" = .ok stream ∧
      ¬stream.Documented "ceramic://kfuxy3ve7xmo?version=0" := by
  have accepted : StreamID.fromString (fun _ => none) "ceramic://kfuxy3ve7xmo?version=0" = .ok stream := by decide
  refine ⟨by decide, by decide, accepted, fun documented => ?_⟩
  exact absurd ((StreamID.fromString_canonical accepted).mp documented) (by decide)

end Ceramic
