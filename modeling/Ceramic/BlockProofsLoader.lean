import Ceramic.Library.DecimalText
import Ceramic.ReadingBytes
import Ceramic.Stream
import Ceramic.SyncApi
import Mathlib.Data.List.Dedup

/-! The loader of the anchor proofs of a range of blocks. It gives the first block, the last one
and those with anchors, in the order of the texts of their numbers. -/
namespace Ceramic

def KECCAK_256_CODE : Nat := 0x1b
def SHA256_CODE : Nat := 0x12
def DAG_CBOR_CODE : Nat := 0x71
def ETH_TX_CODE : Nat := 0x93
def CONTRACT_TX_TYPE : String := "f(bytes32)"

/-- An event of the anchor contract, with its hash and the decoded root as bytes. -/
structure Log where
  blockNumber : Int
  blockHash : String
  transactionHash : List UInt8
  root : List UInt8
  deriving DecidableEq, Repr

structure BlockProofs where
  blockNumber : Int
  blockHash : String
  proofs : List AnchorProof
  deriving DecidableEq, Repr

structure BlockRangeFilter where
  fromBlock : Int
  toBlock : Int
  deriving DecidableEq, Repr

/-- The numbers of a range. -/
def BlockRangeFilter.blocks (range : BlockRangeFilter) : List Int :=
  blocksAfter (range.fromBlock - 1) range.toBlock

namespace AnchorListener

def convertEthHashToCid (hash : List UInt8) : Cid := .v1 ETH_TX_CODE (createMultihash KECCAK_256_CODE hash)

def createCidFromHexValue (value : List UInt8) : Cid := .v1 DAG_CBOR_CODE (createMultihash SHA256_CODE value)

def createAnchorProof (chainId : String) (log : Log) : AnchorProof :=
  { chainId
    txHash := convertEthHashToCid log.transactionHash
    root := createCidFromHexValue log.root
    txType := some CONTRACT_TX_TYPE }

/-- The keys of the logs by block number, with those of the first and the last block. -/
def blockNumbers (logs : List Log) (fromBlock toBlock : Block) : List Int :=
  (logs.map Log.blockNumber ++ [fromBlock.number, toBlock.number]).dedup

def blockProofs (chainId : String) (logs : List Log) (fromBlock toBlock : Block) (blockNumber : Int) :
    BlockProofs :=
  let logs := logs.filter fun log => log.blockNumber = blockNumber
  { blockNumber
    blockHash :=
      if blockNumber = fromBlock.number then fromBlock.hash
      else if blockNumber = toBlock.number then toBlock.hash
      -- another block is only there for its logs
      else (logs.head?.map Log.blockHash).getD ""
    proofs := logs.map (createAnchorProof chainId) }

/-- What the loader makes of the provider's answer: the logs of a range, its first block and its
last one. -/
def createBlockProofsLoaderForRange (chainId : String) (logs : List Log) (fromBlock toBlock : Block) :
    List BlockProofs :=
  ((blockNumbers logs fromBlock toBlock).insertionSort fun a b => toString a ≤ toString b).map
    (blockProofs chainId logs fromBlock toBlock)

/-- A chain of blocks, each the child of the one before it, with the logs of the anchor contract. -/
structure Chain where
  block : Int → Block
  logs : List Log
  number : ∀ n, 0 ≤ n → (block n).number = n
  linked : ∀ n, 0 ≤ n → (block (n + 1)).parentHash = (block n).hash
  genesis : ∀ n, 0 ≤ n → (block 0).parentHash ≠ (block n).hash
  unique : ∀ n m, 0 ≤ n → 0 ≤ m → (block n).hash = (block m).hash → n = m
  logged : ∀ log ∈ logs, log.blockHash = (block log.blockNumber).hash

namespace Chain

variable (chain : Chain)

def getLogs (range : BlockRangeFilter) : List Log :=
  chain.logs.filter fun log => range.fromBlock ≤ log.blockNumber && log.blockNumber ≤ range.toBlock

def anchored (n : Int) : Bool := chain.logs.any fun log => log.blockNumber = n

/-- The proofs of a range, as the loader gives them. -/
def load (chainId : String) (range : BlockRangeFilter) : List BlockProofs :=
  createBlockProofsLoaderForRange chainId (chain.getLogs range) (chain.block range.fromBlock)
    (chain.block range.toBlock)

end Chain

theorem toList_toString (n : Nat) : (toString (n : Int)).toList = Nat.toDigits 10 n := Nat.toList_repr

theorem eq_of_toString {a b : Int} (nonneg : 0 ≤ a) (nonneg' : 0 ≤ b) (same : toString a = toString b) :
    a = b := by
  obtain ⟨m, rfl⟩ := Int.eq_ofNat_of_zero_le nonneg
  obtain ⟨n, rfl⟩ := Int.eq_ofNat_of_zero_le nonneg'
  have digits := congrArg String.toList same
  rw [toList_toString, toList_toString] at digits
  have value := congrArg (fun ds => Nat.ofDigitChars 10 ds 0) digits
  rw [Nat.ofDigitChars_ten_toDigits, Nat.ofDigitChars_ten_toDigits] at value
  rw [value]

theorem toString_le {m n : Nat} : toString (m : Int) ≤ toString (n : Int) ↔
    ¬Nat.toDigits 10 n < Nat.toDigits 10 m := by
  have lt : toString (n : Int) < toString (m : Int) ↔ Nat.toDigits 10 n < Nat.toDigits 10 m := by
    rw [← toList_toString, ← toList_toString]
    exact Iff.rfl
  rw [← lt]
  exact Iff.rfl

theorem length_toString (n : Nat) : (toString (n : Int)).length = (Nat.toDigits 10 n).length := by
  rw [← String.length_toList, toList_toString]

/-- In a range whose ends have equally many digits the texts are in order. -/
theorem toString_le_of_lt {range : BlockRangeFilter} (nonneg : 0 ≤ range.fromBlock)
    (same : (toString range.fromBlock).length = (toString range.toBlock).length) {a b : Int}
    (after : range.fromBlock ≤ a) (less : a < b) (before : b ≤ range.toBlock) : toString a ≤ toString b := by
  obtain ⟨first, isFirst⟩ := Int.eq_ofNat_of_zero_le nonneg
  obtain ⟨last, isLast⟩ := Int.eq_ofNat_of_zero_le (show 0 ≤ range.toBlock by omega)
  obtain ⟨m, rfl⟩ := Int.eq_ofNat_of_zero_le (show 0 ≤ a by omega)
  obtain ⟨n, rfl⟩ := Int.eq_ofNat_of_zero_le (show 0 ≤ b by omega)
  rw [isFirst, isLast, length_toString, length_toString] at same
  have low := DecimalText.length_toDigits_mono (show first ≤ m by omega)
  have middle := DecimalText.length_toDigits_mono (show m ≤ n by omega)
  have high := DecimalText.length_toDigits_mono (show n ≤ last by omega)
  rw [toString_le]
  exact List.lt_asymm (DecimalText.toDigits_lt (by omega) (by omega))

/-- If the ends have not equally many digits, a power of ten is in the range, and its text comes
before that of its predecessor. -/
theorem not_toString_le_of_length_ne {range : BlockRangeFilter} (nonneg : 0 ≤ range.fromBlock)
    (nonempty : range.fromBlock ≤ range.toBlock)
    (apart : (toString range.fromBlock).length ≠ (toString range.toBlock).length) :
    ∃ n, range.fromBlock ≤ n ∧ n + 1 ≤ range.toBlock ∧ ¬toString n ≤ toString (n + 1) := by
  obtain ⟨first, isFirst⟩ := Int.eq_ofNat_of_zero_le nonneg
  obtain ⟨last, isLast⟩ := Int.eq_ofNat_of_zero_le (show 0 ≤ range.toBlock by omega)
  rw [isFirst, isLast, length_toString, length_toString] at apart
  have grows := DecimalText.length_toDigits_mono (show first ≤ last by omega)
  obtain ⟨k, below, above⟩ := DecimalText.pow_between (Nat.lt_of_le_of_ne grows apart)
  refine ⟨(10 ^ (k + 1) - 1 : Nat), by omega, by omega, ?_⟩
  have next : (((10 ^ (k + 1) - 1 : Nat) : Int) + 1) = ((10 ^ (k + 1) : Nat) : Int) := by omega
  rw [next, toString_le, not_not]
  exact DecimalText.toDigits_pow_lt k

theorem sorted_by_text (blocks : List Int) :
    (blocks.insertionSort fun a b => toString a ≤ toString b).Pairwise fun a b => toString a ≤ toString b := by
  have : Std.Total fun a b : Int => toString a ≤ toString b := ⟨fun _ _ => String.le_total _ _⟩
  have : IsTrans Int fun a b => toString a ≤ toString b := ⟨fun _ _ _ => String.le_trans⟩
  exact List.pairwise_insertionSort _ blocks

/-- Sorting by text depends on the members only. -/
theorem sort_eq_of_mem {blocks blocks' : List Int} (unique : blocks.Nodup) (unique' : blocks'.Nodup)
    (nonneg : ∀ n ∈ blocks, 0 ≤ n) (same : ∀ n, n ∈ blocks ↔ n ∈ blocks') :
    (blocks.insertionSort fun a b => toString a ≤ toString b) =
      blocks'.insertionSort fun a b => toString a ≤ toString b := by
  refine List.Perm.eq_of_pairwise ?_ (sorted_by_text blocks) (sorted_by_text blocks') ?_
  · intro a b memberA memberB le ge
    rw [List.mem_insertionSort] at memberA memberB
    exact eq_of_toString (nonneg a memberA) (nonneg b ((same b).mpr memberB)) (String.le_antisymm le ge)
  · have perm := (List.perm_ext_iff_of_nodup unique unique').mpr same
    exact ((List.perm_insertionSort _ _).trans perm).trans (List.perm_insertionSort _ _).symm

section

variable {range : BlockRangeFilter}

theorem mem_blocks {n : Int} : n ∈ range.blocks ↔ range.fromBlock ≤ n ∧ n ≤ range.toBlock := by
  unfold BlockRangeFilter.blocks
  rw [mem_blocksAfter]
  omega

theorem blocks_pairwise (range : BlockRangeFilter) : range.blocks.Pairwise (· < ·) := by
  unfold BlockRangeFilter.blocks blocksAfter
  rw [List.pairwise_map]
  exact List.pairwise_lt_range.imp fun less => by omega

theorem blocks_nodup (range : BlockRangeFilter) : range.blocks.Nodup :=
  (blocks_pairwise range).imp fun less => Int.ne_of_lt less

theorem blocks_isChain (range : BlockRangeFilter) : range.blocks.IsChain fun a b => b = a + 1 := by
  unfold BlockRangeFilter.blocks blocksAfter
  rw [List.isChain_iff_getElem]
  intro i _
  rw [List.getElem_map, List.getElem_map, List.getElem_range, List.getElem_range]
  push_cast
  ring

/-- A list that goes up by one is the range from its first element to its last one. -/
theorem blocks_of_isChain {numbers : List Int} (chain : numbers.IsChain fun a b => b = a + 1)
    (inRange : ∀ n ∈ numbers, range.fromBlock ≤ n ∧ n ≤ range.toBlock)
    (first : range.fromBlock ∈ numbers) (last : range.toBlock ∈ numbers) : numbers = range.blocks := by
  have at_index (i : Nat) (inside : i < numbers.length) : numbers[i] = numbers[0] + i := by
    induction i with
    | zero => simp
    | succ i ih =>
      rw [List.isChain_iff_getElem.mp chain i inside, ih (by omega)]
      push_cast
      ring
  obtain ⟨i, insideFirst, at_first⟩ := List.getElem_of_mem first
  obtain ⟨j, insideLast, at_last⟩ := List.getElem_of_mem last
  rw [at_index i insideFirst] at at_first
  rw [at_index j insideLast] at at_last
  have start := inRange _ (List.getElem_mem (Nat.zero_lt_of_lt insideFirst))
  have stop := inRange _ (List.getElem_mem (Nat.sub_one_lt_of_lt insideFirst))
  rw [at_index _ (Nat.sub_one_lt_of_lt insideFirst)] at stop
  unfold BlockRangeFilter.blocks blocksAfter
  apply List.ext_getElem
  · rw [List.length_map, List.length_range]
    omega
  · intro k inside _
    rw [at_index k inside, List.getElem_map, List.getElem_range]
    omega

theorem head?_blocks (nonempty : range.fromBlock ≤ range.toBlock) :
    range.blocks.head? = some range.fromBlock := by
  have positive : 0 < (range.toBlock - (range.fromBlock - 1)).toNat := by omega
  simp only [BlockRangeFilter.blocks, blocksAfter, List.head?_map, List.head?_range]
  rw [if_neg (Nat.ne_of_gt positive)]
  simp

theorem getLast?_blocks (nonempty : range.fromBlock ≤ range.toBlock) :
    range.blocks.getLast? = some range.toBlock := by
  have positive : 0 < (range.toBlock - (range.fromBlock - 1)).toNat := by omega
  simp only [BlockRangeFilter.blocks, blocksAfter, List.getLast?_map, List.getLast?_range]
  rw [if_neg (Nat.ne_of_gt positive), Option.map_some, Option.some.injEq]
  omega

end

section

variable (chain : Chain) {range : BlockRangeFilter}

theorem Chain.anchored_iff {n : Int} : chain.anchored n = true ↔ ∃ log ∈ chain.logs, log.blockNumber = n := by
  simp [anchored]

theorem Chain.mem_blockNumbers (nonneg : 0 ≤ range.fromBlock) (nonempty : range.fromBlock ≤ range.toBlock)
    {n : Int} : n ∈ blockNumbers (chain.getLogs range) (chain.block range.fromBlock)
      (chain.block range.toBlock) ↔
    n ∈ range.blocks ∧ (chain.anchored n = true ∨ n = range.fromBlock ∨ n = range.toBlock) := by
  unfold blockNumbers
  rw [List.mem_dedup, List.mem_append, chain.number _ nonneg, chain.number _ (by omega), mem_blocks,
    chain.anchored_iff]
  simp only [List.mem_map, List.mem_cons, List.not_mem_nil, or_false, getLogs, List.mem_filter,
    Bool.and_eq_true, decide_eq_true_eq]
  constructor
  · rintro (⟨log, ⟨member, inside⟩, rfl⟩ | rfl | rfl)
    · exact ⟨inside, .inl ⟨log, member, rfl⟩⟩
    · exact ⟨by omega, .inr (.inl rfl)⟩
    · exact ⟨by omega, .inr (.inr rfl)⟩
  · rintro ⟨inside, ⟨log, member, rfl⟩ | ends⟩
    · exact .inl ⟨log, ⟨member, inside⟩, rfl⟩
    · exact .inr ends

theorem mem_candidates {anchored : Int → Bool} (nonempty : range.fromBlock ≤ range.toBlock) {n : Int} :
    n ∈ range.blocks.filter (fun b => anchored b || range.blocks.head? = some b ||
      range.blocks.getLast? = some b) ↔
    n ∈ range.blocks ∧ (anchored n = true ∨ n = range.fromBlock ∨ n = range.toBlock) := by
  rw [List.mem_filter, head?_blocks nonempty, getLast?_blocks nonempty]
  simp only [Bool.or_eq_true, decide_eq_true_eq, Option.some.injEq, or_assoc, @eq_comm _ n]

/-- The block numbers of a load are those that the node reckons with. -/
theorem Chain.load_blockNumbers (chainId : String) (nonneg : 0 ≤ range.fromBlock)
    (nonempty : range.fromBlock ≤ range.toBlock) :
    (chain.load chainId range).map BlockProofs.blockNumber =
      Ceramic.createBlockProofsLoaderForRange chain.anchored range.blocks := by
  unfold load createBlockProofsLoaderForRange
  rw [List.map_map, Ceramic.createBlockProofsLoaderForRange]
  refine (List.map_id _).trans (sort_eq_of_mem (List.nodup_dedup _) ((blocks_nodup range).filter _) ?_ ?_)
  · intro n member
    have inside := mem_blocks.mp ((chain.mem_blockNumbers nonneg nonempty).mp member).1
    omega
  · intro n
    exact (chain.mem_blockNumbers nonneg nonempty).trans (mem_candidates nonempty).symm

/-- Each block between the first and the last one of a range has anchors, and their numbers have
equally many digits. -/
def Chain.LoadsAll (range : BlockRangeFilter) : Prop :=
  (∀ n, range.fromBlock < n → n < range.toBlock → chain.anchored n = true) ∧
    (toString range.fromBlock).length = (toString range.toBlock).length

/-- The loaded blocks are one after the other exactly if none is missing and their texts are in
order, and then they are the range. -/
theorem Chain.loaded_iff (nonneg : 0 ≤ range.fromBlock) (nonempty : range.fromBlock ≤ range.toBlock) :
    (Ceramic.createBlockProofsLoaderForRange chain.anchored range.blocks = range.blocks ↔
      chain.LoadsAll range) ∧
    ((Ceramic.createBlockProofsLoaderForRange chain.anchored range.blocks).IsChain (fun a b => b = a + 1) ↔
      chain.LoadsAll range) := by
  have members {n : Int} : n ∈ Ceramic.createBlockProofsLoaderForRange chain.anchored range.blocks ↔
      n ∈ range.blocks ∧ (chain.anchored n = true ∨ n = range.fromBlock ∨ n = range.toBlock) :=
    (List.mem_insertionSort _).trans (mem_candidates nonempty)
  have sorted : (Ceramic.createBlockProofsLoaderForRange chain.anchored range.blocks).Pairwise
      fun a b => toString a ≤ toString b := sorted_by_text _
  have whole : Ceramic.createBlockProofsLoaderForRange chain.anchored range.blocks = range.blocks ↔
      chain.LoadsAll range := by
    constructor
    · intro same
      refine ⟨fun n after before => ?_, ?_⟩
      · have member : n ∈ range.blocks := mem_blocks.mpr ⟨by omega, by omega⟩
        rcases (members.mp (same ▸ member)).2 with anchored | isEnd
        · exact anchored
        · omega
      · by_contra apart
        obtain ⟨n, after, before, unordered⟩ := not_toString_le_of_length_ne nonneg nonempty apart
        obtain ⟨i, insideI, at_i⟩ := List.getElem_of_mem (mem_blocks.mpr ⟨after, by omega⟩)
        obtain ⟨j, insideJ, at_j⟩ := List.getElem_of_mem (mem_blocks.mpr ⟨by omega, before⟩)
        rcases Nat.lt_trichotomy i j with less | rfl | greater
        · refine unordered ?_
          rw [← at_j, ← at_i]
          exact List.pairwise_iff_getElem.mp (same ▸ sorted) i j insideI insideJ less
        · omega
        · have := List.pairwise_iff_getElem.mp (blocks_pairwise range) j i insideJ insideI greater
          omega
    · rintro ⟨anchored, digits⟩
      refine List.Perm.eq_of_pairwise ?_ sorted ?_ ?_
      · intro a b memberA memberB le ge
        have insideA := mem_blocks.mp (members.mp memberA).1
        have insideB := mem_blocks.mp memberB
        exact eq_of_toString (by omega) (by omega) (String.le_antisymm le ge)
      · refine (blocks_pairwise range).imp_of_mem fun memberA memberB less => ?_
        exact toString_le_of_lt nonneg digits (mem_blocks.mp memberA).1 less (mem_blocks.mp memberB).2
      · refine (List.perm_insertionSort _ _).trans ?_
        rw [List.filter_eq_self.mpr fun n member => ?_]
        have inside := mem_blocks.mp member
        have candidate := (@mem_candidates range chain.anchored nonempty n).mpr ⟨member, ?_⟩
        · exact (List.mem_filter.mp candidate).2
        · by_cases isEnd : n = range.fromBlock ∨ n = range.toBlock
          · exact .inr isEnd
          · exact .inl (anchored n (by omega) (by omega))
  refine ⟨whole, fun isChain => ?_, fun all => ?_⟩
  · refine whole.mp (blocks_of_isChain isChain (fun n member => mem_blocks.mp (members.mp member).1) ?_ ?_)
    · exact members.mpr ⟨mem_blocks.mpr ⟨le_refl _, nonempty⟩, .inr (.inl rfl)⟩
    · exact members.mpr ⟨mem_blocks.mpr ⟨nonempty, le_refl _⟩, .inr (.inr rfl)⟩
  · rw [whole.mpr all]
    exact blocks_isChain range

/-- The proofs of a block. -/
def Chain.blockProofs (chainId : String) (n : Int) : BlockProofs :=
  { blockNumber := n
    blockHash := (chain.block n).hash
    proofs := (chain.logs.filter fun log => log.blockNumber = n).map (createAnchorProof chainId) }

theorem Chain.blockProofs_of_mem (chainId : String) (nonneg : 0 ≤ range.fromBlock)
    (nonempty : range.fromBlock ≤ range.toBlock) {n : Int}
    (member : n ∈ blockNumbers (chain.getLogs range) (chain.block range.fromBlock)
      (chain.block range.toBlock)) :
    AnchorListener.blockProofs chainId (chain.getLogs range) (chain.block range.fromBlock)
      (chain.block range.toBlock) n = chain.blockProofs chainId n := by
  obtain ⟨inside, origin⟩ := (chain.mem_blockNumbers nonneg nonempty).mp member
  rw [mem_blocks] at inside
  have logs : (chain.getLogs range).filter (fun log => log.blockNumber = n) =
      chain.logs.filter fun log => log.blockNumber = n := by
    unfold getLogs
    rw [List.filter_filter]
    refine List.filter_congr fun log _ => ?_
    by_cases same : log.blockNumber = n
    · simp [same, inside]
    · simp [same]
  unfold AnchorListener.blockProofs Chain.blockProofs
  dsimp only
  rw [logs, chain.number _ nonneg, chain.number _ (by omega)]
  congr 1
  split
  next isFirst => rw [isFirst]
  next notFirst =>
    split
    next isLast => rw [isLast]
    next notLast =>
      obtain ⟨log, inLogs, same⟩ := chain.anchored_iff.mp (origin.resolve_right (by omega))
      cases found : chain.logs.filter fun log => log.blockNumber = n with
      | nil =>
        have inFilter : log ∈ chain.logs.filter fun log => log.blockNumber = n :=
          List.mem_filter.mpr ⟨inLogs, by simpa using same⟩
        rw [found] at inFilter
        cases inFilter
      | cons first rest =>
        have isFirst : first ∈ chain.logs.filter fun log => log.blockNumber = n := by
          rw [found]
          exact List.mem_cons_self
        obtain ⟨inLogs, same⟩ := List.mem_filter.mp isFirst
        have number : first.blockNumber = n := by simpa using same
        simp [chain.logged first inLogs, number]

/-- A load gives the proofs of each block in it. -/
theorem Chain.load_eq (chainId : String) (nonneg : 0 ≤ range.fromBlock)
    (nonempty : range.fromBlock ≤ range.toBlock) :
    chain.load chainId range = (Ceramic.createBlockProofsLoaderForRange chain.anchored range.blocks).map
      (chain.blockProofs chainId) := by
  rw [← chain.load_blockNumbers chainId nonneg nonempty]
  unfold load AnchorListener.createBlockProofsLoaderForRange
  rw [List.map_map, List.map_map]
  refine List.map_congr_left fun n member => ?_
  exact chain.blockProofs_of_mem chainId nonneg nonempty ((List.mem_insertionSort _).mp member)

end

/-- A chain whose block hashes are texts of different lengths, with one log in each anchored
block. -/
def unaryBlock (n : Int) : Block :=
  { number := n
    hash := String.ofList (List.replicate (n + 1).toNat 'f')
    parentHash := String.ofList (List.replicate n.toNat 'f') }

theorem unaryBlock_number (n : Int) (_ : 0 ≤ n) : (unaryBlock n).number = n := rfl

def unaryLog (n : Int) : Log :=
  { blockNumber := n
    blockHash := (unaryBlock n).hash
    transactionHash := [UInt8.ofNat n.toNat]
    root := [1] }

def unaryChain (anchored : List Int) : Chain where
  block := unaryBlock
  logs := anchored.map unaryLog
  number := unaryBlock_number
  linked _ _ := rfl
  genesis n nonneg same := by
    have length := congrArg String.length same
    simp [unaryBlock] at length
    omega
  unique n m nonneg nonneg' same := by
    have length := congrArg String.length same
    simp [unaryBlock] at length
    omega
  logged log member := by
    obtain ⟨n, _, rfl⟩ := List.mem_map.mp member
    rfl

end AnchorListener

end Ceramic
