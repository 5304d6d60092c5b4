import Ceramic.BlockListener

/-! The loader of the proofs of many blocks: it goes through a range in batches. Within a batch the blocks
come in the order of the texts of their numbers. -/
namespace Ceramic

namespace AnchorListener

/-- As many values at a time, and what is left at the end; the calls are counted down. -/
def buffers (size : Nat) : Nat → List Int → List (List Int)
  | 0, _ => []
  | calls + 1, values => if values = [] then [] else values.take size :: buffers size calls (values.drop size)

/-- `bufferCount(size)`. -/
def bufferCount (size : Nat) (values : List Int) : List (List Int) := buffers size values.length values

/-- From the first of some values to the last. -/
def rangeOf (values : List Int) : Option BlockRangeFilter :=
  match values.head?, values.getLast? with
  | some fromBlock, some toBlock => some ⟨fromBlock, toBlock⟩
  | _, _ => none

/-- The ranges that are loaded, one for each buffer. -/
def bufferedRanges (blockLoadBuffer : Nat) (range : BlockRangeFilter) : List BlockRangeFilter :=
  (bufferCount blockLoadBuffer range.blocks).filterMap rangeOf

/-- What a provider answers with: the blocks by number, and the logs of the anchor contract. -/
structure Provided where
  block : Int → Block
  logs : List Log
  number : ∀ n, 0 ≤ n → (block n).number = n

namespace Provided

variable (provided : Provided)

def getLogs (range : BlockRangeFilter) : List Log :=
  provided.logs.filter fun log => range.fromBlock ≤ log.blockNumber && log.blockNumber ≤ range.toBlock

def loadBlockProofsForRange (chainId : String) (range : BlockRangeFilter) : List BlockProofs :=
  createBlockProofsLoaderForRange chainId (provided.getLogs range) (provided.block range.fromBlock)
    (provided.block range.toBlock)

def createBlocksProofsLoader (chainId : String) (blockLoadBuffer : Nat) (range : BlockRangeFilter) : List BlockProofs :=
  (bufferedRanges blockLoadBuffer range).flatMap (provided.loadBlockProofsForRange chainId)

/-- A batch gives the blocks with logs and its ends. -/
def Emits (batch : BlockRangeFilter) (n : Int) : Prop :=
  (batch.fromBlock ≤ n ∧ n ≤ batch.toBlock) ∧
    ((∃ log ∈ provided.logs, log.blockNumber = n) ∨ n = batch.fromBlock ∨ n = batch.toBlock)

/-- Of two blocks that a batch gives, the text of the lower one comes first. -/
def TextsInOrder (batch : BlockRangeFilter) : Prop :=
  ∀ a b, provided.Emits batch a → provided.Emits batch b → a < b → toString a ≤ toString b

/-- The proofs of the logs of a block. -/
def proofsOf (chainId : String) (n : Int) : List AnchorProof :=
  (provided.logs.filter fun log => log.blockNumber = n).map (createAnchorProof chainId)

end Provided

/-- Ranges that follow on from one another, the last one up to a block. -/
def Covers (next last : Int) : List BlockRangeFilter → Prop
  | [] => next = last + 1
  | range :: ranges => range.fromBlock = next ∧ range.fromBlock ≤ range.toBlock ∧ Covers (range.toBlock + 1) last ranges

theorem length_blocksAfter (last blockNumber : Int) : (blocksAfter last blockNumber).length = (blockNumber - last).toNat := by
  rw [blocksAfter, List.length_map, List.length_range]

theorem rangeOf_blocksAfter {next last : Int} (nonempty : next ≤ last) :
    rangeOf (blocksAfter (next - 1) last) = some ⟨next, last⟩ := by
  have first : (blocksAfter (next - 1) last).head? = some next := @head?_blocks ⟨next, last⟩ nonempty
  have final : (blocksAfter (next - 1) last).getLast? = some last := @getLast?_blocks ⟨next, last⟩ nonempty
  rw [rangeOf, first, final]

/-- The buffers of consecutive blocks are consecutive blocks. -/
theorem buffers_cover {size calls : Nat} (positive : 0 < size) {next last : Int} (enough : (last + 1 - next).toNat ≤ calls)
    (bound : next ≤ last + 1) :
    Covers next last ((buffers size calls (blocksAfter (next - 1) last)).filterMap rangeOf) := by
  induction calls generalizing next with
  | zero =>
    have ended : next = last + 1 := by omega
    exact ended
  | succ calls ih =>
    by_cases ended : next = last + 1
    · subst ended
      rw [Int.add_sub_cancel, blocksAfter_self, buffers, if_pos rfl]
      exact rfl
    · have more : blocksAfter (next - 1) last ≠ [] := by
        rw [ne_eq, ← List.length_eq_zero_iff, length_blocksAfter]
        omega
      rw [buffers, if_neg more]
      by_cases fits : last ≤ next - 1 + size
      · have whole : (blocksAfter (next - 1) last).length ≤ size := by
          rw [length_blocksAfter]
          omega
        rw [List.take_of_length_le whole, List.drop_of_length_le whole,
          List.filterMap_cons_some (rangeOf_blocksAfter (by omega))]
        refine ⟨rfl, by dsimp only; omega, ?_⟩
        have ended := @ih (last + 1) (by omega) (le_refl _)
        rwa [Int.add_sub_cancel, blocksAfter_self] at ended
      · have split := @blocksAfter_append (next - 1) (next - 1 + size) last (by omega) (by omega)
        have length : (blocksAfter (next - 1) (next - 1 + size)).length = size := by
          rw [length_blocksAfter]
          omega
        rw [← split, List.take_left' length, List.drop_left' length,
          List.filterMap_cons_some (rangeOf_blocksAfter (by omega))]
        refine ⟨rfl, by dsimp only; omega, ?_⟩
        have rest := @ih (next - 1 + size + 1) (by omega) (by omega)
        rwa [Int.add_sub_cancel] at rest

theorem bufferedRanges_cover {size : Nat} (positive : 0 < size) {range : BlockRangeFilter}
    (nonempty : range.fromBlock ≤ range.toBlock) :
    Covers range.fromBlock range.toBlock (bufferedRanges size range) := by
  refine buffers_cover positive ?_ (by omega)
  rw [BlockRangeFilter.blocks, length_blocksAfter]
  omega

theorem bufferedRanges_empty {size : Nat} {range : BlockRangeFilter} (empty : range.toBlock < range.fromBlock) :
    bufferedRanges size range = [] := by
  have noBlocks : range.blocks = [] := by
    rw [← List.length_eq_zero_iff, BlockRangeFilter.blocks, length_blocksAfter]
    omega
  rw [bufferedRanges, bufferCount, noBlocks]
  rfl

namespace Provided

variable {provided : Provided} {chainId : String} {batch : BlockRangeFilter}

/-- The numbers of a batch, in the order of their texts. -/
theorem numbers_load : (provided.loadBlockProofsForRange chainId batch).map BlockProofs.blockNumber =
    (blockNumbers (provided.getLogs batch) (provided.block batch.fromBlock)
      (provided.block batch.toBlock)).insertionSort fun a b => toString a ≤ toString b := by
  unfold loadBlockProofsForRange createBlockProofsLoaderForRange
  rw [List.map_map]
  exact List.map_id _

theorem mem_numbers_load (nonneg : 0 ≤ batch.fromBlock) (nonempty : batch.fromBlock ≤ batch.toBlock) {n : Int} :
    n ∈ (provided.loadBlockProofsForRange chainId batch).map BlockProofs.blockNumber ↔ provided.Emits batch n := by
  rw [numbers_load, List.mem_insertionSort, blockNumbers, List.mem_dedup, List.mem_append, provided.number _ nonneg,
    provided.number _ (by omega)]
  simp only [List.mem_map, List.mem_cons, List.not_mem_nil, or_false, getLogs, List.mem_filter, Bool.and_eq_true,
    decide_eq_true_eq]
  constructor
  · rintro (⟨log, ⟨member, inside⟩, rfl⟩ | rfl | rfl)
    · exact ⟨inside, .inl ⟨log, member, rfl⟩⟩
    · exact ⟨⟨le_refl _, nonempty⟩, .inr (.inl rfl)⟩
    · exact ⟨⟨nonempty, le_refl _⟩, .inr (.inr rfl)⟩
  · rintro ⟨inside, ⟨log, member, rfl⟩ | ends⟩
    · exact .inl ⟨log, ⟨member, inside⟩, rfl⟩
    · exact .inr ends

theorem numbers_load_nodup : ((provided.loadBlockProofsForRange chainId batch).map BlockProofs.blockNumber).Nodup := by
  rw [numbers_load]
  exact (List.perm_insertionSort _ _).nodup_iff.mpr (List.nodup_dedup _)

/-- A batch is ascending exactly if the texts of its numbers are in order. -/
theorem numbers_load_ascending (nonneg : 0 ≤ batch.fromBlock) (nonempty : batch.fromBlock ≤ batch.toBlock) :
    ((provided.loadBlockProofsForRange chainId batch).map BlockProofs.blockNumber).Pairwise (· < ·) ↔
      provided.TextsInOrder batch := by
  have sorted := sorted_by_text (blockNumbers (provided.getLogs batch) (provided.block batch.fromBlock)
    (provided.block batch.toBlock))
  rw [← @numbers_load provided chainId] at sorted
  have unique := @numbers_load_nodup provided chainId batch
  have members {n : Int} := @mem_numbers_load provided chainId batch nonneg nonempty n
  generalize (provided.loadBlockProofsForRange chainId batch).map BlockProofs.blockNumber = numbers at *
  constructor
  · intro ascending a b emitsA emitsB less
    obtain ⟨i, insideI, rfl⟩ := List.getElem_of_mem (members.mpr emitsA)
    obtain ⟨j, insideJ, rfl⟩ := List.getElem_of_mem (members.mpr emitsB)
    rcases Nat.lt_trichotomy i j with before | rfl | behind
    · exact List.pairwise_iff_getElem.mp sorted i j insideI insideJ before
    · exact absurd less (lt_irrefl _)
    · exact absurd (List.pairwise_iff_getElem.mp ascending j i insideJ insideI behind) (lt_asymm less)
  · intro inOrder
    refine (sorted.and unique).imp_of_mem fun {a b} memberA memberB ⟨textsLe, apart⟩ => ?_
    by_contra notLess
    have less : b < a := by omega
    have emitsA := members.mp memberA
    have emitsB := members.mp memberB
    have textsGe := inOrder b a emitsB emitsA less
    have low := emitsA.1.1
    have low' := emitsB.1.1
    exact apart (eq_of_toString (by omega) (by omega) (String.le_antisymm textsLe textsGe))

end Provided

section

variable {ranges : List BlockRangeFilter} {next last : Int}

theorem Covers.le (covers : Covers next last ranges) : next ≤ last + 1 := by
  induction ranges generalizing next with
  | nil => exact Int.le_of_eq covers
  | cons first ranges ih =>
    obtain ⟨rfl, nonempty, rest⟩ := covers
    have := ih rest
    omega

theorem Covers.within (covers : Covers next last ranges) {range : BlockRangeFilter} (member : range ∈ ranges) :
    next ≤ range.fromBlock ∧ range.fromBlock ≤ range.toBlock ∧ range.toBlock ≤ last := by
  induction ranges generalizing next with
  | nil => cases member
  | cons first ranges ih =>
    obtain ⟨rfl, nonempty, rest⟩ := covers
    have bound := Covers.le rest
    rcases List.mem_cons.mp member with rfl | behind
    · exact ⟨le_refl _, nonempty, by omega⟩
    · have := ih rest behind
      omega

theorem Covers.apart (covers : Covers next last ranges) : ranges.Pairwise fun a b => a.toBlock < b.fromBlock := by
  induction ranges generalizing next with
  | nil => exact .nil
  | cons first ranges ih =>
    obtain ⟨rfl, nonempty, rest⟩ := covers
    refine (ih rest).cons fun range member => ?_
    have := (Covers.within rest member).1
    omega

theorem Covers.exists_range (covers : Covers next last ranges) {n : Int} (after : next ≤ n) (before : n ≤ last) :
    ∃ range ∈ ranges, range.fromBlock ≤ n ∧ n ≤ range.toBlock := by
  induction ranges generalizing next with
  | nil =>
    have ended : next = last + 1 := covers
    omega
  | cons first ranges ih =>
    obtain ⟨rfl, nonempty, rest⟩ := covers
    by_cases inFirst : n ≤ first.toBlock
    · exact ⟨first, List.mem_cons_self, after, inFirst⟩
    · obtain ⟨range, member, inside⟩ := ih rest (by omega)
      exact ⟨range, List.mem_cons_of_mem _ member, inside⟩

end

namespace Provided

variable {provided : Provided} {chainId : String} {blockLoadBuffer : Nat} {range : BlockRangeFilter}
  (positive : 0 < blockLoadBuffer) (nonneg : 0 ≤ range.fromBlock)

theorem numbers_loaded : (provided.createBlocksProofsLoader chainId blockLoadBuffer range).map BlockProofs.blockNumber =
    (bufferedRanges blockLoadBuffer range).flatMap fun batch =>
      (provided.loadBlockProofsForRange chainId batch).map BlockProofs.blockNumber :=
  List.map_flatMap ..

include positive in
/-- The batches lie in the range, one behind the other. -/
theorem batches_within {batch : BlockRangeFilter} (member : batch ∈ bufferedRanges blockLoadBuffer range) :
    range.fromBlock ≤ batch.fromBlock ∧ batch.fromBlock ≤ batch.toBlock ∧ batch.toBlock ≤ range.toBlock := by
  rcases Int.lt_or_le range.toBlock range.fromBlock with empty | nonempty
  · rw [bufferedRanges_empty empty] at member
    cases member
  · exact (bufferedRanges_cover positive nonempty).within member

include positive nonneg in
theorem mem_numbers_loaded {n : Int} :
    n ∈ (provided.createBlocksProofsLoader chainId blockLoadBuffer range).map BlockProofs.blockNumber ↔
      ∃ batch ∈ bufferedRanges blockLoadBuffer range, provided.Emits batch n := by
  rw [numbers_loaded, List.mem_flatMap]
  refine exists_congr fun batch => and_congr_right fun member => ?_
  have within := batches_within positive member
  exact mem_numbers_load (by omega) within.2.1

include positive nonneg in
/-- Numbers of different batches are in order in any case. -/
theorem numbers_loaded_pairwise (R : Int → Int → Prop) (ofLess : ∀ a b, a < b → R a b) :
    ((provided.createBlocksProofsLoader chainId blockLoadBuffer range).map BlockProofs.blockNumber).Pairwise R ↔
      ∀ batch ∈ bufferedRanges blockLoadBuffer range,
        ((provided.loadBlockProofsForRange chainId batch).map BlockProofs.blockNumber).Pairwise R := by
  rw [numbers_loaded, List.pairwise_flatMap, and_iff_left_iff_imp]
  rcases Int.lt_or_le range.toBlock range.fromBlock with empty | nonempty
  · rw [bufferedRanges_empty empty]
    exact fun _ => .nil
  · intro _
    refine (bufferedRanges_cover positive nonempty).apart.imp_of_mem fun {first second} memberA memberB apart a inA b inB => ?_
    have withinA := batches_within positive memberA
    have withinB := batches_within positive memberB
    have emitsA := (mem_numbers_load (by omega) withinA.2.1).mp inA
    have emitsB := (mem_numbers_load (by omega) withinB.2.1).mp inB
    have high := emitsA.1.2
    have low := emitsB.1.1
    exact ofLess a b (by omega)

include positive nonneg in
/-- Each block comes with the proofs of its logs and no others. -/
theorem proofs_loaded {blockProofs : BlockProofs}
    (member : blockProofs ∈ provided.createBlocksProofsLoader chainId blockLoadBuffer range) :
    blockProofs.proofs = provided.proofsOf chainId blockProofs.blockNumber := by
  obtain ⟨batch, inBatches, loaded⟩ := List.mem_flatMap.mp member
  have within := batches_within positive inBatches
  have inBatch := ((mem_numbers_load (by omega) within.2.1).mp (List.mem_map_of_mem loaded)).1
  obtain ⟨n, -, rfl⟩ := List.mem_map.mp loaded
  have inBatch : batch.fromBlock ≤ n ∧ n ≤ batch.toBlock := inBatch
  have logs : (provided.getLogs batch).filter (fun log => log.blockNumber = n) =
      provided.logs.filter fun log => log.blockNumber = n := by
    unfold getLogs
    rw [List.filter_filter]
    refine List.filter_congr fun log _ => ?_
    by_cases same : log.blockNumber = n
    · simp [same, inBatch]
    · simp [same]
  exact congrArg (List.map (createAnchorProof chainId)) logs

include positive nonneg in
theorem numbers_loaded_nodup :
    ((provided.createBlocksProofsLoader chainId blockLoadBuffer range).map BlockProofs.blockNumber).Nodup :=
  (numbers_loaded_pairwise positive nonneg (· ≠ ·) fun _ _ less => Int.ne_of_lt less).mpr fun _ _ => numbers_load_nodup

include positive nonneg in
/-- What is in the range and emitted by any batch that it is in is emitted once. -/
theorem existsUnique_loaded {n : Int} (after : range.fromBlock ≤ n) (before : n ≤ range.toBlock)
    (emits : ∀ batch, batch ∈ bufferedRanges blockLoadBuffer range → batch.fromBlock ≤ n → n ≤ batch.toBlock →
      provided.Emits batch n) :
    ∃! blockProofs, blockProofs ∈ provided.createBlocksProofsLoader chainId blockLoadBuffer range ∧
      blockProofs.blockNumber = n := by
  obtain ⟨batch, inBatches, low, high⟩ := (bufferedRanges_cover positive (le_trans after before)).exists_range after before
  obtain ⟨blockProofs, member, number⟩ := List.mem_map.mp
    ((@mem_numbers_loaded provided chainId _ _ positive nonneg n).mpr ⟨batch, inBatches, emits batch inBatches low high⟩)
  refine ⟨blockProofs, ⟨member, number⟩, fun other ⟨inOther, otherNumber⟩ => ?_⟩
  exact List.inj_on_of_nodup_map (numbers_loaded_nodup positive nonneg) inOther member (otherNumber.trans number.symm)

end Provided

/-- The proofs of every log come with the one block of its number, all blocks are different, and the ends
of the range are among them. The blocks are ascending exactly if in each batch the texts of the numbers are. -/
theorem blocksProofs_delivered (provided : Provided) (chainId : String) {blockLoadBuffer : Nat} (positive : 0 < blockLoadBuffer)
    (range : BlockRangeFilter) (nonneg : 0 ≤ range.fromBlock) :
    (((provided.createBlocksProofsLoader chainId blockLoadBuffer range).map BlockProofs.blockNumber).Pairwise (· < ·) ↔
      ∀ batch ∈ bufferedRanges blockLoadBuffer range, provided.TextsInOrder batch) ∧
    ((provided.createBlocksProofsLoader chainId blockLoadBuffer range).map BlockProofs.blockNumber).Nodup ∧
    (∀ blockProofs ∈ provided.createBlocksProofsLoader chainId blockLoadBuffer range,
      blockProofs.proofs = provided.proofsOf chainId blockProofs.blockNumber) ∧
    (∀ n, range.fromBlock ≤ n → n ≤ range.toBlock →
      (∃ log ∈ provided.logs, log.blockNumber = n) ∨ n = range.fromBlock ∨ n = range.toBlock →
      ∃! blockProofs, blockProofs ∈ provided.createBlocksProofsLoader chainId blockLoadBuffer range ∧
        blockProofs.blockNumber = n) := by
  refine ⟨?_, Provided.numbers_loaded_nodup positive nonneg, fun _ member => Provided.proofs_loaded positive nonneg member, ?_⟩
  · rw [Provided.numbers_loaded_pairwise positive nonneg _ fun _ _ less => less]
    refine forall₂_congr fun batch member => ?_
    have within := Provided.batches_within positive member
    exact Provided.numbers_load_ascending (by omega) within.2.1
  · intro n after before origin
    refine Provided.existsUnique_loaded positive nonneg after before fun batch member low high => ⟨⟨low, high⟩, ?_⟩
    have within := Provided.batches_within positive member
    rcases origin with logged | rfl | rfl
    · exact .inl logged
    · exact .inr (.inl (by omega))
    · exact .inr (.inr (by omega))

/-- Numbers with equally many digits have their texts in order. -/
theorem textsInOrder_of_length (provided : Provided) {batch : BlockRangeFilter} (nonneg : 0 ≤ batch.fromBlock)
    (same : (toString batch.fromBlock).length = (toString batch.toBlock).length) : provided.TextsInOrder batch := by
  intro a b emitsA emitsB less
  exact toString_le_of_lt nonneg same emitsA.1.1 less emitsB.1.2

/-- Blocks without anchors. -/
def quietBlocks : Provided where
  block := unaryBlock
  logs := []
  number := unaryBlock_number

theorem blocksProofs_delivered_quiet :
    ((quietBlocks.createBlocksProofsLoader "eip155:1" 5 ⟨11, 19⟩).map BlockProofs.blockNumber).Pairwise (· < ·) :=
  (blocksProofs_delivered quietBlocks "eip155:1" (by decide) ⟨11, 19⟩ (by decide)).1.mpr fun batch member => by
    have batches : bufferedRanges 5 ⟨11, 19⟩ = [⟨11, 15⟩, ⟨16, 19⟩] := by decide
    rw [batches] at member
    rcases List.mem_cons.mp member with rfl | member
    · exact textsInOrder_of_length quietBlocks (by decide) (by decide)
    · obtain rfl := List.mem_singleton.mp member
      exact textsInOrder_of_length quietBlocks (by decide) (by decide)

/-- The text of 10 comes before that of 9. -/
theorem blocksProofs_unordered : ¬∀ (provided : Provided) (range : BlockRangeFilter), 0 ≤ range.fromBlock →
    ((provided.createBlocksProofsLoader "eip155:1" 5 range).map BlockProofs.blockNumber).Pairwise (· < ·) := by
  intro ascending
  have emitted := ascending quietBlocks ⟨9, 10⟩ (by decide)
  revert emitted
  decide

end AnchorListener

end Ceramic
