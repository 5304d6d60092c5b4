import Ceramic.BlockProofsLoader
import Mathlib.Data.List.Chain

/-! The listener for new blocks: it loads the ranges that the block events span, and compares
each loaded block with the one before it. -/
namespace Ceramic

namespace AnchorListener

structure BlockAndBlockProofs where
  block : Block
  proofs : BlockProofs
  deriving DecidableEq, Repr

/-- What the provider answers while a range is loaded, after the retries; the first argument
counts the ranges. -/
structure Provider where
  getLogs : Nat → BlockRangeFilter → Option (List Log)
  getBlock : Nat → Int → Option Block
  getBlockByHash : Nat → String → Option Block

inductive ProcessingStatus where
  | process | reorganized
  deriving DecidableEq, Repr

structure ProcessingState where
  data : BlockAndBlockProofs
  status : ProcessingStatus
  previousHash : String
  deriving DecidableEq, Repr

inductive BlockProofsListenerEvent where
  | blockEvent (data : BlockAndBlockProofs)
  | reorganizedBlockEvent (data : BlockAndBlockProofs) (expectedParentHash : String)
  deriving DecidableEq, Repr

namespace BlockProofsListenerEvent

def data : BlockProofsListenerEvent → BlockAndBlockProofs
  | .blockEvent data | .reorganizedBlockEvent data _ => data

def reorganized : BlockProofsListenerEvent → Bool
  | .blockEvent _ => false
  | .reorganizedBlockEvent _ _ => true

end BlockProofsListenerEvent

/-- The ranges to load: one for each block event that tells of a higher block. -/
def blockRanges (confirmations : Int) (highest : Option Int) : List Int → List BlockRangeFilter
  | [] => []
  | blockNumber :: events =>
    let (load, highest) := createContinuousBlocksListener highest (blockNumber - confirmations)
    match load.head?, load.getLast? with
    | some fromBlock, some toBlock => ⟨fromBlock, toBlock⟩ :: blockRanges confirmations highest events
    | _, _ => blockRanges confirmations highest events

def loadBlockProofsForRange (provider : Provider) (chainId : String) (moment : Nat)
    (range : BlockRangeFilter) : Option (List BlockProofs) := do
  let logs ← provider.getLogs moment range
  let fromBlock ← provider.getBlock moment range.fromBlock
  let toBlock ← if range.fromBlock = range.toBlock then some fromBlock else
    provider.getBlock moment range.toBlock
  return createBlockProofsLoaderForRange chainId logs fromBlock toBlock

/-- The loaded blocks up to the first that cannot be loaded, and whether all could. -/
def mapLoadBlockForBlockProofs (provider : Provider) (moment : Nat) :
    List BlockProofs → List BlockAndBlockProofs × Bool
  | [] => ([], true)
  | proofs :: rest =>
    match provider.getBlockByHash moment proofs.blockHash with
    | none => ([], false)
    | some block =>
      let (loaded, complete) := mapLoadBlockForBlockProofs provider moment rest
      (⟨block, proofs⟩ :: loaded, complete)

/-- The blocks of the ranges, up to the first error. -/
def loadedBlocks (provider : Provider) (chainId : String) (moment : Nat) :
    List BlockRangeFilter → List BlockAndBlockProofs
  | [] => []
  | range :: ranges =>
    match loadBlockProofsForRange provider chainId moment range with
    | none => []
    | some proofs =>
      let (loaded, complete) := mapLoadBlockForBlockProofs provider moment proofs
      if complete then loaded ++ loadedBlocks provider chainId (moment + 1) ranges else loaded

/-- The scan's function; there is no state at first. -/
def processBlockProofs (expectedParentHash : Option String) (state : Option ProcessingState)
    (data : BlockAndBlockProofs) : ProcessingState :=
  match state with
  | none =>
    match expectedParentHash with
    | none => ⟨data, .process, data.block.hash⟩
    | some expectedParentHash =>
      if data.block.parentHash = expectedParentHash then ⟨data, .process, data.block.hash⟩
      else ⟨data, .reorganized, expectedParentHash⟩
  | some state =>
    if data.block.parentHash = state.data.block.hash then ⟨data, .process, data.block.hash⟩
    else ⟨data, .reorganized, state.previousHash⟩

def processingStates (expectedParentHash : Option String) (state : Option ProcessingState) :
    List BlockAndBlockProofs → List ProcessingState
  | [] => []
  | data :: rest =>
    let state := processBlockProofs expectedParentHash state data
    state :: processingStates expectedParentHash (some state) rest

def ProcessingState.event (state : ProcessingState) : BlockProofsListenerEvent :=
  match state.status with
  | .process => .blockEvent state.data
  | .reorganized => .reorganizedBlockEvent state.data state.previousHash

def mapProcessBlockProofs (expectedParentHash : Option String) (data : List BlockAndBlockProofs) :
    List BlockProofsListenerEvent :=
  (processingStates expectedParentHash none data).map ProcessingState.event

/-- What the listener emits for some block events. -/
def createBlockProofsListener (provider : Provider) (chainId : String) (confirmations : Int)
    (expectedParentHash : Option String) (events : List Int) : List BlockProofsListenerEvent :=
  mapProcessBlockProofs expectedParentHash
    (loadedBlocks provider chainId 0 (blockRanges confirmations none events))

example : blockRanges 10 none [105, 99, 110, 109, 108, 113, 114] =
    [⟨95, 95⟩, ⟨96, 100⟩, ⟨101, 103⟩, ⟨104, 104⟩] := by decide

/-- The arrays of block numbers that are emitted for some block events: empty ones are not. -/
def emittedBlocks (confirmations : Int) (highest : Option Int) : List Int → List (List Int)
  | [] => []
  | blockNumber :: events =>
    let (load, highest) := createContinuousBlocksListener highest (blockNumber - confirmations)
    if load.length ≠ 0 then load :: emittedBlocks confirmations highest events
    else emittedBlocks confirmations highest events

theorem blocksAfter_self (last : Int) : blocksAfter last last = [] := by simp [blocksAfter]

/-- Two runs of blocks, the second starting where the first ends, are one run. -/
theorem blocksAfter_append {last middle blockNumber : Int} (first : last ≤ middle) (second : middle ≤ blockNumber) :
    blocksAfter last middle ++ blocksAfter middle blockNumber = blocksAfter last blockNumber := by
  obtain ⟨m, rfl⟩ := Int.le.dest first
  obtain ⟨n, rfl⟩ := Int.le.dest second
  have lengths : (last + m + n - last).toNat = m + n := by omega
  unfold blocksAfter
  rw [lengths, List.range_add, List.map_append, List.map_map]
  congr 1
  · rw [add_sub_cancel_left, Int.toNat_natCast]
  · rw [add_sub_cancel_left, Int.toNat_natCast]
    refine List.map_congr_left fun i _ => ?_
    simp only [Function.comp_apply]
    push_cast
    ring

/-- Once a highest block is known, the blocks emitted lead from it to the highest that is confirmed. -/
theorem flatten_emittedBlocks (confirmations highest : Int) (events : List Int) :
    (emittedBlocks confirmations (some highest) events).flatten =
      blocksAfter highest ((events.map (· - confirmations)).foldl max highest) := by
  induction events generalizing highest with
  | nil => exact (blocksAfter_self highest).symm
  | cons blockNumber events ih =>
    have grows (bound : Int) : bound ≤ (events.map (· - confirmations)).foldl max bound := by
      rw [List.foldl_max]
      exact Int.le_max_left _ _
    rw [emittedBlocks, createContinuousBlocksListener, List.map_cons, List.foldl_cons]
    dsimp only
    by_cases seen : blockNumber - confirmations ≤ highest
    · rw [if_pos seen, if_neg (by simp), ih, Int.max_eq_left seen]
    · have higher : highest ≤ blockNumber - confirmations := by omega
      have loads : (blocksAfter highest (blockNumber - confirmations)).length ≠ 0 := by
        rw [blocksAfter, List.length_map, List.length_range]
        omega
      rw [if_neg seen, if_pos loads, List.flatten_cons, ih, Int.max_eq_right higher,
        blocksAfter_append higher (grows _)]

/-- All blocks emitted, one array after the other, go up by one from the first confirmed block to the
highest. -/
theorem emittedBlocks_contiguous (confirmations : Int) (events : List Int) :
    (emittedBlocks confirmations none events).flatten.IsChain (fun a b => b = a + 1) ∧
      (emittedBlocks confirmations none events).flatten.Nodup ∧
      (emittedBlocks confirmations none events).flatten.head? = (events.map (· - confirmations)).head? ∧
      (emittedBlocks confirmations none events).flatten.getLast? = (events.map (· - confirmations)).max? := by
  cases events with
  | nil => exact ⟨.nil, List.nodup_nil, rfl, rfl⟩
  | cons first events =>
    have bound : first - confirmations ≤ (events.map (· - confirmations)).foldl max (first - confirmations) := by
      rw [List.foldl_max]
      exact Int.le_max_left _ _
    have single : [first - confirmations] = blocksAfter (first - confirmations - 1) (first - confirmations) := by
      simp [blocksAfter]
    have emitted : (emittedBlocks confirmations none (first :: events)).flatten =
        (⟨first - confirmations, (events.map (· - confirmations)).foldl max (first - confirmations)⟩ :
          BlockRangeFilter).blocks := by
      rw [emittedBlocks, createContinuousBlocksListener]
      dsimp only
      rw [if_pos (by simp), List.flatten_cons, flatten_emittedBlocks, single,
        blocksAfter_append (by omega) bound, BlockRangeFilter.blocks]
    rw [emitted, head?_blocks bound, getLast?_blocks bound]
    exact ⟨blocks_isChain _, blocks_nodup _, rfl, rfl⟩

/-- The provider serves one chain all the time. -/
structure Provider.Serves (provider : Provider) (chain : Chain) : Prop where
  getLogs : ∀ moment range, provider.getLogs moment range = some (chain.getLogs range)
  getBlock : ∀ moment n, 0 ≤ n → provider.getBlock moment n = some (chain.block n)
  getBlockByHash : ∀ moment n, 0 ≤ n →
    provider.getBlockByHash moment (chain.block n).hash = some (chain.block n)

section

variable {expectedParentHash : Option String}

theorem follows_iff {state : ProcessingState} {data : BlockAndBlockProofs} :
    (processBlockProofs expectedParentHash (some state) data).event.reorganized = false ↔
      data.block.parentHash = state.data.block.hash := by
  unfold processBlockProofs
  by_cases follows : data.block.parentHash = state.data.block.hash
  · simp [follows, ProcessingState.event, BlockProofsListenerEvent.reorganized]
  · simp [follows, ProcessingState.event, BlockProofsListenerEvent.reorganized]

theorem first_follows_iff {data : BlockAndBlockProofs} :
    (processBlockProofs expectedParentHash none data).event.reorganized = false ↔
      expectedParentHash = none ∨ expectedParentHash = some data.block.parentHash := by
  cases expectedParentHash with
  | none => simp [processBlockProofs, ProcessingState.event, BlockProofsListenerEvent.reorganized]
  | some expected =>
    unfold processBlockProofs
    by_cases isExpected : data.block.parentHash = expected
    · simp [isExpected, ProcessingState.event, BlockProofsListenerEvent.reorganized]
    · simp [isExpected, Ne.symm isExpected, ProcessingState.event, BlockProofsListenerEvent.reorganized]

@[simp] theorem processBlockProofs_data (state : Option ProcessingState) (data : BlockAndBlockProofs) :
    (processBlockProofs expectedParentHash state data).data = data := by
  unfold processBlockProofs
  split
  · split
    · rfl
    · split <;> rfl
  · split <;> rfl

/-- Nothing is reorganized after a block exactly if each block is the child of the one before. -/
theorem unreorganized_after_iff {state : ProcessingState} {blocks : List BlockAndBlockProofs} :
    (∀ next ∈ processingStates expectedParentHash (some state) blocks, next.event.reorganized = false) ↔
      (state.data :: blocks).IsChain fun a b => b.block.parentHash = a.block.hash := by
  induction blocks generalizing state with
  | nil => simp [processingStates]
  | cons data blocks ih =>
    rw [processingStates, List.forall_mem_cons, ih, follows_iff, List.isChain_cons_cons,
      processBlockProofs_data]

theorem unreorganized_iff {blocks : List BlockAndBlockProofs} :
    (∀ event ∈ mapProcessBlockProofs expectedParentHash blocks, event.reorganized = false) ↔
      (∀ first ∈ blocks.head?, expectedParentHash = none ∨
        expectedParentHash = some first.block.parentHash) ∧
      blocks.IsChain fun a b => b.block.parentHash = a.block.hash := by
  unfold mapProcessBlockProofs
  rw [List.forall_mem_map]
  cases blocks with
  | nil => simp [processingStates]
  | cons data blocks =>
    rw [processingStates, List.forall_mem_cons, unreorganized_after_iff, first_follows_iff,
      processBlockProofs_data]
    simp

end

section

variable {chain : Chain} {provider : Provider} (serves : provider.Serves chain) {chainId : String}

/-- What is emitted for a block of the chain. -/
def Chain.data (chain : Chain) (chainId : String) (n : Int) : BlockAndBlockProofs :=
  ⟨chain.block n, chain.blockProofs chainId n⟩

/-- Ranges that follow on from one another. -/
def Contiguous (next : Int) : List BlockRangeFilter → Prop
  | [] => True
  | range :: ranges => range.fromBlock = next ∧ range.fromBlock ≤ range.toBlock ∧
      Contiguous (range.toBlock + 1) ranges

include serves in
theorem load_of_serves {range : BlockRangeFilter} (moment : Nat) (nonneg : 0 ≤ range.fromBlock)
    (nonempty : range.fromBlock ≤ range.toBlock) :
    loadBlockProofsForRange provider chainId moment range = some (chain.load chainId range) := by
  unfold loadBlockProofsForRange Chain.load
  rw [serves.getLogs, serves.getBlock _ _ nonneg, serves.getBlock _ _ (by omega)]
  by_cases single : range.fromBlock = range.toBlock
  · simp [single]
  · simp [single]

include serves in
theorem mapLoadBlock_of_serves (moment : Nat) {numbers : List Int} (nonneg : ∀ n ∈ numbers, 0 ≤ n) :
    mapLoadBlockForBlockProofs provider moment (numbers.map (chain.blockProofs chainId)) =
      (numbers.map (chain.data chainId), true) := by
  induction numbers with
  | nil => rfl
  | cons n numbers ih =>
    rw [List.map_cons, mapLoadBlockForBlockProofs]
    have found : provider.getBlockByHash moment (chain.blockProofs chainId n).blockHash = some (chain.block n) :=
      serves.getBlockByHash moment n (nonneg n List.mem_cons_self)
    rw [found, ih fun m member => nonneg m (List.mem_cons_of_mem _ member)]
    rfl

/-- The numbers of the blocks that are loaded. -/
def Chain.loadedNumbers (chain : Chain) (ranges : List BlockRangeFilter) : List Int :=
  ranges.flatMap fun range => Ceramic.createBlockProofsLoaderForRange chain.anchored range.blocks

theorem Chain.loadedNumbers_cons (range : BlockRangeFilter) (ranges : List BlockRangeFilter) :
    chain.loadedNumbers (range :: ranges) =
      Ceramic.createBlockProofsLoaderForRange chain.anchored range.blocks ++ chain.loadedNumbers ranges :=
  List.flatMap_cons ..

include serves in
theorem loadedBlocks_of_serves {ranges : List BlockRangeFilter} {next : Int} (nonneg : 0 ≤ next)
    (contiguous : Contiguous next ranges) (moment : Nat) :
    loadedBlocks provider chainId moment ranges =
      (chain.loadedNumbers ranges).map (chain.data chainId) := by
  induction ranges generalizing next moment with
  | nil => rfl
  | cons range ranges ih =>
    obtain ⟨rfl, nonempty, rest⟩ := contiguous
    have inRange : ∀ n ∈ Ceramic.createBlockProofsLoaderForRange chain.anchored range.blocks, 0 ≤ n := by
      intro n member
      have := mem_blocks.mp (mem_of_mem_loaded member)
      omega
    rw [loadedBlocks, load_of_serves serves moment nonneg nonempty]
    dsimp only
    rw [chain.load_eq chainId nonneg nonempty, mapLoadBlock_of_serves serves moment inRange]
    rw [if_pos rfl, ih (by omega) rest, Chain.loadedNumbers_cons, List.map_append]

theorem blockRanges_contiguous (confirmations highest : Int) (events : List Int) :
    Contiguous (highest + 1) (blockRanges confirmations (some highest) events) := by
  induction events generalizing highest with
  | nil => trivial
  | cons blockNumber events ih =>
    rw [blockRanges, createContinuousBlocksListener]
    dsimp only
    by_cases seen : blockNumber - confirmations ≤ highest
    · rw [if_pos seen]
      exact ih highest
    · rw [if_neg seen]
      have range : blocksAfter highest (blockNumber - confirmations) =
          (⟨highest + 1, blockNumber - confirmations⟩ : BlockRangeFilter).blocks := by
        unfold BlockRangeFilter.blocks
        rw [Int.add_sub_cancel]
      dsimp only
      rw [range, head?_blocks (by dsimp only; omega), getLast?_blocks (by dsimp only; omega)]
      exact ⟨rfl, by dsimp only; omega, ih _⟩

/-- On a chain only the next block has a block as its parent. -/
theorem Chain.parent_iff {a b : Int} (nonnegA : 0 ≤ a) (nonnegB : 0 ≤ b) :
    (chain.block b).parentHash = (chain.block a).hash ↔ b = a + 1 := by
  constructor
  · intro isParent
    by_cases genesis : b = 0
    · subst genesis
      exact absurd isParent (chain.genesis a nonnegA)
    · have before := chain.linked (b - 1) (by omega)
      rw [Int.sub_add_cancel, isParent] at before
      have := chain.unique a (b - 1) nonnegA (by omega) before
      omega
  · rintro rfl
    exact chain.linked a nonnegA

theorem Chain.mem_loadedNumbers {ranges : List BlockRangeFilter} {next n : Int}
    (contiguous : Contiguous next ranges) (member : n ∈ chain.loadedNumbers ranges) : next ≤ n := by
  induction ranges generalizing next with
  | nil => cases member
  | cons range ranges ih =>
    obtain ⟨rfl, nonempty, rest⟩ := contiguous
    rw [chain.loadedNumbers_cons] at member
    rcases List.mem_append.mp member with first | later
    · exact (mem_blocks.mp (mem_of_mem_loaded first)).1
    · have := ih rest later
      omega

/-- The loaded blocks go up by one exactly if each range is loaded whole. -/
theorem Chain.loadedNumbers_isChain {ranges : List BlockRangeFilter} {next : Int} (nonneg : 0 ≤ next)
    (contiguous : Contiguous next ranges) :
    ((chain.loadedNumbers ranges).IsChain (fun a b => b = a + 1) ↔
      ∀ range ∈ ranges, chain.LoadsAll range) ∧
    ((∀ range ∈ ranges, chain.LoadsAll range) → ∀ n ∈ (chain.loadedNumbers ranges).head?, n = next) := by
  induction ranges generalizing next with
  | nil => simp [loadedNumbers]
  | cons range ranges ih =>
    obtain ⟨rfl, nonempty, rest⟩ := contiguous
    obtain ⟨restChain, restHead⟩ := ih (by omega) rest
    obtain ⟨whole, isChain⟩ := chain.loaded_iff nonneg nonempty
    rw [chain.loadedNumbers_cons, List.isChain_append, isChain, restChain, List.forall_mem_cons]
    refine ⟨⟨fun ⟨first, later, _⟩ => ⟨first, later⟩, fun ⟨first, later⟩ => ⟨first, later, ?_⟩⟩, ?_⟩
    · intro last isLast head isHead
      rw [whole.mpr first, getLast?_blocks nonempty] at isLast
      rw [restHead later head isHead, Option.some.inj isLast]
    · rintro ⟨first, later⟩ head isHead
      rw [whole.mpr first, List.head?_append, head?_blocks nonempty] at isHead
      exact (Option.some.inj isHead).symm

/-- The first block event is for a single block. -/
theorem blockRanges_cons (confirmations blockNumber : Int) (events : List Int) :
    blockRanges confirmations none (blockNumber :: events) =
      ⟨blockNumber - confirmations, blockNumber - confirmations⟩ ::
        blockRanges confirmations (some (blockNumber - confirmations)) events := rfl

include serves in
/-- On a chain without reorganisations, none is reported exactly if the first block has the
expected parent and each range is loaded whole. -/
theorem unreorganized_of_serves {confirmations : Int} {expectedParentHash : Option String}
    {events : List Int} (confirmed : ∀ blockNumber ∈ events, confirmations ≤ blockNumber) :
    (∀ event ∈ createBlockProofsListener provider chainId confirmations expectedParentHash events,
      event.reorganized = false) ↔
    (∀ first ∈ events.head?, expectedParentHash = none ∨
      expectedParentHash = some (chain.block (first - confirmations)).parentHash) ∧
    ∀ range ∈ blockRanges confirmations none events, chain.LoadsAll range := by
  unfold createBlockProofsListener
  rw [unreorganized_iff]
  cases events with
  | nil => simp [blockRanges, loadedBlocks]
  | cons first events =>
    have nonneg : 0 ≤ first - confirmations := by
      have := confirmed first List.mem_cons_self
      omega
    have contiguous : Contiguous (first - confirmations) (blockRanges confirmations none (first :: events)) :=
      ⟨rfl, le_refl _, blockRanges_contiguous confirmations _ events⟩
    rw [loadedBlocks_of_serves serves nonneg contiguous, List.isChain_map]
    have links : (chain.loadedNumbers (blockRanges confirmations none (first :: events))).IsChain
        (fun a b => (chain.data chainId b).block.parentHash = (chain.data chainId a).block.hash) ↔
        (chain.loadedNumbers (blockRanges confirmations none (first :: events))).IsChain
          fun a b => b = a + 1 := by
      have inRange : ∀ n ∈ chain.loadedNumbers (blockRanges confirmations none (first :: events)), 0 ≤ n :=
        fun n member => Int.le_trans nonneg (chain.mem_loadedNumbers contiguous member)
      constructor
      · refine fun isChain => isChain.imp_of_mem_imp fun a b memberA memberB link => ?_
        exact (chain.parent_iff (inRange a memberA) (inRange b memberB)).mp link
      · refine fun isChain => isChain.imp_of_mem_imp fun a b memberA memberB next => ?_
        exact (chain.parent_iff (inRange a memberA) (inRange b memberB)).mpr next
    rw [links, (chain.loadedNumbers_isChain nonneg contiguous).1]
    have head : (chain.loadedNumbers (blockRanges confirmations none (first :: events))).head? =
        some (first - confirmations) := by
      have single : Ceramic.createBlockProofsLoaderForRange chain.anchored
          (⟨first - confirmations, first - confirmations⟩ : BlockRangeFilter).blocks =
            (⟨first - confirmations, first - confirmations⟩ : BlockRangeFilter).blocks :=
        (chain.loaded_iff nonneg (le_refl _)).1.mpr
          ⟨fun n after before => absurd after (by dsimp only at before ⊢; omega), rfl⟩
      rw [blockRanges_cons, chain.loadedNumbers_cons, single, List.head?_append, head?_blocks (le_refl _)]
      rfl
    rw [List.head?_map, head]
    simp [Chain.data]

end

section

variable (expectedParentHash : Option String) (blocks : List Block)

/-- The block at an index is the child of the one before it, or the first one has the expected
parent. -/
def FollowsOn : Nat → Prop
  | 0 => ∀ first ∈ blocks[0]?, expectedParentHash = none ∨ expectedParentHash = some first.parentHash
  | i + 1 => ∀ before ∈ blocks[i]?, ∀ block ∈ blocks[i + 1]?, block.parentHash = before.hash

/-- The hash of the last block before an index that follows on, or the expected one. -/
inductive LastSeen : Nat → String → Prop where
  | expected (hash : String) : expectedParentHash = some hash → LastSeen 0 hash
  | followed (i : Nat) (block : Block) : FollowsOn expectedParentHash blocks i → blocks[i]? = some block →
      LastSeen (i + 1) block.hash
  | kept (i : Nat) (hash : String) : ¬FollowsOn expectedParentHash blocks i → LastSeen i hash →
      LastSeen (i + 1) hash

/-- A block that does not follow on comes right after one that does, or one with the hash seen
last. -/
def ReorganisationsApart : Prop :=
  ∀ i block, blocks[i]? = some block → ¬FollowsOn expectedParentHash blocks (i + 1) →
    FollowsOn expectedParentHash blocks i ∨ LastSeen expectedParentHash blocks i block.hash

/-- An event whose block is not the child of the block of the event before it is marked, with the
hash of that block as the expected one. -/
def FlagsUnlinked (events : List BlockProofsListenerEvent) : Prop :=
  events.IsChain fun before event => event.data.block.parentHash ≠ before.data.block.hash →
    event = .reorganizedBlockEvent event.data before.data.block.hash

variable {expectedParentHash} {blocks}

theorem LastSeen.unique {i : Nat} {hash hash' : String} (first : LastSeen expectedParentHash blocks i hash)
    (second : LastSeen expectedParentHash blocks i hash') : hash = hash' := by
  induction first with
  | expected hash isExpected =>
    cases second with
    | expected _ isExpected' => exact Option.some.inj (isExpected.symm.trans isExpected')
  | followed i block follows found =>
    cases second with
    | followed _ block' _ found' => rw [Option.some.inj (found.symm.trans found')]
    | kept _ _ unfollowed _ => exact absurd follows unfollowed
  | kept i hash unfollowed _ ih =>
    cases second with
    | followed _ _ follows _ => exact absurd follows unfollowed
    | kept _ _ _ before => exact ih before

theorem processingStates_zero (state : Option ProcessingState) (data : List BlockAndBlockProofs) :
    (processingStates expectedParentHash state data)[0]? =
      data[0]?.map (processBlockProofs expectedParentHash state) := by
  cases data <;> rfl

theorem processingStates_succ (state : Option ProcessingState) (data : List BlockAndBlockProofs) (i : Nat) :
    (processingStates expectedParentHash state data)[i + 1]? =
      (processingStates expectedParentHash state data)[i]?.bind fun before =>
        data[i + 1]?.map (processBlockProofs expectedParentHash (some before)) := by
  induction data generalizing state i with
  | nil => rfl
  | cons first data ih =>
    rw [processingStates, List.getElem?_cons_succ, List.getElem?_cons_succ]
    cases i with
    | zero => rw [processingStates_zero, List.getElem?_cons_zero, Option.bind_some]
    | succ i => rw [ih, List.getElem?_cons_succ]

/-- What the state after a block says of it. -/
structure StateSpec (expectedParentHash : Option String) (data : List BlockAndBlockProofs) (i : Nat)
    (state : ProcessingState) : Prop where
  found : data[i]? = some state.data
  status : FollowsOn expectedParentHash (data.map (·.block)) i ∧ state.status = .process ∧
      state.previousHash = state.data.block.hash ∨
    ¬FollowsOn expectedParentHash (data.map (·.block)) i ∧ state.status = .reorganized ∧
      LastSeen expectedParentHash (data.map (·.block)) i state.previousHash

theorem state_spec {data : List BlockAndBlockProofs} {i : Nat} {state : ProcessingState}
    (found : (processingStates expectedParentHash none data)[i]? = some state) :
    StateSpec expectedParentHash data i state := by
  induction i generalizing state with
  | zero =>
    rw [processingStates_zero] at found
    obtain ⟨first, isFirst, rfl⟩ := Option.map_eq_some_iff.mp found
    refine ⟨by rw [isFirst, processBlockProofs_data], ?_⟩
    have follows : FollowsOn expectedParentHash (data.map (·.block)) 0 ↔
        expectedParentHash = none ∨ expectedParentHash = some first.block.parentHash := by
      simp [FollowsOn, isFirst]
    rw [follows]
    cases expectedParentHash with
    | none => exact .inl ⟨.inl rfl, rfl, rfl⟩
    | some expected =>
      unfold processBlockProofs
      by_cases isExpected : first.block.parentHash = expected
      · simp [isExpected]
      · simp [isExpected, Ne.symm isExpected, LastSeen.expected expected rfl]
  | succ i ih =>
    rw [processingStates_succ] at found
    obtain ⟨before, isBefore, found⟩ := Option.bind_eq_some_iff.mp found
    obtain ⟨block, isBlock, rfl⟩ := Option.map_eq_some_iff.mp found
    obtain ⟨isData, known⟩ := ih isBefore
    refine ⟨by rw [isBlock, processBlockProofs_data], ?_⟩
    have follows : FollowsOn expectedParentHash (data.map (·.block)) (i + 1) ↔
        block.block.parentHash = before.data.block.hash := by
      simp [FollowsOn, isData, isBlock]
    rw [follows]
    unfold processBlockProofs
    by_cases isChild : block.block.parentHash = before.data.block.hash
    · simp [isChild]
    · have seen : LastSeen expectedParentHash (data.map (·.block)) (i + 1) before.previousHash := by
        rcases known with ⟨followed, _, same⟩ | ⟨unfollowed, _, seen⟩
        · rw [same]
          exact .followed i before.data.block followed (by simp [isData])
        · exact .kept i _ unfollowed seen
      simp [isChild, seen]

/-- The hash to report next is that of the block exactly if the block follows on or has the hash
seen last. -/
theorem StateSpec.previousHash_iff {data : List BlockAndBlockProofs} {i : Nat} {state : ProcessingState}
    (spec : StateSpec expectedParentHash data i state) : state.previousHash = state.data.block.hash ↔
      FollowsOn expectedParentHash (data.map (·.block)) i ∨
        LastSeen expectedParentHash (data.map (·.block)) i state.data.block.hash := by
  rcases spec.status with ⟨follows, _, same⟩ | ⟨unfollowed, _, seen⟩
  · exact iff_of_true same (.inl follows)
  · constructor
    · intro same
      exact .inr (same ▸ seen)
    · rintro (follows | seen')
      · exact absurd follows unfollowed
      · exact seen.unique seen'

theorem flags_iff {state : ProcessingState} {data : BlockAndBlockProofs} :
    (data.block.parentHash ≠ state.data.block.hash →
      (processBlockProofs expectedParentHash (some state) data).event =
        .reorganizedBlockEvent data state.data.block.hash) ↔
    (data.block.parentHash ≠ state.data.block.hash → state.previousHash = state.data.block.hash) := by
  refine forall_congr' fun unlinked => ?_
  simp [processBlockProofs, unlinked, ProcessingState.event]

end

@[simp] theorem event_data (state : ProcessingState) : state.event.data = state.data := by
  unfold ProcessingState.event
  split <;> rfl

theorem length_processingStates {expectedParentHash : Option String} (state : Option ProcessingState)
    (data : List BlockAndBlockProofs) :
    (processingStates expectedParentHash state data).length = data.length := by
  induction data generalizing state with
  | nil => rfl
  | cons first data ih => rw [processingStates, List.length_cons, List.length_cons, ih]

/-- Each unlinked block is reported with the hash before it exactly if reorganisations stay apart. -/
theorem flagsUnlinked_iff {expectedParentHash : Option String} {data : List BlockAndBlockProofs} :
    FlagsUnlinked (mapProcessBlockProofs expectedParentHash data) ↔
      ReorganisationsApart expectedParentHash (data.map (·.block)) := by
  have reported {i : Nat} {state next : ProcessingState}
      (isState : (processingStates expectedParentHash none data)[i]? = some state)
      (isNext : (processingStates expectedParentHash none data)[i + 1]? = some next) :
      (next.event.data.block.parentHash ≠ state.event.data.block.hash →
        next.event = .reorganizedBlockEvent next.event.data state.event.data.block.hash) ↔
      (¬FollowsOn expectedParentHash (data.map (·.block)) (i + 1) →
        FollowsOn expectedParentHash (data.map (·.block)) i ∨
          LastSeen expectedParentHash (data.map (·.block)) i state.data.block.hash) := by
    have spec := state_spec isState
    have specNext := state_spec isNext
    have linked : FollowsOn expectedParentHash (data.map (·.block)) (i + 1) ↔
        next.data.block.parentHash = state.data.block.hash := by
      simp [FollowsOn, spec.found, specNext.found]
    rw [processingStates_succ, isState, Option.bind_some, specNext.found, Option.map_some] at isNext
    rw [linked, ← spec.previousHash_iff, ← flags_iff, event_data, event_data, Option.some.inj isNext]
  unfold FlagsUnlinked mapProcessBlockProofs
  rw [List.isChain_map, List.isChain_iff_getElem]
  constructor
  · intro flags i block isBlock unfollowed
    have inside : i + 1 < (processingStates expectedParentHash none data).length := by
      rw [length_processingStates]
      by_contra outside
      refine unfollowed fun before _ block isBlock => ?_
      have none : (data.map (·.block))[i + 1]? = none := List.getElem?_eq_none (by simpa using outside)
      simp [none] at isBlock
    have isState := List.getElem?_eq_getElem (Nat.lt_of_succ_lt inside)
    rw [List.getElem?_map, (state_spec isState).found, Option.map_some] at isBlock
    obtain rfl := Option.some.inj isBlock
    exact (reported isState (List.getElem?_eq_getElem inside)).mp (flags i inside) unfollowed
  · intro apart i inside
    have isState := List.getElem?_eq_getElem (Nat.lt_of_succ_lt inside)
    have isNext := List.getElem?_eq_getElem inside
    refine (reported isState isNext).mpr (apart i _ ?_)
    simp [(state_spec isState).found]

/-- On a chain without reorganisations the listener reports none, exactly if the expected parent is
that of the first block and each range is loaded whole; of any loaded blocks it reports each
unlinked one with the hash before it, exactly if no two reorganisations follow one another. -/
theorem listener_reports_reorganisations {chain : Chain} {provider : Provider}
    (serves : provider.Serves chain) (chainId : String) (confirmations : Int)
    (expectedParentHash : Option String) (events : List Int)
    (confirmed : ∀ blockNumber ∈ events, confirmations ≤ blockNumber) :
    ((∀ event ∈ createBlockProofsListener provider chainId confirmations expectedParentHash events,
        event.reorganized = false) ↔
      (∀ first ∈ events.head?, expectedParentHash = none ∨
        expectedParentHash = some (chain.block (first - confirmations)).parentHash) ∧
      ∀ range ∈ blockRanges confirmations none events, chain.LoadsAll range) ∧
    ∀ (forking : Provider) (confirmations : Int) (expectedParentHash : Option String) (events : List Int),
      FlagsUnlinked (createBlockProofsListener forking chainId confirmations expectedParentHash events) ↔
        ReorganisationsApart expectedParentHash
          ((loadedBlocks forking chainId 0 (blockRanges confirmations none events)).map (·.block)) :=
  ⟨unreorganized_of_serves serves confirmed, fun _ _ _ _ => flagsUnlinked_iff⟩

def unaryProvider : Provider where
  getLogs _ range := some ((unaryChain []).getLogs range)
  getBlock _ n := some (unaryBlock n)
  getBlockByHash _ hash := some (unaryBlock ((hash.length : Int) - 1))

theorem unaryProvider_serves : unaryProvider.Serves (unaryChain []) where
  getLogs _ _ := rfl
  getBlock _ _ _ := rfl
  getBlockByHash moment n nonneg := by
    have length : ((unaryChain []).block n).hash.length = (n + 1).toNat := by
      simp [unaryChain, unaryBlock]
    have number : (((n + 1).toNat : Nat) : Int) - 1 = n := by omega
    show some (unaryBlock ((((unaryChain []).block n).hash.length : Int) - 1)) = _
    rw [length, number]
    rfl

/-- The next block event comes for the next block. -/
theorem listener_reports_reorganisations_unary :
    blockRanges 20 none [24, 25] = [⟨4, 4⟩, ⟨5, 5⟩] ∧
    ∀ event ∈ createBlockProofsListener unaryProvider "eip155:1" 20 none [24, 25],
      event.reorganized = false := by
  have ranges : blockRanges 20 none [24, 25] = [⟨4, 4⟩, ⟨5, 5⟩] := by decide
  refine ⟨ranges,
    (listener_reports_reorganisations unaryProvider_serves "eip155:1" 20 none [24, 25] (by decide)).1.mpr
      ⟨by simp, ?_⟩⟩
  intro range member
  rw [ranges] at member
  rcases List.mem_cons.mp member with rfl | member
  · exact ⟨fun n after before => absurd after (by dsimp only at before ⊢; omega), rfl⟩
  · obtain rfl := List.mem_singleton.mp member
    exact ⟨fun n after before => absurd after (by dsimp only at before ⊢; omega), rfl⟩

/-- Three blocks none of which is the child of another. -/
def forkedBlock (n : Int) : Block :=
  if n = 1 then ⟨1, "0xa1", "0xa0"⟩ else if n = 2 then ⟨2, "0xb2", "0xb1"⟩ else ⟨3, "0xc3", "0xc2"⟩

def forkingProvider : Provider where
  getLogs _ _ := some []
  getBlock _ n := some (forkedBlock n)
  getBlockByHash _ hash := some (forkedBlock (if hash = "0xa1" then 1 else if hash = "0xb2" then 2 else 3))

/-- A skipped block without anchors is taken for a reorganisation, and the second of two
reorganisations is reported with the hash of the block before the first. -/
theorem listener_misreports :
    (¬∀ (chain : Chain) (provider : Provider) (confirmations : Int) (events : List Int),
      provider.Serves chain → (∀ blockNumber ∈ events, confirmations ≤ blockNumber) →
        ∀ event ∈ createBlockProofsListener provider "eip155:1" confirmations none events,
          event.reorganized = false) ∧
    ¬∀ (provider : Provider) (confirmations : Int) (events : List Int),
      FlagsUnlinked (createBlockProofsListener provider "eip155:1" confirmations none events) := by
  constructor
  · intro unreported
    have flagged := unreported (unaryChain []) unaryProvider 20 [24, 27] unaryProvider_serves (by decide)
    revert flagged
    decide
  · intro flags
    have flagged := List.isChain_iff_getElem.mp (flags forkingProvider 20 [21, 22, 23]) 1 (by decide)
    revert flagged
    decide

end AnchorListener

end Ceramic
