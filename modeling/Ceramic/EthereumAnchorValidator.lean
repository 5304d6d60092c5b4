import Ceramic.CidParsing
import Ceramic.IpldRecordsCache
import Ceramic.Stream
import Ceramic.Library.Transition

/-! The check that an anchor proof is backed by a transaction on its chain, and what the check's caches hold
while the chain grows. -/
namespace Ceramic.Ethereum

def BLOCK_THRESHHOLDS : List (String × Nat) :=
  [("eip155:1", 16688195), ("eip155:3", 1000000000), ("eip155:5", 8498671), ("eip155:100", 26509835),
    ("eip155:11155111", 5518585), ("eip155:1337", 1)]

def ANCHOR_CONTRACT_ADDRESS : String := "0x231055A0852D67C7107Ad0d0DFeab60278fE6AdC"

def BASE_CHAIN_ID : String := "eip155"

/-- The text of a chain's id. -/
def caip2 (chainId : Nat) : String := BASE_CHAIN_ID ++ ":" ++ toString chainId

def MAX_PROVIDERS_COUNT : Nat := 100

def TRANSACTION_CACHE_SIZE : Nat := 50

def BLOCK_CACHE_SIZE : Nat := 50

def V1_PROOF_TYPE : String := "f(bytes32)"

def base16Alphabet : List Char := "0123456789abcdef".toList

def fromBase16 (text : List Char) : Except JsError (List UInt8) := rfc4648Decode "base16" 4 base16Alphabet text

/-- The text of the digest. -/
def convertCidToEthHash (cid : Cid) : String :=
  "0x" ++ String.ofList (rfc4648Encode 4 base16Alphabet (varintDecode (varintDecode cid.multihash).2).2)

structure EthNetwork where
  network : String
  endpoint : Option String := none

def ETH_CHAIN_ID_MAPPINGS : List (String × EthNetwork) :=
  [("eip155:1", ⟨"mainnet", none⟩), ("eip155:3", ⟨"ropsten", none⟩), ("eip155:4", ⟨"rinkeby", none⟩),
    ("eip155:5", ⟨"goerli", none⟩), ("eip155:100", ⟨"mainnet", some "https://gnosis-mainnet.public.blastapi.io"⟩),
    ("eip155:11155111", ⟨"sepolia", none⟩)]

/-- What was sent, which does not change when the transaction is mined. -/
structure EthTransaction where
  data : String
  toAddress : Option String
  deriving DecidableEq, Repr

structure EthBlock where
  hash : String
  number : Nat
  timestamp : Nat
  deriving DecidableEq, Repr

structure TransactionResponse extends EthTransaction where
  blockHash : Option String
  blockNumber : Option Nat
  deriving DecidableEq, Repr

inductive TransactionStatus where
  | unknown
  | pending (transaction : EthTransaction)
  | mined (transaction : EthTransaction) (block : EthBlock)
  deriving DecidableEq, Repr

namespace TransactionStatus

/-- A pending transaction has no block. -/
def response : TransactionStatus → Option TransactionResponse
  | .unknown => none
  | .pending transaction => some ⟨transaction, none, none⟩
  | .mined transaction block => some ⟨transaction, some block.hash, some block.number⟩

inductive Evolves : TransactionStatus → TransactionStatus → Prop where
  | same (status : TransactionStatus) : Evolves status status
  | seen (status : TransactionStatus) : Evolves .unknown status
  | mined (transaction : EthTransaction) (block : EthBlock) :
      Evolves (.pending transaction) (.mined transaction block)

end TransactionStatus

/-- A chain at some moment. -/
structure Chain where
  transactions : String → TransactionStatus
  blocks : String → Option EthBlock
  latest : EthBlock
  included : ∀ txHash transaction block, transactions txHash = .mined transaction block → blocks block.hash = some block

namespace Chain

def getTransaction (chain : Chain) (txHash : String) : Option TransactionResponse :=
  (chain.transactions txHash).response

def getBlock (chain : Chain) : Option String → Option EthBlock
  | none => some chain.latest
  | some blockHash => chain.blocks blockHash

structure Evolves (before after : Chain) : Prop where
  transactions : ∀ txHash, (before.transactions txHash).Evolves (after.transactions txHash)
  blocks : ∀ blockHash block, before.blocks blockHash = some block → after.blocks blockHash = some block

end Chain

/-- The chains by their numbers. -/
abbrev Chains := Nat → Chain

def Chains.Evolves (before after : Chains) : Prop := ∀ n, (before n).Evolves (after n)

inductive Provider where
  | staticJsonRpc (endpoint : String)
  | default (network : String)
  deriving DecidableEq, Repr

/-- How a request to a provider ends; it may also give null for what there is. -/
inductive Reply where
  | fails (e : JsError)
  | missing
  | answers

def Reply.of {α : Type} : Reply → Option α → Except JsError (Option α)
  | .fails e, _ => .error e
  | .missing, _ => .ok none
  | .answers, answer => .ok answer

theorem Reply.answer_of_some {α : Type} {reply : Reply} {answer : Option α} {a : α}
    (replied : reply.of answer = .ok (some a)) : answer = some a := by
  cases reply with
  | fails e => cases replied
  | missing => cases replied
  | answers => exact Except.ok.inj replied

def stripPrefix : List Char → List Char
  | '0' :: 'x' :: '0' :: rest => rest
  | '0' :: 'x' :: rest => rest
  | text => text

def getCidFromV0Transaction (data : String) : Except JsError Cid := do
  let withoutPrefix := stripPrefix data.toList
  let (_, cid) ← Cid.decode (← fromBase16 (withoutPrefix.drop 1))
  return cid

section

-- `decodeFunctionData` gives the argument of `anchorDagCbor` that the data of a transaction has.
variable (decodeFunctionData : String → Except JsError String)

def getCidFromV1Transaction (data : String) : Except JsError Cid := do
  let rootCID ← decodeFunctionData data
  let digest ← fromBase16 (rootCID.toList.drop 2)
  return .v1 dagCbor (createMultihash sha2_256 digest)

def getCidFromTransaction (txType : Option String) (data : String) : Except JsError Cid :=
  if txType = some V1_PROOF_TYPE then getCidFromV1Transaction decodeFunctionData data
  else getCidFromV0Transaction data

end

/-- `ethereumRpcEndpoint` is empty where none is configured. -/
structure EthereumAnchorValidator where
  ethereumRpcEndpoint : String
  _chainId : Option String
  providersCache : LruCache String Provider
  _transactionCache : LruCache String (Option TransactionResponse)
  _blockCache : LruCache (Option String) (Option EthBlock)

/-- One call: the proof, and the chains and the provider's replies when it asks for the transaction and when
it asks for the block. -/
structure Inquiry where
  proof : AnchorProof
  transactionAsked : Chains
  transactionReply : Reply
  blockAsked : Chains
  blockReply : Reply

/-- The chains grow from the last call to this one and while it is under way. -/
structure Inquiry.Follows (now : Chains) (inquiry : Inquiry) : Prop where
  asked : now.Evolves inquiry.transactionAsked
  later : inquiry.transactionAsked.Evolves inquiry.blockAsked

namespace EthereumAnchorValidator

def new (ethereumRpcEndpoint : String) : EthereumAnchorValidator where
  ethereumRpcEndpoint
  _chainId := none
  providersCache := .empty _ _ MAX_PROVIDERS_COUNT
  _transactionCache := .empty _ _ TRANSACTION_CACHE_SIZE
  _blockCache := .empty _ _ BLOCK_CACHE_SIZE

/-- A provider that was not cached. -/
def makeProvider (ethereumRpcEndpoint chain : String) : Except JsError Provider :=
  let ethNetwork := ETH_CHAIN_ID_MAPPINGS.lookup chain
  let endpoint := if ethereumRpcEndpoint ≠ "" then some ethereumRpcEndpoint else ethNetwork.bind EthNetwork.endpoint
  match endpoint, ethNetwork with
  | some endpoint, _ => .ok (.staticJsonRpc endpoint)
  | none, none => .error ⟨"No ethereum provider available for chainId " ++ chain⟩
  | none, some ethNetwork => .ok (.default ethNetwork.network)

def _getEthProvider (validator : EthereumAnchorValidator) (chain : String) :
    Except JsError Provider × EthereumAnchorValidator :=
  match validator.providersCache.find? chain with
  | some provider => (.ok provider, { validator with providersCache := validator.providersCache.touch chain })
  | none =>
    if !BASE_CHAIN_ID.toList.isPrefixOf chain.toList then
      (.error ⟨"Unsupported chainId '" ++ chain ++ "' - must be eip155 namespace"⟩, validator)
    else if validator._chainId.any (· ≠ chain) then
      (.error ⟨"Unsupported chainId '" ++ chain ++ "'. Configured anchor service only supports '" ++
        validator._chainId.getD "" ++ "'"⟩, validator)
    else match makeProvider validator.ethereumRpcEndpoint chain with
      | .error e => (.error e, validator)
      | .ok provider => (.ok provider, { validator with providersCache := validator.providersCache.set chain provider })

section

-- The number of the chain that a provider serves.
variable (serves : Provider → Nat)

/-- `unreachable` is the error of a provider that does not tell its network. -/
def init (validator : EthereumAnchorValidator) (unreachable : Option JsError) (chainId : Option String) :
    Except JsError Unit × EthereumAnchorValidator :=
  match chainId.filter (· ≠ "") with
  | none => (.ok (), validator)
  | some chainId =>
    match validator._getEthProvider chainId, unreachable with
    | (.error e, validator), _ => (.error e, validator)
    | (.ok _, validator), some e => (.error e, validator)
    | (.ok provider, validator), none =>
      let provider_chain := caip2 (serves provider)
      if chainId ≠ provider_chain then
        (.error ⟨"Configured eth provider is for chainId " ++ provider_chain ++
          ", but our anchor service uses chain " ++ chainId⟩, validator)
      else (.ok (), { validator with _chainId := some chainId })

/-- `reply` is the provider's, if it is asked. -/
def _getTransaction (validator : EthereumAnchorValidator) (reply : Except JsError (Option TransactionResponse))
    (txHash : String) : Except JsError (Option TransactionResponse) × EthereumAnchorValidator :=
  let (tx, transactionCache) := validator._transactionCache.getOrAsk txHash reply
  (tx, { validator with _transactionCache := transactionCache })

/-- The block, which is kept under the hash that the transaction tells. -/
def getBlock (validator : EthereumAnchorValidator) (reply : Except JsError (Option EthBlock))
    (blockHash : Option String) : Except JsError (Option EthBlock) × EthereumAnchorValidator :=
  let (block, blockCache) := validator._blockCache.getOrAsk blockHash reply
  (block, { validator with _blockCache := blockCache })

/-- The advice that ends an error's text. -/
def hint (validator : EthereumAnchorValidator) : String :=
  if validator.ethereumRpcEndpoint = "" then ". Try providing an ethereum rpc endpoint" else ""

def shown (value : Option String) : String := value.getD "null"

def _getTransactionAndBlockInfo (validator : EthereumAnchorValidator) (inquiry : Inquiry) (txHash : String) :
    Except JsError (TransactionResponse × EthBlock) × EthereumAnchorValidator :=
  match validator._getEthProvider inquiry.proof.chainId with
  | (.error e, validator) => (.error e, validator)
  | (.ok provider, validator) =>
    let transaction := (inquiry.transactionAsked (serves provider)).getTransaction txHash
    match validator._getTransaction (inquiry.transactionReply.of transaction) txHash with
    | (.error e, validator) => (.error e, validator)
    | (.ok none, validator) =>
      (.error ⟨"Failed to load transaction data for transaction " ++ txHash ++ validator.hint⟩, validator)
    | (.ok (some transaction), validator) =>
      let block := (inquiry.blockAsked (serves provider)).getBlock transaction.blockHash
      match validator.getBlock (inquiry.blockReply.of block) transaction.blockHash with
      | (.error e, validator) => (.error e, validator)
      | (.ok none, validator) =>
        (.error ⟨"Failed to load transaction data for block with block number " ++
          shown (transaction.blockNumber.map toString) ++ " and block hash " ++ shown transaction.blockHash ++
          validator.hint⟩, validator)
      | (.ok (some block), validator) => (.ok (transaction, block), validator)

variable (decodeFunctionData : String → Except JsError String)

/-- In a comparison null is zero; nothing is at most an undefined threshold. -/
def atMostThreshold (blockNumber : Option Nat) (chainId : String) : Bool :=
  (BLOCK_THRESHHOLDS.lookup chainId).any fun threshold => blockNumber.getD 0 ≤ threshold

/-- What `validateChainInclusion` checks of the transaction and the block. -/
def checkInclusion (anchorProof : AnchorProof) (txResponse : TransactionResponse) (block : EthBlock) :
    Except JsError Nat := do
  let txCid ← getCidFromTransaction decodeFunctionData anchorProof.txType txResponse.data
  if txCid ≠ anchorProof.root then
    throw ⟨"The root CID " ++ anchorProof.root.toString ++ " is not in the transaction"⟩
  if atMostThreshold txResponse.blockNumber anchorProof.chainId then return block.timestamp
  if anchorProof.txType ≠ some V1_PROOF_TYPE then
    throw ⟨"Any anchor proofs created after block " ++
      ((BLOCK_THRESHHOLDS.lookup anchorProof.chainId).map toString).getD "undefined" ++
      " must include the txType field. Anchor txn blockNumber: " ++ shown (txResponse.blockNumber.map toString)⟩
  if txResponse.toAddress ≠ some ANCHOR_CONTRACT_ADDRESS then
    throw ⟨"Anchor was created using address " ++ shown txResponse.toAddress ++
      ". This is not the official anchoring contract address " ++ ANCHOR_CONTRACT_ADDRESS⟩
  return block.timestamp

def validateChainInclusion (validator : EthereumAnchorValidator) (inquiry : Inquiry) :
    Except JsError Nat × EthereumAnchorValidator :=
  match validator._getTransactionAndBlockInfo serves inquiry (convertCidToEthHash inquiry.proof.txHash) with
  | (.error e, validator) => (.error e, validator)
  | (.ok (txResponse, block), validator) =>
    (checkInclusion decodeFunctionData inquiry.proof txResponse block, validator)

end

section

variable (decodeFunctionData : String → Except JsError String)

/-- The data of a transaction has a root in it in the format that the type of a proof tells. -/
inductive Carries (data : String) : Option String → Cid → Prop where
  | v1 {rootCID : String} {digest : List UInt8} : decodeFunctionData data = .ok rootCID →
      fromBase16 (rootCID.toList.drop 2) = .ok digest →
      Carries data (some V1_PROOF_TYPE) (.v1 dagCbor (createMultihash sha2_256 digest))
  | v0 {txType : Option String} {bytes : List UInt8} {version : Nat} {root : Cid} : txType ≠ some V1_PROOF_TYPE →
      fromBase16 ((stripPrefix data.toList).drop 1) = .ok bytes → Cid.decode bytes = .ok (version, root) →
      Carries data txType root

/-- What a proof's transaction has to be for the proof to pass. -/
structure Accepted (proof : AnchorProof) (transaction : EthTransaction) (blockNumber : Option Nat) : Prop where
  carries : Carries decodeFunctionData transaction.data proof.txType proof.root
  placed : atMostThreshold blockNumber proof.chainId = true ∨
    proof.txType = some V1_PROOF_TYPE ∧ transaction.toAddress = some ANCHOR_CONTRACT_ADDRESS

/-- The transaction of a proof is in a block of the chain, and `t` is the block's time. -/
def Included (chainId : String) (chain : Chain) (proof : AnchorProof) (t : Nat) : Prop :=
  proof.chainId = chainId ∧ ∃ transaction block,
    chain.transactions (convertCidToEthHash proof.txHash) = .mined transaction block ∧
    chain.blocks block.hash = some block ∧
    Carries decodeFunctionData transaction.data proof.txType proof.root ∧
    ((∃ threshold, BLOCK_THRESHHOLDS.lookup chainId = some threshold ∧ block.number ≤ threshold) ∨
      proof.txType = some V1_PROOF_TYPE ∧ transaction.toAddress = some ANCHOR_CONTRACT_ADDRESS) ∧
    t = block.timestamp

end

variable {serves : Provider → Nat} {decodeFunctionData : String → Except JsError String}

theorem getCidFromTransaction_eq_ok {txType : Option String} {data : String} {root : Cid} :
    getCidFromTransaction decodeFunctionData txType data = .ok root ↔
      Carries decodeFunctionData data txType root := by
  unfold getCidFromTransaction
  constructor
  · intro read
    split at read
    next isV1 =>
      obtain ⟨rootCID, decoded, rest⟩ := bind_eq_ok.mp read
      obtain ⟨digest, fromText, made⟩ := bind_eq_ok.mp rest
      obtain rfl := Except.ok.inj made
      rw [isV1]
      exact .v1 decoded fromText
    next notV1 =>
      obtain ⟨bytes, fromText, rest⟩ := bind_eq_ok.mp read
      obtain ⟨⟨version, cid⟩, decoded, returned⟩ := bind_eq_ok.mp rest
      obtain rfl := Except.ok.inj returned
      exact .v0 notV1 fromText decoded
  · rintro (⟨decoded, fromText⟩ | ⟨notV1, fromText, decoded⟩)
    · rw [if_pos rfl]
      exact bind_eq_ok.mpr ⟨_, decoded, bind_eq_ok.mpr ⟨_, fromText, rfl⟩⟩
    · rw [if_neg notV1]
      exact bind_eq_ok.mpr ⟨_, fromText, bind_eq_ok.mpr ⟨_, decoded, rfl⟩⟩

theorem checkInclusion_eq_ok {proof : AnchorProof} {tx : TransactionResponse} {block : EthBlock} {t : Nat} :
    checkInclusion decodeFunctionData proof tx block = .ok t ↔
      Accepted decodeFunctionData proof tx.toEthTransaction tx.blockNumber ∧ t = block.timestamp := by
  unfold checkInclusion
  constructor
  · intro passed
    obtain ⟨txCid, read, rest⟩ := bind_eq_ok.mp passed
    obtain ⟨same, rest⟩ := guard_eq_ok.mp rest
    obtain rfl : txCid = proof.root := not_not.mp same
    have carries := getCidFromTransaction_eq_ok.mp read
    split at rest
    next early => exact ⟨⟨carries, .inl early⟩, (Except.ok.inj rest).symm⟩
    next =>
      obtain ⟨isV1, rest⟩ := guard_eq_ok.mp rest
      obtain ⟨official, returned⟩ := guard_eq_ok.mp rest
      exact ⟨⟨carries, .inr ⟨not_not.mp isV1, not_not.mp official⟩⟩, (Except.ok.inj returned).symm⟩
  · rintro ⟨⟨carries, placed⟩, rfl⟩
    refine bind_eq_ok.mpr ⟨_, getCidFromTransaction_eq_ok.mpr carries, ?_⟩
    refine guard_eq_ok.mpr ⟨not_not.mpr rfl, ?_⟩
    split
    next => rfl
    next late =>
      obtain ⟨isV1, official⟩ := placed.resolve_left late
      exact guard_eq_ok.mpr ⟨not_not.mpr isV1, guard_eq_ok.mpr ⟨not_not.mpr official, rfl⟩⟩

/-- What a response was when the chain was asked: one of a transaction then pending, or of one that is mined. -/
def Told (chain : Chain) (txHash : String) (tx : TransactionResponse) : Prop :=
  (tx.blockHash = none ∧ tx.blockNumber = none) ∨
    ∃ transaction block, chain.transactions txHash = .mined transaction block ∧
      tx = ⟨transaction, some block.hash, some block.number⟩

theorem Told.of_response {chain : Chain} {txHash : String} {tx : TransactionResponse}
    (answered : chain.getTransaction txHash = some tx) : Told chain txHash tx := by
  unfold Chain.getTransaction at answered
  cases status : chain.transactions txHash with
  | unknown =>
    rw [status] at answered
    cases answered
  | pending transaction =>
    rw [status] at answered
    obtain rfl := Option.some.inj answered
    exact .inl ⟨rfl, rfl⟩
  | mined transaction block =>
    rw [status] at answered
    exact .inr ⟨transaction, block, status, (Option.some.inj answered).symm⟩

theorem Told.later {chain chain' : Chain} {txHash : String} {tx : TransactionResponse}
    (told : Told chain txHash tx) (evolves : chain.Evolves chain') : Told chain' txHash tx := by
  rcases told with pending | ⟨transaction, block, mined, isTx⟩
  · exact .inl pending
  · have moved := evolves.transactions txHash
    rw [mined] at moved
    generalize later : chain'.transactions txHash = status at moved
    cases moved
    exact .inr ⟨transaction, block, later, isTx⟩

/-- What the caches hold while the chain with the number `n` is the configured one. -/
structure Settled (serves : Provider → Nat) (n : Nat) (chain : Chain) (validator : EthereumAnchorValidator) : Prop where
  configured : validator._chainId = some (caip2 n)
  serving : ∀ provider, makeProvider validator.ethereumRpcEndpoint (caip2 n) = .ok provider → serves provider = n
  providers : ∀ entry ∈ validator.providersCache.entries, entry.1 = caip2 n ∧ serves entry.2 = n
  transactions : ∀ txHash tx, (txHash, some tx) ∈ validator._transactionCache.entries → Told chain txHash tx
  blocks : ∀ blockHash block, (some blockHash, some block) ∈ validator._blockCache.entries →
    chain.blocks blockHash = some block

namespace Settled

variable {n : Nat} {chain chain' : Chain} {validator : EthereumAnchorValidator}

theorem later (settled : Settled serves n chain validator) (evolves : chain.Evolves chain') :
    Settled serves n chain' validator where
  configured := settled.configured
  serving := settled.serving
  providers := settled.providers
  transactions txHash tx member := (settled.transactions txHash tx member).later evolves
  blocks blockHash block member := evolves.blocks blockHash block (settled.blocks blockHash block member)

/-- A provider that is given out is one of the configured chain. -/
theorem getEthProvider (settled : Settled serves n chain validator) (asked : String) :
    Settled serves n chain (validator._getEthProvider asked).2 ∧
      ∀ provider, (validator._getEthProvider asked).1 = .ok provider → asked = caip2 n ∧ serves provider = n := by
  unfold _getEthProvider
  split
  next provider found =>
    obtain ⟨isChain, serving⟩ := settled.providers _ (LruCache.mem_of_find? found)
    refine ⟨{ settled with providers := fun entry member => settled.providers entry (LruCache.mem_touch member) }, ?_⟩
    rintro _ ⟨⟩
    exact ⟨isChain, serving⟩
  next =>
    split
    · exact ⟨settled, nofun⟩
    · split
      next => exact ⟨settled, nofun⟩
      next unsupported =>
        have isChain : asked = caip2 n := by
          rw [settled.configured] at unsupported
          simp at unsupported
          exact unsupported.symm
        subst isChain
        split
        next => exact ⟨settled, nofun⟩
        next provider made =>
          have serving := settled.serving provider made
          refine ⟨{ settled with providers := ?_ }, ?_⟩
          · intro entry member
            rcases LruCache.mem_set member with rfl | old
            · exact ⟨rfl, serving⟩
            · exact settled.providers entry old
          · rintro _ ⟨⟩
            exact ⟨rfl, serving⟩

theorem getTransaction (settled : Settled serves n chain validator) (reply : Reply) (txHash : String) :
    Settled serves n chain (validator._getTransaction (reply.of (chain.getTransaction txHash)) txHash).2 where
  configured := settled.configured
  serving := settled.serving
  providers := settled.providers
  transactions hash tx member := by
    rcases LruCache.mem_getOrAsk member with old | ⟨rfl, replied⟩
    · exact settled.transactions hash tx old
    · exact .of_response (Reply.answer_of_some replied)
  blocks := settled.blocks

theorem getBlock (settled : Settled serves n chain validator) (reply : Reply) (blockHash : Option String) :
    Settled serves n chain (validator.getBlock (reply.of (chain.getBlock blockHash)) blockHash).2 where
  configured := settled.configured
  serving := settled.serving
  providers := settled.providers
  transactions := settled.transactions
  blocks hash block member := by
    rcases LruCache.mem_getOrAsk member with old | ⟨rfl, replied⟩
    · exact settled.blocks hash block old
    · exact Reply.answer_of_some replied

end Settled

/-- The transaction that a call works with if it gets one: the cached one, or else the one that is told. -/
def transactionOf (validator : EthereumAnchorValidator) (chain : Chain) (txHash : String) : Option TransactionResponse :=
  (validator._transactionCache.find? txHash).join.or (chain.getTransaction txHash)

variable {n : Nat} {chain : Chain} {validator : EthereumAnchorValidator} {reply : Reply}

theorem transactionOf_eq_some {txHash : String} {tx : TransactionResponse}
    (given : (validator._getTransaction (reply.of (chain.getTransaction txHash)) txHash).1 = .ok (some tx)) :
    validator.transactionOf chain txHash = some tx := by
  apply Option.or_eq_some_iff.mpr
  rcases LruCache.getOrAsk_eq_ok given with cached | ⟨absent, replied⟩
  · exact .inl cached
  · exact .inr ⟨absent, Reply.answer_of_some replied⟩

namespace Settled

theorem told (settled : Settled serves n chain validator) {txHash : String} {tx : TransactionResponse}
    (worksWith : validator.transactionOf chain txHash = some tx) : Told chain txHash tx := by
  rcases Option.or_eq_some_iff.mp worksWith with cached | ⟨_, told⟩
  · exact settled.transactions txHash tx (LruCache.mem_of_find? (Option.join_eq_some_iff.mp cached))
  · exact .of_response told

/-- A block that is asked for by its hash is the one of the chain. -/
theorem block_of_hash (settled : Settled serves n chain validator) {asked : Option String} {block : EthBlock}
    (given : (validator.getBlock (reply.of (chain.getBlock asked)) asked).1 = .ok (some block)) :
    ∀ blockHash, asked = some blockHash → chain.blocks blockHash = some block := by
  rintro blockHash rfl
  rcases LruCache.getOrAsk_eq_ok given with cached | ⟨_, replied⟩
  · exact settled.blocks blockHash block (LruCache.mem_of_find? (Option.join_eq_some_iff.mp cached))
  · exact Reply.answer_of_some replied

end Settled

@[simp] theorem transactionCache_getEthProvider (asked : String) :
    (validator._getEthProvider asked).2._transactionCache = validator._transactionCache := by
  unfold _getEthProvider
  repeat' split
  all_goals rfl

/-- What a call finds of the transaction and the block, where it gets any. -/
structure Found (n : Nat) (validator : EthereumAnchorValidator) (inquiry : Inquiry) (tx : TransactionResponse)
    (block : EthBlock) : Prop where
  chain : inquiry.proof.chainId = caip2 n
  worksWith : validator.transactionOf (inquiry.transactionAsked n) (convertCidToEthHash inquiry.proof.txHash) = some tx
  told : Told (inquiry.blockAsked n) (convertCidToEthHash inquiry.proof.txHash) tx
  block : ∀ blockHash, tx.blockHash = some blockHash → (inquiry.blockAsked n).blocks blockHash = some block

theorem Settled.getTransactionAndBlockInfo {now : Chains} {inquiry : Inquiry}
    (settled : Settled serves n (now n) validator) (follows : inquiry.Follows now) :
    Settled serves n (inquiry.blockAsked n) (validator._getTransactionAndBlockInfo serves inquiry
      (convertCidToEthHash inquiry.proof.txHash)).2 ∧
    ∀ tx block, (validator._getTransactionAndBlockInfo serves inquiry
        (convertCidToEthHash inquiry.proof.txHash)).1 = .ok (tx, block) →
      Found n validator inquiry tx block := by
  obtain ⟨provided, serving⟩ := settled.getEthProvider inquiry.proof.chainId
  have sameCache := @transactionCache_getEthProvider validator inquiry.proof.chainId
  unfold _getTransactionAndBlockInfo
  generalize validator._getEthProvider inquiry.proof.chainId = step at *
  obtain ⟨result, provides⟩ := step
  cases result with
  | error e => exact ⟨(provided.later (follows.asked n)).later (follows.later n), nofun⟩
  | ok provider =>
    obtain ⟨isChain, rfl⟩ := serving provider rfl
    have asked := provided.later (follows.asked (serves provider))
    have fetched := asked.getTransaction inquiry.transactionReply (convertCidToEthHash inquiry.proof.txHash)
    have worked := @transactionOf_eq_some (inquiry.transactionAsked (serves provider)) provides
      inquiry.transactionReply (convertCidToEthHash inquiry.proof.txHash)
    dsimp only
    generalize provides._getTransaction _ _ = step at *
    obtain ⟨result, fetches⟩ := step
    have later := fetched.later (follows.later (serves provider))
    rcases result with e | _ | tx
    · exact ⟨later, nofun⟩
    · exact ⟨later, nofun⟩
    · have worksWith := worked rfl
      have told := (asked.told worksWith).later (follows.later (serves provider))
      unfold transactionOf at worksWith
      rw [sameCache] at worksWith
      have answered := later.getBlock inquiry.blockReply tx.blockHash
      have ofHash := @block_of_hash _ _ _ _ inquiry.blockReply later tx.blockHash
      dsimp only
      generalize fetches.getBlock _ _ = step at *
      obtain ⟨result, answers⟩ := step
      rcases result with e | _ | block
      · exact ⟨answered, nofun⟩
      · exact ⟨answered, nofun⟩
      · refine ⟨answered, ?_⟩
        rintro _ _ ⟨⟩
        exact ⟨isChain, worksWith, told, ofHash rfl⟩

theorem Settled.validateChainInclusion {now : Chains} {inquiry : Inquiry}
    (settled : Settled serves n (now n) validator) (follows : inquiry.Follows now) :
    Settled serves n (inquiry.blockAsked n)
      (validator.validateChainInclusion serves decodeFunctionData inquiry).2 := by
  have kept := (settled.getTransactionAndBlockInfo follows).1
  unfold EthereumAnchorValidator.validateChainInclusion
  generalize validator._getTransactionAndBlockInfo _ _ _ = step at kept
  obtain ⟨result, after⟩ := step
  rcases result with e | ⟨tx, block⟩ <;> exact kept

/-- A call is about to accept a transaction that is, or was when it was cached, still pending. -/
def AcceptsPending (decodeFunctionData : String → Except JsError String) (n : Nat) (validator : EthereumAnchorValidator)
    (inquiry : Inquiry) : Prop :=
  ∃ tx, validator.transactionOf (inquiry.transactionAsked n) (convertCidToEthHash inquiry.proof.txHash) = some tx ∧
    tx.blockNumber = none ∧ Accepted decodeFunctionData inquiry.proof tx.toEthTransaction tx.blockNumber

/-- The block of a transaction is the one that was asked for by the hash. -/
theorem included_of_found {inquiry : Inquiry} {tx : TransactionResponse} {block : EthBlock} {t : Nat}
    (found : Found n validator inquiry tx block) (settledTx : ¬AcceptsPending decodeFunctionData n validator inquiry)
    (passed : checkInclusion decodeFunctionData inquiry.proof tx block = .ok t) :
    Included decodeFunctionData (caip2 n) (inquiry.blockAsked n) inquiry.proof t := by
  obtain ⟨accepted, rfl⟩ := checkInclusion_eq_ok.mp passed
  rcases found.told with ⟨_, unnumbered⟩ | ⟨transaction, mined, status, rfl⟩
  · exact absurd ⟨tx, found.worksWith, unnumbered, accepted⟩ settledTx
  · have inChain := (inquiry.blockAsked n).included _ _ _ status
    obtain rfl : mined = block := Option.some.inj (inChain.symm.trans (found.block mined.hash rfl))
    refine ⟨found.chain, transaction, mined, status, inChain, accepted.carries, ?_, rfl⟩
    refine accepted.placed.imp_left fun low => ?_
    rw [found.chain] at low
    obtain ⟨threshold, isThreshold, atMost⟩ := Option.any_eq_true _ _ |>.mp low
    exact ⟨threshold, isThreshold, of_decide_eq_true atMost⟩

/-- A call of one validator while the chains grow. -/
def step (serves : Provider → Nat) (decodeFunctionData : String → Except JsError String)
    (state : Chains × EthereumAnchorValidator) (inquiry : Inquiry) : Option (Chains × EthereumAnchorValidator) :=
  some (inquiry.blockAsked, (state.2.validateChainInclusion serves decodeFunctionData inquiry).2)

/-- The call does not accept what is pending. -/
structure Permitted (decodeFunctionData : String → Except JsError String) (n : Nat)
    (state : Chains × EthereumAnchorValidator) (inquiry : Inquiry) : Prop where
  follows : inquiry.Follows state.1
  settled : ¬AcceptsPending decodeFunctionData n state.2 inquiry

theorem settled_of_reaches {n : Nat} {state state' : Chains × EthereumAnchorValidator}
    (settled : Settled serves n (state.1 n) state.2)
    (reached : Transition.Reaches (step serves decodeFunctionData) (Permitted decodeFunctionData n) state state') :
    Settled serves n (state'.1 n) state'.2 := by
  refine @Transition.Reaches.invariant _ _ _ _ _ _ (fun state => Settled serves n (state.1 n) state.2) settled ?_ reached
  rintro state inquiry _ settled permitted ⟨⟩
  exact settled.validateChainInclusion permitted.follows

theorem caip2_injective {m n : Nat} (same : caip2 m = caip2 n) : m = n := by
  have digits := String.append_right_inj _ |>.mp same
  have texts : Nat.toDigits 10 m = Nat.toDigits 10 n := by simpa using congrArg String.toList digits
  rw [← Nat.ofDigitChars_ten_toDigits (n := m), texts, Nat.ofDigitChars_ten_toDigits]

theorem caip2_ne_empty (n : Nat) : caip2 n ≠ "" := by
  simp [caip2, BASE_CHAIN_ID]

theorem getEthProvider_new {endpoint chain : String} {provider : Provider} {validator : EthereumAnchorValidator}
    (provided : (new endpoint)._getEthProvider chain = (.ok provider, validator)) :
    makeProvider endpoint chain = .ok provider ∧
      validator = { new endpoint with providersCache := (new endpoint).providersCache.set chain provider } := by
  unfold _getEthProvider at provided
  split at provided
  next cached => cases cached
  next =>
    split at provided
    · cases provided
    · split at provided
      · cases provided
      · split at provided
        · cases provided
        next made =>
          obtain ⟨⟨⟩, rfl⟩ := Prod.mk.inj provided
          exact ⟨made, rfl⟩

/-- A validator that has found the provider of its chain holds nothing yet. -/
theorem settled_init {endpoint : String} {unreachable : Option JsError} {n : Nat} {chain : Chain}
    {validator : EthereumAnchorValidator}
    (initialised : (new endpoint).init serves unreachable (some (caip2 n)) = (.ok (), validator)) :
    Settled serves n chain validator := by
  unfold init at initialised
  rw [Option.filter_some, if_pos (decide_eq_true (caip2_ne_empty n))] at initialised
  dsimp only at initialised
  split at initialised
  · cases initialised
  · cases initialised
  next _ _ provider _ provided =>
    obtain ⟨made, rfl⟩ := getEthProvider_new provided
    split at initialised
    · cases initialised
    next same =>
      obtain ⟨-, rfl⟩ := Prod.mk.inj initialised
      have served : serves provider = n := caip2_injective (not_not.mp same).symm
      refine ⟨rfl, ?_, ?_, nofun, nofun⟩
      · intro other alsoMade
        obtain rfl := Except.ok.inj (made.symm.trans alsoMade)
        exact served
      · intro entry member
        rcases LruCache.mem_set member with rfl | old
        · exact ⟨rfl, served⟩
        · cases old

/-- In a run in which no call accepts a pending transaction, the time that a call returns is that of the block
with the transaction. -/
theorem validateChainInclusion_sound {endpoint : String} {unreachable : Option JsError} {n : Nat}
    {chains now : Chains} {start validator : EthereumAnchorValidator} {inquiry : Inquiry} {t : Nat}
    (initialised : (new endpoint).init serves unreachable (some (caip2 n)) = (.ok (), start))
    (reached : Transition.Reaches (step serves decodeFunctionData) (Permitted decodeFunctionData n)
      (chains, start) (now, validator))
    (permitted : Permitted decodeFunctionData n (now, validator) inquiry)
    (returned : (validator.validateChainInclusion serves decodeFunctionData inquiry).1 = .ok t) :
    Included decodeFunctionData (caip2 n) (inquiry.blockAsked n) inquiry.proof t := by
  have settled : Settled serves n (now n) validator := settled_of_reaches (settled_init initialised) reached
  have found := (settled.getTransactionAndBlockInfo permitted.follows).2
  unfold validateChainInclusion at returned
  generalize validator._getTransactionAndBlockInfo _ _ _ = step at found returned
  obtain ⟨result, after⟩ := step
  rcases result with e | ⟨tx, block⟩
  · cases returned
  · exact included_of_found (found tx block rfl) permitted.settled returned

end EthereumAnchorValidator

/-! A transaction of the first format on the main chain, whose data is the text of the root's bytes. -/
namespace AnchorFixture

open EthereumAnchorValidator

def root : Cid := .v1 dagCbor (createMultihash sha2_256 (List.replicate 32 0xaa))

def proof : AnchorProof where
  chainId := caip2 1
  txHash := .v1 0x93 (createMultihash 0x1b (List.replicate 32 0x11))
  root
  txType := none

def txHash : String := "0x1111111111111111111111111111111111111111111111111111111111111111"

def transaction : EthTransaction :=
  ⟨"0xf01711220aaaaaaaaaaaaaaaaaaaaaaaaaaaaaaaaaaaaaaaaaaaaaaaaaaaaaaaaaaaaaaaa", none⟩

def block : EthBlock := ⟨"0x752f", 16000000, 1586784008⟩

def decodeFunctionData (data : String) : Except JsError String :=
  if "0x97ad09eb".toList.isPrefixOf data.toList && data.length = 74 then .ok ("0x" ++ String.ofList (data.toList.drop 10))
  else .error ⟨"data signature does not match function anchorDagCbor."⟩

/-- The one transaction of the chain, and the one block. -/
def chain (status : TransactionStatus)
    (mined : ∀ transaction other, status = .mined transaction other → other = block) : Chain where
  transactions hash := if hash = txHash then status else .unknown
  blocks hash := if hash = block.hash then some block else none
  latest := block
  included hash transaction other isMined := by
    split at isMined
    · obtain rfl := mined _ _ isMined
      exact if_pos rfl
    · cases isMined

def unknown : Chains := fun _ => chain .unknown nofun

def pending : Chains := fun _ => chain (.pending transaction) nofun

def mined : Chains := fun _ => chain (.mined transaction block) (by rintro _ _ ⟨⟩; rfl)

def serves : Provider → Nat
  | .staticJsonRpc _ => 1
  | .default network =>
    ([("mainnet", 1), ("ropsten", 3), ("rinkeby", 4), ("goerli", 5), ("sepolia", 11155111)].lookup network).getD 0

def start : EthereumAnchorValidator := ((new "https://test.com").init serves none (some (caip2 1))).2

def ask (chains : Chains) : Inquiry := ⟨proof, chains, .answers, chains, .answers⟩

theorem initialised : (new "https://test.com").init serves none (some (caip2 1)) = (.ok (), start) := by
  refine Prod.ext ?_ rfl
  decide +kernel

/-- Asked once while the transaction was unknown. -/
def after : EthereumAnchorValidator := (start.validateChainInclusion serves decodeFunctionData (ask unknown)).2

theorem hash_proof : convertCidToEthHash proof.txHash = txHash := by decide +kernel

theorem evolves_self (chains : Chains) : chains.Evolves chains := fun _ => ⟨fun _ => .same _, fun _ _ found => found⟩

/-- A transaction that is only pending passes, with the time of the latest block. -/
theorem pending_not_included : ¬∀ (serves : Provider → Nat) (decodeFunctionData : String → Except JsError String)
    (endpoint : String) (unreachable : Option JsError) (n : Nat) (chains now : Chains)
    (start validator : EthereumAnchorValidator) (inquiry : Inquiry) (t : Nat),
    (new endpoint).init serves unreachable (some (caip2 n)) = (.ok (), start) →
    Transition.Reaches (step serves decodeFunctionData) (fun state inquiry => inquiry.Follows state.1)
      (chains, start) (now, validator) →
    inquiry.Follows now → (validator.validateChainInclusion serves decodeFunctionData inquiry).1 = .ok t →
      Included decodeFunctionData (caip2 n) (inquiry.blockAsked n) inquiry.proof t := by
  intro sound
  have returned : (start.validateChainInclusion serves decodeFunctionData (ask pending)).1 = .ok 1586784008 := by
    decide +kernel
  obtain ⟨_, transaction, block, isMined, _⟩ := sound _ _ _ _ 1 pending pending start start (ask pending) _
    initialised .start ⟨evolves_self _, evolves_self _⟩ returned
  rw [show (ask pending).proof = proof from rfl, hash_proof] at isMined
  cases isMined

theorem validateChainInclusion_sound_mined :
    Included decodeFunctionData (caip2 1) (mined 1) proof 1586784008 := by
  have evolves : unknown.Evolves mined := by
    refine fun _ => ⟨fun hash => ?_, fun _ _ found => found⟩
    by_cases same : hash = txHash
    · subst same
      exact .seen _
    · simp only [unknown, mined, chain, if_neg same]
      exact .same _
  have unseen : start.transactionOf (unknown 1) (convertCidToEthHash proof.txHash) = none := by decide +kernel
  have asked : Permitted decodeFunctionData 1 (unknown, start) (ask unknown) := by
    refine ⟨⟨evolves_self _, evolves_self _⟩, ?_⟩
    rintro ⟨tx, isTx, _⟩
    cases unseen.symm.trans isTx
  have numbered : (after.transactionOf (mined 1) (convertCidToEthHash proof.txHash)).bind
      TransactionResponse.blockNumber = some 16000000 := by decide +kernel
  have askedAgain : Permitted decodeFunctionData 1 (unknown, after) (ask mined) := by
    refine ⟨⟨evolves, evolves_self _⟩, ?_⟩
    rintro ⟨tx, isTx, isPending, _⟩
    obtain ⟨_, found, isNumber⟩ := Option.bind_eq_some_iff.mp numbered
    obtain rfl := Option.some.inj (isTx.symm.trans found)
    cases isPending.symm.trans isNumber
  have reached : Transition.Reaches (step serves decodeFunctionData) (Permitted decodeFunctionData 1)
      (unknown, start) (unknown, after) := .next .start asked rfl
  exact validateChainInclusion_sound initialised reached askedAgain (by decide +kernel)

end AnchorFixture

end Ceramic.Ethereum
