import Ceramic.LogSyncer

/-! A commit store given by a table of blocks, in which every signed commit is stored
as an envelope and its payload, and anchors are proved on one chain. -/
namespace Ceramic.BlockStore

structure Block where
  cid : Cid
  stored : StoredCommit
  deriving DecidableEq

def find (blocks : List Block) (cid : Cid) : Option StoredCommit :=
  (blocks.find? fun block => block.cid = cid).map (·.stored)

/-- A proof's chain names the time of its block; other chains are not supported. -/
def dispatcher (blocks : List Block) (proofs : Cid → Option AnchorProof)
    (blockTime : String → Option Nat) : Dispatcher where
  retrieveCommit := fun cid => .ok (find blocks cid)
  retrieveProof := fun cid =>
    match proofs cid with
    | some proof => .ok proof
    | none => .error ⟨"not found"⟩
  getCacaoCidFromCommit := fun _ => .ok none
  retrieveCacao := fun _ => .error ⟨"not found"⟩
  retrieveMerkleNode := fun _ _ => .error ⟨"not found"⟩
  validateChainInclusion := fun proof =>
    match blockTime proof.chainId with
    | some time => .ok time
    | none => .error ⟨"Anchor proof chainId '" ++ proof.chainId ++ "' is not supported"⟩

/-- CIDs of the table are ordered by their first byte. -/
def height (cid : Cid) : Nat := (cid.bytes.headD 0).toNat

def payload (blocks : List Block) : StoredCommit → Commit
  | .plain commit => commit
  | .signed envelope =>
    match find blocks envelope.link with
    | some linked => Utils.asPayload linked
    | none => {}

/-- Each commit's `prev` comes earlier. -/
def Ordered (blocks : List Block) : Prop :=
  ∀ block ∈ blocks, ∀ prev, (payload blocks block.stored).prev = some prev →
    height prev < height block.cid

instance (blocks : List Block) : Decidable (Ordered blocks) :=
  inferInstanceAs (Decidable (∀ block ∈ blocks, ∀ prev,
    prev ∈ (payload blocks block.stored).prev → height prev < height block.cid))

theorem getCommitData_payload {blocks : List Block} {proofs : Cid → Option AnchorProof}
    {blockTime : String → Option Nat} {cid : Cid} {c : CommitData}
    (h : Utils.getCommitData (dispatcher blocks proofs blockTime) cid = .ok c) :
    ∃ block ∈ blocks, block.cid = cid ∧ c.commit = payload blocks block.stored := by
  obtain ⟨stored, found, rest⟩ := bind_eq_ok.mp h
  obtain rfl : find blocks cid = stored := Except.ok.inj found
  unfold find at rest
  cases located : blocks.find? fun block => block.cid = cid with
  | none => simp [located, throw, throwThe, MonadExceptOf.throw] at rest
  | some block =>
    have member := List.mem_of_find?_eq_some located
    have sameCid : block.cid = cid := by simpa using List.find?_some located
    refine ⟨block, member, sameCid, ?_⟩
    simp only [located, Option.map_some] at rest
    cases kind : block.stored with
    | signed envelope =>
      simp only [kind] at rest
      obtain ⟨linked, link, rest⟩ := bind_eq_ok.mp rest
      obtain rfl : find blocks envelope.link = linked := Except.ok.inj link
      simp only [payload]
      cases linkedBlock : find blocks envelope.link with
      | none => simp [linkedBlock, throw, throwThe, MonadExceptOf.throw] at rest
      | some block' =>
        simp only [linkedBlock] at rest
        obtain ⟨capability, _, rest⟩ := bind_eq_ok.mp rest
        cases rest
        rfl
    | plain commit =>
      simp only [kind] at rest
      cases proof : commit.proof with
      | none =>
        simp only [proof] at rest
        cases rest
        rfl
      | some proofCid =>
        simp only [proof] at rest
        obtain ⟨anchorProof, _, rest⟩ := bind_eq_ok.mp rest
        cases rest
        rfl

def store (blocks : List Block) (proofs : Cid → Option AnchorProof)
    (blockTime : String → Option Nat) (ordered : Ordered blocks) : CommitStore where
  toDispatcher := dispatcher blocks proofs blockTime
  height := height
  acyclic := by
    intro cid c prev h link
    obtain ⟨block, member, rfl, eq⟩ := getCommitData_payload h
    exact ordered block member prev (eq ▸ link)

end Ceramic.BlockStore
