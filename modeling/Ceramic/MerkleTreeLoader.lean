import Ceramic.RebuildAnchor
import Ceramic.LeafOrder

/-! What the worker reads from the records of a Merkle tree that was built of candidates: the metadata, and for each
leaf its tip and the path that an anchor commit of it needs. -/
namespace Ceramic

open LinkedForest

namespace Ipfs

variable {put : JsValue → Except JsError Cid} {records later : IpfsRecords} {cid : Cid} {record : JsValue}

theorem mem_of_load (loaded : load records cid = .ok record) : (cid, record) ∈ records := by
  unfold load at loaded
  split at loaded
  next entry found =>
    obtain rfl := Except.ok.inj loaded
    have sameCid : entry.1 = cid := by simpa using List.find?_some found
    exact sameCid ▸ List.mem_of_find?_eq_some found
  next => cases loaded

/-- What is loaded once is loaded from then on. -/
theorem load_later (injective : Injective put) (addressed : Addressed put later)
    (stays : ∀ entry ∈ records, entry ∈ later) (loaded : load records cid = .ok record) :
    load later cid = .ok record :=
  load_of_mem injective addressed (stays _ (mem_of_load loaded))

theorem retrieve_pathString (path : List PathDirection) :
    retrieve records cid (pathString path) = (do
      let blockCid ← resolve records cid (path.map fun direction => toString direction.number)
      load records blockCid) := by
  rw [retrieve, segments_pathString]

end Ipfs

namespace MerkleTreeFactory

variable {TData TLeaf TMetadata σ : Type} {factory : MerkleTreeFactory TData TLeaf TMetadata σ}

/-- The last merge is that of the root, and it is the one that is given the metadata. -/
theorem buildLevel_root {elements : List Nat} {root : Nat} {metadata : Option TMetadata}
    {build after : MerkleBuild TData σ} (distinct : elements.Nodup) (tops : ∀ e ∈ elements, IsTop build.nodes e)
    (succeeded : factory.buildLevel elements 0 metadata build = .ok (root, after)) :
    ∃ node leftData rightData before, after.nodes[root]? = some node ∧
      factory.mergeFn leftData rightData metadata before = .ok (node.data, after.store) := by
  by_cases long : 2 ≤ elements.length
  · obtain ⟨leftNode, rightNode, middle, last, leftData, rightData, data, rfl, spec⟩ :=
      buildLevel_split long distinct tops succeeded
    exact ⟨_, leftData, some rightData, last.store, spec.isRoot, spec.made⟩
  · match elements with
    | [] =>
      rw [buildLevel] at succeeded
      cases succeeded
    | [first] =>
      rw [buildLevel, if_pos rfl] at succeeded
      obtain ⟨⟨merged, appended⟩, joined, rest⟩ := bind_eq_ok.mp succeeded
      obtain ⟨rfl, rfl⟩ := Prod.mk.inj (Except.ok.inj rest)
      obtain ⟨leftData, isLeft, joined⟩ := bind_eq_ok.mp joined
      obtain ⟨rightData, isRight, joined⟩ := bind_eq_ok.mp joined
      obtain ⟨⟨data, store⟩, made, joined⟩ := bind_eq_ok.mp joined
      obtain ⟨rfl, rfl⟩ := Prod.mk.inj (Except.ok.inj joined)
      have isJoin : setParent (build.nodes ++ [{ data, left := some first, right := none }]) first build.nodes.length =
          join build.nodes data first none := rfl
      refine ⟨{ data, left := some first, right := none }, leftData, rightData, build.store, ?_, made⟩
      dsimp only
      rw [isJoin, join_new (top_inside (tops first List.mem_cons_self)) (by simp)]
    | first :: second :: others => simp at long

end MerkleTreeFactory

namespace IpfsMerge

variable {put : JsValue → Except JsError Cid} {stored after later : IpfsRecords} {TLeaf : Type}
  {ofLeaf : TLeaf → CIDHolder} {compareFn : Option (TLeaf → TLeaf → Int)}
  {metadataFn : Option (List TLeaf → Except JsError TreeMetadata)} {depthLimit : Option Nat}
  {leaves : List TLeaf} {tree : MerkleTree CIDHolder TreeMetadata} {metadata : TreeMetadata}

theorem ownProperty_metadata (left right slot : JsValue) :
    Ipfs.ownProperty (.arr [left, right, slot]) "2" = some slot := by
  have first : (Nat.repr 0 == "2") = false := by decide
  have second : (Nat.repr 1 == "2") = false := by decide
  have third : (Nat.repr 2 == "2") = true := by decide
  simp [Ipfs.ownProperty, List.zipIdx_cons, first, second, third]

/-- The record of the root links to that of the metadata. -/
theorem metadata_recorded
    (built : (factory put ofLeaf compareFn metadataFn depthLimit).build leaves stored = .ok (tree, after))
    (given : tree.metadata = some metadata) :
    ∃ root metadataCid left right, tree.nodes[tree.root]? = some root ∧ (metadataCid, metadata.record) ∈ after ∧
      (root.data.cid, .arr [left, right, .cid metadataCid]) ∈ after := by
  obtain ⟨_, _, built⟩ := bind_eq_ok.mp built
  obtain ⟨metadata?, _, built⟩ := bind_eq_ok.mp built
  obtain ⟨⟨root, last⟩, level, rest⟩ := bind_eq_ok.mp built
  obtain ⟨rfl, rfl⟩ := Prod.mk.inj (Except.ok.inj rest)
  obtain rfl : metadata? = some metadata := given
  obtain ⟨node, left, right, before, isRoot, made⟩ := MerkleTreeFactory.buildLevel_root
    ((MerkleTreeFactory.leafNodes_perm _ leaves).nodup_iff.mpr List.nodup_range)
    (fun e member => MerkleTreeFactory.leafBuild_top.mpr ((MerkleTreeFactory.mem_leafNodes _ leaves e).mp member)) level
  obtain ⟨⟨slot, middle⟩, described, made⟩ := bind_eq_ok.mp made
  obtain ⟨⟨_, others⟩, storedMetadata, described⟩ := bind_eq_ok.mp described
  obtain ⟨rfl, rfl⟩ := Prod.mk.inj (Except.ok.inj described)
  obtain ⟨⟨rootCid, all⟩, storedRoot, made⟩ := bind_eq_ok.mp made
  obtain ⟨sameData, sameStore⟩ := Prod.mk.inj (Except.ok.inj made)
  obtain ⟨metadataCid, _, same⟩ := bind_eq_ok.mp storedMetadata
  obtain ⟨rfl, rfl⟩ := Prod.mk.inj (Except.ok.inj same)
  obtain ⟨_, _, same⟩ := bind_eq_ok.mp storedRoot
  obtain ⟨rfl, rfl⟩ := Prod.mk.inj (Except.ok.inj same)
  refine ⟨node, metadataCid, .cid left.cid, rightSlot right, isRoot, ?_, ?_⟩
  · rw [← sameStore]
    exact List.mem_cons_of_mem _ List.mem_cons_self
  · rw [← sameStore, ← sameData]
    exact List.mem_cons_self

end IpfsMerge

namespace MerkleTreeLoader

theorem numEntries_record (metadata : TreeMetadata) : numEntries metadata.record = .ok metadata.numEntries := by
  have isCount : metadata.record.fieldOf "numEntries" = .num metadata.numEntries := by
    simp [TreeMetadata.record, JsValue.fieldOf, JsObject.get, JsObject.get?]
  simp [numEntries, isCount]

theorem streamIds_record (metadata : TreeMetadata) :
    metadata.record.fieldOf "streamIds" = .arr (metadata.streamIds.map .str) := by
  simp [TreeMetadata.record, JsValue.fieldOf, JsObject.get, JsObject.get?]

end MerkleTreeLoader

/-- What the records of a tree over candidates give whoever reads them, whatever is stored beside them. -/
structure ServesTree (put : JsValue → Except JsError Cid) (records : IpfsRecords) (root : Cid)
    (metadata : TreeMetadata) (candidates : List ICandidate) : Prop where
  described : ∀ later, Ipfs.Addressed put later → (∀ entry ∈ records, entry ∈ later) →
    MerkleTreeLoader.getMetadata later root = .ok metadata.record
  leaf : ∀ i candidate, candidates[i]? = some candidate → ∃ path,
    MerkleTree.pathByIndex i candidates.length = .ok path ∧
    ∀ later, Ipfs.Addressed put later → (∀ entry ∈ records, entry ∈ later) →
      MerkleTreeLoader.getLeafData later root metadata.record i = .ok (.cid candidate.cid, path) ∧
      ∀ base commitData proof, AnchorsAt later root path commitData proof →
        commitData.commit.prev = some candidate.cid →
        AnchorTimestampExtractor.verifyAnchorCommit (Ipfs.reader base later) commitData =
          base.validateChainInclusion proof
  others : ∀ i, candidates.length ≤ i → ∀ later,
    ∃ e, MerkleTreeLoader.getLeafData later root metadata.record i = .error e

theorem pathByIndex_ne_nil {index leavesCount : Nat} {path : List PathDirection}
    (isPath : MerkleTree.pathByIndex index leavesCount = .ok path) : path ≠ [] := by
  unfold MerkleTree.pathByIndex at isPath
  split at isPath
  · cases isPath
  next inside =>
    split at isPath
    · obtain rfl := Except.ok.inj isPath
      exact List.cons_ne_nil _ _
    next several =>
      obtain rfl := Except.ok.inj isPath
      change MerkleTree.pathBelow index leavesCount ≠ []
      rw [MerkleTree.pathBelow_split (by omega) (by omega)]
      split <;> exact List.cons_ne_nil _ _

namespace IpfsMerge

variable {put : JsValue → Except JsError Cid} {stored after : IpfsRecords}
  {compareFn : Option (ICandidate → ICandidate → Int)}
  {metadataFn : Option (List ICandidate → Except JsError TreeMetadata)} {depthLimit : Option Nat}
  {leaves : List ICandidate} {tree : MerkleTree CIDHolder TreeMetadata} {metadata : TreeMetadata}

/-- A leaf of the tree is the tip of a candidate. -/
def ofCandidate (candidate : ICandidate) : CIDHolder := ⟨candidate.cid⟩

/-- The candidates in the order of the leaves. -/
def candidates (put : JsValue → Except JsError Cid) (compareFn : Option (ICandidate → ICandidate → Int))
    (metadataFn : Option (List ICandidate → Except JsError TreeMetadata)) (depthLimit : Option Nat)
    (leaves : List ICandidate) : List ICandidate :=
  ((factory put ofCandidate compareFn metadataFn depthLimit).sortedLeaves leaves).map Prod.fst

theorem candidates_perm (put : JsValue → Except JsError Cid) (compareFn : Option (ICandidate → ICandidate → Int))
    (metadataFn : Option (List ICandidate → Except JsError TreeMetadata)) (depthLimit : Option Nat)
    (leaves : List ICandidate) : (candidates put compareFn metadataFn depthLimit leaves).Perm leaves := by
  have perm := (MerkleTreeFactory.sortedLeaves_perm (factory put ofCandidate compareFn metadataFn depthLimit)
    leaves).map Prod.fst
  rwa [List.zipIdx_map_fst] at perm

/-- The path that leads to a leaf leads the worker to its parent's record, in which it finds the leaf. -/
theorem leafData_of_leads {nodes : List (LinkedForest.Node CIDHolder)} {later : IpfsRecords}
    (recorded : Recorded put nodes after) (linked : Linked nodes) (injective : Ipfs.Injective put) (addressed : Ipfs.Addressed put later)
    (stays : ∀ entry ∈ after, entry ∈ later) {root target i : Nat} {rootNode leafNode : LinkedForest.Node CIDHolder}
    (isRoot : nodes[root]? = some rootNode) (isLeaf : nodes[target]? = some leafNode) {leaf : ICandidate}
    (sameData : leafNode.data = ofCandidate leaf) {parents : List PathDirection} {last : PathDirection}
    (isPath : MerkleTree.pathByIndex i metadata.numEntries = .ok (parents ++ [last]))
    (leads : follow nodes root ((parents ++ [last]).map PathDirection.side) = some target) :
    MerkleTreeLoader.getLeafData later rootNode.data.cid metadata.record i =
      .ok (.cid leaf.cid, parents ++ [last]) := by
  obtain ⟨cid, record, toParent, loaded, isLink⟩ :=
    recorded.parent linked injective addressed stays isRoot isLeaf leads
  have retrieved : Ipfs.retrieve later rootNode.data.cid (pathString parents) = .ok record := by
    rw [Ipfs.retrieve_pathString, toParent]
    exact loaded
  have found : MerkleTreeLoader.leafOf record (parents ++ [last]) = .cid leaf.cid := by
    rw [MerkleTreeLoader.leafOf, List.getLast?_concat]
    dsimp only
    rw [isLink, sameData]
    rfl
  refine bind_eq_ok.mpr ⟨_, MerkleTreeLoader.numEntries_record metadata, bind_eq_ok.mpr ⟨_, isPath, ?_⟩⟩
  rw [List.dropLast_concat, retrieved]
  exact congrArg Except.ok (Prod.ext found rfl)

theorem servesTree (injective : Ipfs.Injective put) (addressed : Ipfs.Addressed put stored)
    (built : (factory put ofCandidate compareFn metadataFn depthLimit).build leaves stored = .ok (tree, after))
    (given : tree.metadata = some metadata) (counts : metadata.numEntries = leaves.length) :
    ∃ root, tree.nodes[tree.root]? = some root ∧
      ServesTree put after root.data.cid metadata (candidates put compareFn metadataFn depthLimit leaves) := by
  have spec := MerkleTreeFactory.build_ok built
  obtain ⟨linked, recorded⟩ := recorded_of_build addressed spec
  obtain ⟨root, metadataCid, left, right, isRoot, holdsMetadata, holdsRoot⟩ := metadata_recorded built given
  have count := (candidates_perm put compareFn metadataFn depthLimit leaves).length_eq
  refine ⟨root, isRoot, ?_, ?_, ?_⟩
  · intro later addressedLater stays
    have loadedRoot := Ipfs.load_of_mem injective addressedLater (stays _ holdsRoot)
    have names : Ipfs.segments MerkleTreeLoader.METADATA_PATH = ["2"] := by decide
    have link := Ipfs.resolve_link loadedRoot (ownProperty_metadata left right (.cid metadataCid)) []
    rw [MerkleTreeLoader.getMetadata, Ipfs.retrieve, names, link]
    exact Ipfs.load_of_mem injective addressedLater (stays _ holdsMetadata)
  · intro i candidate isCandidate
    obtain ⟨⟨_, position⟩, isLeaf, rfl⟩ : ∃ leaf, ((factory put ofCandidate compareFn metadataFn
        depthLimit).sortedLeaves leaves)[i]? = some leaf ∧ leaf.1 = candidate := by
      simpa [candidates] using isCandidate
    obtain ⟨atIndex, node, isNode, sameData⟩ := leaf_kept spec isLeaf
    have inside : i < leaves.length := by
      rw [← count]
      exact (List.getElem?_eq_some_iff.mp isCandidate).1
    obtain ⟨path, isPath⟩ := MerkleTree.pathByIndex_ok inside
    have leads := MerkleTreeFactory.follow_pathByIndex built atIndex isPath
    obtain ⟨parents, last, rfl⟩ := path.eq_nil_or_concat'.resolve_left (pathByIndex_ne_nil isPath)
    refine ⟨_, count.symm ▸ isPath, fun later addressedLater stays => ⟨?_, ?_⟩⟩
    · exact leafData_of_leads recorded linked injective addressedLater stays isRoot isNode sameData
        (counts.symm ▸ isPath) leads
    · intro base commitData proof anchors isPrev
      obtain ⟨proofCid, proofRecord, names, proves, links⟩ := anchors.recorded
      obtain ⟨record, retrieved, isLink⟩ :=
        recorded.retrieve linked injective addressedLater stays isRoot isNode proves links leads
      refine (AnchorTimestampExtractor.verifyAnchorCommit_of_link anchors.hasProof names (.inr ?_)).1 isPrev
      rw [anchors.path]
      refine ⟨fun empty => ?_, Ipfs.linkAt record, ?_, ?_⟩
      · exact List.append_ne_nil_of_right_ne_nil parents (List.cons_ne_nil last []) (pathString_eq_empty empty)
      · rw [splitPath_pathString]
        exact congrArg (Except.map Ipfs.linkAt) retrieved
      · rw [splitPath_pathString, isLink, sameData]
        rfl
  · intro i outside later
    have refused : MerkleTree.pathByIndex i metadata.numEntries =
        .error ⟨"Leaf at index " ++ toString i ++ " does not exist as there are only " ++
          toString metadata.numEntries ++ " leaves"⟩ := if_pos (by omega)
    refine ⟨⟨"Leaf at index " ++ toString i ++ " does not exist as there are only " ++
      toString metadata.numEntries ++ " leaves"⟩, ?_⟩
    rw [MerkleTreeLoader.getLeafData, MerkleTreeLoader.numEntries_record]
    simp only [bind, Except.bind]
    rw [refused]

end IpfsMerge

end Ceramic
