import Ceramic.MerkleTree
import Ceramic.AnchorTimestampExtractor
import Ceramic.IdText

/-! Merkle trees over the tips of streams, with a record in IPFS for every merged node, and how the
check of an anchor commit reads them. -/
namespace Ceramic

open LinkedForest

/-- The records IPFS holds, the last one first, under their CIDs. -/
abbrev IpfsRecords := List (Cid × JsValue)

namespace Ipfs

/-- `put` is the CID a record gets, if it can be stored. -/
def storeRecord (put : JsValue → Except JsError Cid) (record : JsValue) (stored : IpfsRecords) :
    Except JsError (Cid × IpfsRecords) := do
  let cid ← put record
  return (cid, (cid, record) :: stored)

def load (stored : IpfsRecords) (cid : Cid) : Except JsError JsValue :=
  match stored.find? (·.1 = cid) with
  | some found => .ok found.2
  | none => .error ⟨"block was not found locally (offline): ipld: could not find " ++ cid.toString⟩

/-- A property of a record, or an item of it. -/
def ownProperty : JsValue → String → Option JsValue
  | .arr items, key => (items.zipIdx.find? fun item => toString item.2 == key).map Prod.fst
  | .obj fields, key => JsObject.get? fields key
  | _, _ => none

/-- The names in a path. -/
def segments (path : String) : List String :=
  ((path.toList.splitOn '/').filter (!·.isEmpty)).map String.ofList

/-- Follows a path into a value of the block `lastCid`, and on into the blocks it links to. -/
def resolveFrom (stored : IpfsRecords) (lastCid : Cid) (value : JsValue) : List String → Except JsError Cid
  | [] => .ok lastCid
  | key :: rest =>
    match ownProperty value key with
    | none => .error ⟨"no link named \"" ++ key ++ "\" under " ++ lastCid.toString⟩
    | some (.cid link) =>
      if rest = [] then .ok link
      else match load stored link with
        | .ok next => resolveFrom stored link next rest
        | .error e => .error e
    | some inner => resolveFrom stored lastCid inner rest

/-- `ipfs.dag.resolve`: the block a path leads to. -/
def resolve (stored : IpfsRecords) (cid : Cid) (path : List String) : Except JsError Cid :=
  if path = [] then .ok cid
  else do
    let value ← load stored cid
    resolveFrom stored cid value path

/-- `retrieveFromIPFS` with a path. -/
def retrieve (stored : IpfsRecords) (cid : Cid) (path : String) : Except JsError JsValue := do
  let blockCid ← resolve stored cid (segments path)
  load stored blockCid

/-- `record[key]`, where a CID is expected. -/
def linkAt (record : JsValue) (key : String) : Option Cid :=
  match ownProperty record key with
  | some (.cid link) => some link
  | _ => none

/-- A dispatcher that reads Merkle nodes from these records. -/
def reader (base : Dispatcher) (stored : IpfsRecords) : Dispatcher :=
  { base with retrieveMerkleNode := fun cid path => (retrieve stored cid path).map linkAt }

/-- Each record is stored under the CID it gets. -/
def Addressed (put : JsValue → Except JsError Cid) (stored : IpfsRecords) : Prop :=
  ∀ entry ∈ stored, put entry.2 = .ok entry.1

/-- CIDs are injective in the content of the records. -/
def Injective (put : JsValue → Except JsError Cid) : Prop :=
  ∀ record other cid, put record = .ok cid → put other = .ok cid → record = other

section

variable {put : JsValue → Except JsError Cid} {stored : IpfsRecords} {cid : Cid} {record : JsValue}

theorem Addressed.store (addressed : Addressed put stored) {after : IpfsRecords}
    (succeeded : storeRecord put record stored = .ok (cid, after)) :
    after = (cid, record) :: stored ∧ Addressed put after := by
  obtain ⟨given, isGiven, same⟩ := bind_eq_ok.mp succeeded
  obtain ⟨rfl, rfl⟩ := Prod.mk.inj (Except.ok.inj same)
  refine ⟨rfl, fun entry member => ?_⟩
  rcases List.mem_cons.mp member with rfl | old
  · exact isGiven
  · exact addressed entry old

/-- A record that is stored is the one that is loaded. -/
theorem load_of_mem (injective : Injective put) (addressed : Addressed put stored) (member : (cid, record) ∈ stored) :
    load stored cid = .ok record := by
  unfold load
  cases found : stored.find? (·.1 = cid) with
  | none =>
    have missed := List.find?_eq_none.mp found _ member
    simp at missed
  | some entry =>
    have sameCid : entry.1 = cid := by simpa using List.find?_some found
    have given := addressed entry (List.mem_of_find?_eq_some found)
    rw [sameCid] at given
    exact congrArg Except.ok (injective _ _ _ given (addressed _ member))

/-- Behind a link the path goes on in the block linked to. -/
theorem resolveFrom_link (stored : IpfsRecords) (lastCid : Cid) {value : JsValue} {key : String} {link : Cid}
    (isLink : ownProperty value key = some (.cid link)) (rest : List String) :
    resolveFrom stored lastCid value (key :: rest) = resolve stored link rest := by
  rw [resolveFrom, isLink, resolve]
  dsimp only
  split
  · rfl
  · cases load stored link <;> rfl

theorem resolve_link (loaded : load stored cid = .ok record) {key : String} {link : Cid}
    (isLink : ownProperty record key = some (.cid link)) (rest : List String) :
    resolve stored cid (key :: rest) = resolve stored link rest := by
  rw [← resolveFrom_link stored cid isLink, resolve, if_neg (List.cons_ne_nil key rest), loaded]
  rfl

end

end Ipfs

structure CIDHolder where
  cid : Cid
  deriving DecidableEq, Repr

structure BloomMetadata where
  type : String
  data : JsValue

structure TreeMetadata where
  numEntries : Nat
  bloomFilter : BloomMetadata
  streamIds : List String

def TreeMetadata.record (metadata : TreeMetadata) : JsValue :=
  .obj [("numEntries", .num metadata.numEntries),
    ("bloomFilter", .obj [("type", .str metadata.bloomFilter.type), ("data", metadata.bloomFilter.data)]),
    ("streamIds", .arr (metadata.streamIds.map .str))]

namespace IpfsMerge

/-- `right?.data?.cid || null`. -/
def rightSlot : Option CIDHolder → JsValue
  | some right => .cid right.cid
  | none => .null

/-- The record of the metadata, if there is any, and its slot in the record of the node. -/
def storeMetadata (put : JsValue → Except JsError Cid) : Option TreeMetadata → IpfsRecords →
    Except JsError (List JsValue × IpfsRecords)
  | none, stored => .ok ([], stored)
  | some metadata, stored => do
    let (metadataCid, stored) ← Ipfs.storeRecord put metadata.record stored
    return ([.cid metadataCid], stored)

def merge (put : JsValue → Except JsError Cid) (left : CIDHolder) (right : Option CIDHolder)
    (metadata : Option TreeMetadata) (stored : IpfsRecords) : Except JsError (CIDHolder × IpfsRecords) := do
  let (metadataSlot, stored) ← storeMetadata put metadata stored
  let (mergedCid, stored) ← Ipfs.storeRecord put (.arr ([.cid left.cid, rightSlot right] ++ metadataSlot)) stored
  return (⟨mergedCid⟩, stored)

/-- The name under which a node's record has the link to a child. -/
def key : Side → String
  | .left => "0"
  | .right => "1"

/-- Every merged node has its record, in which its children are linked to. -/
structure Recorded (put : JsValue → Except JsError Cid) (nodes : List (Node CIDHolder)) (stored : IpfsRecords) :
    Prop where
  addressed : Ipfs.Addressed put stored
  record : ∀ {position child : Nat} {node below : Node CIDHolder} {side : Side}, nodes[position]? = some node →
    node.child side = some child → nodes[child]? = some below →
    ∃ record, (node.data.cid, record) ∈ stored ∧ Ipfs.ownProperty record (key side) = some (.cid below.data.cid)

variable {put : JsValue → Except JsError Cid} {nodes : List (Node CIDHolder)} {stored : IpfsRecords}

theorem storeMetadata_ok {metadata : Option TreeMetadata} {slot : List JsValue} {after : IpfsRecords}
    (addressed : Ipfs.Addressed put stored) (succeeded : storeMetadata put metadata stored = .ok (slot, after)) :
    Ipfs.Addressed put after ∧ ∀ entry ∈ stored, entry ∈ after := by
  unfold storeMetadata at succeeded
  split at succeeded
  · obtain ⟨rfl, rfl⟩ := Prod.mk.inj (Except.ok.inj succeeded)
    exact ⟨addressed, fun entry member => member⟩
  · obtain ⟨⟨cid, middle⟩, given, same⟩ := bind_eq_ok.mp succeeded
    obtain ⟨rfl, rfl⟩ := Prod.mk.inj (Except.ok.inj same)
    obtain ⟨rfl, addressedAfter⟩ := addressed.store given
    exact ⟨addressedAfter, fun entry member => List.mem_cons_of_mem _ member⟩

/-- What a merge stores, apart from the record of the metadata. -/
theorem merge_ok {left merged : CIDHolder} {right : Option CIDHolder} {metadata : Option TreeMetadata}
    {after : IpfsRecords} (addressed : Ipfs.Addressed put stored)
    (succeeded : merge put left right metadata stored = .ok (merged, after)) :
    Ipfs.Addressed put after ∧ (∀ entry ∈ stored, entry ∈ after) ∧
      ∃ slot, (merged.cid, .arr ([.cid left.cid, rightSlot right] ++ slot)) ∈ after := by
  obtain ⟨⟨slot, middle⟩, described, rest⟩ := bind_eq_ok.mp succeeded
  obtain ⟨⟨cid, last⟩, given, same⟩ := bind_eq_ok.mp rest
  obtain ⟨rfl, rfl⟩ := Prod.mk.inj (Except.ok.inj same)
  obtain ⟨addressedMiddle, kept⟩ := storeMetadata_ok addressed described
  obtain ⟨rfl, addressedAfter⟩ := addressedMiddle.store given
  exact ⟨addressedAfter, fun entry member => List.mem_cons_of_mem _ (kept entry member), slot, List.mem_cons_self⟩

theorem ownProperty_left (left right : JsValue) (slot : List JsValue) :
    Ipfs.ownProperty (.arr ([left, right] ++ slot)) "0" = some left := by
  have first : (Nat.repr 0 == "0") = true := by decide
  simp [Ipfs.ownProperty, List.zipIdx_cons, first]

theorem ownProperty_right (left right : JsValue) (slot : List JsValue) :
    Ipfs.ownProperty (.arr ([left, right] ++ slot)) "1" = some right := by
  have first : (Nat.repr 0 == "1") = false := by decide
  have second : (Nat.repr 1 == "1") = true := by decide
  simp [Ipfs.ownProperty, List.zipIdx_cons, first, second]

theorem recorded_leaves {nodes : List (Node CIDHolder)} (addressed : Ipfs.Addressed put stored)
    (single : ∀ node ∈ nodes, ∀ side, node.child side = none) : Recorded put nodes stored where
  addressed := addressed
  record := by
    intro position child node below side found isChild _
    rw [single node (List.mem_of_getElem? found) side] at isChild
    cases isChild

theorem data_of_ok {nodes : List (Node CIDHolder)} {position : Nat} {data : CIDHolder} {node : Node CIDHolder}
    (isData : MerkleTreeFactory.dataOf nodes position = .ok data) (found : nodes[position]? = some node) :
    node.data = data := by
  unfold MerkleTreeFactory.dataOf at isData
  rw [found] at isData
  exact Except.ok.inj isData

/-- A merge leaves the record of the new node, and the records of the others. -/
theorem Recorded.join (recorded : Recorded put nodes stored) (linked : Linked nodes) {left : Nat} {right : Option Nat}
    (leftTop : IsTop nodes left) (rightTop : ∀ r ∈ right, IsTop nodes r ∧ r ≠ left)
    {leftData data : CIDHolder} {rightData : Option CIDHolder} {metadata : Option TreeMetadata} {after : IpfsRecords}
    (isLeft : MerkleTreeFactory.dataOf nodes left = .ok leftData)
    (isRight : MerkleTreeFactory.dataOf? nodes right = .ok rightData)
    (merged : merge put leftData rightData metadata stored = .ok (data, after)) :
    Recorded put (LinkedForest.join nodes data left right) after := by
  have leftInside := MerkleTreeFactory.top_inside leftTop
  have rightInside : ∀ r ∈ right, r < nodes.length := fun r isR => MerkleTreeFactory.top_inside (rightTop r isR).1
  obtain ⟨addressed, kept, slot, stores⟩ := merge_ok recorded.addressed merged
  refine ⟨addressed, ?_⟩
  intro position child node below side found isChild isBelow
  rcases join_cases leftInside rightInside found with ⟨rfl, rfl⟩ | ⟨before, old, sameData, sameChildren, _⟩
  · refine ⟨_, stores, ?_⟩
    have dataBefore {r : Nat} {d : CIDHolder} (isData : MerkleTreeFactory.dataOf nodes r = .ok d)
        (inside : r < nodes.length) (isR : (LinkedForest.join nodes data left right)[r]? = some below) :
        below.data = d := by
      have before := List.getElem?_eq_getElem inside
      obtain ⟨same, isSame, sameData, _⟩ := join_old data leftInside rightInside before
      obtain rfl : same = below := Option.some.inj (isSame.symm.trans isR)
      exact sameData.trans (data_of_ok isData before)
    cases side with
    | left =>
      obtain rfl := Option.some.inj isChild
      rw [dataBefore isLeft leftInside isBelow]
      exact ownProperty_left _ _ slot
    | right =>
      obtain rfl : right = some child := isChild
      obtain ⟨d, isData, rfl⟩ := map_eq_ok.mp isRight
      rw [dataBefore isData (rightInside child rfl) isBelow]
      exact ownProperty_right _ _ slot
  · have childBefore := (sameChildren side).symm.trans isChild
    obtain ⟨_, belowBefore, isBelowBefore, _⟩ := linked.child old childBefore
    obtain ⟨same, isSame, sameBelow, _⟩ := join_old data leftInside rightInside isBelowBefore
    obtain rfl : same = below := Option.some.inj (isSame.symm.trans isBelow)
    obtain ⟨record, member, isLink⟩ := recorded.record old childBefore isBelowBefore
    rw [sameData, sameBelow]
    exact ⟨record, kept _ member, isLink⟩

/-- A path down the nodes is a path through the records, also among others stored later. -/
theorem Recorded.resolve (recorded : Recorded put nodes stored) (linked : Linked nodes)
    (injective : Ipfs.Injective put) {later : IpfsRecords} (addressed : Ipfs.Addressed put later)
    (stays : ∀ entry ∈ stored, entry ∈ later) {position target : Nat} {path : List Side} {node last : Node CIDHolder}
    (leads : follow nodes position path = some target) (found : nodes[position]? = some node)
    (isLast : nodes[target]? = some last) :
    Ipfs.resolve later node.data.cid (path.map key) = .ok last.data.cid := by
  induction path generalizing position node with
  | nil =>
    obtain rfl := Option.some.inj leads
    obtain rfl : node = last := Option.some.inj (found.symm.trans isLast)
    rfl
  | cons side path ih =>
    obtain ⟨same, isSame, rest⟩ := Option.bind_eq_some_iff.mp leads
    obtain rfl : node = same := Option.some.inj (found.symm.trans isSame)
    obtain ⟨child, isChild, rest⟩ := Option.bind_eq_some_iff.mp rest
    obtain ⟨_, below, isBelow, _⟩ := linked.child found isChild
    obtain ⟨record, member, isLink⟩ := recorded.record found isChild isBelow
    have loaded := Ipfs.load_of_mem injective addressed (stays _ member)
    rw [List.map_cons, Ipfs.resolve_link loaded isLink]
    exact ih rest isBelow

variable {TLeaf : Type}

/-- A factory whose merges are recorded in IPFS. -/
def factory (put : JsValue → Except JsError Cid) (ofLeaf : TLeaf → CIDHolder)
    (compareFn : Option (TLeaf → TLeaf → Int)) (metadataFn : Option (List TLeaf → Except JsError TreeMetadata))
    (depthLimit : Option Nat) : MerkleTreeFactory CIDHolder TLeaf TreeMetadata IpfsRecords :=
  { mergeFn := merge put, ofLeaf, compareFn, metadataFn, depthLimit }

variable {ofLeaf : TLeaf → CIDHolder} {compareFn : Option (TLeaf → TLeaf → Int)}
  {metadataFn : Option (List TLeaf → Except JsError TreeMetadata)} {depthLimit : Option Nat}
  {leaves : List TLeaf} {tree : MerkleTree CIDHolder TreeMetadata} {after : IpfsRecords}

/-- What is built is linked and recorded. -/
theorem recorded_of_build (addressed : Ipfs.Addressed put stored)
    (spec : MerkleTreeFactory.BuildSpec (factory put ofLeaf compareFn metadataFn depthLimit) leaves stored tree after) :
    Linked tree.nodes ∧ Recorded put tree.nodes after := by
  have single : ∀ node ∈ (MerkleTreeFactory.leafBuild (factory put ofLeaf compareFn metadataFn depthLimit)
      leaves stored).nodes, ∀ side, node.child side = none := by
    intro node member side
    obtain ⟨leaf, _, rfl⟩ := List.mem_map.mp member
    cases side <;> rfl
  refine @MerkleTreeFactory.Merges.invariant _ _ _ _ _ _ _
    (fun build => Linked build.nodes ∧ Recorded put build.nodes build.store) spec.merges
    ⟨MerkleTreeFactory.leafBuild_linked leaves stored, recorded_leaves addressed single⟩ ?_
  intro build left right metadata leftData rightData data store holds leftTop rightTop isLeft isRight merged
  obtain ⟨linked, recorded⟩ := holds
  exact ⟨linked.join leftTop rightTop, recorded.join linked leftTop rightTop isLeft isRight merged⟩

end IpfsMerge

namespace PathDirection

/-- The digit of a direction. -/
def digit : PathDirection → Char
  | .L => '0'
  | .R => '1'

theorem toList_number (direction : PathDirection) : (toString direction.number).toList = [direction.digit] := by
  cases direction <;> rfl

theorem key_side (direction : PathDirection) : IpfsMerge.key direction.side = toString direction.number := by
  cases direction <;> rfl

end PathDirection

theorem toList_pathString (path : List PathDirection) :
    (pathString path).toList = ['/'].intercalate (path.map fun direction => [direction.digit]) := by
  unfold pathString
  rw [String.toList_intercalate, List.map_map]
  refine congrArg ['/'].intercalate (List.map_congr_left fun direction _ => ?_)
  exact direction.toList_number

theorem pathString_eq_empty {path : List PathDirection} (empty : pathString path = "") : path = [] := by
  have none := congrArg String.toList empty
  rw [toList_pathString] at none
  cases path with
  | nil => rfl
  | cons direction path => cases path <;> simp [List.intercalate] at none

/-- The text of a path ends in its last direction, behind a slash if there are others. -/
theorem toList_pathString_concat (path : List PathDirection) (last : PathDirection) :
    (pathString (path ++ [last])).toList =
      (if path = [] then [] else (pathString path).toList ++ ['/']) ++ [last.digit] := by
  cases path with
  | nil => rw [toList_pathString]; simp [List.intercalate]
  | cons first path =>
    have text : pathString ((first :: path) ++ [last]) =
        pathString (first :: path) ++ "/" ++ toString last.number := by
      unfold pathString
      rw [List.map_append, String.intercalate_append_of_ne_nil (by simp) (by simp)]
      simp
    rw [text, String.toList_append, String.toList_append, last.toList_number, if_neg (List.cons_ne_nil first path)]
    rfl

/-- The path of an anchor commit is read as that of the parent and the last direction. -/
theorem splitPath_pathString (path : List PathDirection) (last : PathDirection) :
    AnchorTimestampExtractor.splitPath (pathString (path ++ [last])) = (pathString path, toString last.number) := by
  have digitApart : (last.digit != '/') = true := by cases last <;> rfl
  have front : String.ofList (pathString path).toList = pathString path := String.ofList_toList
  have digit : String.ofList [last.digit] = toString last.number := by
    rw [← last.toList_number, String.ofList_toList]
  unfold AnchorTimestampExtractor.splitPath
  rw [toList_pathString_concat]
  by_cases single : path = []
  · subst single
    simp [digitApart, digit, pathString]
  · simp [single, digitApart, digit, front]

/-- The names in a path. -/
theorem segments_pathString (path : List PathDirection) :
    Ipfs.segments (pathString path) = path.map fun direction => toString direction.number := by
  have digits : (path.map fun direction => [direction.digit]).map String.ofList =
      path.map fun direction => toString direction.number := by
    rw [List.map_map]
    refine List.map_congr_left fun direction _ => ?_
    rw [Function.comp, ← direction.toList_number, String.ofList_toList]
  have apart : ∀ part ∈ path.map fun direction => [direction.digit], '/' ∉ part := by
    intro part member
    obtain ⟨direction, _, rfl⟩ := List.mem_map.mp member
    cases direction <;> decide
  unfold Ipfs.segments
  rw [toList_pathString]
  by_cases single : path = []
  · subst single
    simp [List.intercalate]
  · have nonempty : (path.map fun direction => [direction.digit]).filter (!·.isEmpty) =
        path.map fun direction => [direction.digit] := by
      rw [List.filter_eq_self]
      simp
    rw [List.splitOn_intercalate '/' apart (by simpa using single), nonempty, digits]

/-- The names in a path below the root of a proof. -/
theorem segments_root (path : List PathDirection) :
    Ipfs.segments ("/root/" ++ pathString path) = "root" :: path.map fun direction => toString direction.number := by
  have root : "/root/".toList = ['/', 'r', 'o', 'o', 't', '/'] := by decide
  have rootApart : '/' ∉ ['r', 'o', 'o', 't'] := by decide
  have split (rest : List Char) : (['/', 'r', 'o', 'o', 't', '/'] ++ rest).splitOn '/' =
      [] :: ['r', 'o', 'o', 't'] :: rest.splitOn '/' := by
    have first :=
      List.splitOn_append_cons_self_of_not_mem (List.not_mem_nil (a := '/')) (['r', 'o', 'o', 't', '/'] ++ rest)
    have second := List.splitOn_append_cons_self_of_not_mem rootApart rest
    exact first.trans (congrArg _ second)
  rw [← segments_pathString]
  unfold Ipfs.segments
  rw [String.toList_append, root, split, List.filter_cons_of_neg (by simp), List.filter_cons_of_pos (by simp),
    List.map_cons]

namespace IpfsMerge

variable {put : JsValue → Except JsError Cid} {nodes : List (Node CIDHolder)} {stored later : IpfsRecords}
  {root target : Nat} {rootNode leafNode : Node CIDHolder} {proofCid : Cid} {proofRecord : JsValue}

/-- All but the last direction lead to the block of the parent, and its record links to the leaf by the last. -/
theorem Recorded.parent (recorded : Recorded put nodes stored) (linked : Linked nodes)
    (injective : Ipfs.Injective put) (addressed : Ipfs.Addressed put later) (stays : ∀ entry ∈ stored, entry ∈ later)
    (isRoot : nodes[root]? = some rootNode) (isLeaf : nodes[target]? = some leafNode)
    {path : List PathDirection} {last : PathDirection}
    (leads : follow nodes root ((path ++ [last]).map PathDirection.side) = some target) :
    ∃ cid record, Ipfs.resolve later rootNode.data.cid (path.map fun direction => toString direction.number) = .ok cid ∧
      Ipfs.load later cid = .ok record ∧ Ipfs.ownProperty record (toString last.number) = some (.cid leafNode.data.cid) := by
  rw [List.map_append, follow_append] at leads
  obtain ⟨middle, toParent, lastStep⟩ := Option.bind_eq_some_iff.mp leads
  obtain ⟨parent, isParent, below⟩ := Option.bind_eq_some_iff.mp lastStep
  obtain ⟨child, isChild, same⟩ := Option.bind_eq_some_iff.mp below
  obtain rfl : child = target := Option.some.inj same
  obtain ⟨record, member, isLink⟩ := recorded.record isParent isChild isLeaf
  have toRecord := recorded.resolve linked injective addressed stays toParent isRoot isParent
  have keys : (path.map PathDirection.side).map key = path.map fun direction => toString direction.number := by
    rw [List.map_map]
    exact List.map_congr_left fun direction _ => direction.key_side
  rw [keys] at toRecord
  refine ⟨parent.data.cid, record, toRecord, Ipfs.load_of_mem injective addressed (stays _ member), ?_⟩
  rw [← last.key_side]
  exact isLink

/-- Below the root of a proof the parent's record is found, and in it the link to the leaf. -/
theorem Recorded.retrieve (recorded : Recorded put nodes stored) (linked : Linked nodes)
    (injective : Ipfs.Injective put) (addressed : Ipfs.Addressed put later) (stays : ∀ entry ∈ stored, entry ∈ later)
    (isRoot : nodes[root]? = some rootNode) (isLeaf : nodes[target]? = some leafNode)
    (proves : (proofCid, proofRecord) ∈ later)
    (links : Ipfs.ownProperty proofRecord "root" = some (.cid rootNode.data.cid))
    {path : List PathDirection} {last : PathDirection}
    (leads : follow nodes root ((path ++ [last]).map PathDirection.side) = some target) :
    ∃ record, Ipfs.retrieve later proofCid ("/root/" ++ pathString path) = .ok record ∧
      Ipfs.linkAt record (toString last.number) = some leafNode.data.cid := by
  obtain ⟨cid, record, toParent, loaded, isLink⟩ :=
    recorded.parent linked injective addressed stays isRoot isLeaf leads
  refine ⟨record, ?_, ?_⟩
  · unfold Ipfs.retrieve
    rw [segments_root, Ipfs.resolve_link (Ipfs.load_of_mem injective addressed proves) links, toParent]
    exact loaded
  · unfold Ipfs.linkAt
    rw [isLink]

end IpfsMerge

namespace AnchorTimestampExtractor

/-- The check is about the block the path leads to. -/
theorem verifyAnchorCommit_of_link {dispatcher : Dispatcher} {commitData : CommitData} {proof : AnchorProof}
    {link proofCid : Cid} (hasProof : commitData.proof = some proof) (names : commitData.commit.proof = some proofCid)
    (leads : (commitData.commit.path = "" ∧ proof.root = link) ∨
      (commitData.commit.path ≠ "" ∧ ∃ links,
        dispatcher.retrieveMerkleNode proofCid ("/root/" ++ (splitPath commitData.commit.path).1) = .ok links ∧
        links (splitPath commitData.commit.path).2 = some link)) :
    (commitData.commit.prev = some link →
      verifyAnchorCommit dispatcher commitData = dispatcher.validateChainInclusion proof) ∧
    (commitData.commit.prev ≠ some link → ∃ e, verifyAnchorCommit dispatcher commitData = .error e) := by
  have reached : verifyAnchorCommit dispatcher commitData =
      commitData.commit.prev.elim (throw ⟨"Cannot read properties of undefined (reading 'toString')"⟩) fun prev =>
        if prev.toString ≠ link.toString then
          throw ⟨"The anchor commit proof [object Object] with path " ++ commitData.commit.path ++
            " points to invalid 'prev' commit"⟩
        else dispatcher.validateChainInclusion proof := by
    unfold verifyAnchorCommit
    rcases leads with ⟨atRoot, rfl⟩ | ⟨below, links, retrieved, isLink⟩
    · rw [hasProof]
      simp only [pure_bind, atRoot, if_true]
      cases commitData.commit.prev <;> rfl
    · rw [hasProof, names]
      simp only [pure_bind, below, if_false, retrieved, isLink]
      cases commitData.commit.prev <;> rfl
  rw [reached]
  constructor
  · intro same
    rw [same]
    exact if_neg (not_not_intro rfl)
  · intro other
    cases isPrev : commitData.commit.prev with
    | none => exact ⟨_, rfl⟩
    | some prev =>
      have apart : prev.toString ≠ link.toString := fun same =>
        other (isPrev.trans (congrArg some (Cid.toString_injective same)))
      exact ⟨_, if_pos apart⟩

end AnchorTimestampExtractor

/-- An anchor commit with this path, under a proof of this root that is stored. -/
structure AnchorsAt (stored : IpfsRecords) (root : Cid) (path : List PathDirection) (commitData : CommitData)
    (proof : AnchorProof) : Prop where
  hasProof : commitData.proof = some proof
  sameRoot : proof.root = root
  path : commitData.commit.path = pathString path
  recorded : ∃ proofCid record, commitData.commit.proof = some proofCid ∧ (proofCid, record) ∈ stored ∧
    Ipfs.ownProperty record "root" = some (.cid root)

namespace IpfsMerge

variable {put : JsValue → Except JsError Cid} {stored after later : IpfsRecords} {TLeaf : Type}
  {ofLeaf : TLeaf → CIDHolder} {compareFn : Option (TLeaf → TLeaf → Int)}
  {metadataFn : Option (List TLeaf → Except JsError TreeMetadata)} {depthLimit : Option Nat}
  {leaves : List TLeaf} {tree : MerkleTree CIDHolder TreeMetadata}

/-- If records can be stored, trees can be built. -/
theorem factory_merging (storing : ∀ record, ∃ cid, put record = .ok cid) :
    (factory put ofLeaf compareFn metadataFn depthLimit).Merging := by
  have stores (record : JsValue) (stored : IpfsRecords) : ∃ made, Ipfs.storeRecord put record stored = .ok made := by
    obtain ⟨cid, given⟩ := storing record
    exact ⟨_, bind_eq_ok.mpr ⟨cid, given, rfl⟩⟩
  intro left right metadata stored
  obtain ⟨described, isDescribed⟩ : ∃ described, storeMetadata put metadata stored = .ok described := by
    cases metadata with
    | none => exact ⟨_, rfl⟩
    | some metadata =>
      obtain ⟨made, given⟩ := stores metadata.record stored
      exact ⟨_, bind_eq_ok.mpr ⟨made, given, rfl⟩⟩
  obtain ⟨made, given⟩ := stores (.arr ([.cid left.cid, rightSlot right] ++ described.1)) described.2
  exact ⟨_, bind_eq_ok.mpr ⟨described, isDescribed, bind_eq_ok.mpr ⟨made, given, rfl⟩⟩⟩

/-- The node of a leaf keeps its data while the tree is built. -/
theorem leaf_kept
    (spec : MerkleTreeFactory.BuildSpec (factory put ofLeaf compareFn metadataFn depthLimit) leaves stored tree after)
    {i position : Nat} {leaf : TLeaf}
    (isLeaf : ((factory put ofLeaf compareFn metadataFn depthLimit).sortedLeaves leaves)[i]? = some (leaf, position)) :
    tree.leafNodes[i]? = some position ∧ ∃ node, tree.nodes[position]? = some node ∧ node.data = ofLeaf leaf := by
  constructor
  · rw [spec.leaves, List.getElem?_map, isLeaf]
    rfl
  · have member := (MerkleTreeFactory.sortedLeaves_perm _ leaves).mem_iff.mp (List.mem_of_getElem? isLeaf)
    have found := List.mem_zipIdx_iff_getElem?.mp member
    have before : (MerkleTreeFactory.leafBuild (factory put ofLeaf compareFn metadataFn depthLimit) leaves
        stored).nodes[position]? = some { data := ofLeaf leaf } := by
      unfold MerkleTreeFactory.leafBuild
      rw [List.getElem?_map, found]
      rfl
    exact spec.merges.kept before

/-- Whatever is stored later, the direct path of a leaf leads from the root to the leaf, and an anchor commit with
this path is checked against the leaf. -/
theorem factory_path_reaches_leaf (injective : Ipfs.Injective put) (addressed : Ipfs.Addressed put stored)
    (built : (factory put ofLeaf compareFn metadataFn depthLimit).build leaves stored = .ok (tree, after)) :
    (((factory put ofLeaf compareFn metadataFn depthLimit).sortedLeaves leaves).map Prod.fst).Perm leaves ∧
    tree.leafNodes.length = leaves.length ∧
    ∃ root, tree.nodes[tree.root]? = some root ∧ ∀ i leaf position,
      ((factory put ofLeaf compareFn metadataFn depthLimit).sortedLeaves leaves)[i]? = some (leaf, position) →
      ∃ path, tree.getDirectPathFromRoot i = .ok path ∧
        ∀ later, Ipfs.Addressed put later → (∀ entry ∈ after, entry ∈ later) →
          Ipfs.resolve later root.data.cid (path.map fun direction => toString direction.number) =
            .ok (ofLeaf leaf).cid ∧
          ∀ base commitData proof, AnchorsAt later root.data.cid path commitData proof →
            (commitData.commit.prev = some (ofLeaf leaf).cid →
              AnchorTimestampExtractor.verifyAnchorCommit (Ipfs.reader base later) commitData =
                base.validateChainInclusion proof) ∧
            (commitData.commit.prev ≠ some (ofLeaf leaf).cid →
              ∃ e, AnchorTimestampExtractor.verifyAnchorCommit (Ipfs.reader base later) commitData = .error e) := by
  have spec := MerkleTreeFactory.build_ok built
  obtain ⟨linked, recorded⟩ := recorded_of_build addressed spec
  have perm := MerkleTreeFactory.sortedLeaves_perm (factory put ofLeaf compareFn metadataFn depthLimit) leaves
  obtain ⟨root, isRoot, _⟩ := (spec.top tree.root).mpr rfl
  refine ⟨?_, ?_, root, isRoot, ?_⟩
  · have leafPerm := perm.map Prod.fst
    rwa [List.zipIdx_map_fst] at leafPerm
  · rw [spec.leaves, List.length_map, perm.length_eq, List.length_zipIdx]
  intro i leaf position isLeaf
  obtain ⟨atIndex, node, isNode, sameData⟩ := leaf_kept spec isLeaf
  have inside := (List.getElem?_eq_some_iff.mp isNode).1
  obtain ⟨path, isPath, leads⟩ := tree.getDirectPathFromRoot_ok linked spec.top atIndex inside
  refine ⟨path, isPath, fun later addressedLater stays => ?_⟩
  have reached := recorded.resolve linked injective addressedLater stays leads isRoot isNode
  rw [List.map_map, sameData] at reached
  have keys : (path.map fun direction => toString direction.number) = path.map (key ∘ PathDirection.side) :=
    List.map_congr_left fun direction _ => direction.key_side.symm
  refine ⟨by rwa [keys], ?_⟩
  intro base commitData proof anchors
  obtain ⟨proofCid, proofRecord, names, proves, links⟩ := anchors.recorded
  apply AnchorTimestampExtractor.verifyAnchorCommit_of_link anchors.hasProof names
  rw [anchors.path]
  -- An empty path stands for the root itself, any other ends in a link of the parent's record.
  rcases path.eq_nil_or_concat' with rfl | ⟨parents, last, rfl⟩
  · obtain rfl := Option.some.inj leads
    obtain rfl : root = node := Option.some.inj (isRoot.symm.trans isNode)
    exact .inl ⟨rfl, anchors.sameRoot.trans (congrArg CIDHolder.cid sameData)⟩
  · obtain ⟨record, retrieved, isLink⟩ :=
      recorded.retrieve linked injective addressedLater stays isRoot isNode proves links leads
    refine .inr ⟨fun empty => ?_, Ipfs.linkAt record, ?_, ?_⟩
    · exact List.append_ne_nil_of_right_ne_nil parents (List.cons_ne_nil last []) (pathString_eq_empty empty)
    · rw [splitPath_pathString]
      exact congrArg (Except.map Ipfs.linkAt) retrieved
    · rw [splitPath_pathString, isLink, sameData]

end IpfsMerge

namespace ThreeTips

def leaves : List CIDHolder := [⟨⟨[1]⟩⟩, ⟨⟨[2]⟩⟩, ⟨⟨[3]⟩⟩]

/-- The CIDs of the records of the tree over the three tips, and of the proof of its root. -/
def put : JsValue → Except JsError Cid
  | .arr [.cid left, .cid right] =>
    if left = ⟨[2]⟩ ∧ right = ⟨[3]⟩ then .ok ⟨[4]⟩
    else if left = ⟨[1]⟩ ∧ right = ⟨[4]⟩ then .ok ⟨[5]⟩
    else .error ⟨"offline"⟩
  | .obj [("root", .cid root)] => if root = ⟨[5]⟩ then .ok ⟨[6]⟩ else .error ⟨"offline"⟩
  | _ => .error ⟨"offline"⟩

def proofRecord : JsValue := .obj [("root", .cid ⟨[5]⟩)]

theorem put_ok {record : JsValue} {cid : Cid} (given : put record = .ok cid) :
    (cid = ⟨[4]⟩ ∧ record = .arr [.cid ⟨[2]⟩, .cid ⟨[3]⟩]) ∨ (cid = ⟨[5]⟩ ∧ record = .arr [.cid ⟨[1]⟩, .cid ⟨[4]⟩]) ∨
      (cid = ⟨[6]⟩ ∧ record = proofRecord) := by
  unfold put at given
  split at given
  · split at given
    · rename_i same
      obtain ⟨rfl, rfl⟩ := same
      exact .inl ⟨(Except.ok.inj given).symm, rfl⟩
    · split at given
      · rename_i same
        obtain ⟨rfl, rfl⟩ := same
        exact .inr (.inl ⟨(Except.ok.inj given).symm, rfl⟩)
      · cases given
  · split at given
    · rename_i same
      obtain rfl := same
      exact .inr (.inr ⟨(Except.ok.inj given).symm, rfl⟩)
    · cases given
  · cases given

theorem put_injective : Ipfs.Injective put := by
  intro record other cid given otherGiven
  rcases put_ok given with ⟨rfl, rfl⟩ | ⟨rfl, rfl⟩ | ⟨rfl, rfl⟩ <;>
    rcases put_ok otherGiven with ⟨same, rfl⟩ | ⟨same, rfl⟩ | ⟨same, rfl⟩ <;>
    first | rfl | (exact absurd same (by decide))

def proof : AnchorProof := { chainId := "eip155:1", txHash := ⟨[7]⟩, root := ⟨[5]⟩, txType := none }

def anchorCommit : CommitData :=
  { cid := ⟨[8]⟩, type := .TIME, commit := { prev := some ⟨[3]⟩, proof := some ⟨[6]⟩, path := "1/1" },
    proof := some proof }

def stored : IpfsRecords :=
  [(⟨[6]⟩, proofRecord), (⟨[5]⟩, .arr [.cid ⟨[1]⟩, .cid ⟨[4]⟩]), (⟨[4]⟩, .arr [.cid ⟨[2]⟩, .cid ⟨[3]⟩])]

theorem stored_addressed : Ipfs.Addressed put stored := by
  intro entry member
  rcases List.mem_cons.mp member with rfl | member
  · rfl
  rcases List.mem_cons.mp member with rfl | member
  · rfl
  · obtain rfl := List.mem_singleton.mp member
    rfl

def tree : MerkleTree CIDHolder TreeMetadata where
  nodes := [{ data := ⟨⟨[1]⟩⟩, parent := some 4 }, { data := ⟨⟨[2]⟩⟩, parent := some 3 },
    { data := ⟨⟨[3]⟩⟩, parent := some 3 }, { data := ⟨⟨[4]⟩⟩, left := some 1, right := some 2, parent := some 4 },
    { data := ⟨⟨[5]⟩⟩, left := some 0, right := some 3 }]
  root := 4
  leafNodes := [0, 1, 2]
  metadata := none

theorem built : (IpfsMerge.factory put id none none none).build leaves [] = .ok (tree, stored.tail) := by
  have whole : (IpfsMerge.factory put id none none none).buildLevel [0, 1, 2] 0 none
      ((IpfsMerge.factory put id none none none).leafBuild leaves []) = .ok (4, ⟨tree.nodes, stored.tail⟩) := by
    simp [MerkleTreeFactory.buildLevel]
    rfl
  unfold MerkleTreeFactory.build
  exact bind_eq_ok.mpr ⟨(), rfl, bind_eq_ok.mpr ⟨none, rfl, bind_eq_ok.mpr ⟨_, whole, rfl⟩⟩⟩

theorem thirdTip_anchored : Ipfs.Addressed put stored ∧ ∀ base : Dispatcher,
    AnchorTimestampExtractor.verifyAnchorCommit (Ipfs.reader base stored) anchorCommit =
      base.validateChainInclusion proof := by
  have empty : Ipfs.Addressed put [] := fun entry member => nomatch member
  obtain ⟨_, _, root, isRoot, reaches⟩ := IpfsMerge.factory_path_reaches_leaf put_injective empty built
  obtain rfl := Option.some.inj isRoot
  obtain ⟨path, isPath, checked⟩ := reaches 2 ⟨⟨[3]⟩⟩ 2 rfl
  obtain rfl := Except.ok.inj isPath
  obtain ⟨_, verified⟩ := checked stored stored_addressed (fun entry member => List.mem_cons_of_mem _ member)
  refine ⟨stored_addressed, fun base => ?_⟩
  refine (verified base anchorCommit proof ⟨rfl, rfl, rfl, _, _, rfl, List.mem_cons_self, rfl⟩).1 rfl

end ThreeTips

end Ceramic
