import Ceramic.MerkleTree

/-! How deep a Merkle tree gets: the path to a leaf is the one that `pathByIndex` computes from the index
of the leaf and the number of leaves. -/
namespace Ceramic

open LinkedForest

namespace MerkleTree

def pathByIndexHelper (index leavesCount : Nat) (path : List PathDirection) : List PathDirection :=
  if leavesCount ≤ 1 then path
  else if leavesCount = 2 then
    if index = 0 then path ++ [.L] else path ++ [.R]
  else
    let middleIndex := leavesCount / 2
    if index < middleIndex then pathByIndexHelper index middleIndex (path ++ [.L])
    else pathByIndexHelper (index - middleIndex) (leavesCount - middleIndex) (path ++ [.R])
termination_by leavesCount
decreasing_by all_goals omega

def pathByIndex (index leavesCount : Nat) : Except JsError (List PathDirection) :=
  if leavesCount ≤ index then
    .error ⟨"Leaf at index " ++ toString index ++ " does not exist as there are only " ++ toString leavesCount ++
      " leaves"⟩
  -- only one leaf in the entire tree
  else if leavesCount = 1 then .ok [.L]
  else .ok (pathByIndexHelper index leavesCount [])

/-- What is behind the part of the path that is given. -/
def pathBelow (index leavesCount : Nat) : List PathDirection := pathByIndexHelper index leavesCount []

theorem pathByIndex_ok {index leavesCount : Nat} (inside : index < leavesCount) :
    ∃ path, pathByIndex index leavesCount = .ok path := by
  rw [pathByIndex, if_neg (Nat.not_le.mpr inside)]
  split
  · exact ⟨_, rfl⟩
  · exact ⟨_, rfl⟩

theorem pathByIndexHelper_append (index leavesCount : Nat) (path : List PathDirection) :
    pathByIndexHelper index leavesCount path = path ++ pathBelow index leavesCount := by
  unfold pathBelow
  induction leavesCount using Nat.strong_induction_on generalizing index path with
  | _ leavesCount ih =>
    rw [pathByIndexHelper, pathByIndexHelper.eq_def _ _ []]
    dsimp only
    split
    · exact (List.append_nil path).symm
    · split
      · split <;> rfl
      · split
        · rw [ih _ (by omega), ih _ (by omega) _ ([] ++ _), List.append_assoc]
          rfl
        · rw [ih _ (by omega), ih _ (by omega) _ ([] ++ _), List.append_assoc]
          rfl

theorem pathBelow_single (index : Nat) : pathBelow index 1 = [] := by
  rw [pathBelow, pathByIndexHelper]
  rfl

/-- The case of two leaves is no special one. -/
theorem pathBelow_split {leavesCount : Nat} (long : 2 ≤ leavesCount) {index : Nat} (inside : index < leavesCount) :
    pathBelow index leavesCount =
      if index < leavesCount / 2 then .L :: pathBelow index (leavesCount / 2)
      else .R :: pathBelow (index - leavesCount / 2) (leavesCount - leavesCount / 2) := by
  rw [pathBelow, pathByIndexHelper, if_neg (by omega)]
  dsimp only
  split
  next two =>
    subst two
    obtain rfl | rfl : index = 0 ∨ index = 1 := by omega
    · simp [pathBelow_single]
    · simp [pathBelow_single]
  next =>
    split
    · rw [pathByIndexHelper_append]
      rfl
    · rw [pathByIndexHelper_append]
      rfl

/-- No path is longer than it takes to tell the leaves apart. -/
theorem length_pathBelow_le {levels leavesCount : Nat} (few : leavesCount ≤ 2 ^ levels) {index : Nat}
    (inside : index < leavesCount) : (pathBelow index leavesCount).length ≤ levels := by
  induction levels generalizing leavesCount index with
  | zero =>
    obtain rfl : leavesCount = 1 := by omega
    simp [pathBelow_single]
  | succ levels ih =>
    by_cases long : 2 ≤ leavesCount
    · rw [pathBelow_split long inside]
      rw [Nat.pow_succ] at few
      split
      · exact Nat.succ_le_succ (ih (by omega) (by omega))
      · exact Nat.succ_le_succ (ih (by omega) (by omega))
    · obtain rfl : leavesCount = 1 := by omega
      simp [pathBelow_single]

/-- No path is so short that a full tree of its height could not hold the leaves. -/
theorem le_length_pathBelow {levels leavesCount : Nat} (many : 2 ^ levels ≤ leavesCount) {index : Nat}
    (inside : index < leavesCount) : levels ≤ (pathBelow index leavesCount).length := by
  induction levels generalizing leavesCount index with
  | zero => exact Nat.zero_le _
  | succ levels ih =>
    rw [Nat.pow_succ] at many
    have power : 0 < 2 ^ levels := Nat.pow_pos (by omega)
    rw [pathBelow_split (by omega) inside]
    split
    · exact Nat.succ_le_succ (ih (by omega) (by omega))
    · exact Nat.succ_le_succ (ih (by omega) (by omega))

/-- The paths to two leaves differ by one step at most. -/
theorem length_pathBelow_close {leavesCount index other : Nat} (inside : index < leavesCount)
    (otherInside : other < leavesCount) :
    (pathBelow index leavesCount).length ≤ (pathBelow other leavesCount).length + 1 := by
  have nonzero : leavesCount ≠ 0 := by omega
  have long := length_pathBelow_le (Nat.le_of_lt (Nat.lt_log2_self (n := leavesCount))) inside
  have short := le_length_pathBelow (Nat.log2_self_le nonzero) otherInside
  omega

end MerkleTree

namespace MerkleTreeFactory

variable {TData TLeaf TMetadata σ : Type} {factory : MerkleTreeFactory TData TLeaf TMetadata σ}
  {start build after : MerkleBuild TData σ}

theorem Merges.extends (merges : factory.Merges start build) : Extends start.nodes build.nodes := by
  induction merges with
  | start => exact .refl _
  | merged _ leftTop rightTop _ _ _ ih =>
    exact ih.trans (extends_join _ (top_inside leftTop) fun r isRight => top_inside (rightTop r isRight).1)

/-- What building a level of two or more elements comes to: two levels next to each other and a node over them. -/
structure SplitSpec (factory : MerkleTreeFactory TData TLeaf TMetadata σ) (elements : List Nat) (currentDepth : Nat)
    (metadata : Option TMetadata) (build after : MerkleBuild TData σ) (leftNode rightNode : Nat)
    (middle last : MerkleBuild TData σ) (leftData rightData data : TData) : Prop where
  leftBuilt : factory.buildLevel (elements.take (elements.length / 2)) (currentDepth + 1) none build =
    .ok (leftNode, middle)
  rightBuilt : factory.buildLevel (elements.drop (elements.length / 2)) (currentDepth + 1) none middle =
    .ok (rightNode, last)
  left : LevelSpec factory (elements.take (elements.length / 2)) build middle leftNode
  right : LevelSpec factory (elements.drop (elements.length / 2)) middle last rightNode
  leftElements : (elements.take (elements.length / 2)).Nodup ∧
    ∀ e ∈ elements.take (elements.length / 2), IsTop build.nodes e
  rightElements : (elements.drop (elements.length / 2)).Nodup ∧
    ∀ e ∈ elements.drop (elements.length / 2), IsTop middle.nodes e
  leftTop : IsTop last.nodes leftNode
  rightTop : IsTop last.nodes rightNode
  apart : rightNode ≠ leftNode
  isLeft : dataOf last.nodes leftNode = .ok leftData
  isRight : dataOf last.nodes rightNode = .ok rightData
  made : factory.mergeFn leftData (some rightData) metadata last.store = .ok (data, after.store)
  nodes : after.nodes = LinkedForest.join last.nodes data leftNode (some rightNode)

theorem buildLevel_split {elements : List Nat} {currentDepth root : Nat} {metadata : Option TMetadata}
    (long : 2 ≤ elements.length) (distinct : elements.Nodup) (tops : ∀ e ∈ elements, IsTop build.nodes e)
    (succeeded : factory.buildLevel elements currentDepth metadata build = .ok (root, after)) :
    ∃ leftNode rightNode middle last leftData rightData data, root = last.nodes.length ∧
      SplitSpec factory elements currentDepth metadata build after leftNode rightNode middle last leftData rightData
        data := by
  match elements with
  | [] => simp at long
  | [_] => simp at long
  | first :: second :: others =>
    rw [buildLevel] at succeeded
    dsimp only at succeeded
    obtain ⟨⟨leftNode, middle⟩, leftBuilt, rest⟩ := bind_eq_ok.mp succeeded
    obtain ⟨⟨rightNode, last⟩, rightBuilt, rest⟩ := bind_eq_ok.mp rest
    obtain ⟨⟨merged, appended⟩, joined, rest⟩ := bind_eq_ok.mp rest
    obtain ⟨rfl, rfl⟩ := Prod.mk.inj (Except.ok.inj rest)
    obtain ⟨leftData, isLeft, rest⟩ := bind_eq_ok.mp joined
    obtain ⟨rightData?, isRight?, rest⟩ := bind_eq_ok.mp rest
    obtain ⟨rightData, isRight, rfl⟩ := map_eq_ok.mp isRight?
    obtain ⟨⟨data, store⟩, made, rest⟩ := bind_eq_ok.mp rest
    obtain ⟨rfl, rfl⟩ := Prod.mk.inj (Except.ok.inj rest)
    generalize isWhole : first :: second :: others = whole at *
    have halves := List.take_append_drop (whole.length / 2) whole
    rw [← halves] at distinct tops
    obtain ⟨leftDistinct, rightDistinct, disjoint⟩ := List.nodup_append.mp distinct
    have apart : ∀ e ∈ whole.take (whole.length / 2), e ∉ whole.drop (whole.length / 2) :=
      fun e here there => disjoint e here e there rfl
    have rightTops : ∀ e ∈ whole.drop (whole.length / 2), IsTop build.nodes e :=
      fun e inside => tops e (List.mem_append_right _ inside)
    have leftTops : ∀ e ∈ whole.take (whole.length / 2), IsTop build.nodes e :=
      fun e inside => tops e (List.mem_append_left _ inside)
    have left := buildLevel_spec leftDistinct leftTops leftBuilt
    have stillTops : ∀ e ∈ whole.drop (whole.length / 2), IsTop middle.nodes e :=
      fun e inside => (left.tops e).mpr (.inr ⟨rightTops e inside, fun here => apart e here inside⟩)
    have right := buildLevel_spec rightDistinct stillTops rightBuilt
    have leftMiddle : IsTop middle.nodes leftNode := (left.tops leftNode).mpr (.inl rfl)
    have leftOutside : leftNode ∉ whole.drop (whole.length / 2) :=
      fun inside => apart leftNode (left.fresh (rightTops leftNode inside)) inside
    refine ⟨leftNode, rightNode, middle, last, leftData, rightData, data, rfl, ?_⟩
    exact {
      leftBuilt, rightBuilt, left, right
      leftElements := ⟨leftDistinct, leftTops⟩
      rightElements := ⟨rightDistinct, stillTops⟩
      leftTop := (right.tops leftNode).mpr (.inr ⟨leftMiddle, leftOutside⟩)
      rightTop := (right.tops rightNode).mpr (.inl rfl)
      apart := by
        rintro rfl
        exact leftOutside (right.fresh leftMiddle)
      isLeft, isRight, made
      nodes := rfl }

section

variable {elements : List Nat} {currentDepth root leftNode rightNode : Nat} {metadata : Option TMetadata}
  {middle last : MerkleBuild TData σ} {leftData rightData data : TData}

theorem SplitSpec.extends_last (spec : SplitSpec factory elements currentDepth metadata build after leftNode rightNode
    middle last leftData rightData data) : Extends last.nodes after.nodes := by
  rw [spec.nodes]
  refine extends_join data (top_inside spec.leftTop) fun r isRight => ?_
  obtain rfl := Option.some.inj isRight
  exact top_inside spec.rightTop

theorem SplitSpec.extends_middle (spec : SplitSpec factory elements currentDepth metadata build after leftNode
    rightNode middle last leftData rightData data) : Extends middle.nodes after.nodes :=
  spec.right.merges.extends.trans spec.extends_last

/-- The node over the two levels. -/
theorem SplitSpec.isRoot (spec : SplitSpec factory elements currentDepth metadata build after leftNode rightNode
    middle last leftData rightData data) :
    after.nodes[last.nodes.length]? = some { data, left := some leftNode, right := some rightNode } := by
  rw [spec.nodes]
  refine join_new (top_inside spec.leftTop) fun r isRight => ?_
  obtain rfl := Option.some.inj isRight
  exact top_inside spec.rightTop

/-- The path to an element leads to it. -/
theorem follow_pathBelow (distinct : elements.Nodup) (tops : ∀ e ∈ elements, IsTop build.nodes e)
    (succeeded : factory.buildLevel elements currentDepth metadata build = .ok (root, after))
    (several : 2 ≤ elements.length ∨ currentDepth ≠ 0) {index element : Nat}
    (isElement : elements[index]? = some element) :
    follow after.nodes root ((MerkleTree.pathBelow index elements.length).map PathDirection.side) = some element := by
  induction size : elements.length using Nat.strong_induction_on
    generalizing elements currentDepth metadata build root after index with
  | _ count ih =>
  obtain ⟨inside, -⟩ := List.getElem?_eq_some_iff.mp isElement
  by_cases long : 2 ≤ elements.length
  · obtain ⟨leftNode, rightNode, middle, last, leftData, rightData, data, rfl, spec⟩ :=
      buildLevel_split long distinct tops succeeded
    rw [← size, MerkleTree.pathBelow_split long inside]
    split
    next first =>
      have isLeft : (elements.take (elements.length / 2))[index]? = some element :=
        (List.getElem?_take_of_lt first).trans isElement
      have length : (elements.take (elements.length / 2)).length = elements.length / 2 := by
        rw [List.length_take]
        omega
      have below := ih _ (by omega) spec.leftElements.1 spec.leftElements.2 spec.leftBuilt
        (.inr (Nat.succ_ne_zero _)) isLeft length
      rw [List.map_cons, follow_cons, spec.isRoot]
      exact spec.extends_middle.follow below
    next second =>
      have isRight : (elements.drop (elements.length / 2))[index - elements.length / 2]? = some element := by
        rw [List.getElem?_drop, Nat.add_sub_cancel' (by omega)]
        exact isElement
      have below := ih _ (by omega) spec.rightElements.1 spec.rightElements.2 spec.rightBuilt
        (.inr (Nat.succ_ne_zero _)) isRight List.length_drop
      rw [List.map_cons, follow_cons, spec.isRoot]
      exact spec.extends_last.follow below
  · obtain ⟨only, rfl⟩ : ∃ only, elements = [only] := List.length_eq_one_iff.mp (by omega)
    obtain rfl : index = 0 := by simpa using inside
    obtain rfl := Option.some.inj isElement
    have deep : currentDepth ≠ 0 := several.resolve_left long
    rw [buildLevel, if_neg deep] at succeeded
    obtain ⟨rfl, rfl⟩ := Prod.mk.inj (Except.ok.inj succeeded)
    obtain rfl : 1 = count := size
    rw [MerkleTree.pathBelow_single]
    rfl

end

/-- The only leaf is on the left under the root. -/
theorem follow_single {first root : Nat} {metadata : Option TMetadata} (top : IsTop build.nodes first)
    (succeeded : factory.buildLevel [first] 0 metadata build = .ok (root, after)) :
    follow after.nodes root [.left] = some first := by
  rw [buildLevel, if_pos rfl] at succeeded
  obtain ⟨⟨merged, appended⟩, joined, rest⟩ := bind_eq_ok.mp succeeded
  obtain ⟨rfl, rfl⟩ := Prod.mk.inj (Except.ok.inj rest)
  obtain ⟨rfl, data, nodes, -⟩ := merge_ok top (by simp) joined
  have isJoin : setParent appended.nodes first build.nodes.length = join build.nodes data first none := by
    rw [nodes]
    rfl
  rw [follow_cons, isJoin, join_new (top_inside top) (by simp)]
  rfl

theorem length_leafNodes (factory : MerkleTreeFactory TData TLeaf TMetadata σ) (leaves : List TLeaf) :
    ((factory.sortedLeaves leaves).map Prod.snd).length = leaves.length := by
  rw [(factory.leafNodes_perm leaves).length_eq, List.length_range]

/-- The path to a leaf is the one computed from its index. -/
theorem follow_pathByIndex {leaves : List TLeaf} {store last : σ} {tree : MerkleTree TData TMetadata}
    (succeeded : factory.build leaves store = .ok (tree, last)) {index leaf : Nat} {path : List PathDirection}
    (isLeaf : tree.leafNodes[index]? = some leaf) (isPath : MerkleTree.pathByIndex index leaves.length = .ok path) :
    follow tree.nodes tree.root (path.map PathDirection.side) = some leaf := by
  obtain ⟨_, _, succeeded⟩ := bind_eq_ok.mp succeeded
  obtain ⟨metadata, _, succeeded⟩ := bind_eq_ok.mp succeeded
  obtain ⟨⟨root, built⟩, level, rest⟩ := bind_eq_ok.mp succeeded
  obtain ⟨rfl, rfl⟩ := Prod.mk.inj (Except.ok.inj rest)
  have distinct : ((factory.sortedLeaves leaves).map Prod.snd).Nodup :=
    (leafNodes_perm factory leaves).nodup_iff.mpr List.nodup_range
  have tops : ∀ e ∈ (factory.sortedLeaves leaves).map Prod.snd, IsTop (factory.leafBuild leaves store).nodes e :=
    fun e member => leafBuild_top.mpr ((mem_leafNodes factory leaves e).mp member)
  have count := factory.length_leafNodes leaves
  dsimp only at isLeaf ⊢
  generalize (factory.sortedLeaves leaves).map Prod.snd = elements at *
  obtain ⟨inside, -⟩ := List.getElem?_eq_some_iff.mp isLeaf
  rw [MerkleTree.pathByIndex, if_neg (by omega)] at isPath
  split at isPath
  next single =>
    obtain rfl := Except.ok.inj isPath
    obtain ⟨only, rfl⟩ := List.length_eq_one_iff.mp (count.trans single)
    obtain rfl : index = 0 := by simpa using inside
    obtain rfl := Option.some.inj isLeaf
    exact follow_single (tops only List.mem_cons_self) level
  next several =>
    obtain rfl := Except.ok.inj isPath
    have leads := follow_pathBelow distinct tops level (.inl (by omega)) isLeaf
    rwa [count] at leads

theorem side_injective : Function.Injective PathDirection.side := by
  intro a b same
  cases a <;> cases b <;> first | rfl | cases same

theorem getDirectPathFromRoot_eq {leaves : List TLeaf} {store last : σ} {tree : MerkleTree TData TMetadata}
    (succeeded : factory.build leaves store = .ok (tree, last)) {index : Nat} (inside : index < leaves.length) :
    tree.getDirectPathFromRoot index = MerkleTree.pathByIndex index leaves.length := by
  have spec := build_ok succeeded
  have linked := spec.merges.linked (leafBuild_linked leaves store)
  have indexInside : index < tree.leafNodes.length := by
    rw [spec.leaves, length_leafNodes]
    exact inside
  obtain ⟨leaf, isLeaf⟩ : ∃ leaf, tree.leafNodes[index]? = some leaf := ⟨_, List.getElem?_eq_getElem indexInside⟩
  have leafInside : leaf < tree.nodes.length := by
    have member := List.mem_of_getElem? isLeaf
    rw [spec.leaves] at member
    exact spec.merges.inside (leafBuild_top.mpr ((mem_leafNodes factory leaves leaf).mp member))
  obtain ⟨path, isPath⟩ := MerkleTree.pathByIndex_ok inside
  obtain ⟨direct, isDirect, leads⟩ := MerkleTree.getDirectPathFromRoot_ok linked spec.top isLeaf leafInside
  have alike := linked.follow_unique ((spec.top tree.root).mpr rfl) leads (follow_pathByIndex succeeded isLeaf isPath)
  rw [isDirect, isPath, side_injective.list_map alike]

/-- The path to a leaf that is computed from its index alone is the one read by going up through the parents, and
leads from the root to the leaf. -/
theorem pathByIndex_agrees {leaves : List TLeaf} {store last : σ} {tree : MerkleTree TData TMetadata}
    (built : factory.build leaves store = .ok (tree, last)) {index : Nat} (inside : index < leaves.length) :
    ∃ leaf path, tree.leafNodes[index]? = some leaf ∧ MerkleTree.pathByIndex index leaves.length = .ok path ∧
      tree.getDirectPathFromRoot index = .ok path ∧
      follow tree.nodes tree.root (path.map PathDirection.side) = some leaf := by
  have indexInside : index < tree.leafNodes.length := by
    rw [(build_ok built).leaves, length_leafNodes]
    exact inside
  obtain ⟨leaf, isLeaf⟩ : ∃ leaf, tree.leafNodes[index]? = some leaf := ⟨_, List.getElem?_eq_getElem indexInside⟩
  obtain ⟨path, isPath⟩ := MerkleTree.pathByIndex_ok inside
  exact ⟨leaf, path, isLeaf, isPath, (getDirectPathFromRoot_eq built inside).trans isPath,
    follow_pathByIndex built isLeaf isPath⟩

/-- The paths that `pathByIndex` computes for the leaves of a tree of at most `2 ^ depthLimit`. -/
theorem pathByIndex_bounded {depthLimit leavesCount index : Nat} (positive : 1 ≤ depthLimit)
    (few : leavesCount ≤ 2 ^ depthLimit) (inside : index < leavesCount) :
    ∃ path, MerkleTree.pathByIndex index leavesCount = .ok path ∧ path.length ≤ depthLimit ∧
      ∀ other < leavesCount, ∃ otherPath, MerkleTree.pathByIndex other leavesCount = .ok otherPath ∧
        path.length ≤ otherPath.length + 1 := by
  by_cases single : leavesCount = 1
  · subst single
    have first (i : Nat) (isFirst : i < 1) : MerkleTree.pathByIndex i 1 = .ok [.L] := by
      rw [MerkleTree.pathByIndex, if_neg (by omega), if_pos rfl]
    exact ⟨_, first index inside, positive, fun other isOther => ⟨_, first other isOther, Nat.le_succ _⟩⟩
  · have several (i : Nat) (within : i < leavesCount) :
        MerkleTree.pathByIndex i leavesCount = .ok (MerkleTree.pathBelow i leavesCount) := by
      rw [MerkleTree.pathByIndex, if_neg (by omega), if_neg single]
      rfl
    exact ⟨_, several index inside, MerkleTree.length_pathBelow_le few inside, fun other isOther =>
      ⟨_, several other isOther, MerkleTree.length_pathBelow_close inside isOther⟩⟩

/-- There are too many leaves, and that is the only reason for a tree not to be built. -/
theorem build_error_iff (merging : factory.Merging) {depthLimit : Nat} (limited : factory.depthLimit = some depthLimit)
    (positive : 1 ≤ depthLimit) {leaves : List TLeaf} (nonempty : leaves ≠ [])
    (described : ∃ metadata, factory.generateMetadata ((factory.sortedLeaves leaves).map Prod.fst) = .ok metadata)
    (store : σ) (e : JsError) : factory.build leaves store = .error e ↔
      e = MerkleDepthError depthLimit (2 ^ depthLimit) ∧ 2 ^ depthLimit < leaves.length := by
  have asserted : factory.assertLeaves leaves =
      if 2 ^ depthLimit < leaves.length then .error (MerkleDepthError depthLimit (2 ^ depthLimit)) else .ok () := by
    rw [assertLeaves, if_neg (by simpa using nonempty), limited]
    simp [Nat.ne_of_gt positive]
  by_cases many : 2 ^ depthLimit < leaves.length
  · rw [if_pos many] at asserted
    have thrown : factory.build leaves store = .error (MerkleDepthError depthLimit (2 ^ depthLimit)) := by
      rw [build, asserted]
      rfl
    rw [thrown]
    exact ⟨fun same => ⟨(Except.error.inj same).symm, many⟩, fun same => congrArg _ same.1.symm⟩
  · rw [if_neg many] at asserted
    obtain ⟨tree, last, built⟩ := merging.builds store asserted described
    rw [built]
    exact ⟨nofun, fun same => absurd same.2 many⟩

/-- A tree with a limit is built exactly from up to `2 ^ depthLimit` leaves. No leaf of it is deeper than the limit,
and no two leaves differ by more than one level. -/
theorem depth_limited (merging : factory.Merging) {depthLimit : Nat} (limited : factory.depthLimit = some depthLimit)
    (positive : 1 ≤ depthLimit) {leaves : List TLeaf} (nonempty : leaves ≠ [])
    (described : ∃ metadata, factory.generateMetadata ((factory.sortedLeaves leaves).map Prod.fst) = .ok metadata)
    (store : σ) :
    ((∃ e, factory.build leaves store = .error e) ↔ 2 ^ depthLimit < leaves.length) ∧
    ∀ tree last, factory.build leaves store = .ok (tree, last) → ∀ index < leaves.length,
      ∃ path, tree.getDirectPathFromRoot index = .ok path ∧ path.length ≤ depthLimit ∧
        ∀ other < leaves.length, ∃ otherPath, tree.getDirectPathFromRoot other = .ok otherPath ∧
          path.length ≤ otherPath.length + 1 := by
  have thrown := build_error_iff merging limited positive nonempty described store
  refine ⟨⟨?_, fun many => ⟨_, (thrown _).mpr ⟨rfl, many⟩⟩⟩, fun tree last built index inside => ?_⟩
  · rintro ⟨e, failed⟩
    exact ((thrown e).mp failed).2
  · have few : leaves.length ≤ 2 ^ depthLimit := by
      by_contra many
      have failed := (thrown _).mpr ⟨rfl, Nat.lt_of_not_le many⟩
      cases built.symm.trans failed
    obtain ⟨path, isPath, short, close⟩ := pathByIndex_bounded positive few inside
    refine ⟨path, (getDirectPathFromRoot_eq built inside).trans isPath, short, fun other otherInside => ?_⟩
    obtain ⟨otherPath, isOther, near⟩ := close other otherInside
    exact ⟨otherPath, (getDirectPathFromRoot_eq built otherInside).trans isOther, near⟩

/-- Trees over texts, of three levels at most. -/
def textFactory : MerkleTreeFactory String String Unit Unit where
  mergeFn left right _ store := .ok ("Hash(" ++ left ++ " + " ++ right.getD "null" ++ ")", store)
  ofLeaf := id
  depthLimit := some 3

/-- The path to each of five leaves. -/
theorem pathByIndex_agrees_fiveLeaves : ∃ tree, textFactory.build ["A", "B", "C", "D", "E"] () = .ok (tree, ()) ∧
    ∀ index < 5, ∃ path, MerkleTree.pathByIndex index 5 = .ok path ∧ tree.getDirectPathFromRoot index = .ok path := by
  have merging : textFactory.Merging := fun _ _ _ _ => ⟨_, rfl⟩
  have admitted : textFactory.assertLeaves ["A", "B", "C", "D", "E"] = .ok () := rfl
  obtain ⟨tree, _, built⟩ := merging.builds () admitted ⟨none, rfl⟩
  refine ⟨tree, built, fun index inside => ?_⟩
  obtain ⟨leaf, path, _, computed, direct, _⟩ := pathByIndex_agrees built inside
  exact ⟨path, computed, direct⟩

/-- Five leaves fit into three levels. -/
theorem depth_limited_fiveLeaves :
    (∃ e, textFactory.build ["A", "B", "C", "D", "E"] () = .error e) ↔ 2 ^ 3 < 5 :=
  (depth_limited (fun _ _ _ _ => ⟨_, rfl⟩) rfl (by omega) (List.cons_ne_nil _ _) ⟨none, rfl⟩ ()).1

end MerkleTreeFactory

end Ceramic
