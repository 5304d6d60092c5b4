import Ceramic.Js
import Ceramic.Library.LinkedForest

/-! Merkle trees as they are built from their leaves: every leaf is a node, a merge makes a new node
over one or two others, and the path to a leaf is read by going up through the parents. -/
namespace Ceramic

open LinkedForest

inductive PathDirection where
  | L
  | R
  deriving DecidableEq, Repr

namespace PathDirection

/-- The numbers of the enumeration. -/
def number : PathDirection → Nat
  | .L => 0
  | .R => 1

def side : PathDirection → Side
  | .L => .left
  | .R => .right

end PathDirection

def pathString (path : List PathDirection) : String :=
  "/".intercalate (path.map fun direction => toString direction.number)

/-- Nodes refer to each other by their positions. -/
structure MerkleTree (TData TMetadata : Type) where
  nodes : List (Node TData)
  root : Nat
  leafNodes : List Nat
  metadata : Option TMetadata

/-- The nodes made so far, and what the merges have left behind. -/
structure MerkleBuild (TData σ : Type) where
  nodes : List (Node TData)
  store : σ

structure MerkleTreeFactory (TData TLeaf TMetadata σ : Type) where
  /-- The data of the node over two others, or over a single one. -/
  mergeFn : TData → Option TData → Option TMetadata → σ → Except JsError (TData × σ)
  /-- A leaf is data too. -/
  ofLeaf : TLeaf → TData
  compareFn : Option (TLeaf → TLeaf → Int) := none
  metadataFn : Option (List TLeaf → Except JsError TMetadata) := none
  depthLimit : Option Nat := none

namespace MerkleTreeFactory

variable {TData TLeaf TMetadata σ : Type} (factory : MerkleTreeFactory TData TLeaf TMetadata σ)

def EmptyLeavesError : JsError := ⟨"Cannot generate Merkle structure with no elements"⟩

def MerkleDepthError (depthLimit leavesLimit : Nat) : JsError :=
  ⟨"Merkle tree exceeded configured limit of " ++ toString depthLimit ++ " levels (" ++ toString leavesLimit ++
    " nodes)"⟩

def dataOf (nodes : List (Node TData)) (node : Nat) : Except JsError TData :=
  match nodes[node]? with
  | some found => .ok found.data
  | none => .error ⟨"Cannot read properties of undefined (reading 'data')"⟩

/-- `right?.data`. -/
def dataOf? (nodes : List (Node TData)) : Option Nat → Except JsError (Option TData)
  | some right => (dataOf nodes right).map some
  | none => .ok none

/-- A new node over one or two others, which do not know it yet. -/
def merge (left : Nat) (right : Option Nat) (metadata : Option TMetadata) (build : MerkleBuild TData σ) :
    Except JsError (Nat × MerkleBuild TData σ) := do
  let leftData ← dataOf build.nodes left
  let rightData ← dataOf? build.nodes right
  let (data, store) ← factory.mergeFn leftData rightData metadata build.store
  return (build.nodes.length, ⟨build.nodes ++ [{ data, left := some left, right }], store⟩)

def buildLevel (elements : List Nat) (currentDepth : Nat) (metadata : Option TMetadata)
    (build : MerkleBuild TData σ) : Except JsError (Nat × MerkleBuild TData σ) :=
  match elements with
  | [] => .error ⟨"Maximum call stack size exceeded"⟩
  | [first] =>
    if currentDepth = 0 then do
      let (merged, build) ← factory.merge first none metadata build
      return (merged, { build with nodes := setParent build.nodes first merged })
    else .ok (first, build)
  | first :: second :: others => do
    let elements := first :: second :: others
    let middleIndex := elements.length / 2
    let (leftNode, build) ← buildLevel (elements.take middleIndex) (currentDepth + 1) none build
    let (rightNode, build) ← buildLevel (elements.drop middleIndex) (currentDepth + 1) none build
    let (merged, build) ← factory.merge leftNode (some rightNode) metadata build
    return (merged, { build with nodes := setParent (setParent build.nodes leftNode merged) rightNode merged })
termination_by elements.length
decreasing_by
  · rw [List.length_take, List.length_cons, List.length_cons]
    omega
  · rw [List.length_drop, List.length_cons, List.length_cons]
    omega

/-- The leaves with their positions, sorted if the factory has an order. -/
def sortedLeaves (leaves : List TLeaf) : List (TLeaf × Nat) :=
  match factory.compareFn with
  | some compare => leaves.zipIdx.mergeSort fun a b => decide (compare a.1 b.1 ≤ 0)
  | none => leaves.zipIdx

/-- There are leaves, and no more than the tree may have. -/
def assertLeaves (leaves : List TLeaf) : Except JsError Unit :=
  if leaves.isEmpty then .error EmptyLeavesError
  else match factory.depthLimit with
    | some depthLimit =>
      if depthLimit ≠ 0 ∧ 2 ^ depthLimit < leaves.length then .error (MerkleDepthError depthLimit (2 ^ depthLimit))
      else .ok ()
    | none => .ok ()

def generateMetadata (leaves : List TLeaf) : Except JsError (Option TMetadata) :=
  match factory.metadataFn with
  | some generateMetadata => (generateMetadata leaves).map some
  | none => .ok none

/-- What the leaves are before anything is merged. -/
def leafBuild (leaves : List TLeaf) (store : σ) : MerkleBuild TData σ :=
  ⟨leaves.map fun leaf => { data := factory.ofLeaf leaf }, store⟩

def build (leaves : List TLeaf) (store : σ) : Except JsError (MerkleTree TData TMetadata × σ) := do
  factory.assertLeaves leaves
  let nodes := factory.sortedLeaves leaves
  let metadata ← factory.generateMetadata (nodes.map Prod.fst)
  let (root, built) ← factory.buildLevel (nodes.map Prod.snd) 0 metadata (factory.leafBuild leaves store)
  return (⟨built.nodes, root, nodes.map Prod.snd, metadata⟩, built.store)

/-- A build after further merges, each of one top or of two different ones. -/
inductive Merges (start : MerkleBuild TData σ) : MerkleBuild TData σ → Prop where
  | start : Merges start start
  | merged {build : MerkleBuild TData σ} {left : Nat} {right : Option Nat} {metadata : Option TMetadata}
      {leftData data : TData} {rightData : Option TData} {store : σ} :
      Merges start build → IsTop build.nodes left → (∀ r ∈ right, IsTop build.nodes r ∧ r ≠ left) →
      dataOf build.nodes left = .ok leftData → dataOf? build.nodes right = .ok rightData →
      factory.mergeFn leftData rightData metadata build.store = .ok (data, store) →
      Merges start ⟨join build.nodes data left right, store⟩

variable {factory} {start build : MerkleBuild TData σ}

theorem Merges.trans {last : MerkleBuild TData σ} (first : factory.Merges start build)
    (second : factory.Merges build last) : factory.Merges start last := by
  induction second with
  | start => exact first
  | merged _ leftTop rightTop leftData rightData made ih => exact ih.merged leftTop rightTop leftData rightData made

theorem top_inside {nodes : List (Node TData)} {position : Nat} (top : IsTop nodes position) :
    position < nodes.length := by
  obtain ⟨node, found, _⟩ := top
  exact (List.getElem?_eq_some_iff.mp found).1

theorem Merges.linked (merges : factory.Merges start build) (linked : Linked start.nodes) : Linked build.nodes := by
  induction merges with
  | start => exact linked
  | merged _ leftTop rightTop _ _ _ ih => exact ih.join leftTop rightTop

/-- Nodes stay where they are, with their data. -/
theorem Merges.kept (merges : factory.Merges start build) {position : Nat} {node : Node TData}
    (found : start.nodes[position]? = some node) :
    ∃ after : Node TData, build.nodes[position]? = some after ∧ after.data = node.data := by
  induction merges with
  | start => exact ⟨node, found, rfl⟩
  | merged _ leftTop rightTop _ _ _ ih =>
    obtain ⟨middle, isMiddle, sameData⟩ := ih
    obtain ⟨after, isAfter, dataAfter, _⟩ := join_old _ (top_inside leftTop)
      (fun r isRight => top_inside (rightTop r isRight).1) isMiddle
    exact ⟨after, isAfter, dataAfter.trans sameData⟩

theorem Merges.inside (merges : factory.Merges start build) {position : Nat} (top : IsTop start.nodes position) :
    position < build.nodes.length := by
  obtain ⟨node, found, _⟩ := top
  obtain ⟨after, isAfter, _⟩ := merges.kept found
  exact (List.getElem?_eq_some_iff.mp isAfter).1

/-- What each merge keeps holds after a build. -/
theorem Merges.invariant {Holds : MerkleBuild TData σ → Prop} (merges : factory.Merges start build)
    (initial : Holds start)
    (preserved : ∀ (build : MerkleBuild TData σ) left right metadata leftData rightData data store, Holds build →
      IsTop build.nodes left → (∀ r ∈ right, IsTop build.nodes r ∧ r ≠ left) →
      dataOf build.nodes left = .ok leftData → dataOf? build.nodes right = .ok rightData →
      factory.mergeFn leftData rightData metadata build.store = .ok (data, store) →
      Holds ⟨join build.nodes data left right, store⟩) : Holds build := by
  induction merges with
  | start => exact initial
  | merged _ leftTop rightTop leftData rightData made ih =>
    exact preserved _ _ _ _ _ _ _ _ ih leftTop rightTop leftData rightData made

/-- A merge of tops, followed by telling them their parent, is a join. -/
theorem merge_ok {left merged : Nat} {right : Option Nat} {metadata : Option TMetadata}
    {after : MerkleBuild TData σ} (leftTop : IsTop build.nodes left)
    (rightTop : ∀ r ∈ right, IsTop build.nodes r ∧ r ≠ left)
    (succeeded : factory.merge left right metadata build = .ok (merged, after)) :
    merged = build.nodes.length ∧ ∃ data, after.nodes = build.nodes ++ [{ data, left := some left, right }] ∧
      factory.Merges build ⟨join build.nodes data left right, after.store⟩ := by
  obtain ⟨leftData, isLeft, rest⟩ := bind_eq_ok.mp succeeded
  obtain ⟨rightData, isRight, rest⟩ := bind_eq_ok.mp rest
  obtain ⟨⟨data, store⟩, made, rest⟩ := bind_eq_ok.mp rest
  obtain ⟨rfl, rfl⟩ := Prod.mk.inj (Except.ok.inj rest)
  exact ⟨rfl, data, rfl, .merged .start leftTop rightTop isLeft isRight made⟩

/-- What building a level comes to: its elements, which were tops, are merged into a single one. -/
structure LevelSpec (factory : MerkleTreeFactory TData TLeaf TMetadata σ) (elements : List Nat)
    (build after : MerkleBuild TData σ) (root : Nat) : Prop where
  merges : factory.Merges build after
  tops : ∀ position, IsTop after.nodes position ↔ position = root ∨ IsTop build.nodes position ∧ position ∉ elements
  fresh : IsTop build.nodes root → root ∈ elements

/-- A single leaf under a node of its own. -/
theorem LevelSpec.single {first merged : Nat} {metadata : Option TMetadata} {after : MerkleBuild TData σ}
    (top : IsTop build.nodes first) (succeeded : factory.merge first none metadata build = .ok (merged, after)) :
    LevelSpec factory [first] build { after with nodes := setParent after.nodes first merged } merged := by
  obtain ⟨rfl, data, nodes, merges⟩ := merge_ok top (by simp) succeeded
  have isJoin : setParent after.nodes first build.nodes.length = join build.nodes data first none := by
    rw [nodes]
    rfl
  rw [isJoin]
  have tops (position : Nat) : IsTop (join build.nodes data first none) position ↔ _ :=
    isTop_join (top_inside top) (by simp)
  refine ⟨merges, fun position => (tops position).trans (by simp), fun isTop => ?_⟩
  exact absurd (top_inside isTop) (Nat.lt_irrefl _)

/-- Two levels next to each other, under a new node. -/
theorem LevelSpec.join {elements others : List Nat} {middle last after : MerkleBuild TData σ}
    {leftNode rightNode merged : Nat} {metadata : Option TMetadata} (tops : ∀ e ∈ others, IsTop build.nodes e)
    (disjoint : ∀ e ∈ elements, e ∉ others) (left : LevelSpec factory elements build middle leftNode)
    (right : LevelSpec factory others middle last rightNode)
    (succeeded : factory.merge leftNode (some rightNode) metadata last = .ok (merged, after)) :
    LevelSpec factory (elements ++ others) build
      { after with nodes := setParent (setParent after.nodes leftNode merged) rightNode merged } merged := by
  have leftOutside : leftNode ∉ others := fun inside => disjoint leftNode (left.fresh (tops leftNode inside)) inside
  have leftMiddle : IsTop middle.nodes leftNode := (left.tops leftNode).mpr (.inl rfl)
  have leftTop : IsTop last.nodes leftNode := (right.tops leftNode).mpr (.inr ⟨leftMiddle, leftOutside⟩)
  have rightTop : IsTop last.nodes rightNode := (right.tops rightNode).mpr (.inl rfl)
  have apart : rightNode ≠ leftNode := by
    rintro rfl
    exact leftOutside (right.fresh leftMiddle)
  have rights : ∀ r ∈ some rightNode, IsTop last.nodes r ∧ r ≠ leftNode := by
    rintro _ ⟨⟩
    exact ⟨rightTop, apart⟩
  obtain ⟨rfl, data, nodes, merges⟩ := merge_ok leftTop rights succeeded
  have isJoin : setParent (setParent after.nodes leftNode last.nodes.length) rightNode last.nodes.length =
      LinkedForest.join last.nodes data leftNode (some rightNode) := by
    rw [nodes]
    rfl
  rw [isJoin]
  constructor
  case merges => exact left.merges.trans (right.merges.trans merges)
  case tops =>
    intro position
    rw [isTop_join (top_inside leftTop) (fun r isRight => top_inside (rights r isRight).1), right.tops, left.tops,
      List.mem_append, not_or]
    constructor
    · rintro (new | ⟨isRight | ⟨isLeft | ⟨before, notLeft⟩, notOther⟩, unlike⟩)
      · exact .inl new
      · exact absurd (congrArg some isRight.symm) unlike.2
      · exact absurd isLeft unlike.1
      · exact .inr ⟨before, notLeft, notOther⟩
    · rintro (new | ⟨before, notLeft, notOther⟩)
      · exact .inl new
      · refine .inr ⟨.inr ⟨.inr ⟨before, notLeft⟩, notOther⟩, ?_, ?_⟩
        · rintro rfl
          exact notLeft (left.fresh before)
        · intro same
          obtain rfl := Option.some.inj same
          exact notOther (right.fresh ((left.tops rightNode).mpr (.inr ⟨before, notLeft⟩)))
  case fresh =>
    intro top
    have inside := (left.merges.trans right.merges).inside top
    exact absurd inside (Nat.lt_irrefl _)

theorem buildLevel_spec {elements : List Nat} {currentDepth root : Nat} {metadata : Option TMetadata}
    {after : MerkleBuild TData σ} (distinct : elements.Nodup) (tops : ∀ e ∈ elements, IsTop build.nodes e)
    (succeeded : factory.buildLevel elements currentDepth metadata build = .ok (root, after)) :
    LevelSpec factory elements build after root := by
  induction size : elements.length using Nat.strong_induction_on
    generalizing elements currentDepth metadata build root after with
  | _ size ih =>
  match elements with
  | [] =>
    rw [buildLevel] at succeeded
    cases succeeded
  | [first] =>
    have firstTop := tops first (List.mem_singleton_self first)
    rw [buildLevel] at succeeded
    split at succeeded
    · obtain ⟨⟨merged, middle⟩, joined, rest⟩ := bind_eq_ok.mp succeeded
      obtain ⟨rfl, rfl⟩ := Prod.mk.inj (Except.ok.inj rest)
      exact .single firstTop joined
    · obtain ⟨rfl, rfl⟩ := Prod.mk.inj (Except.ok.inj succeeded)
      refine ⟨.start, fun position => ?_, fun _ => List.mem_singleton_self _⟩
      by_cases same : position = first
      · simp [same, firstTop]
      · simp [same]
  | first :: second :: others =>
    rw [buildLevel] at succeeded
    dsimp only at succeeded
    obtain ⟨⟨leftNode, middle⟩, leftBuilt, rest⟩ := bind_eq_ok.mp succeeded
    obtain ⟨⟨rightNode, last⟩, rightBuilt, rest⟩ := bind_eq_ok.mp rest
    obtain ⟨⟨merged, appended⟩, joined, rest⟩ := bind_eq_ok.mp rest
    obtain ⟨rfl, rfl⟩ := Prod.mk.inj (Except.ok.inj rest)
    generalize isWhole : first :: second :: others = whole at *
    have long : 2 ≤ whole.length := by
      rw [← isWhole]
      simp
    have halves := List.take_append_drop (whole.length / 2) whole
    rw [← halves] at distinct tops
    obtain ⟨leftDistinct, rightDistinct, disjoint⟩ := List.nodup_append.mp distinct
    have apart : ∀ e ∈ whole.take (whole.length / 2), e ∉ whole.drop (whole.length / 2) :=
      fun e here there => disjoint e here e there rfl
    have rightTops : ∀ e ∈ whole.drop (whole.length / 2), IsTop build.nodes e :=
      fun e inside => tops e (List.mem_append_right _ inside)
    have left := ih _ (by rw [← size, List.length_take]; omega) leftDistinct
      (fun e inside => tops e (List.mem_append_left _ inside)) leftBuilt rfl
    have right := ih _ (by rw [← size, List.length_drop]; omega) rightDistinct
      (fun e inside => (left.tops e).mpr (.inr ⟨rightTops e inside, fun here => apart e here inside⟩)) rightBuilt rfl
    have both := left.join rightTops apart right joined
    rwa [halves] at both

theorem sortedLeaves_perm (factory : MerkleTreeFactory TData TLeaf TMetadata σ) (leaves : List TLeaf) :
    (factory.sortedLeaves leaves).Perm leaves.zipIdx := by
  unfold sortedLeaves
  split
  · exact List.mergeSort_perm _ _
  · exact List.Perm.refl _

/-- The leaf nodes are all positions there are leaves for. -/
theorem leafNodes_perm (factory : MerkleTreeFactory TData TLeaf TMetadata σ) (leaves : List TLeaf) :
    ((factory.sortedLeaves leaves).map Prod.snd).Perm (List.range leaves.length) := by
  have perm := (factory.sortedLeaves_perm leaves).map Prod.snd
  rwa [List.zipIdx_map_snd, ← List.range_eq_range'] at perm

theorem mem_leafNodes (factory : MerkleTreeFactory TData TLeaf TMetadata σ) (leaves : List TLeaf) (position : Nat) :
    position ∈ (factory.sortedLeaves leaves).map Prod.snd ↔ position < leaves.length := by
  rw [(factory.leafNodes_perm leaves).mem_iff, List.mem_range]

theorem leafBuild_linked (leaves : List TLeaf) (store : σ) : Linked (factory.leafBuild leaves store).nodes := by
  refine .of_single fun node member => ?_
  obtain ⟨leaf, _, rfl⟩ := List.mem_map.mp member
  exact ⟨rfl, rfl, rfl⟩

theorem leafBuild_top {leaves : List TLeaf} {store : σ} {position : Nat} :
    IsTop (factory.leafBuild leaves store).nodes position ↔ position < leaves.length := by
  constructor
  · exact fun top => by simpa [leafBuild] using top_inside top
  · intro inside
    refine ⟨{ data := factory.ofLeaf leaves[position] }, ?_, rfl⟩
    simp [leafBuild, inside]

/-- What is built: a forest with a single top, from the leaves by merges. -/
structure BuildSpec (factory : MerkleTreeFactory TData TLeaf TMetadata σ) (leaves : List TLeaf) (store : σ)
    (tree : MerkleTree TData TMetadata) (after : σ) : Prop where
  merges : factory.Merges (factory.leafBuild leaves store) ⟨tree.nodes, after⟩
  top : ∀ position, IsTop tree.nodes position ↔ position = tree.root
  leaves : tree.leafNodes = (factory.sortedLeaves leaves).map Prod.snd

theorem build_ok {leaves : List TLeaf} {store after : σ} {tree : MerkleTree TData TMetadata}
    (succeeded : factory.build leaves store = .ok (tree, after)) : BuildSpec factory leaves store tree after := by
  obtain ⟨_, _, succeeded⟩ := bind_eq_ok.mp succeeded
  obtain ⟨metadata, _, succeeded⟩ := bind_eq_ok.mp succeeded
  obtain ⟨⟨root, built⟩, level, rest⟩ := bind_eq_ok.mp succeeded
  obtain ⟨rfl, rfl⟩ := Prod.mk.inj (Except.ok.inj rest)
  have spec := buildLevel_spec ((leafNodes_perm factory leaves).nodup_iff.mpr List.nodup_range)
    (fun e member => leafBuild_top.mpr ((mem_leafNodes factory leaves e).mp member)) level
  refine ⟨spec.merges, fun position => (spec.tops position).trans ?_, rfl⟩
  rw [leafBuild_top, mem_leafNodes]
  simp

theorem dataOf_inside {nodes : List (Node TData)} {node : Nat} (inside : node < nodes.length) :
    ∃ data, dataOf nodes node = .ok data := by
  unfold dataOf
  rw [List.getElem?_eq_getElem inside]
  exact ⟨_, rfl⟩

theorem dataOf?_inside {nodes : List (Node TData)} {right : Option Nat} (inside : ∀ r ∈ right, r < nodes.length) :
    ∃ data, dataOf? nodes right = .ok data := by
  cases right with
  | none => exact ⟨none, rfl⟩
  | some r =>
    obtain ⟨data, found⟩ := dataOf_inside (inside r rfl)
    exact ⟨some data, map_eq_ok.mpr ⟨data, found, rfl⟩⟩

/-- Merging always succeeds. -/
def Merging (factory : MerkleTreeFactory TData TLeaf TMetadata σ) : Prop :=
  ∀ left right metadata store, ∃ made, factory.mergeFn left right metadata store = .ok made

theorem Merging.merge (merging : factory.Merging) {left : Nat} (right : Option Nat) (metadata : Option TMetadata)
    (leftInside : left < build.nodes.length) (rightInside : ∀ r ∈ right, r < build.nodes.length) :
    ∃ after, factory.merge left right metadata build = .ok (build.nodes.length, after) ∧
      after.nodes.length = build.nodes.length + 1 := by
  obtain ⟨leftData, isLeft⟩ := dataOf_inside leftInside
  obtain ⟨rightData, isRight⟩ := dataOf?_inside rightInside
  obtain ⟨⟨data, store⟩, made⟩ := merging leftData rightData metadata build.store
  refine ⟨_, bind_eq_ok.mpr ⟨leftData, isLeft, bind_eq_ok.mpr ⟨rightData, isRight, bind_eq_ok.mpr ⟨_, made, rfl⟩⟩⟩, ?_⟩
  simp

theorem Merging.buildLevel (merging : factory.Merging) {elements : List Nat} (currentDepth : Nat)
    (metadata : Option TMetadata) (nonempty : elements ≠ []) (inside : ∀ e ∈ elements, e < build.nodes.length) :
    ∃ root after, factory.buildLevel elements currentDepth metadata build = .ok (root, after) ∧
      root < after.nodes.length ∧ build.nodes.length ≤ after.nodes.length := by
  induction size : elements.length using Nat.strong_induction_on
    generalizing elements currentDepth metadata build with
  | _ size ih =>
  match elements with
  | [] => exact absurd rfl nonempty
  | [first] =>
    have firstInside := inside first (List.mem_singleton_self first)
    rw [MerkleTreeFactory.buildLevel]
    split
    · obtain ⟨after, made, length⟩ := merging.merge none metadata firstInside (by simp)
      refine ⟨_, _, bind_eq_ok.mpr ⟨_, made, rfl⟩, ?_, ?_⟩ <;> simp [length]
    · exact ⟨first, build, rfl, firstInside, Nat.le_refl _⟩
  | first :: second :: others =>
    rw [MerkleTreeFactory.buildLevel]
    dsimp only
    generalize isWhole : first :: second :: others = whole at *
    have long : 2 ≤ whole.length := by
      rw [← isWhole]
      simp
    have leftLength : (whole.take (whole.length / 2)).length = whole.length / 2 := by
      rw [List.length_take]
      omega
    have rightLength : (whole.drop (whole.length / 2)).length = whole.length - whole.length / 2 := List.length_drop
    obtain ⟨leftNode, middle, leftBuilt, leftInside, grown⟩ := ih _ (by omega) (currentDepth + 1) none
      (List.ne_nil_of_length_pos (by omega)) (fun e member => inside e (List.mem_of_mem_take member)) leftLength
    obtain ⟨rightNode, last, rightBuilt, rightInside, grownAgain⟩ := ih _ (by omega) (currentDepth + 1) none
      (List.ne_nil_of_length_pos (by omega))
      (fun e member => Nat.lt_of_lt_of_le (inside e (List.mem_of_mem_drop member)) grown) rightLength
    obtain ⟨after, made, length⟩ := merging.merge (some rightNode) metadata
      (Nat.lt_of_lt_of_le leftInside grownAgain) (by simpa using rightInside)
    refine ⟨_, _, bind_eq_ok.mpr ⟨(leftNode, middle), leftBuilt, bind_eq_ok.mpr ⟨(rightNode, last), rightBuilt,
      bind_eq_ok.mpr ⟨(_, after), made, rfl⟩⟩⟩, ?_, ?_⟩
    · simp [length]
    · simp [length]
      omega

/-- A tree is built from any leaves that are not too many, if metadata can be made for them. -/
theorem Merging.builds (merging : factory.Merging) {leaves : List TLeaf} (store : σ)
    (admitted : factory.assertLeaves leaves = .ok ())
    (described : ∃ metadata, factory.generateMetadata ((factory.sortedLeaves leaves).map Prod.fst) = .ok metadata) :
    ∃ tree after, factory.build leaves store = .ok (tree, after) := by
  obtain ⟨metadata, isMetadata⟩ := described
  have nonempty : (factory.sortedLeaves leaves).map Prod.snd ≠ [] := by
    intro empty
    have none := (factory.sortedLeaves_perm leaves).length_eq
    rw [List.map_eq_nil_iff.mp empty, List.length_zipIdx, List.length_nil] at none
    rw [List.eq_nil_of_length_eq_zero none.symm] at admitted
    cases admitted
  have inside : ∀ e ∈ (factory.sortedLeaves leaves).map Prod.snd,
      e < (factory.leafBuild leaves store).nodes.length := by
    intro e member
    simpa [leafBuild] using (mem_leafNodes factory leaves e).mp member
  obtain ⟨root, after, built, _⟩ := merging.buildLevel 0 metadata nonempty inside
  exact ⟨_, _, bind_eq_ok.mpr ⟨(), admitted, bind_eq_ok.mpr ⟨metadata, isMetadata, bind_eq_ok.mpr ⟨_, built, rfl⟩⟩⟩⟩

end MerkleTreeFactory

namespace MerkleTree

variable {TData TMetadata : Type}

/-- The walk up from an element; `steps` bounds it by the number of nodes. -/
def pathFromRoot (nodes : List (Node TData)) : (steps : Nat) → (element : Nat) → (result : List PathDirection) →
    Except JsError (List PathDirection)
  | 0, _, _ => .error ⟨"Maximum call stack size exceeded"⟩
  | steps + 1, element, result =>
    match nodes[element]?.bind (·.parent) with
    | none => .ok result.reverse
    | some parent =>
      let direction := if (nodes[parent]?.bind (·.left)) = some element then PathDirection.L else .R
      pathFromRoot nodes steps parent (result ++ [direction])

def getDirectPathFromRoot (tree : MerkleTree TData TMetadata) (elemIndex : Nat) : Except JsError (List PathDirection) :=
  match tree.leafNodes[elemIndex]? with
  | some leaf => pathFromRoot tree.nodes tree.nodes.length leaf []
  | none => .error ⟨"Empty leaf at index " ++ toString elemIndex⟩

/-- The walk ends at a top, and what it returns leads from there back down. -/
theorem pathFromRoot_spec {nodes : List (Node TData)} (linked : Linked nodes) {steps element : Nat}
    (inside : element < nodes.length) (enough : nodes.length - element ≤ steps) (result : List PathDirection) :
    ∃ top path, pathFromRoot nodes steps element result = .ok (path ++ result.reverse) ∧ IsTop nodes top ∧
      follow nodes top (path.map PathDirection.side) = some element := by
  induction steps generalizing element result with
  | zero => omega
  | succ steps ih =>
    have here := List.getElem?_eq_getElem inside
    unfold pathFromRoot
    rw [here, Option.bind_some]
    cases isParent : nodes[element].parent with
    | none => exact ⟨element, [], rfl, ⟨_, here, isParent⟩, rfl⟩
    | some parent =>
      obtain ⟨above, below⟩ := linked.lt_parent here isParent
      have isAbove := List.getElem?_eq_getElem below
      have side := linked.side here isParent isAbove
      dsimp only
      rw [isAbove, Option.bind_some]
      generalize isDirection : (if nodes[parent].left = some element then PathDirection.L else .R) = direction
      obtain ⟨top, path, walked, isTop, leads⟩ := ih below (by omega) (result ++ [direction])
      have sameSide : (if nodes[parent].left = some element then Side.left else .right) = direction.side := by
        rw [← isDirection]
        split <;> rfl
      refine ⟨top, path ++ [direction], ?_, isTop, ?_⟩
      · rw [walked, List.reverse_append, List.append_assoc]
        rfl
      · rw [List.map_append, follow_append, leads, Option.bind_some, List.map_singleton, ← sameSide]
        simp [follow, isAbove, side]

/-- The direct path leads from the root to the leaf. -/
theorem getDirectPathFromRoot_ok {tree : MerkleTree TData TMetadata} (linked : Linked tree.nodes)
    (top : ∀ position, IsTop tree.nodes position ↔ position = tree.root) {elemIndex leaf : Nat}
    (isLeaf : tree.leafNodes[elemIndex]? = some leaf) (inside : leaf < tree.nodes.length) :
    ∃ path, tree.getDirectPathFromRoot elemIndex = .ok path ∧
      follow tree.nodes tree.root (path.map PathDirection.side) = some leaf := by
  obtain ⟨reached, path, walked, isTop, leads⟩ := pathFromRoot_spec linked inside (Nat.sub_le _ _) []
  obtain rfl := (top reached).mp isTop
  refine ⟨path, ?_, leads⟩
  unfold getDirectPathFromRoot
  rw [isLeaf]
  simpa using walked

end MerkleTree

end Ceramic
