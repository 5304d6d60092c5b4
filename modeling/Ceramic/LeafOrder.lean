import Ceramic.MerkleTree
import Ceramic.IdText
import Ceramic.Library.Comparator

/-! Whether the tree depends on the order of the requests: its root is a function of the sorted leaves, and
`IpfsLeafCompare` sorts candidates of different streams in one way only. -/
namespace Ceramic

open LinkedForest

namespace MerkleTreeFactory

variable {TData TLeaf TMetadata σ : Type} (factory : MerkleTreeFactory TData TLeaf TMetadata σ)

/-- What a level is merged into, from the data of its elements alone. -/
def mergeLevel (elements : List TData) (currentDepth : Nat) (metadata : Option TMetadata) (store : σ) :
    Except JsError (TData × σ) :=
  match elements with
  | [] => .error ⟨"Maximum call stack size exceeded"⟩
  | [first] => if currentDepth = 0 then factory.mergeFn first none metadata store else .ok (first, store)
  | first :: second :: others => do
    let elements := first :: second :: others
    let middleIndex := elements.length / 2
    let (left, store) ← mergeLevel (elements.take middleIndex) (currentDepth + 1) none store
    let (right, store) ← mergeLevel (elements.drop middleIndex) (currentDepth + 1) none store
    factory.mergeFn left (some right) metadata store
termination_by elements.length
decreasing_by
  · rw [List.length_take, List.length_cons, List.length_cons]
    omega
  · rw [List.length_drop, List.length_cons, List.length_cons]
    omega

/-- A level is built exactly if it can be merged, and into the same data. -/
structure SameMerge (build : MerkleBuild TData σ) (built : Except JsError (Nat × MerkleBuild TData σ))
    (merged : Except JsError (TData × σ)) : Prop where
  failed : ∀ e, built = .error e ↔ merged = .error e
  ok : ∀ root after, built = .ok (root, after) → ∃ data, merged = .ok (data, after.store) ∧
    dataOf after.nodes root = .ok data ∧
    ∀ node other, dataOf build.nodes node = .ok other → dataOf after.nodes node = .ok other

variable {factory} {build : MerkleBuild TData σ}

theorem dataOf_eq_ok {nodes : List (Node TData)} {node : Nat} {data : TData} :
    dataOf nodes node = .ok data ↔ ∃ found : Node TData, nodes[node]? = some found ∧ found.data = data := by
  unfold dataOf
  cases nodes[node]? with
  | none => simp
  | some found => simp

theorem dataOf_setParent (nodes : List (Node TData)) (position parent node : Nat) :
    dataOf (setParent nodes position parent) node = dataOf nodes node := by
  unfold dataOf
  rw [getElem?_setParent]
  cases nodes[node]? with
  | none => rfl
  | some found =>
    dsimp only [Option.map_some]
    split <;> rfl

theorem dataOf_concat {nodes : List (Node TData)} {node : Nat} {data : TData} (found : dataOf nodes node = .ok data)
    (more : List (Node TData)) : dataOf (nodes ++ more) node = .ok data := by
  obtain ⟨same, isSame, rfl⟩ := dataOf_eq_ok.mp found
  obtain ⟨inside, -⟩ := List.getElem?_eq_some_iff.mp isSame
  exact dataOf_eq_ok.mpr ⟨same, (List.getElem?_append_left inside).trans isSame, rfl⟩

/-- Merging nodes is merging their data. -/
theorem sameMerge_merge {left : Nat} {right : Option Nat} {metadata : Option TMetadata} {leftData : TData}
    {rightData : Option TData} (isLeft : dataOf build.nodes left = .ok leftData)
    (isRight : dataOf? build.nodes right = .ok rightData) :
    SameMerge build (factory.merge left right metadata build)
      (factory.mergeFn leftData rightData metadata build.store) := by
  have merged : factory.merge left right metadata build =
      (factory.mergeFn leftData rightData metadata build.store).map fun made =>
        (build.nodes.length, ⟨build.nodes ++ [{ data := made.1, left := some left, right }], made.2⟩) := by
    rw [merge, isLeft]
    change Except.bind _ _ = _
    rw [Except.bind, isRight]
    change Except.bind _ _ = _
    rw [Except.bind]
    cases factory.mergeFn leftData rightData metadata build.store <;> rfl
  rw [merged]
  cases factory.mergeFn leftData rightData metadata build.store with
  | error e =>
    refine ⟨fun e' => ?_, nofun⟩
    simp [Except.map]
  | ok made =>
    refine ⟨fun e => iff_of_false nofun nofun, fun root after built => ?_⟩
    obtain ⟨rfl, rfl⟩ := Prod.mk.inj (Except.ok.inj built)
    refine ⟨made.1, rfl, dataOf_eq_ok.mpr ⟨_, List.getElem?_concat_length, rfl⟩, fun node other found => ?_⟩
    exact dataOf_concat found _

/-- Telling nodes their parent changes no data. -/
theorem SameMerge.setParents {built after : Except JsError (Nat × MerkleBuild TData σ)}
    {merged : Except JsError (TData × σ)} (same : SameMerge build built merged)
    (parents : Nat → List (Node TData) → List (Node TData))
    (keeps : ∀ merged nodes node, dataOf (parents merged nodes) node = dataOf nodes node)
    (isAfter : after = built.map fun made => (made.1, { made.2 with nodes := parents made.1 made.2.nodes })) :
    SameMerge build after merged := by
  subst isAfter
  cases isBuilt : built with
  | error e =>
    refine ⟨fun e' => ?_, nofun⟩
    rw [← same.failed e', isBuilt]
    exact Iff.rfl
  | ok made =>
    obtain ⟨data, isMerged, atRoot, kept⟩ := same.ok made.1 made.2 isBuilt
    refine ⟨fun e => iff_of_false nofun fun failed => ?_, fun root after given => ?_⟩
    · cases isMerged.symm.trans failed
    · obtain ⟨rfl, rfl⟩ := Prod.mk.inj (Except.ok.inj given)
      exact ⟨data, isMerged, (keeps _ _ _).trans atRoot, fun node other found => (keeps _ _ _).trans (kept node other found)⟩

theorem SameMerge.bind {built : Except JsError (Nat × MerkleBuild TData σ)} {merged : Except JsError (TData × σ)}
    {f : Nat × MerkleBuild TData σ → Except JsError (Nat × MerkleBuild TData σ)}
    {g : TData × σ → Except JsError (TData × σ)} (same : SameMerge build built merged)
    (rest : ∀ root middle data, dataOf middle.nodes root = .ok data →
      (∀ node other, dataOf build.nodes node = .ok other → dataOf middle.nodes node = .ok other) →
      SameMerge middle (f (root, middle)) (g (data, middle.store))) :
    SameMerge build (built >>= f) (merged >>= g) := by
  cases isBuilt : built with
  | error e =>
    rw [(same.failed e).mp isBuilt]
    have failed : (Except.error e >>= f) = .error e := rfl
    have failedToo : (Except.error e >>= g) = .error e := rfl
    rw [failed, failedToo]
    exact ⟨fun e' => by simp only [Except.error.injEq], nofun⟩
  | ok made =>
    obtain ⟨data, isMerged, atRoot, kept⟩ := same.ok made.1 made.2 isBuilt
    have after := rest made.1 made.2 data atRoot kept
    rw [isMerged]
    refine ⟨after.failed, fun root last given => ?_⟩
    obtain ⟨lastData, isLast, atLast, keptLast⟩ := after.ok root last given
    exact ⟨lastData, isLast, atLast, fun node other found => keptLast node other (kept node other found)⟩

/-- Building a level is merging the data of its elements. -/
theorem sameMerge_buildLevel {elements : List Nat} {data : List TData} {currentDepth : Nat}
    {metadata : Option TMetadata} (each : List.Forall₂ (fun node other => dataOf build.nodes node = .ok other) elements data) :
    SameMerge build (factory.buildLevel elements currentDepth metadata build)
      (factory.mergeLevel data currentDepth metadata build.store) := by
  induction count : elements.length using Nat.strong_induction_on
    generalizing elements data currentDepth metadata build with
  | _ count ih =>
    cases each with
    | nil =>
      rw [buildLevel, mergeLevel]
      refine ⟨fun e => by simp, fun root after built => ?_⟩
      cases built
    | @cons first firstData others othersData isFirst rest =>
      cases rest with
      | nil =>
        rw [buildLevel, mergeLevel]
        split
        · refine (sameMerge_merge isFirst (rfl : dataOf? build.nodes none = .ok none)).setParents
            (fun merged nodes => setParent nodes first merged) (fun _ _ _ => dataOf_setParent _ _ _ _) ?_
          cases factory.merge first none metadata build <;> rfl
        · refine ⟨fun e => by simp, fun root after built => ?_⟩
          obtain ⟨rfl, rfl⟩ := Prod.mk.inj (Except.ok.inj built)
          exact ⟨firstData, rfl, isFirst, fun _ _ found => found⟩
      | @cons second secondData others othersData isSecond rest =>
        have each : List.Forall₂ (fun node other => dataOf build.nodes node = .ok other) (first :: second :: others)
            (firstData :: secondData :: othersData) := .cons isFirst (.cons isSecond rest)
        have sameLength := each.length_eq
        rw [buildLevel, mergeLevel]
        dsimp only
        generalize isWhole : first :: second :: others = whole at *
        generalize isData : firstData :: secondData :: othersData = wholeData at *
        have long : 2 ≤ whole.length := by
          rw [← isWhole]
          simp
        rw [← sameLength]
        refine SameMerge.bind (ih _ (by rw [← count, List.length_take]; omega) (List.forall₂_take _ each) rfl)
          fun leftNode middle leftData isLeft leftKept => ?_
        refine SameMerge.bind (ih _ (by rw [← count, List.length_drop]; omega)
          ((List.forall₂_drop _ each).imp leftKept) rfl)
          fun rightNode last rightData isRight rightKept => ?_
        have isRight? : dataOf? last.nodes (some rightNode) = .ok (some rightData) := map_eq_ok.mpr ⟨_, isRight, rfl⟩
        refine (sameMerge_merge (rightKept _ _ isLeft) isRight?).setParents
          (fun merged nodes => setParent (setParent nodes leftNode merged) rightNode merged)
          (fun _ _ _ => (dataOf_setParent _ _ _ _).trans (dataOf_setParent _ _ _ _)) ?_
        cases factory.merge leftNode (some rightNode) metadata last <;> rfl

/-- What a tree comes to, from its sorted leaves alone: its metadata and the data of its root. -/
def mergeLeaves (factory : MerkleTreeFactory TData TLeaf TMetadata σ) (sorted : List TLeaf) (store : σ) :
    Except JsError (Option TMetadata × TData × σ) := do
  factory.assertLeaves sorted
  let metadata ← factory.generateMetadata sorted
  let merged ← factory.mergeLevel (sorted.map factory.ofLeaf) 0 metadata store
  return (metadata, merged)

theorem assertLeaves_of_length {leaves sorted : List TLeaf} (same : sorted.length = leaves.length) :
    factory.assertLeaves leaves = factory.assertLeaves sorted := by
  have empty : leaves.isEmpty = sorted.isEmpty := by
    rw [Bool.eq_iff_iff, List.isEmpty_iff_length_eq_zero, List.isEmpty_iff_length_eq_zero, same]
  unfold assertLeaves
  rw [empty, same]

/-- The nodes of the sorted leaves hold their data. -/
theorem leafBuild_data (factory : MerkleTreeFactory TData TLeaf TMetadata σ) (leaves : List TLeaf) (store : σ) :
    List.Forall₂ (fun node other => dataOf (factory.leafBuild leaves store).nodes node = .ok other)
      ((factory.sortedLeaves leaves).map Prod.snd)
      (((factory.sortedLeaves leaves).map Prod.fst).map factory.ofLeaf) := by
  rw [List.map_map, List.forall₂_map_left_iff, List.forall₂_map_right_iff, List.forall₂_same]
  intro entry member
  have inOrder := (factory.sortedLeaves_perm leaves).mem_iff.mp member
  have isLeaf : leaves[entry.2]? = some entry.1 := List.mem_zipIdx_iff_getElem?.mp inOrder
  refine dataOf_eq_ok.mpr ⟨{ data := factory.ofLeaf entry.1 }, ?_, rfl⟩
  rw [leafBuild, List.getElem?_map, isLeaf]
  rfl

theorem map_dataOf {nodes : List (Node TData)} {positions : List Nat} {data : List TData}
    (each : List.Forall₂ (fun node other => dataOf nodes node = .ok other) positions data) :
    positions.map (dataOf nodes) = data.map .ok := by
  induction each with
  | nil => rfl
  | cons found _ ih => rw [List.map_cons, List.map_cons, found, ih]

/-- The data of the leaves in the order of the tree. -/
def leafData (tree : MerkleTree TData TMetadata) : List (Except JsError TData) :=
  tree.leafNodes.map (dataOf tree.nodes)

/-- A tree that holds what its sorted leaves come to. -/
structure Holds (factory : MerkleTreeFactory TData TLeaf TMetadata σ) (sorted : List TLeaf) (store last : σ)
    (tree : MerkleTree TData TMetadata) : Prop where
  leaves : leafData tree = sorted.map fun leaf => .ok (factory.ofLeaf leaf)
  root : ∃ data, factory.mergeLeaves sorted store = .ok (tree.metadata, data, last) ∧
    dataOf tree.nodes tree.root = .ok data

theorem build_mergeLeaves (factory : MerkleTreeFactory TData TLeaf TMetadata σ) (leaves : List TLeaf) (store : σ) :
    (∀ e, factory.build leaves store = .error e ↔
      factory.mergeLeaves ((factory.sortedLeaves leaves).map Prod.fst) store = .error e) ∧
    ∀ tree last, factory.build leaves store = .ok (tree, last) →
      factory.Holds ((factory.sortedLeaves leaves).map Prod.fst) store last tree := by
  have length : ((factory.sortedLeaves leaves).map Prod.fst).length = leaves.length := by
    rw [List.length_map, (factory.sortedLeaves_perm leaves).length_eq, List.length_zipIdx]
  have each := factory.leafBuild_data leaves store
  unfold build
  rw [mergeLeaves, assertLeaves_of_length length]
  cases admitted : factory.assertLeaves ((factory.sortedLeaves leaves).map Prod.fst) with
  | error e => exact ⟨fun e' => by simp only [bind, Except.bind, Except.error.injEq], fun _ _ given => by cases given⟩
  | ok =>
    cases described : factory.generateMetadata ((factory.sortedLeaves leaves).map Prod.fst) with
    | error e =>
      simp only [bind, Except.bind, described]
      exact ⟨fun e' => by simp only [Except.error.injEq], fun _ _ given => by cases given⟩
    | ok metadata =>
      have same := @sameMerge_buildLevel _ _ _ _ factory _ _ _ 0 metadata each
      simp only [bind, Except.bind, described]
      cases isBuilt : factory.buildLevel ((factory.sortedLeaves leaves).map Prod.snd) 0 metadata
          (factory.leafBuild leaves store) with
      | error e =>
        have isMerged : factory.mergeLevel _ 0 metadata store = .error e := (same.failed e).mp isBuilt
        rw [isMerged]
        exact ⟨fun e' => by simp only [Except.error.injEq], fun _ _ given => by cases given⟩
      | ok made =>
        obtain ⟨root, built⟩ := made
        obtain ⟨data, isMerged, atRoot, kept⟩ := same.ok root built isBuilt
        have merged : factory.mergeLevel _ 0 metadata store = .ok (data, built.store) := isMerged
        rw [merged]
        refine ⟨fun e' => iff_of_false nofun nofun, fun tree last given => ?_⟩
        obtain ⟨rfl, rfl⟩ := Prod.mk.inj (Except.ok.inj given)
        refine ⟨?_, data, ?_, atRoot⟩
        · exact (map_dataOf (each.imp kept)).trans List.map_map
        · exact bind_eq_ok.mpr ⟨_, admitted, bind_eq_ok.mpr ⟨metadata, described, bind_eq_ok.mpr ⟨_, merged, rfl⟩⟩⟩

/-- Leaves that are sorted alike are built into trees alike. -/
theorem build_congr {leaves other : List TLeaf}
    (alike : (factory.sortedLeaves leaves).map Prod.fst = (factory.sortedLeaves other).map Prod.fst) (store : σ) :
    (∀ e, factory.build leaves store = .error e ↔ factory.build other store = .error e) ∧
    ∀ tree last, factory.build leaves store = .ok (tree, last) → ∃ otherTree,
      factory.build other store = .ok (otherTree, last) ∧ leafData otherTree = leafData tree ∧
      dataOf otherTree.nodes otherTree.root = dataOf tree.nodes tree.root ∧ otherTree.metadata = tree.metadata := by
  obtain ⟨failed, holds⟩ := factory.build_mergeLeaves leaves store
  obtain ⟨otherFailed, otherHolds⟩ := factory.build_mergeLeaves other store
  rw [← alike] at otherFailed otherHolds
  refine ⟨fun e => (failed e).trans (otherFailed e).symm, fun tree last built => ?_⟩
  obtain ⟨leafs, data, merged, root⟩ := holds tree last built
  cases otherBuilt : factory.build other store with
  | error e => cases merged.symm.trans ((otherFailed e).mp otherBuilt)
  | ok made =>
    obtain ⟨otherTree, otherLast⟩ := made
    obtain ⟨otherLeafs, otherData, otherMerged, otherRoot⟩ := otherHolds otherTree otherLast otherBuilt
    have same := Except.ok.inj (otherMerged.symm.trans merged)
    obtain ⟨sameMetadata, sameMade⟩ := Prod.mk.inj same
    obtain ⟨rfl, rfl⟩ := Prod.mk.inj sameMade
    exact ⟨otherTree, rfl, otherLeafs.trans leafs.symm, otherRoot.trans root.symm, sameMetadata⟩

end MerkleTreeFactory

/-- What anchoring knows of a stream. -/
structure ICandidateMetadata where
  controllers : List String
  model : Option StreamID := none
  deriving DecidableEq, Repr

structure ICandidate where
  cid : Cid
  streamId : StreamID
  metadata : ICandidateMetadata
  deriving DecidableEq, Repr

namespace IpfsLeafCompare

/-- `String(controllers[0])` -/
def firstController (candidate : ICandidate) : String := candidate.metadata.controllers.head?.getD "undefined"

def modelText (candidate : ICandidate) : Option String := candidate.metadata.model.map StreamID.toString

def compare (localeCompare : String → String → Int) (left right : ICandidate) : Int :=
  -- Sort by model first
  if modelText left ≠ modelText right then
    match modelText left, modelText right with
    | some leftModel, some rightModel => localeCompare leftModel rightModel
    | some _, none => -1
    | none, _ => 1
  -- Sort by controller
  else if firstController left ≠ firstController right then
    localeCompare (firstController left) (firstController right)
  -- Sort by stream ID
  else localeCompare left.streamId.toString right.streamId.toString

/-- `localeCompare` is a total order in which only equal texts tie. -/
structure LocaleOrder (localeCompare : String → String → Int) : Prop where
  ranking : Comparator.Ranking localeCompare
  eq_iff : ∀ a b, localeCompare a b = 0 ↔ a = b

variable {localeCompare : String → String → Int}

theorem noneLast_eq_zero_iff (locale : LocaleOrder localeCompare) (a b : Option String) :
    Comparator.noneLast localeCompare a b = 0 ↔ a = b := by
  cases a <;> cases b
  · exact iff_of_true rfl rfl
  · exact iff_of_false (by simp [Comparator.noneLast]) (by simp)
  · exact iff_of_false (by simp [Comparator.noneLast]) (by simp)
  · exact (locale.eq_iff _ _).trans Option.some_inj.symm

/-- The three keys decide one after the other. -/
theorem compare_eq (locale : LocaleOrder localeCompare) (left right : ICandidate) :
    compare localeCompare left right =
      Comparator.thenBy (fun a b => Comparator.noneLast localeCompare (modelText a) (modelText b))
        (Comparator.thenBy (fun a b => localeCompare (firstController a) (firstController b))
          fun a b => localeCompare a.streamId.toString b.streamId.toString) left right := by
  simp only [compare, Comparator.thenBy, noneLast_eq_zero_iff locale, locale.eq_iff, ne_eq, ite_not]
  split
  next => rfl
  next apart =>
    generalize modelText left = leftModel at *
    generalize modelText right = rightModel at *
    cases leftModel with
    | none =>
      cases rightModel with
      | none => exact absurd rfl apart
      | some => rfl
    | some =>
      cases rightModel with
      | none => rfl
      | some => rfl

theorem ranking (locale : LocaleOrder localeCompare) : Comparator.Ranking (compare localeCompare) := by
  have keys := (locale.ranking.noneLast.comap modelText).thenBy
    ((locale.ranking.comap firstController).thenBy (locale.ranking.comap fun a => a.streamId.toString))
  have same : compare localeCompare = _ := funext fun left => funext fun right => compare_eq locale left right
  rw [same]
  exact keys

/-- Only candidates for the same stream tie. -/
theorem streamId_of_tie (locale : LocaleOrder localeCompare) {left right : ICandidate}
    (tie : compare localeCompare left right = 0) : left.streamId = right.streamId := by
  simp only [compare_eq locale, Comparator.thenBy, noneLast_eq_zero_iff locale, locale.eq_iff] at tie
  split at tie
  next =>
    split at tie
    next => exact StreamID.toString_injective ((locale.eq_iff _ _).mp tie)
    next apart => exact absurd ((locale.eq_iff _ _).mp tie) apart
  next apart => exact absurd ((noneLast_eq_zero_iff locale _ _).mp tie) apart

/-- The candidates of a tree in its order. -/
theorem sortedLeaves_eq {TData TMetadata σ : Type} {factory : MerkleTreeFactory TData ICandidate TMetadata σ}
    (sorts : factory.compareFn = some (compare localeCompare)) (leaves : List ICandidate) :
    (factory.sortedLeaves leaves).map Prod.fst =
      leaves.mergeSort fun a b => decide (compare localeCompare a b ≤ 0) := by
  have indexed : (factory.sortedLeaves leaves) =
      leaves.zipIdx.mergeSort fun a b => decide (compare localeCompare a.1 b.1 ≤ 0) := by
    rw [MerkleTreeFactory.sortedLeaves, sorts]
  rw [indexed, @List.map_mergeSort _ _ _ (fun a b => decide (compare localeCompare a b ≤ 0)) Prod.fst _
    fun _ _ _ _ => rfl, List.zipIdx_map_fst]

/-- From requests for different streams the same tree is built in whatever order they come: with the same leaves in
the same order, the same metadata and the same root. -/
theorem root_order_independent {TData TMetadata σ : Type} {factory : MerkleTreeFactory TData ICandidate TMetadata σ}
    (locale : LocaleOrder localeCompare) (sorts : factory.compareFn = some (compare localeCompare))
    {leaves other : List ICandidate} (reordered : leaves.Perm other)
    (distinct : (leaves.map ICandidate.streamId).Nodup) (store : σ) :
    (factory.sortedLeaves leaves).map Prod.fst = (factory.sortedLeaves other).map Prod.fst ∧
    (∀ e, factory.build leaves store = .error e ↔ factory.build other store = .error e) ∧
    ∀ tree last, factory.build leaves store = .ok (tree, last) → ∃ otherTree,
      factory.build other store = .ok (otherTree, last) ∧
      MerkleTreeFactory.leafData otherTree = MerkleTreeFactory.leafData tree ∧
      MerkleTreeFactory.dataOf otherTree.nodes otherTree.root = MerkleTreeFactory.dataOf tree.nodes tree.root ∧
      otherTree.metadata = tree.metadata := by
  have alike : (factory.sortedLeaves leaves).map Prod.fst = (factory.sortedLeaves other).map Prod.fst := by
    rw [sortedLeaves_eq sorts, sortedLeaves_eq sorts]
    refine (ranking locale).mergeSort_eq reordered fun a inside b inside' tie => ?_
    exact List.inj_on_of_nodup_map distinct inside inside' (streamId_of_tie locale tie)
  exact ⟨alike, MerkleTreeFactory.build_congr alike store⟩

/-- Plain texts in their usual order. -/
def byCodeUnits (a b : String) : Int :=
  match Ord.compare a b with
  | .lt => -1
  | .eq => 0
  | .gt => 1

theorem byCodeUnits_neg {a b : String} : byCodeUnits a b < 0 ↔ Ord.compare a b = .lt := by
  unfold byCodeUnits
  cases Ord.compare a b <;> simp

theorem byCodeUnits_pos {a b : String} : 0 < byCodeUnits a b ↔ Ord.compare a b = .gt := by
  unfold byCodeUnits
  cases Ord.compare a b <;> simp

theorem byCodeUnits_nonpos {a b : String} : byCodeUnits a b ≤ 0 ↔ (Ord.compare a b).isLE := by
  unfold byCodeUnits
  cases Ord.compare a b <;> simp

theorem byCodeUnits_locale : LocaleOrder byCodeUnits where
  ranking := {
    swap a b := by rw [byCodeUnits_neg, byCodeUnits_pos, Std.OrientedCmp.gt_iff_lt]
    trans a b c first second := byCodeUnits_nonpos.mpr (Std.TransCmp.isLE_trans (byCodeUnits_nonpos.mp first)
      (byCodeUnits_nonpos.mp second)) }
  eq_iff a b := by
    have zero : byCodeUnits a b = 0 ↔ Ord.compare a b = .eq := by
      unfold byCodeUnits
      cases Ord.compare a b <;> simp
    rw [zero, Std.LawfulEqCmp.compare_eq_iff_eq]

def candidateFactory : MerkleTreeFactory String ICandidate Unit Unit where
  mergeFn left right _ store := .ok ("Hash(" ++ left ++ " + " ++ right.getD "null" ++ ")", store)
  ofLeaf candidate := candidate.cid.toString
  compareFn := some (compare byCodeUnits)

def withModel : ICandidate := ⟨⟨[1]⟩, ⟨MODEL_INSTANCE_TYPE_ID, ⟨[1]⟩⟩, ⟨["did:key:a"], some ⟨MODEL_TYPE_ID, ⟨[9]⟩⟩⟩⟩

def withoutModel : ICandidate := ⟨⟨[2]⟩, ⟨TILE_TYPE_ID, ⟨[2]⟩⟩, ⟨[], none⟩⟩

theorem root_order_independent_two : (candidateFactory.sortedLeaves [withModel, withoutModel]).map Prod.fst =
    (candidateFactory.sortedLeaves [withoutModel, withModel]).map Prod.fst :=
  (root_order_independent byCodeUnits_locale rfl (List.Perm.swap _ _ _) (by decide) ()).1

end IpfsLeafCompare

end Ceramic
