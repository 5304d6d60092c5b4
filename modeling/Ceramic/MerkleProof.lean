import Ceramic.MerkleAnchor
import Ceramic.MerkleShape
import Ceramic.LeafOrder
import Mathlib.Data.Nat.Pairing

/-! Proofs of a Merkle tree: the nodes next to the way up from a leaf, which are merged with its data one after the
other, and what comes out is compared with the data of the root. -/
namespace Ceramic

open LinkedForest

/-- A value of the language: an object, which is the same as no other object, or a primitive. -/
structure HeldData (V : Type) where
  identity : Option Nat
  content : V
  deriving DecidableEq, Repr

namespace HeldData

variable {V : Type} [DecidableEq V]

/-- `===` -/
def strictEquals (a b : HeldData V) : Bool :=
  match a.identity, b.identity with
  | some first, some second => first == second
  | none, none => decide (a.content = b.content)
  | _, _ => false

end HeldData

namespace MerkleTree

variable {TData TMetadata : Type}

/-- The walk up from an element; `steps` bounds it by the number of nodes. -/
def calculateProof (nodes : List (Node TData)) : (steps : Nat) → (element : Nat) → (result : List Nat) →
    Except JsError (List Nat)
  | 0, _, _ => .error ⟨"Maximum call stack size exceeded"⟩
  | steps + 1, element, result =>
    match nodes[element]?.bind (·.parent) with
    | none => .ok result
    | some parent =>
      let above := nodes[parent]?
      let proofNode := if above.bind (·.left) = some element then above.bind (·.right) else above.bind (·.left)
      match proofNode with
      | none => .error ⟨"Empty proof node"⟩
      | some proofNode => calculateProof nodes steps parent (result ++ [proofNode])

def getProof (tree : MerkleTree TData TMetadata) (elemIndex : Nat) : Except JsError (List Nat) :=
  match tree.leafNodes[elemIndex]? with
  | some leaf => calculateProof tree.nodes tree.nodes.length leaf []
  | none => .error ⟨"Empty leaf at index " ++ toString elemIndex⟩

end MerkleTree

namespace MerkleTreeFactory

variable {TData TLeaf TMetadata σ : Type}

def parentOf (text : TData → String) (nodes : List (Node TData)) (p : Nat) (data : TData) : Except JsError Nat :=
  match nodes[p]?.bind (·.parent) with
  | some parent => .ok parent
  | none => .error ⟨"No parent for node " ++ text data⟩

/-- The data of an element merged with the nodes of a proof; `lastNode` is the last one of the whole proof, and
`text` is `String(data)`. -/
def mergeProof (factory : MerkleTreeFactory TData TLeaf TMetadata σ) (text : TData → String)
    (tree : MerkleTree TData TMetadata) (lastNode : Option Nat) :
    (proof : List Nat) → (current : TData) → σ → Except JsError (TData × σ)
  | [], current, store => .ok (current, store)
  | p :: proof, current, store => do
    let data ← dataOf tree.nodes p
    let parent ← parentOf text tree.nodes p data
    let isLeft := tree.nodes[parent]?.bind (·.left) = some p
    let isRoot := some p = lastNode
    let metadata := if isRoot then tree.metadata else none
    let (current, store) ← (if isLeft then factory.mergeFn data (some current) metadata store
      else factory.mergeFn current (some data) metadata store)
    mergeProof factory text tree lastNode proof current store

def verifyProof (factory : MerkleTreeFactory TData TLeaf TMetadata σ) (text : TData → String)
    (strictEquals : TData → TData → Bool) (tree : MerkleTree TData TMetadata) (proof : List Nat) (element : TData)
    (store : σ) : Except JsError (Bool × σ) := do
  let (current, store) ← mergeProof factory text tree proof.getLast? proof element store
  let rootData ← dataOf tree.nodes tree.root
  return (strictEquals rootData current, store)

/-- What the merge of this number makes of the data, a new object unless it is a primitive. -/
def created (isObject : TData → Bool) (number : Nat) (data : TData) : HeldData TData :=
  ⟨if isObject data then some number else none, data⟩

/-- The factory on the values of the language: what is merged is read from the contents. The merges are numbered; the
number of the next one is kept with the store. -/
def held (factory : MerkleTreeFactory TData TLeaf TMetadata σ) (isObject : TData → Bool)
    (leafIdentity : TLeaf → Option Nat) : MerkleTreeFactory (HeldData TData) TLeaf TMetadata (σ × Nat) where
  mergeFn left right metadata memory := do
    let (data, store) ← factory.mergeFn left.content (right.map HeldData.content) metadata memory.1
    return (created isObject memory.2 data, (store, memory.2 + 1))
  ofLeaf leaf := ⟨leafIdentity leaf, factory.ofLeaf leaf⟩
  compareFn := factory.compareFn
  metadataFn := factory.metadataFn
  depthLimit := factory.depthLimit

/-- Merging succeeds, and comes to something that depends on what is merged alone. -/
def MergesTo (factory : MerkleTreeFactory TData TLeaf TMetadata σ)
    (merged : TData → Option TData → Option TMetadata → TData) : Prop :=
  ∀ left right metadata store, ∃ after,
    factory.mergeFn left right metadata store = .ok (merged left right metadata, after)

/-- Different data, or data on different sides, is merged into different data. -/
def Injective (merged : TData → Option TData → Option TMetadata → TData) : Prop :=
  ∀ left right other otherRight metadata, merged left right metadata = merged other otherRight metadata →
    left = other ∧ right = otherRight

/-- The proof of a leaf is accepted for the data of the leaf, and for no other, whenever it is looked at. -/
def Verifies [DecidableEq TData] (factory : MerkleTreeFactory (HeldData TData) TLeaf TMetadata (σ × Nat))
    (text : HeldData TData → String) (tree : MerkleTree (HeldData TData) TMetadata) (last : σ × Nat) (index : Nat) :
    Prop :=
  ∃ proof leaf data, tree.getProof index = .ok proof ∧ tree.leafNodes[index]? = some leaf ∧
    dataOf tree.nodes leaf = .ok data ∧ ∀ (x : HeldData TData) (later : σ × Nat), last.2 ≤ later.2 →
      ∃ after, factory.verifyProof text HeldData.strictEquals tree proof x later =
        .ok (decide (x.content = data.content), after)

variable {factory : MerkleTreeFactory TData TLeaf TMetadata σ} {isObject : TData → Bool}
  {leafIdentity : TLeaf → Option Nat} {merged : TData → Option TData → Option TMetadata → TData}

theorem MergesTo.held (mergesTo : factory.MergesTo merged) (left : HeldData TData) (right : Option (HeldData TData))
    (metadata : Option TMetadata) (memory : σ × Nat) :
    ∃ after, (factory.held isObject leafIdentity).mergeFn left right metadata memory =
      .ok (created isObject memory.2 (merged left.content (right.map HeldData.content) metadata),
        (after, memory.2 + 1)) := by
  obtain ⟨after, made⟩ := mergesTo left.content (right.map HeldData.content) metadata memory.1
  exact ⟨after, bind_eq_ok.mpr ⟨_, made, rfl⟩⟩

/-- What a merge was, from its result. -/
theorem MergesTo.held_ok (mergesTo : factory.MergesTo merged) {left data : HeldData TData}
    {right : Option (HeldData TData)} {metadata : Option TMetadata} {memory after : σ × Nat}
    (made : (factory.held isObject leafIdentity).mergeFn left right metadata memory = .ok (data, after)) :
    data = created isObject memory.2 (merged left.content (right.map HeldData.content) metadata) ∧
      after.2 = memory.2 + 1 := by
  obtain ⟨store, isMade⟩ : ∃ store, (factory.held isObject leafIdentity).mergeFn left right metadata memory =
      .ok (_, (store, _)) := mergesTo.held left right metadata memory
  obtain ⟨rfl, rfl⟩ := Prod.mk.inj (Except.ok.inj (made.symm.trans isMade))
  exact ⟨rfl, rfl⟩

/-- The node at this position has two children, and holds what they were merged into by an earlier merge. -/
def MadeAt (isObject : TData → Bool) (merged : TData → Option TData → Option TMetadata → TData)
    (nodes : List (Node (HeldData TData))) (next : Nat) (metadata : Option TMetadata) (position : Nat) : Prop :=
  ∃ (node : Node (HeldData TData)) (left right number : Nat) (leftData rightData : HeldData TData),
    nodes[position]? = some node ∧ node.left = some left ∧ node.right = some right ∧
    dataOf nodes left = .ok leftData ∧ dataOf nodes right = .ok rightData ∧ number < next ∧
    node.data = created isObject number (merged leftData.content (some rightData.content) metadata)

theorem dataOf_extends {nodes after : List (Node TData)} (extended : Extends nodes after) {node : Nat} {data : TData}
    (found : dataOf nodes node = .ok data) : dataOf after node = .ok data := by
  obtain ⟨before, isBefore, rfl⟩ := dataOf_eq_ok.mp found
  obtain ⟨same, isSame, sameData, -⟩ := extended.kept isBefore
  exact dataOf_eq_ok.mpr ⟨same, isSame, sameData⟩

theorem MadeAt.extends {nodes after : List (Node (HeldData TData))} {next later position : Nat}
    {metadata : Option TMetadata} (made : MadeAt isObject merged nodes next metadata position)
    (extended : Extends nodes after) (grown : next ≤ later) : MadeAt isObject merged after later metadata position := by
  obtain ⟨node, left, right, number, leftData, rightData, found, isLeft, isRight, atLeft, atRight, old, data⟩ := made
  obtain ⟨same, isSame, sameData, children⟩ := extended.kept found
  exact ⟨same, left, right, number, leftData, rightData, isSame, (children .left).trans isLeft,
    (children .right).trans isRight, dataOf_extends extended atLeft, dataOf_extends extended atRight,
    Nat.lt_of_lt_of_le old grown, sameData.trans data⟩

/-- The node over two levels holds what their data are merged into. -/
theorem SplitSpec.madeAt (mergesTo : factory.MergesTo merged) {elements : List Nat}
    {currentDepth leftNode rightNode : Nat} {metadata : Option TMetadata}
    {build after middle last : MerkleBuild (HeldData TData) (σ × Nat)} {leftData rightData data : HeldData TData}
    (spec : SplitSpec (factory.held isObject leafIdentity) elements currentDepth metadata build after leftNode rightNode
      middle last leftData rightData data) :
    last.store.2 < after.store.2 ∧ MadeAt isObject merged after.nodes after.store.2 metadata last.nodes.length := by
  obtain ⟨isData, next⟩ := mergesTo.held_ok spec.made
  have grown : last.store.2 < after.store.2 := by omega
  exact ⟨grown, _, leftNode, rightNode, last.store.2, leftData, rightData, spec.isRoot, rfl, rfl,
    dataOf_extends spec.extends_last spec.isLeft, dataOf_extends spec.extends_last spec.isRight, grown, isData⟩

/-- Every node that a level adds was made by a merge, with metadata at the root only. -/
theorem buildLevel_madeAt (mergesTo : factory.MergesTo merged) {elements : List Nat} {currentDepth root : Nat}
    {metadata : Option TMetadata} {build after : MerkleBuild (HeldData TData) (σ × Nat)} (distinct : elements.Nodup)
    (tops : ∀ e ∈ elements, IsTop build.nodes e)
    (succeeded : (factory.held isObject leafIdentity).buildLevel elements currentDepth metadata build =
      .ok (root, after))
    (several : 2 ≤ elements.length ∨ currentDepth ≠ 0) :
    build.store.2 ≤ after.store.2 ∧ ∀ position, build.nodes.length ≤ position → position < after.nodes.length →
      MadeAt isObject merged after.nodes after.store.2 (if position = root then metadata else none) position := by
  induction size : elements.length using Nat.strong_induction_on
    generalizing elements currentDepth metadata build root after with
  | _ count ih =>
  by_cases long : 2 ≤ elements.length
  · obtain ⟨leftNode, rightNode, middle, last, leftData, rightData, data, rfl, spec⟩ :=
      buildLevel_split long distinct tops succeeded
    obtain ⟨leftGrown, leftMade⟩ := ih _ (by rw [← size, List.length_take]; omega) spec.leftElements.1
      spec.leftElements.2 spec.leftBuilt (.inr (Nat.succ_ne_zero _)) rfl
    obtain ⟨rightGrown, rightMade⟩ := ih _ (by rw [← size, List.length_drop]; omega) spec.rightElements.1
      spec.rightElements.2 spec.rightBuilt (.inr (Nat.succ_ne_zero _)) rfl
    obtain ⟨grown, rootMade⟩ := spec.madeAt mergesTo
    refine ⟨by omega, fun position new inside => ?_⟩
    by_cases isRoot : position = last.nodes.length
    · subst isRoot
      rwa [if_pos rfl]
    · rw [if_neg isRoot]
      have below : position < last.nodes.length := by
        rw [spec.nodes, length_join] at inside
        omega
      by_cases first : position < middle.nodes.length
      · have made := leftMade position new first
        rw [ite_self] at made
        exact made.extends spec.extends_middle (by omega)
      · have made := rightMade position (by omega) below
        rw [ite_self] at made
        exact made.extends spec.extends_last (by omega)
  · obtain ⟨only, rfl⟩ | rfl : (∃ only, elements = [only]) ∨ elements = [] := by
      match elements with
      | [] => exact .inr rfl
      | [only] => exact .inl ⟨only, rfl⟩
      | _ :: _ :: _ => exact absurd (by simp) long
    · rw [buildLevel, if_neg (several.resolve_left long)] at succeeded
      obtain ⟨rfl, rfl⟩ := Prod.mk.inj (Except.ok.inj succeeded)
      exact ⟨Nat.le_refl _, fun position new inside => absurd inside (Nat.not_lt.mpr new)⟩
    · rw [buildLevel] at succeeded
      cases succeeded

/-- A proof: the node next to an element, then the node next to its parent, up to a top. -/
inductive Climbs (nodes : List (Node TData)) : Nat → List Nat → Prop where
  | top {element : Nat} : IsTop nodes element → Climbs nodes element []
  | up {element parent sibling : Nat} {above : Node TData} {side : Side} {proof : List Nat} :
      nodes[parent]? = some above → above.child side = some element → above.child side.other = some sibling →
      Climbs nodes parent proof → Climbs nodes element (sibling :: proof)

/-- If all parents have two children, every element has a proof. -/
theorem calculateProof_climbs {nodes : List (Node TData)} (linked : Linked nodes)
    (pairs : ∀ (position child : Nat) (node : Node TData) (side : Side), nodes[position]? = some node →
      node.child side = some child → ∃ left right, node.left = some left ∧ node.right = some right)
    {steps element : Nat} (inside : element < nodes.length) (enough : nodes.length - element ≤ steps)
    (result : List Nat) :
    ∃ proof, MerkleTree.calculateProof nodes steps element result = .ok (result ++ proof) ∧
      Climbs nodes element proof := by
  induction steps generalizing element result with
  | zero => omega
  | succ steps ih =>
    have here := List.getElem?_eq_getElem inside
    unfold MerkleTree.calculateProof
    rw [here, Option.bind_some]
    cases isParent : nodes[element].parent with
    | none => exact ⟨[], congrArg Except.ok (List.append_nil result).symm, .top ⟨_, here, isParent⟩⟩
    | some parent =>
      obtain ⟨lower, below⟩ := linked.lt_parent here isParent
      obtain ⟨above, side, isAbove, isChild⟩ := linked.parent here isParent
      obtain ⟨left, right, isLeft, isRight⟩ := pairs parent element above side isAbove isChild
      have step (sibling : Nat) (isSibling : above.child side.other = some sibling) :
          ∃ proof, MerkleTree.calculateProof nodes steps parent (result ++ [sibling]) = .ok (result ++ proof) ∧
            Climbs nodes element proof := by
        obtain ⟨proof, walked, climbs⟩ := ih below (by omega) (result ++ [sibling])
        rw [List.append_assoc] at walked
        exact ⟨sibling :: proof, walked, .up isAbove isChild isSibling climbs⟩
      dsimp only
      rw [isAbove, Option.bind_some, Option.bind_some]
      cases side with
      | left =>
        have first : above.left = some element := isChild
        rw [if_pos first, isRight]
        exact step right isRight
      | right =>
        have second : above.left ≠ some element := fun first => linked.apart isAbove first isChild
        rw [if_neg second, isLeft]
        exact step left isLeft

/-- Nothing but a top has an empty proof. -/
theorem Climbs.nil_iff {nodes : List (Node TData)} (linked : Linked nodes) {element : Nat} {proof : List Nat}
    (climbs : Climbs nodes element proof) : proof = [] ↔ IsTop nodes element := by
  cases climbs with
  | top isTop => exact iff_of_true rfl isTop
  | up isAbove isChild _ _ =>
    refine iff_of_false (List.cons_ne_nil _ _) ?_
    rintro ⟨same, isSame, noParent⟩
    obtain ⟨-, below, isBelow, isParent⟩ := linked.child isAbove isChild
    obtain rfl := Option.some.inj (isSame.symm.trans isBelow)
    cases noParent.symm.trans isParent

/-- The last node of a proof is right below a top. -/
theorem Climbs.last_parent {nodes : List (Node TData)} (linked : Linked nodes) {element last : Nat} {proof : List Nat}
    (climbs : Climbs nodes element proof) (isLast : proof.getLast? = some last) :
    ∃ (node : Node TData) (root : Nat), nodes[last]? = some node ∧ node.parent = some root ∧ IsTop nodes root := by
  induction climbs with
  | top _ => cases isLast
  | up isAbove isChild isSibling climbs ih =>
    cases climbs with
    | top isTop =>
      obtain rfl := Option.some.inj isLast
      obtain ⟨-, node, found, isParent⟩ := linked.child isAbove isSibling
      exact ⟨node, _, found, isParent, isTop⟩
    | up _ _ _ _ => exact ih (by rwa [List.getLast?_cons_cons] at isLast)

/-- A node of a proof is the last one exactly if it is right below the top. -/
theorem Climbs.last_iff {nodes : List (Node TData)} (linked : Linked nodes) {parent sibling : Nat}
    {above : Node TData} {side : Side} {proof : List Nat} (isAbove : nodes[parent]? = some above)
    (isSibling : above.child side = some sibling) (climbs : Climbs nodes parent proof) :
    some sibling = (sibling :: proof).getLast? ↔ IsTop nodes parent := by
  constructor
  · intro isLast
    rw [← climbs.nil_iff linked]
    cases climbs with
    | top _ => rfl
    | up isGrand isParent isNext climbs =>
      rw [List.getLast?_cons_cons] at isLast
      obtain ⟨node, root, found, isRoot, isTop⟩ :=
        (Climbs.up isGrand isParent isNext climbs).last_parent linked isLast.symm
      obtain ⟨-, same, isSame, parentToo⟩ := linked.child isAbove isSibling
      obtain rfl := Option.some.inj (found.symm.trans isSame)
      obtain rfl := Option.some.inj (isRoot.symm.trans parentToo)
      exact absurd ((Climbs.up isGrand isParent isNext climbs).nil_iff linked |>.mpr isTop) (List.cons_ne_nil _ _)
  · intro isTop
    rw [(climbs.nil_iff linked).mpr isTop]
    rfl

/-- A child is merged with the node next to it, each on its own side. -/
def mergeBeside (merged : TData → Option TData → Option TMetadata → TData) (side : Side) (own other : TData)
    (metadata : Option TMetadata) : TData :=
  match side with
  | .left => merged own (some other) metadata
  | .right => merged other (some own) metadata

theorem Injective.mergeBeside_iff (injective : Injective merged) (side : Side) (own other sibling : TData)
    (metadata : Option TMetadata) :
    mergeBeside merged side own sibling metadata = mergeBeside merged side other sibling metadata ↔ own = other := by
  refine ⟨fun same => ?_, fun same => congrArg (mergeBeside merged side · sibling metadata) same⟩
  cases side with
  | left => exact (injective _ _ _ _ _ same).1
  | right => exact Option.some.inj (injective _ _ _ _ _ same).2

/-- What a node holds, from either of its children. -/
theorem MadeAt.beside {nodes : List (Node (HeldData TData))} {next position child sibling : Nat}
    {metadata : Option TMetadata} (made : MadeAt isObject merged nodes next metadata position)
    {node : Node (HeldData TData)} (found : nodes[position]? = some node) {side : Side}
    (isChild : node.child side = some child) (isSibling : node.child side.other = some sibling)
    {own other : HeldData TData} (isOwn : dataOf nodes child = .ok own) (isOther : dataOf nodes sibling = .ok other) :
    ∃ number < next,
      node.data = created isObject number (mergeBeside merged side own.content other.content metadata) := by
  obtain ⟨same, left, right, number, leftData, rightData, isSame, isLeft, isRight, atLeft, atRight, old, data⟩ := made
  obtain rfl := Option.some.inj (isSame.symm.trans found)
  refine ⟨number, old, data.trans ?_⟩
  cases side with
  | left =>
    obtain rfl := Option.some.inj (isLeft.symm.trans isChild)
    obtain rfl := Option.some.inj (isRight.symm.trans isSibling)
    rw [Except.ok.inj (atLeft.symm.trans isOwn), Except.ok.inj (atRight.symm.trans isOther)]
    rfl
  | right =>
    obtain rfl := Option.some.inj (isLeft.symm.trans isSibling)
    obtain rfl := Option.some.inj (isRight.symm.trans isChild)
    rw [Except.ok.inj (atLeft.symm.trans isOther), Except.ok.inj (atRight.symm.trans isOwn)]
    rfl

/-- One step of a verification: the element is merged with the node next to it on the sides they are on. -/
theorem mergeProof_cons (mergesTo : factory.MergesTo merged) (text : HeldData TData → String)
    {tree : MerkleTree (HeldData TData) TMetadata} (linked : Linked tree.nodes) {parent element sibling : Nat}
    {above : Node (HeldData TData)} {side : Side} (isAbove : tree.nodes[parent]? = some above)
    (isChild : above.child side = some element) (isSibling : above.child side.other = some sibling)
    {other : HeldData TData} (isOther : dataOf tree.nodes sibling = .ok other) (lastNode : Option Nat)
    (proof : List Nat) (current : HeldData TData) (memory : σ × Nat) :
    ∃ store, (factory.held isObject leafIdentity).mergeProof text tree lastNode (sibling :: proof) current memory =
      (factory.held isObject leafIdentity).mergeProof text tree lastNode proof
        (created isObject memory.2 (mergeBeside merged side current.content other.content
          (if some sibling = lastNode then tree.metadata else none))) (store, memory.2 + 1) := by
  obtain ⟨-, below, isBelow, isParent⟩ := linked.child isAbove isSibling
  have parented : parentOf text tree.nodes sibling other = .ok parent := by
    rw [parentOf, isBelow, Option.bind_some, isParent]
  have onLeft : (tree.nodes[parent]?.bind (·.left) = some sibling) ↔ side = .right := by
    rw [isAbove, Option.bind_some]
    cases side with
    | left => exact iff_of_false (fun first => linked.apart isAbove first isSibling) nofun
    | right => exact iff_of_true isSibling rfl
  generalize described : (if some sibling = lastNode then tree.metadata else none) = metadata
  obtain ⟨store, made⟩ : ∃ store, (if side = .right
      then (factory.held isObject leafIdentity).mergeFn other (some current) metadata memory
      else (factory.held isObject leafIdentity).mergeFn current (some other) metadata memory) =
      .ok (created isObject memory.2 (mergeBeside merged side current.content other.content metadata),
        (store, memory.2 + 1)) := by
    cases side with
    | left => exact mergesTo.held current (some other) metadata memory
    | right => exact mergesTo.held other (some current) metadata memory
  refine ⟨store, ?_⟩
  rw [mergeProof, isOther]
  change (parentOf text tree.nodes sibling other >>= _) = _
  rw [parented]
  simp only [bind, Except.bind, onLeft, described, made]

/-- A tree of which every node with children was made by a merge, with the metadata at the root only. -/
structure MadeTree (isObject : TData → Bool) (merged : TData → Option TData → Option TMetadata → TData)
    (tree : MerkleTree (HeldData TData) TMetadata) (next : Nat) : Prop where
  linked : Linked tree.nodes
  top : ∀ position, IsTop tree.nodes position ↔ position = tree.root
  made : ∀ {position child : Nat} {node : Node (HeldData TData)} {side : Side}, tree.nodes[position]? = some node →
    node.child side = some child →
    MadeAt isObject merged tree.nodes next (if position = tree.root then tree.metadata else none) position

/-- What comes out is the content of the root for the content of the element, and for no other. It was created later
than anything in the tree. -/
theorem mergeProof_climbs (mergesTo : factory.MergesTo merged) (injective : Injective merged)
    (text : HeldData TData → String) {tree : MerkleTree (HeldData TData) TMetadata} {next : Nat}
    (spec : MadeTree isObject merged tree next) {element : Nat} {proof : List Nat}
    (climbs : Climbs tree.nodes element proof) {lastNode : Option Nat}
    (sameLast : proof ≠ [] → proof.getLast? = lastNode) {own rootData : HeldData TData}
    (isOwn : dataOf tree.nodes element = .ok own) (isRoot : dataOf tree.nodes tree.root = .ok rootData)
    (current : HeldData TData) (memory : σ × Nat) :
    ∃ result after, (factory.held isObject leafIdentity).mergeProof text tree lastNode proof current memory =
        .ok (result, after) ∧ (result.content = rootData.content ↔ current.content = own.content) ∧
      (proof = [] ∧ result = current ∨ ∃ number ≥ memory.2, result = created isObject number result.content) := by
  induction climbs generalizing own current memory with
  | top isTop =>
    obtain rfl := (spec.top _).mp isTop
    obtain rfl := Except.ok.inj (isOwn.symm.trans isRoot)
    exact ⟨current, memory, rfl, Iff.rfl, .inl ⟨rfl, rfl⟩⟩
  | @up element parent sibling above side proof isAbove isChild isSibling climbs ih =>
    have lastBelowRoot : some sibling = lastNode ↔ parent = tree.root := by
      rw [← sameLast (List.cons_ne_nil _ _), climbs.last_iff spec.linked isAbove isSibling, spec.top]
    have siblingInside : sibling < tree.nodes.length := by
      obtain ⟨-, below, isBelow, -⟩ := spec.linked.child isAbove isSibling
      exact (List.getElem?_eq_some_iff.mp isBelow).1
    obtain ⟨other, isOther⟩ := dataOf_inside siblingInside
    have isParent : dataOf tree.nodes parent = .ok above.data := dataOf_eq_ok.mpr ⟨above, isAbove, rfl⟩
    obtain ⟨number, -, aboveData⟩ := (spec.made isAbove isChild).beside isAbove isChild isSibling isOwn isOther
    obtain ⟨store, step⟩ := @mergeProof_cons _ _ _ _ factory isObject leafIdentity merged mergesTo text _ spec.linked
      _ _ _ _ _ isAbove isChild isSibling _ isOther lastNode proof current memory
    have lastBehind : proof ≠ [] → proof.getLast? = lastNode := by
      intro nonempty
      obtain ⟨first, rest, rfl⟩ := List.exists_cons_of_ne_nil nonempty
      rw [← sameLast (List.cons_ne_nil _ _), List.getLast?_cons_cons]
    simp only [lastBelowRoot] at step
    rw [step]
    generalize (if parent = tree.root then tree.metadata else none) = metadata at aboveData
    obtain ⟨result, after, merges, sameContent, fresh⟩ := ih lastBehind isParent
      (created isObject memory.2 (mergeBeside merged side current.content other.content metadata)) (store, memory.2 + 1)
    refine ⟨result, after, merges, sameContent.trans ?_, .inr ?_⟩
    · rw [aboveData]
      exact injective.mergeBeside_iff side _ _ _ _
    · obtain ⟨-, rfl⟩ | ⟨later, isLater, made⟩ := fresh
      · exact ⟨memory.2, Nat.le_refl _, rfl⟩
      · exact ⟨later, Nat.le_of_succ_le isLater, made⟩

/-- A tree over several leaves was made by merges, its root included. -/
theorem build_madeTree (mergesTo : factory.MergesTo merged) {leaves : List TLeaf} {store last : σ × Nat}
    {tree : MerkleTree (HeldData TData) TMetadata} (several : 2 ≤ leaves.length)
    (built : (factory.held isObject leafIdentity).build leaves store = .ok (tree, last)) :
    MadeTree isObject merged tree last.2 ∧ leaves.length ≤ tree.root ∧
      MadeAt isObject merged tree.nodes last.2 tree.metadata tree.root := by
  have spec := build_ok built
  obtain ⟨_, _, built⟩ := bind_eq_ok.mp built
  obtain ⟨metadata, _, built⟩ := bind_eq_ok.mp built
  obtain ⟨⟨root, after⟩, level, rest⟩ := bind_eq_ok.mp built
  obtain ⟨rfl, rfl⟩ := Prod.mk.inj (Except.ok.inj rest)
  have distinct := (leafNodes_perm (factory.held isObject leafIdentity) leaves).nodup_iff.mpr List.nodup_range
  have tops : ∀ e ∈ ((factory.held isObject leafIdentity).sortedLeaves leaves).map Prod.snd,
      IsTop ((factory.held isObject leafIdentity).leafBuild leaves store).nodes e :=
    fun e member => leafBuild_top.mpr ((mem_leafNodes _ leaves e).mp member)
  have long : 2 ≤ (((factory.held isObject leafIdentity).sortedLeaves leaves).map Prod.snd).length := by
    rwa [length_leafNodes]
  have leafCount : ((factory.held isObject leafIdentity).leafBuild leaves store).nodes.length = leaves.length :=
    List.length_map _
  obtain ⟨-, made⟩ := buildLevel_madeAt mergesTo distinct tops level (.inl long)
  have behindLeaves : leaves.length ≤ root := by
    obtain ⟨leftNode, rightNode, middle, lastBuild, leftData, rightData, data, rfl, split⟩ :=
      buildLevel_split long distinct tops level
    rw [← leafCount]
    exact (split.left.merges.extends.trans split.right.merges.extends).length_le
  have rootInside : root < after.nodes.length := top_inside ((spec.top root).mpr rfl)
  refine ⟨⟨spec.merges.linked (leafBuild_linked leaves store), spec.top,
    fun {position child node side} found isChild => ?_⟩, behindLeaves, ?_⟩
  · refine made position ?_ (List.getElem?_eq_some_iff.mp found).1
    by_contra isLeaf
    have before := List.getElem?_eq_getElem (Nat.lt_of_not_le isLeaf)
    obtain ⟨same, isSame, -, children⟩ := spec.merges.extends.kept before
    obtain rfl := Option.some.inj (isSame.symm.trans found)
    rw [children side] at isChild
    cases side <;> simp [leafBuild, Node.child] at isChild
  · have rootMade := made root (by omega) rootInside
    rwa [if_pos rfl] at rootMade

/-- The tree over a single leaf has no proof for it: nothing is next to the leaf. -/
theorem getProof_single {leaves : List TLeaf} {store last : σ} {tree : MerkleTree TData TMetadata}
    (single : leaves.length = 1) (built : factory.build leaves store = .ok (tree, last)) {index : Nat} (inside : index < leaves.length) :
    tree.getProof index = .error ⟨"Empty proof node"⟩ := by
  obtain ⟨_, _, built⟩ := bind_eq_ok.mp built
  obtain ⟨metadata, _, built⟩ := bind_eq_ok.mp built
  obtain ⟨⟨root, after⟩, level, rest⟩ := bind_eq_ok.mp built
  obtain ⟨rfl, rfl⟩ := Prod.mk.inj (Except.ok.inj rest)
  have tops : ∀ e ∈ (factory.sortedLeaves leaves).map Prod.snd, IsTop (factory.leafBuild leaves store).nodes e :=
    fun e member => leafBuild_top.mpr ((mem_leafNodes factory leaves e).mp member)
  have count := (factory.length_leafNodes leaves).trans single
  unfold MerkleTree.getProof
  dsimp only
  generalize (factory.sortedLeaves leaves).map Prod.snd = elements at *
  obtain ⟨first, rfl⟩ := List.length_eq_one_iff.mp count
  have top := tops first List.mem_cons_self
  rw [buildLevel, if_pos rfl] at level
  obtain ⟨⟨merged, appended⟩, joined, rest⟩ := bind_eq_ok.mp level
  obtain ⟨rfl, rfl⟩ := Prod.mk.inj (Except.ok.inj rest)
  obtain ⟨rfl, data, nodes, -⟩ := merge_ok top (by simp) joined
  have isJoin : setParent appended.nodes first (factory.leafBuild leaves store).nodes.length =
      join (factory.leafBuild leaves store).nodes data first none := by
    rw [nodes]
    rfl
  obtain rfl : index = 0 := by omega
  obtain ⟨node, found, isTop⟩ := top
  have noRight : ∀ r ∈ none, r < (factory.leafBuild leaves store).nodes.length := by simp
  obtain ⟨leaf, isLeaf, -, -, isParent⟩ := join_old data (top_inside ⟨node, found, isTop⟩) noRight found
  rw [if_pos (.inl rfl)] at isParent
  have isRoot := @join_new _ _ data _ _ (top_inside ⟨node, found, isTop⟩) noRight
  dsimp only
  rw [isJoin, length_join, List.getElem?_cons_zero]
  dsimp only
  rw [MerkleTree.calculateProof, isLeaf, Option.bind_some, isParent]
  dsimp only
  rw [isRoot]
  simp

variable [DecidableEq TData]

/-- What two merges made is the same if it is no object and the contents are equal. -/
theorem strictEquals_created {old new : Nat} (later : old ≠ new) (a b : TData) :
    HeldData.strictEquals (created isObject old a) (created isObject new b) = (!isObject a && decide (b = a)) := by
  unfold HeldData.strictEquals created
  by_cases same : b = a
  · subst same
    cases isObject b <;> simp [later]
  · cases isObject a <;> cases isObject b <;> simp [later, same, Ne.symm same]

/-- A proof is accepted for the content of the element alone, and not even for it if the root holds an object. -/
theorem verifyProof_climbs (mergesTo : factory.MergesTo merged) (injective : Injective merged)
    (text : HeldData TData → String) {tree : MerkleTree (HeldData TData) TMetadata} {next number : Nat}
    (spec : MadeTree isObject merged tree next) {element : Nat} {proof : List Nat}
    (climbs : Climbs tree.nodes element proof) (below : element ≠ tree.root) {own rootData : HeldData TData}
    (isOwn : dataOf tree.nodes element = .ok own) (isRoot : dataOf tree.nodes tree.root = .ok rootData)
    (old : number < next) (rootMade : rootData = created isObject number rootData.content)
    (current : HeldData TData) (memory : σ × Nat) (later : next ≤ memory.2) :
    ∃ after, (factory.held isObject leafIdentity).verifyProof text HeldData.strictEquals tree proof current memory =
      .ok (!isObject rootData.content && decide (current.content = own.content), after) := by
  obtain ⟨result, after, merges, sameContent, ⟨empty, -⟩ | ⟨mergeNumber, isLater, made⟩⟩ :=
    @mergeProof_climbs _ _ _ _ factory isObject leafIdentity merged mergesTo injective text _ _ spec _ _ climbs _
      (fun _ => rfl) _ _ isOwn isRoot current memory
  · exact absurd ((spec.top _).mp ((climbs.nil_iff spec.linked).mp empty)) below
  refine ⟨after, bind_eq_ok.mpr ⟨_, merges, bind_eq_ok.mpr ⟨rootData, isRoot, ?_⟩⟩⟩
  have compared : HeldData.strictEquals rootData result =
      (!isObject rootData.content && decide (current.content = own.content)) := by
    rw [rootMade, made, strictEquals_created (by omega)]
    simp only [created, sameContent]
  exact congrArg (fun equal => Except.ok (equal, after)) compared

/-- The proof of a leaf of a tree over several leaves, and what becomes of it when it is verified. -/
theorem verifyProof_built (mergesTo : factory.MergesTo merged) (injective : Injective merged)
    (text : HeldData TData → String) {leaves : List TLeaf} {store last : σ × Nat}
    {tree : MerkleTree (HeldData TData) TMetadata} {rootData : HeldData TData} (several : 2 ≤ leaves.length)
    (built : (factory.held isObject leafIdentity).build leaves store = .ok (tree, last))
    (isRoot : dataOf tree.nodes tree.root = .ok rootData) {index : Nat} (inside : index < leaves.length) :
    ∃ proof leaf own, tree.getProof index = .ok proof ∧ tree.leafNodes[index]? = some leaf ∧
      dataOf tree.nodes leaf = .ok own ∧ ∀ (x : HeldData TData) (later : σ × Nat), last.2 ≤ later.2 → ∃ after,
        (factory.held isObject leafIdentity).verifyProof text HeldData.strictEquals tree proof x later =
          .ok (!isObject rootData.content && decide (x.content = own.content), after) := by
  obtain ⟨made, behind, root, left, right, number, leftData, rightData, foundRoot, -, -, -, -, old, data⟩ :=
    build_madeTree mergesTo several built
  have spec := build_ok built
  have indexInside : index < tree.leafNodes.length := by
    rwa [spec.leaves, length_leafNodes]
  have isLeaf := List.getElem?_eq_getElem indexInside
  generalize tree.leafNodes[index] = leaf at isLeaf
  have isOld : leaf < leaves.length := by
    have member := List.mem_of_getElem? isLeaf
    rwa [spec.leaves, mem_leafNodes] at member
  have leafInside : leaf < tree.nodes.length := spec.merges.inside (leafBuild_top.mpr isOld)
  obtain ⟨own, isOwn⟩ := dataOf_inside leafInside
  have pairs (position child : Nat) (node : Node (HeldData TData)) (side : Side)
      (found : tree.nodes[position]? = some node) (isChild : node.child side = some child) :
      ∃ left right, node.left = some left ∧ node.right = some right := by
    obtain ⟨same, left, right, -, -, -, isSame, isLeft, isRight, -⟩ := made.made found isChild
    obtain rfl := Option.some.inj (isSame.symm.trans found)
    exact ⟨left, right, isLeft, isRight⟩
  obtain ⟨proof, walked, climbs⟩ := calculateProof_climbs made.linked pairs leafInside (Nat.sub_le _ _) []
  refine ⟨proof, leaf, own, ?_, isLeaf, isOwn, fun x later isLater => ?_⟩
  · rw [MerkleTree.getProof, isLeaf]
    exact walked
  · obtain ⟨same, isSame, rfl⟩ := dataOf_eq_ok.mp isRoot
    obtain rfl := Option.some.inj (isSame.symm.trans foundRoot)
    have created : same.data = created isObject number same.data.content := by
      rw [data]
      rfl
    exact verifyProof_climbs mergesTo injective text made climbs (by omega) isOwn isRoot old created x later isLater

/-- Proofs are complete and sound exactly for trees over two leaves or more with a primitive at the root. -/
theorem verifies_iff (mergesTo : factory.MergesTo merged) (injective : Injective merged)
    (text : HeldData TData → String) {leaves : List TLeaf} {store last : σ × Nat}
    {tree : MerkleTree (HeldData TData) TMetadata} {rootData : HeldData TData}
    (built : (factory.held isObject leafIdentity).build leaves store = .ok (tree, last))
    (isRoot : dataOf tree.nodes tree.root = .ok rootData) {index : Nat} (inside : index < leaves.length) :
    Verifies (factory.held isObject leafIdentity) text tree last index ↔
      2 ≤ leaves.length ∧ isObject rootData.content = false := by
  by_cases several : 2 ≤ leaves.length
  · obtain ⟨proof, leaf, own, proved, isLeaf, isOwn, verified⟩ :=
      verifyProof_built mergesTo injective text several built isRoot inside
    constructor
    · rintro ⟨otherProof, otherLeaf, otherOwn, otherProved, sameLeaf, sameOwn, accepts⟩
      obtain rfl := Except.ok.inj (otherProved.symm.trans proved)
      obtain rfl := Option.some.inj (sameLeaf.symm.trans isLeaf)
      obtain rfl := Except.ok.inj (sameOwn.symm.trans isOwn)
      obtain ⟨after, accepted⟩ := accepts otherOwn last (Nat.le_refl _)
      obtain ⟨otherAfter, compared⟩ := verified otherOwn last (Nat.le_refl _)
      have equal := congrArg Prod.fst (Except.ok.inj (accepted.symm.trans compared))
      exact ⟨several, by simpa using equal⟩
    · rintro ⟨-, primitive⟩
      refine ⟨proof, leaf, own, proved, isLeaf, isOwn, fun x later isLater => ?_⟩
      obtain ⟨after, compared⟩ := verified x later isLater
      rw [primitive] at compared
      exact ⟨after, compared⟩
  · have single : leaves.length = 1 := by omega
    refine iff_of_false ?_ fun holds => several holds.1
    rintro ⟨proof, leaf, data, proved, -⟩
    cases (getProof_single single built inside).symm.trans proved

/-- Numbers, of which two are merged into the number of the pair. -/
def pairFactory : MerkleTreeFactory Nat Nat Unit Unit where
  mergeFn left right _ store := .ok (Nat.pair left (right.elim 0 Nat.succ), store)
  ofLeaf := id

def twoNumbers : MerkleTree (HeldData Nat) Unit where
  nodes := [{ data := ⟨none, 5⟩, parent := some 2 }, { data := ⟨none, 7⟩, parent := some 2 },
    { data := ⟨none, 69⟩, left := some 0, right := some 1 }]
  root := 2
  leafNodes := [0, 1]
  metadata := none

theorem pairs_injective :
    Injective fun (left : Nat) (right : Option Nat) (_ : Option Unit) => Nat.pair left (right.elim 0 Nat.succ) := by
  intro left right other otherRight _ same
  obtain ⟨sameLeft, sameRight⟩ := Nat.pair_eq_pair.mp same
  refine ⟨sameLeft, ?_⟩
  cases right <;> cases otherRight
  · rfl
  · cases sameRight
  · cases sameRight
  · exact congrArg some (Nat.succ.inj sameRight)

theorem twoNumbers_verified : Verifies (pairFactory.held (fun _ => false) fun _ => none)
    (fun data => toString data.content) twoNumbers ((), 1) 1 := by
  have level : (pairFactory.held (fun _ => false) fun _ => none).buildLevel [0, 1] 0 none
      ((pairFactory.held (fun _ => false) fun _ => none).leafBuild [5, 7] ((), 0)) =
      .ok (2, ⟨twoNumbers.nodes, ((), 1)⟩) := by
    simp [buildLevel]
    rfl
  have built : (pairFactory.held (fun _ => false) fun _ => none).build [5, 7] ((), 0) = .ok (twoNumbers, ((), 1)) :=
    bind_eq_ok.mpr ⟨(), rfl, bind_eq_ok.mpr ⟨none, rfl, bind_eq_ok.mpr ⟨_, level, rfl⟩⟩⟩
  exact (verifies_iff (fun _ _ _ _ => ⟨(), rfl⟩) pairs_injective _ built rfl (by decide : 1 < 2)).mpr ⟨by decide, rfl⟩

end MerkleTreeFactory

namespace IpfsMerge

variable {TLeaf : Type} {cidOf : JsValue → Cid} {ofLeaf : TLeaf → CIDHolder}
  {compareFn : Option (TLeaf → TLeaf → Int)} {metadataFn : Option (List TLeaf → Except JsError TreeMetadata)}
  {depthLimit : Option Nat}

/-- The holder of the CID of the record of a node. -/
def mergedHolder (cidOf : JsValue → Cid) (left : CIDHolder) (right : Option CIDHolder)
    (metadata : Option TreeMetadata) : CIDHolder :=
  ⟨cidOf (.arr ([.cid left.cid, rightSlot right] ++ (metadata.map fun known => .cid (cidOf known.record)).toList))⟩

theorem mergesTo : (factory (fun record => .ok (cidOf record)) ofLeaf compareFn metadataFn depthLimit).MergesTo
    (mergedHolder cidOf) := by
  intro left right metadata store
  cases metadata with
  | none => exact ⟨_, rfl⟩
  | some known => exact ⟨_, rfl⟩

theorem mergedHolder_injective (injective : Function.Injective cidOf) :
    MerkleTreeFactory.Injective (mergedHolder cidOf) := by
  intro left right other otherRight metadata same
  have records := injective (congrArg CIDHolder.cid same)
  simp only [JsValue.arr.injEq, List.cons_append, List.cons.injEq, JsValue.cid.injEq] at records
  obtain ⟨sameLeft, sameRight, -⟩ := records
  have holder {a b : CIDHolder} (sameCid : a.cid = b.cid) : a = b := by
    cases a
    exact congrArg CIDHolder.mk sameCid
  refine ⟨holder sameLeft, ?_⟩
  unfold rightSlot at sameRight
  cases right <;> cases otherRight
  · rfl
  · cases sameRight
  · cases sameRight
  · exact congrArg some (holder (JsValue.cid.inj sameRight))

/-- The `{ cid }` at the root is created anew by every verification, so no proof is ever accepted. -/
theorem not_verifies (injective : Function.Injective cidOf) {leafIdentity : TLeaf → Option Nat}
    {text : HeldData CIDHolder → String} {leaves : List TLeaf} {store last : IpfsRecords × Nat}
    {tree : MerkleTree (HeldData CIDHolder) TreeMetadata} (several : 2 ≤ leaves.length)
    (built : ((factory (fun record => .ok (cidOf record)) ofLeaf compareFn metadataFn depthLimit).held (fun _ => true)
      leafIdentity).build leaves store = .ok (tree, last)) {index : Nat} (inside : index < leaves.length) :
    ∃ proof, tree.getProof index = .ok proof ∧ ∀ (x : HeldData CIDHolder) (later : IpfsRecords × Nat),
      last.2 ≤ later.2 → ∃ after,
        ((factory (fun record => .ok (cidOf record)) ofLeaf compareFn metadataFn depthLimit).held (fun _ => true)
          leafIdentity).verifyProof text HeldData.strictEquals tree proof x later = .ok (false, after) := by
  obtain ⟨rootNode, isRoot, -⟩ := ((MerkleTreeFactory.build_ok built).top tree.root).mpr rfl
  obtain ⟨proof, leaf, own, proved, -, -, verified⟩ := MerkleTreeFactory.verifyProof_built mergesTo
    (mergedHolder_injective injective) text several built (MerkleTreeFactory.dataOf_eq_ok.mpr ⟨rootNode, isRoot, rfl⟩)
    inside
  exact ⟨proof, proved, verified⟩

end IpfsMerge

namespace ThreeTips

/-- The three tips are objects of their own, and so are the two nodes over them. -/
def heldFactory : MerkleTreeFactory (HeldData CIDHolder) CIDHolder TreeMetadata (IpfsRecords × Nat) :=
  (IpfsMerge.factory put id none none none).held (fun _ => true) fun tip => tip.cid.bytes.head?.map UInt8.toNat

def heldTree : MerkleTree (HeldData CIDHolder) TreeMetadata where
  nodes := [{ data := ⟨some 1, ⟨⟨[1]⟩⟩⟩, parent := some 4 }, { data := ⟨some 2, ⟨⟨[2]⟩⟩⟩, parent := some 3 },
    { data := ⟨some 3, ⟨⟨[3]⟩⟩⟩, parent := some 3 },
    { data := ⟨some 4, ⟨⟨[4]⟩⟩⟩, left := some 1, right := some 2, parent := some 4 },
    { data := ⟨some 5, ⟨⟨[5]⟩⟩⟩, left := some 0, right := some 3 }]
  root := 4
  leafNodes := [0, 1, 2]
  metadata := none

/-- The proof of the first tip is not accepted for the first tip. -/
theorem firstTip_rejected : Ipfs.Injective put ∧
    heldFactory.build leaves ([], 4) = .ok (heldTree, (stored.tail, 6)) ∧ heldTree.getProof 0 = .ok [3] ∧
    ∃ after, heldFactory.verifyProof (fun _ => "[object Object]") HeldData.strictEquals heldTree [3]
      ⟨some 1, ⟨⟨[1]⟩⟩⟩ (stored.tail, 6) = .ok (false, after) := by
  have level : heldFactory.buildLevel [0, 1, 2] 0 none (heldFactory.leafBuild leaves ([], 4)) =
      .ok (4, ⟨heldTree.nodes, (stored.tail, 6)⟩) := by
    simp [MerkleTreeFactory.buildLevel]
    rfl
  have built : heldFactory.build leaves ([], 4) = .ok (heldTree, (stored.tail, 6)) :=
    bind_eq_ok.mpr ⟨(), rfl, bind_eq_ok.mpr ⟨none, rfl, bind_eq_ok.mpr ⟨_, level, rfl⟩⟩⟩
  exact ⟨put_injective, built, rfl, _, rfl⟩

end ThreeTips

end Ceramic
