import Mathlib.Data.List.Basic
import Mathlib.Data.List.Induction

/-! Binary forests built upwards: a new node is put over one or two tops, which are told their
parent. Nodes are known by their positions. -/
namespace LinkedForest

inductive Side where
  | left
  | right
  deriving DecidableEq, Repr

def Side.other : Side → Side
  | .left => .right
  | .right => .left

structure Node (α : Type) where
  data : α
  left : Option Nat := none
  right : Option Nat := none
  parent : Option Nat := none
  deriving DecidableEq, Repr

def Node.child (node : Node α) : Side → Option Nat
  | .left => node.left
  | .right => node.right

def setParent (nodes : List (Node α)) (position parent : Nat) : List (Node α) :=
  nodes.modify position fun node => { node with parent := some parent }

/-- A new node over one or two others. -/
def join (nodes : List (Node α)) (data : α) (left : Nat) (right : Option Nat) : List (Node α) :=
  let joined := setParent (nodes ++ [{ data, left := some left, right }]) left nodes.length
  match right with
  | some right => setParent joined right nodes.length
  | none => joined

def IsTop (nodes : List (Node α)) (position : Nat) : Prop :=
  ∃ node, nodes[position]? = some node ∧ node.parent = none

/-- The node a path leads down to. -/
def follow (nodes : List (Node α)) : Nat → List Side → Option Nat
  | position, [] => some position
  | position, side :: path => do
    let node ← nodes[position]?
    follow nodes (← node.child side) path

/-- Children and parents know each other, and a node has two different children. -/
structure Linked (nodes : List (Node α)) : Prop where
  child : ∀ {position child : Nat} {node : Node α} {side : Side}, nodes[position]? = some node →
    node.child side = some child →
    child < position ∧ ∃ below : Node α, nodes[child]? = some below ∧ below.parent = some position
  parent : ∀ {position parent : Nat} {node : Node α}, nodes[position]? = some node → node.parent = some parent →
    ∃ (above : Node α) (side : Side), nodes[parent]? = some above ∧ above.child side = some position
  apart : ∀ {position child : Nat} {node : Node α}, nodes[position]? = some node → node.left = some child →
    node.right ≠ some child

variable {nodes : List (Node α)} {position : Nat}

@[simp] theorem length_setParent (nodes : List (Node α)) (position parent : Nat) :
    (setParent nodes position parent).length = nodes.length := by
  simp [setParent]

theorem getElem?_setParent (nodes : List (Node α)) (position parent other : Nat) :
    (setParent nodes position parent)[other]? =
      nodes[other]?.map fun node => if other = position then { node with parent := some parent } else node := by
  unfold setParent
  rw [List.getElem?_modify]
  by_cases same : position = other
  · simp [same]
  · simp [same, Ne.symm same]

/-- A path ends where its last step leads to. -/
theorem follow_append (nodes : List (Node α)) (position : Nat) (path rest : List Side) :
    follow nodes position (path ++ rest) =
      (follow nodes position path).bind fun middle => follow nodes middle rest := by
  induction path generalizing position with
  | nil => rfl
  | cons side path ih =>
    simp only [List.cons_append, follow]
    cases nodes[position]? with
    | none => rfl
    | some node =>
      cases found : node.child side with
      | none => simp [found]
      | some child => simp [found, ih]

namespace Linked

/-- The parent of a node has it as its left child or else as its right one. -/
theorem side (linked : Linked nodes) {node above : Node α} {parent : Nat} (here : nodes[position]? = some node)
    (isParent : node.parent = some parent) (isAbove : nodes[parent]? = some above) :
    above.child (if above.left = some position then .left else .right) = some position := by
  obtain ⟨found, side, sameAbove, isChild⟩ := linked.parent here isParent
  obtain rfl : above = found := Option.some.inj (isAbove.symm.trans sameAbove)
  split
  next isLeft => exact isLeft
  next notLeft =>
    cases side with
    | left => exact absurd isChild notLeft
    | right => exact isChild

theorem lt_parent (linked : Linked nodes) {node : Node α} {parent : Nat} (here : nodes[position]? = some node)
    (isParent : node.parent = some parent) : position < parent ∧ parent < nodes.length := by
  obtain ⟨above, side, isAbove, isChild⟩ := linked.parent here isParent
  exact ⟨(linked.child isAbove isChild).1, (List.getElem?_eq_some_iff.mp isAbove).1⟩

/-- Single nodes are a forest. -/
theorem of_single (single : ∀ node ∈ nodes, node.left = none ∧ node.right = none ∧ node.parent = none) :
    Linked nodes where
  child := by
    intro position child node side here isChild
    obtain ⟨noLeft, noRight, _⟩ := single node (List.mem_of_getElem? here)
    cases side with
    | left => exact absurd (noLeft.symm.trans isChild) (by simp)
    | right => exact absurd (noRight.symm.trans isChild) (by simp)
  parent := by
    intro position parent node here isParent
    obtain ⟨_, _, noParent⟩ := single node (List.mem_of_getElem? here)
    exact absurd (noParent.symm.trans isParent) (by simp)
  apart := by
    intro position child node here isLeft
    obtain ⟨noLeft, _, _⟩ := single node (List.mem_of_getElem? here)
    exact absurd (noLeft.symm.trans isLeft) (by simp)

end Linked

section

variable {data : α} {left : Nat} {right : Option Nat}

@[simp] theorem length_join : (join nodes data left right).length = nodes.length + 1 := by
  unfold join
  cases right <;> simp

theorem getElem?_concat (nodes : List (Node α)) (node : Node α) (position : Nat) :
    (nodes ++ [node])[position]? = if position = nodes.length then some node else nodes[position]? := by
  rw [List.getElem?_append]
  split
  next inside => rw [if_neg (Nat.ne_of_lt inside)]
  next outside =>
    by_cases last : position = nodes.length
    · simp [last]
    · have beyond : nodes.length < position := by omega
      rw [if_neg last, List.getElem?_eq_none (Nat.le_of_lt beyond)]
      exact List.getElem?_eq_none (by simp; omega)

/-- A node after a join: the new one, or an old one that may have got a parent. -/
theorem getElem?_join (data : α) (leftInside : left < nodes.length)
    (rightInside : ∀ r ∈ right, r < nodes.length) (position : Nat) :
    (join nodes data left right)[position]? =
      if position = nodes.length then some { data, left := some left, right }
      else nodes[position]?.map fun node =>
        if position = left ∨ right = some position then { node with parent := some nodes.length } else node := by
  have notLeft : nodes.length ≠ left := Nat.ne_of_gt leftInside
  unfold join
  cases right with
  | none =>
    simp only [getElem?_setParent, getElem?_concat]
    by_cases new : position = nodes.length
    · simp [new, notLeft]
    · simp [new]
  | some r =>
    have notRight : nodes.length ≠ r := Nat.ne_of_gt (rightInside r rfl)
    simp only [getElem?_setParent, getElem?_concat]
    by_cases new : position = nodes.length
    · simp [new, notLeft, notRight]
    · simp only [if_neg new, Option.map_map]
      refine congrArg (fun f => Option.map f nodes[position]?) (funext fun node => ?_)
      have sameRight : some r = some position ↔ position = r := by rw [Option.some.injEq, eq_comm]
      simp only [Function.comp, sameRight]
      by_cases isRight : position = r
      · have joined : position = left ∨ position = r := .inr isRight
        rw [if_pos isRight, if_pos joined]
        split <;> rfl
      · simp [isRight]

/-- What a join leaves of an old node: all but, for the nodes joined, the parent. -/
theorem join_old (data : α) (leftInside : left < nodes.length) (rightInside : ∀ r ∈ right, r < nodes.length)
    {node : Node α}
    (old : nodes[position]? = some node) : ∃ after : Node α, (join nodes data left right)[position]? = some after ∧
      after.data = node.data ∧ (∀ side, after.child side = node.child side) ∧
      after.parent = if position = left ∨ right = some position then some nodes.length else node.parent := by
  have inside : position ≠ nodes.length := Nat.ne_of_lt (List.getElem?_eq_some_iff.mp old).1
  have found := getElem?_join data leftInside rightInside position
  rw [if_neg inside, old, Option.map_some] at found
  refine ⟨_, found, ?_, ?_, ?_⟩
  · split <;> rfl
  · intro side
    split <;> cases side <;> rfl
  · split <;> rfl

theorem join_new (leftInside : left < nodes.length) (rightInside : ∀ r ∈ right, r < nodes.length) :
    (join nodes data left right)[nodes.length]? = some { data, left := some left, right } := by
  rw [getElem?_join data leftInside rightInside, if_pos rfl]

/-- Each node after a join is the new one or was there before. -/
theorem join_cases (leftInside : left < nodes.length) (rightInside : ∀ r ∈ right, r < nodes.length) {after : Node α}
    (found : (join nodes data left right)[position]? = some after) :
    position = nodes.length ∧ after = { data, left := some left, right } ∨
      ∃ node, nodes[position]? = some node ∧ after.data = node.data ∧ (∀ side, after.child side = node.child side) ∧
        after.parent = if position = left ∨ right = some position then some nodes.length else node.parent := by
  by_cases new : position = nodes.length
  · subst new
    rw [join_new leftInside rightInside] at found
    exact .inl ⟨rfl, (Option.some.inj found).symm⟩
  · right
    have inside : position < nodes.length := by
      have bound := (List.getElem?_eq_some_iff.mp found).1
      rw [length_join] at bound
      omega
    have old := List.getElem?_eq_getElem inside
    obtain ⟨same, isSame, facts⟩ := join_old data leftInside rightInside old
    obtain rfl : same = after := Option.some.inj (isSame.symm.trans found)
    exact ⟨_, old, facts⟩

/-- Joining tops keeps a forest linked. -/
theorem Linked.join (linked : Linked nodes) (leftTop : IsTop nodes left)
    (rightTop : ∀ r ∈ right, IsTop nodes r ∧ r ≠ left) : Linked (join nodes data left right) := by
  obtain ⟨leftNode, isLeft, leftParent⟩ := leftTop
  have leftInside : left < nodes.length := (List.getElem?_eq_some_iff.mp isLeft).1
  have rightInside : ∀ r ∈ right, r < nodes.length := by
    intro r isRight
    obtain ⟨node, found, _⟩ := (rightTop r isRight).1
    exact (List.getElem?_eq_some_iff.mp found).1
  have top {position : Nat} {node : Node α} (joined : position = left ∨ right = some position)
      (found : nodes[position]? = some node) : node.parent = none := by
    rcases joined with rfl | isRight
    · rw [isLeft] at found
      exact Option.some.inj found ▸ leftParent
    · obtain ⟨rightNode, same, rightParent⟩ := (rightTop position isRight).1
      rw [found] at same
      exact Option.some.inj same ▸ rightParent
  constructor
  case child =>
    intro position child after side found isChild
    rcases join_cases leftInside rightInside found with ⟨rfl, rfl⟩ | ⟨node, old, _, children, _⟩
    · have joined : child = left ∨ right = some child := by
        cases side with
        | left => exact .inl (Option.some.inj isChild).symm
        | right => exact .inr isChild
      have inside : child < nodes.length := by
        rcases joined with rfl | isRight
        · exact leftInside
        · exact rightInside child isRight
      obtain ⟨below, isBelow, _, _, parent⟩ := join_old data leftInside rightInside
        (List.getElem?_eq_getElem inside)
      rw [if_pos joined] at parent
      exact ⟨inside, below, isBelow, parent⟩
    · obtain ⟨lower, below, isBelow, parent⟩ := linked.child old (children side ▸ isChild)
      obtain ⟨same, isSame, _, _, parentAfter⟩ := join_old data leftInside rightInside isBelow
      have unjoined : ¬(child = left ∨ right = some child) := by
        intro joined
        rw [top joined isBelow] at parent
        cases parent
      rw [if_neg unjoined, parent] at parentAfter
      exact ⟨lower, same, isSame, parentAfter⟩
  case parent =>
    intro position parent after found isParent
    rcases join_cases leftInside rightInside found with ⟨rfl, rfl⟩ | ⟨node, old, _, _, parentAfter⟩
    · cases isParent
    · rw [isParent] at parentAfter
      split at parentAfter
      next joined =>
        obtain rfl := Option.some.inj parentAfter
        refine ⟨_, if position = left then .left else .right, join_new leftInside rightInside, ?_⟩
        split
        next first => exact congrArg some first.symm
        next other => exact joined.resolve_left other
      next =>
        obtain ⟨above, side, isAbove, isChild⟩ := linked.parent old parentAfter.symm
        obtain ⟨same, isSame, _, children, _⟩ := join_old data leftInside rightInside isAbove
        exact ⟨same, side, isSame, (children side).trans isChild⟩
  case apart =>
    intro position child after found first
    rcases join_cases leftInside rightInside found with ⟨rfl, rfl⟩ | ⟨node, old, _, children, _⟩
    · obtain rfl := Option.some.inj first
      exact fun second => (rightTop left second).2 rfl
    · have firstBefore : node.left = some child := (children .left).symm.trans first
      have sameRight : after.right = node.right := children .right
      rw [sameRight]
      exact linked.apart old firstBefore

/-- The tops after a join: the new node, and the old ones that were not joined. -/
theorem isTop_join (leftInside : left < nodes.length) (rightInside : ∀ r ∈ right, r < nodes.length) :
    IsTop (join nodes data left right) position ↔
      position = nodes.length ∨ IsTop nodes position ∧ position ≠ left ∧ right ≠ some position := by
  constructor
  · rintro ⟨after, found, noParent⟩
    rcases join_cases leftInside rightInside found with ⟨new, _⟩ | ⟨node, old, _, _, parentAfter⟩
    · exact .inl new
    · right
      rw [noParent] at parentAfter
      split at parentAfter
      next => cases parentAfter
      next unjoined =>
        rw [not_or] at unjoined
        exact ⟨⟨node, old, parentAfter.symm⟩, unjoined⟩
  · rintro (rfl | ⟨⟨node, old, noParent⟩, notLeft, notRight⟩)
    · exact ⟨_, join_new leftInside rightInside, rfl⟩
    · obtain ⟨after, found, _, _, parentAfter⟩ := join_old data leftInside rightInside old
      rw [if_neg (not_or.mpr ⟨notLeft, notRight⟩), noParent] at parentAfter
      exact ⟨after, found, parentAfter⟩

end

/-- Nodes stay where they are, with their data and their children. -/
structure Extends (nodes after : List (Node α)) : Prop where
  kept : ∀ {position : Nat} {node : Node α}, nodes[position]? = some node →
    ∃ same : Node α, after[position]? = some same ∧ same.data = node.data ∧ ∀ side, same.child side = node.child side

theorem Extends.refl (nodes : List (Node α)) : Extends nodes nodes :=
  ⟨fun found => ⟨_, found, rfl, fun _ => rfl⟩⟩

theorem Extends.trans {nodes middle after : List (Node α)} (first : Extends nodes middle)
    (second : Extends middle after) : Extends nodes after := by
  refine ⟨fun found => ?_⟩
  obtain ⟨between, isBetween, dataBetween, childrenBetween⟩ := first.kept found
  obtain ⟨same, isSame, data, children⟩ := second.kept isBetween
  exact ⟨same, isSame, data.trans dataBetween, fun side => (children side).trans (childrenBetween side)⟩

theorem Extends.length_le {after : List (Node α)} (extended : Extends nodes after) : nodes.length ≤ after.length := by
  by_contra shorter
  obtain ⟨same, isSame, -⟩ := extended.kept (List.getElem?_eq_getElem (Nat.lt_of_not_le shorter))
  exact absurd (List.getElem?_eq_some_iff.mp isSame).1 (Nat.lt_irrefl _)

theorem extends_join {left : Nat} {right : Option Nat} (data : α) (leftInside : left < nodes.length)
    (rightInside : ∀ r ∈ right, r < nodes.length) : Extends nodes (join nodes data left right) := by
  refine ⟨fun found => ?_⟩
  obtain ⟨same, isSame, sameData, children, -⟩ := join_old data leftInside rightInside found
  exact ⟨same, isSame, sameData, children⟩

theorem follow_cons (nodes : List (Node α)) (position : Nat) (side : Side) (path : List Side) :
    follow nodes position (side :: path) =
      nodes[position]?.bind fun node => (node.child side).bind fun child => follow nodes child path := rfl

/-- Paths keep leading where they led. -/
theorem Extends.follow {after : List (Node α)} (extended : Extends nodes after) {path : List Side} {target : Nat}
    (leads : LinkedForest.follow nodes position path = some target) :
    LinkedForest.follow after position path = some target := by
  induction path generalizing position with
  | nil => exact leads
  | cons side path ih =>
    rw [follow_cons] at leads ⊢
    obtain ⟨node, found, rest⟩ := Option.bind_eq_some_iff.mp leads
    obtain ⟨child, isChild, rest⟩ := Option.bind_eq_some_iff.mp rest
    obtain ⟨same, isSame, -, children⟩ := extended.kept found
    rw [isSame, Option.bind_some, children side, isChild, Option.bind_some]
    exact ih rest

/-- The last step of a path goes from a node to its child. -/
theorem follow_concat {path : List Side} {side : Side} {target : Nat}
    (leads : follow nodes position (path ++ [side]) = some target) :
    ∃ (above : Nat) (node : Node α), follow nodes position path = some above ∧ nodes[above]? = some node ∧
      node.child side = some target := by
  rw [follow_append] at leads
  obtain ⟨above, isAbove, step⟩ := Option.bind_eq_some_iff.mp leads
  rw [follow_cons] at step
  obtain ⟨node, found, rest⟩ := Option.bind_eq_some_iff.mp step
  obtain ⟨child, isChild, same⟩ := Option.bind_eq_some_iff.mp rest
  obtain rfl := Option.some.inj same
  exact ⟨above, node, isAbove, found, isChild⟩

/-- Nothing leads down to a top. -/
theorem Linked.not_follow_top (linked : Linked nodes) {top : Nat} (isTop : IsTop nodes top) {path : List Side}
    {side : Side} : follow nodes position (path ++ [side]) ≠ some top := by
  intro leads
  obtain ⟨above, node, -, found, isChild⟩ := follow_concat leads
  obtain ⟨-, below, isBelow, parent⟩ := linked.child found isChild
  obtain ⟨same, isSame, noParent⟩ := isTop
  obtain rfl := Option.some.inj (isSame.symm.trans isBelow)
  cases noParent.symm.trans parent

/-- A node has only one place below its parent. -/
theorem Linked.side_unique (linked : Linked nodes) {node : Node α} {child : Nat} {side other : Side}
    (found : nodes[position]? = some node) (here : node.child side = some child)
    (there : node.child other = some child) : side = other := by
  cases side <;> cases other
  · rfl
  · exact absurd there (linked.apart found here)
  · exact absurd here (linked.apart found there)
  · rfl

/-- From a top a single path leads to a node. -/
theorem Linked.follow_unique (linked : Linked nodes) {top target : Nat} (isTop : IsTop nodes top)
    {path other : List Side} (leads : follow nodes top path = some target)
    (otherLeads : follow nodes top other = some target) : path = other := by
  induction path using List.reverseRecOn generalizing target other with
  | nil =>
    obtain rfl := Option.some.inj leads
    induction other using List.reverseRecOn with
    | nil => rfl
    | append_singleton other side _ => exact absurd otherLeads (linked.not_follow_top isTop)
  | append_singleton path side ih =>
    induction other using List.reverseRecOn with
    | nil =>
      obtain rfl := Option.some.inj otherLeads
      exact absurd leads (linked.not_follow_top isTop)
    | append_singleton other otherSide _ =>
      obtain ⟨above, node, isAbove, found, isChild⟩ := follow_concat leads
      obtain ⟨otherAbove, otherNode, isOtherAbove, otherFound, isOtherChild⟩ := follow_concat otherLeads
      obtain ⟨-, below, isBelow, parent⟩ := linked.child found isChild
      obtain ⟨-, same, isSame, otherParent⟩ := linked.child otherFound isOtherChild
      obtain rfl := Option.some.inj (isBelow.symm.trans isSame)
      obtain rfl := Option.some.inj (parent.symm.trans otherParent)
      obtain rfl := Option.some.inj (found.symm.trans otherFound)
      rw [ih isAbove isOtherAbove, linked.side_unique found isChild isOtherChild]

end LinkedForest
