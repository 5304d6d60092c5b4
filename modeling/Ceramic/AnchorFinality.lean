import Ceramic.Convergence
import Ceramic.Library.Divergence

/-! Whether an anchored history is final. A tip from the network takes the place of anchored commits
only with a branch that was anchored before them, and so do any number of tips one after the other. -/
namespace Ceramic

open StateManipulator StreamUtils AnchorTimestampExtractor Tournament Divergence

/-- The time of the block that an anchor commit was written to. -/
def anchorSeconds (dispatcher : Dispatcher) (c : CommitData) : Option Nat :=
  if c.type = .TIME then (verifyAnchorCommit dispatcher c).toOption else none

/-- No two tips have branches that were first anchored at one time. -/
def AnchoredApart (store : CommitStore) (tips : List Cid) : Prop :=
  ∀ x ∈ tips, ∀ y ∈ tips,
    let branches := behindDivergence (logOf store x) (logOf store y)
    let anchored := firstMark (anchorSeconds store.toDispatcher)
    anchored branches.1 = anchored branches.2 → anchored branches.1 = ⊤

variable {env : Environment} {store : CommitStore} {handler : StreamHandler} {g : CommitData}
  {genesis : StreamState} {tips : List Cid}

/-- Between extracted logs with valid anchors the first anchors decide by their times. -/
theorem firstAnchor_extracted {dispatcher : Dispatcher} {cs : List CommitData} (valid : AnchorsValid dispatcher cs) :
    firstMark (anchorSeconds dispatcher) cs = ⊤ ∧
      firstAnchor (entries (verifyAnchorAndApplyTimestamps dispatcher cs)) = none ∨
    ∃ (n : Nat) (anchor : LogEntry), firstMark (anchorSeconds dispatcher) cs = (n : WithTop Nat) ∧
      firstAnchor (entries (verifyAnchorAndApplyTimestamps dispatcher cs)) = some anchor ∧
      anchor.timestamp = .seconds n := by
  induction cs with
  | nil => exact .inl ⟨rfl, rfl⟩
  | cons c cs ih =>
    rw [extracted_cons, entries_cons, firstAnchor_cons]
    by_cases time : c.type = .TIME
    · obtain ⟨n, verified⟩ := valid c List.mem_cons_self time
      have marked : anchorSeconds dispatcher c = some n := by simp [anchorSeconds, time, verified, Except.toOption]
      refine .inr ⟨n, (stamped dispatcher c cs).toLogEntry, firstMark_marked marked, if_pos time, ?_⟩
      simp [CommitData.toLogEntry, stamped, carriedTime, time, verified]
    · have unmarked : anchorSeconds dispatcher c = none := if_neg time
      have other : (stamped dispatcher c cs).toLogEntry.type ≠ .TIME := time
      rw [if_neg other, firstMark_unmarked unmarked]
      exact ih fun d member => valid d (List.mem_cons_of_mem c member)

/-- What replaces a branch was anchored before it, or the branch was not anchored at all. -/
theorem keepsMarks_of_replaced {dispatcher : Dispatcher} {a b : List CommitData} (validA : AnchorsValid dispatcher a)
    (validB : AnchorsValid dispatcher b)
    (apart : firstMark (anchorSeconds dispatcher) a = firstMark (anchorSeconds dispatcher) b →
      firstMark (anchorSeconds dispatcher) a = ⊤)
    (replaced : keepsSuffix dispatcher a b = false) : KeepsMarks (anchorSeconds dispatcher) a b := by
  rcases firstAnchor_extracted validA with ⟨unmarked, _⟩ | ⟨m, anchorA, markA, firstA, timeA⟩
  · exact .of_unmarked unmarked
  · have nonempty : a ≠ [] := by
      rintro rfl
      cases markA
    have loses : pickLogToAccept (entries (verifyAnchorAndApplyTimestamps dispatcher a))
        (entries (verifyAnchorAndApplyTimestamps dispatcher b)) ≠ .log1 := by
      intro wins
      simp [keepsSuffix, nonempty, wins] at replaced
    rcases firstAnchor_extracted validB with ⟨_, firstB⟩ | ⟨n, anchorB, markB, firstB, timeB⟩
    · exact absurd (by rw [pickLogToAccept_eq, firstA, firstB]) loses
    · have notLater : ¬m < n := by
        intro earlier
        refine absurd ?_ loses
        simp [pickLogToAccept_eq, firstA, firstB, timeA, timeB, earlier]
      have different : m ≠ n := by
        rintro rfl
        have none := apart (markA.trans markB.symm)
        exact WithTop.coe_ne_top (markA.symm.trans none)
      refine .of_lt ?_
      rw [markA, markB]
      exact WithTop.coe_lt_coe.mpr (lt_of_le_of_ne (not_lt.mp notLater) (Ne.symm different))

/-- The log of a tip gives way to that of another only for an earlier anchor. -/
theorem LoadedTip.keepsMarks {held tip : Cid} {cs ds : List CommitData} {s t : StreamState}
    (first : LoadedTip env store handler g held cs s) (second : LoadedTip env store handler g tip ds t)
    (apart : AnchoredApart store [held, tip]) (replaced : keepsPlace store held tip = false) :
    KeepsMarks (anchorSeconds store.toDispatcher) (logOf store held) (logOf store tip) := by
  have untied := apart held (by simp) tip (by simp)
  dsimp only at untied
  unfold keepsPlace at replaced
  rw [first.logOf_eq, second.logOf_eq] at *
  obtain ⟨shared, eqHeld, eqTip, _⟩ := behindDivergence_split first.valid.stored second.valid.stored
  have validHeld := first.valid.anchors
  have validTip := second.valid.anchors
  generalize (behindDivergence (g :: cs) (g :: ds)).1 = a at *
  generalize (behindDivergence (g :: cs) (g :: ds)).2 = b at *
  rw [eqHeld] at validHeld ⊢
  rw [eqTip] at validTip ⊢
  exact KeepsMarks.append_iff.mpr (keepsMarks_of_replaced
    (fun c member => validHeld c (List.mem_append_right _ member))
    (fun c member => validTip c (List.mem_append_right _ member)) untied replaced)

namespace CommitTree

/-- However many tips are learned, the log gives way for earlier anchors only. -/
theorem keepsMarks (tree : CommitTree env store handler g genesis tips) (apart : AnchoredApart store (g.cid :: tips))
    {held : Cid} {learned : List Cid} (inside : ∀ tip ∈ held :: learned, tip ∈ g.cid :: tips) :
    KeepsMarks (anchorSeconds store.toDispatcher) (logOf store held)
      (logOf store (holdAll (keepsPlace store) held learned)) := by
  let rel (x y : Cid) := KeepsMarks (anchorSeconds store.toDispatcher) (logOf store x) (logOf store y)
  refine @holdAll_related _ (keepsPlace store) rel held learned (g.cid :: tips) (fun x => .refl _)
    (fun first second => first.trans second) (fun x inX y inY replaced => ?_) inside
  obtain ⟨_, _, first⟩ := tree.of_mem x inX
  obtain ⟨_, _, second⟩ := tree.of_mem y inY
  have among : ∀ tip ∈ [x, y], tip ∈ g.cid :: tips := by
    simp only [List.forall_mem_cons, List.not_mem_nil, false_implies, implies_true, and_true]
    exact ⟨inX, inY⟩
  exact first.keepsMarks second (fun a inA b inB => apart a (among a inA) b (among b inB)) replaced

end CommitTree

/-- The first anchors behind a place of the log, as the state has them. -/
theorem LoadedTip.firstAnchor_drop {tip : Cid} {cs : List CommitData} {s : StreamState}
    (loaded : LoadedTip env store handler g tip cs s) (lawful : handler.Lawful env) (n : Nat) :
    let branch := (g :: cs).drop n
    firstMark (anchorSeconds store.toDispatcher) branch = ⊤ ∧ firstAnchor (s.log.toList.drop n) = none ∨
    ∃ (t : Nat) (anchor : LogEntry), firstMark (anchorSeconds store.toDispatcher) branch = (t : WithTop Nat) ∧
      firstAnchor (s.log.toList.drop n) = some anchor ∧ anchor.timestamp = .seconds t := by
  have keys := congrArg (List.drop n) (loaded.keys lawful)
  rw [← List.map_drop, ← List.map_drop, entries, ← List.map_drop, extracted_drop] at keys
  obtain ⟨sameTime, _⟩ := firstAnchor_congr keys
  have valid : AnchorsValid store.toDispatcher ((g :: cs).drop n) := fun c member =>
    loaded.valid.anchors c (List.mem_of_mem_drop member)
  rcases firstAnchor_extracted valid with ⟨unmarked, first⟩ | ⟨t, anchor, mark, first, time⟩
  · rw [entries] at first
    rw [first, Option.map_none, Option.map_eq_none_iff] at sameTime
    exact .inl ⟨unmarked, sameTime⟩
  · rw [entries] at first
    rw [first, Option.map_some, Option.map_eq_some_iff] at sameTime
    obtain ⟨own, found, same⟩ := sameTime
    exact .inr ⟨t, own, mark, found, same.trans time⟩

theorem LoadedTip.anchor_at {tip : Cid} {cs : List CommitData} {s : StreamState}
    (loaded : LoadedTip env store handler g tip cs s) (lawful : handler.Lawful env) {i : Nat} {anchor : LogEntry}
    (found : s.log.toList[i]? = some anchor) (time : anchor.type = .TIME) :
    ∃ c, (g :: cs)[i]? = some c ∧ anchorSeconds store.toDispatcher c ≠ none := by
  have keys := congrArg (·[i]?) (loaded.keys lawful)
  simp only [entries, List.getElem?_map, found, Option.map_some, extracted_getElem?, Option.map_map] at keys
  obtain ⟨c, position, sameKey⟩ := Option.map_eq_some_iff.mp keys.symm
  have isTime : c.type = .TIME := (key_anchor sameKey).mpr time
  obtain ⟨n, verified⟩ := loaded.valid.anchors c (List.mem_of_getElem? position) isTime
  exact ⟨c, position, by simp [anchorSeconds, isTime, verified, Except.toOption]⟩

namespace BlockStore

instance (store : CommitStore) (tips : List Cid) : Decidable (AnchoredApart store tips) :=
  inferInstanceAs (Decidable (∀ x ∈ tips, ∀ y ∈ tips, _ → _))

end BlockStore

end Ceramic
