import Ceramic.AnchorFinality
import Ceramic.ConflictOrder
import Ceramic.Library.Transition

/-! Nodes that keep one stream and tell each other about its tips. Updates may be lost, repeated and
overtaken by others. Of two conflicting logs every node prefers the same one, and what it prefers does not
depend on the logs it has seen in between, so two nodes that know of each other's tips agree. The anchor
status of a state is left out, it says nothing about the log. -/
namespace Ceramic

open StateManipulator StreamUtils AnchorTimestampExtractor Tournament Divergence Transition

/-- What the last criterion compares. -/
def tipText (c : CommitData) : List Nat := c.cid.text

section

variable {dispatcher : Dispatcher} {a b : List CommitData}

theorem lastText_extracted (nonempty : a ≠ []) (nonempty' : b ≠ []) :
    lastText Cid.text (entries (verifyAnchorAndApplyTimestamps dispatcher a)) <
        lastText Cid.text (entries (verifyAnchorAndApplyTimestamps dispatcher b)) ↔
      lastLabel tipText a < lastLabel tipText b := by
  have last {cs : List CommitData} (some : cs ≠ []) :
      lastText Cid.text (entries (verifyAnchorAndApplyTimestamps dispatcher cs)) = tipText (cs.getLast some) ∧
        lastLabel tipText cs = (tipText (cs.getLast some) : WithBot (List Nat)) := by
    have cids := extracted_map dispatcher (·.cid) (fun _ _ _ => rfl) cs
    have lastCid := congrArg List.getLast? cids
    rw [List.getLast?_map, List.getLast?_map, List.getLast?_eq_some_getLast some, Option.map_some] at lastCid
    obtain ⟨c, found, same⟩ := Option.map_eq_some_iff.mp lastCid
    refine ⟨?_, ?_⟩
    · simp [lastText, entries, List.getLast?_map, found, CommitData.toLogEntry, tipText, same]
    · rw [lastLabel, List.getLast?_eq_some_getLast some]
      rfl
  rw [(last nonempty).1, (last nonempty').1, (last nonempty).2, (last nonempty').2, WithBot.coe_lt_coe]

/-- Behind a divergence point the log that stands before the other is accepted. -/
theorem pick_extracted (validA : AnchorsValid dispatcher a) (validB : AnchorsValid dispatcher b)
    (nonempty : a ≠ []) (nonempty' : b ≠ [])
    (apart : firstMark (anchorSeconds dispatcher) a = firstMark (anchorSeconds dispatcher) b →
      firstMark (anchorSeconds dispatcher) a = ⊤) :
    pickLogToAccept (entries (verifyAnchorAndApplyTimestamps dispatcher a))
        (entries (verifyAnchorAndApplyTimestamps dispatcher b)) = .log1 ↔
      standing (anchorSeconds dispatcher) tipText a < standing (anchorSeconds dispatcher) tipText b := by
  rw [standing_lt_iff, pickLogToAccept_eq]
  rcases firstAnchor_extracted validA with ⟨markA, firstA⟩ | ⟨m, anchorA, markA, firstA, timeA⟩
  · rcases firstAnchor_extracted validB with ⟨markB, firstB⟩ | ⟨n, anchorB, markB, firstB, timeB⟩
    · have whole {cs : List CommitData}
          (none : firstAnchor (entries (verifyAnchorAndApplyTimestamps dispatcher cs)) = none) :
          relevantLength (entries (verifyAnchorAndApplyTimestamps dispatcher cs)) = cs.length := by
        rcases findAnchorIndex_firstAnchor (entries (verifyAnchorAndApplyTimestamps dispatcher cs)) with
          ⟨index, _⟩ | ⟨_, _, _, found, _⟩
        · rw [relevantLength, index]
          simp [entries]
        · exact absurd (none.symm.trans found) (by simp)
      have some {cs : List CommitData} (some : cs ≠ []) : entries (verifyAnchorAndApplyTimestamps dispatcher cs) ≠ [] := by
        intro empty
        have length := congrArg List.length empty
        rw [entries, List.length_map, extracted_length] at length
        exact some (List.length_eq_zero_iff.mp length)
      rw [firstA, firstB, markA, markB, pickByLength_iff (some nonempty) (some nonempty'), whole firstA, whole firstB,
        lastText_extracted nonempty nonempty']
      simp
    · simp [firstA, firstB, markA, markB]
  · rcases firstAnchor_extracted validB with ⟨markB, firstB⟩ | ⟨n, anchorB, markB, firstB, timeB⟩
    · simp [firstA, firstB, markA, markB]
    · rw [markA, markB] at apart ⊢
      have different : m ≠ n := by
        rintro rfl
        exact WithTop.coe_ne_top (apart rfl)
      have compared : ((m : WithTop Nat) < n) ↔ m < n := WithTop.coe_lt_coe
      have apartTimes : ¬(m : WithTop Nat) = n := fun same => different (WithTop.coe_inj.mp same)
      simp only [firstA, firstB, timeA, timeB, Timestamp.lt_seconds, decide_eq_true_eq, compared, apartTimes,
        false_and, or_false]
      by_cases earlier : m < n
      · simp [earlier]
      · have later : n < m := by omega
        simp [earlier, later]

/-- What is held stays where its branch is preferred. -/
theorem keepsSuffix_iff (validA : AnchorsValid dispatcher a) (validB : AnchorsValid dispatcher b)
    (heads : ∀ x y, a.head? = some x → b.head? = some y → x ≠ y)
    (apart : firstMark (anchorSeconds dispatcher) a = firstMark (anchorSeconds dispatcher) b →
      firstMark (anchorSeconds dispatcher) a = ⊤) :
    keepsSuffix dispatcher a b = true ↔ Prefers (anchorSeconds dispatcher) tipText a b := by
  cases b with
  | nil => exact iff_of_true rfl (.nil a)
  | cons d b =>
    cases a with
    | nil => exact iff_of_false (by simp [keepsSuffix]) id
    | cons c a =>
      rw [Prefers.apart_iff (heads c d rfl rfl), ← pick_extracted validA validB (by simp) (by simp) apart]
      simp [keepsSuffix]

/-- Branches that end in different commits do not stand in one place. -/
theorem standing_ne (nonempty : a ≠ []) (nonempty' : b ≠ [])
    (disjoint : ∀ c ∈ b, c.cid ∉ a.map (·.cid)) :
    standing (anchorSeconds dispatcher) tipText a ≠ standing (anchorSeconds dispatcher) tipText b := by
  intro same
  have labels : lastLabel tipText a = lastLabel tipText b :=
    congrArg (fun place => (ofLex (ofLex place).2).2) same
  unfold lastLabel at labels
  rw [List.getLast?_eq_some_getLast nonempty, List.getLast?_eq_some_getLast nonempty'] at labels
  have bytes := Cid.joined_injective (WithBot.coe_inj.mp labels)
  have cids : (a.getLast nonempty).cid = (b.getLast nonempty').cid := congrArg Cid.mk bytes
  exact disjoint _ (List.getLast_mem nonempty') (cids ▸ List.mem_map_of_mem (List.getLast_mem nonempty))

end

namespace LoadedTip

variable {env : Environment} {store : CommitStore} {handler : StreamHandler} {g : CommitData}
  {held tip : Cid} {cs ds : List CommitData} {s t : StreamState}

/-- The logs of two tips of a stream: what they share, and branches without a common commit. -/
theorem branches (first : LoadedTip env store handler g held cs s) (second : LoadedTip env store handler g tip ds t) :
    ∃ shared a b, logOf store held = shared ++ a ∧ logOf store tip = shared ++ b ∧
      behindDivergence (logOf store held) (logOf store tip) = (a, b) ∧
      AnchorsValid store.toDispatcher a ∧ AnchorsValid store.toDispatcher b ∧
      (∀ c ∈ b, c.cid ∉ a.map (·.cid)) ∧ ∀ x y, a.head? = some x → b.head? = some y → x ≠ y := by
  rw [first.logOf_eq, second.logOf_eq]
  obtain ⟨shared, eqHeld, eqTip, heads⟩ := behindDivergence_split first.valid.stored second.valid.stored
  refine ⟨shared, _, _, eqHeld, eqTip, rfl, fun c member => ?_, fun c member => ?_, fun c member known => ?_, heads⟩
  · exact first.valid.anchors c (eqHeld ▸ List.mem_append_right _ member)
  · exact second.valid.anchors c (eqTip ▸ List.mem_append_right _ member)
  · refine behindDivergence_unknown shared (eqHeld ▸ first.path) (eqHeld ▸ first.valid.stored) (eqTip ▸ second.path)
      (eqTip ▸ second.valid.stored) heads c member ?_
    rw [List.map_append]
    exact List.mem_append_right _ known

theorem keepsPlace_iff (first : LoadedTip env store handler g held cs s)
    (second : LoadedTip env store handler g tip ds t) (apart : AnchoredApart store [held, tip]) :
    keepsPlace store held tip = true ↔
      Prefers (anchorSeconds store.toDispatcher) tipText (logOf store held) (logOf store tip) := by
  obtain ⟨shared, a, b, eqHeld, eqTip, parted, validA, validB, _, heads⟩ := first.branches second
  have untied := apart held (by simp) tip (by simp)
  rw [keepsPlace, eqHeld, eqTip, Prefers.append_iff, ← eqHeld, ← eqTip, parted]
  rw [parted] at untied
  exact keepsSuffix_iff validA validB heads untied

theorem markedApart (first : LoadedTip env store handler g held cs s)
    (second : LoadedTip env store handler g tip ds t) (apart : AnchoredApart store [held, tip]) :
    MarkedApart (anchorSeconds store.toDispatcher) (logOf store held) (logOf store tip) := by
  obtain ⟨shared, a, b, eqHeld, eqTip, parted, _, _, _, heads⟩ := first.branches second
  have untied := apart held (by simp) tip (by simp)
  rw [parted] at untied
  rw [eqHeld, eqTip, MarkedApart.append_iff]
  cases a with
  | nil => trivial
  | cons c a =>
    cases b with
    | nil => trivial
    | cons d b => exact (MarkedApart.apart_iff (heads c d rfl rfl)).mpr untied

/-- One of two tips keeps its place against the other. -/
theorem keepsPlace_total (first : LoadedTip env store handler g held cs s)
    (second : LoadedTip env store handler g tip ds t) (apart : AnchoredApart store [held, tip])
    (replaced : keepsPlace store held tip = false) : keepsPlace store tip held = true := by
  obtain ⟨shared, a, b, eqHeld, eqTip, parted, validA, validB, disjoint, heads⟩ := first.branches second
  have untied := apart held (by simp) tip (by simp)
  rw [parted] at untied
  have swapped : behindDivergence (logOf store tip) (logOf store held) = (b, a) := by
    rw [behindDivergence_swap, parted, Prod.swap_prod_mk]
  rw [keepsPlace, parted, ← Bool.not_eq_true, keepsSuffix_iff validA validB heads untied] at replaced
  have swappedTie (same : firstMark (anchorSeconds store.toDispatcher) b =
      firstMark (anchorSeconds store.toDispatcher) a) : firstMark (anchorSeconds store.toDispatcher) b = ⊤ :=
    same.trans (untied same.symm)
  rw [keepsPlace, swapped, keepsSuffix_iff validB validA (fun x y headB headA => (heads y x headA headB).symm) swappedTie]
  cases a with
  | nil => exact .nil b
  | cons c a =>
    cases b with
    | nil => exact absurd (.nil (c :: a)) replaced
    | cons d b =>
      have different := heads c d rfl rfl
      rw [Prefers.apart_iff different] at replaced
      refine (Prefers.apart_iff different.symm).mpr (lt_of_le_of_ne (not_lt.mp replaced) ?_)
      exact (standing_ne (by simp) (by simp) disjoint).symm

end LoadedTip

namespace CommitTree

variable {env : Environment} {store : CommitStore} {handler : StreamHandler} {g : CommitData}
  {genesis : StreamState} {tips : List Cid}

theorem apart_pair {held tip : Cid} (apart : AnchoredApart store (g.cid :: tips)) (inHeld : held ∈ g.cid :: tips)
    (inTip : tip ∈ g.cid :: tips) : AnchoredApart store [held, tip] := by
  have among : ∀ x ∈ [held, tip], x ∈ g.cid :: tips := by
    simp only [List.forall_mem_cons, List.not_mem_nil, false_implies, implies_true, and_true]
    exact ⟨inHeld, inTip⟩
  exact fun x inX y inY => apart x (among x inX) y (among y inY)

/-- A tip that keeps its place against a second one, which keeps it against a third, keeps it against the third. -/
theorem keepsPlace_trans (tree : CommitTree env store handler g genesis tips)
    (apart : AnchoredApart store (g.cid :: tips)) : ∀ x ∈ g.cid :: tips, ∀ y ∈ g.cid :: tips, ∀ z ∈ g.cid :: tips,
      keepsPlace store x y = true → keepsPlace store y z = true → keepsPlace store x z = true := by
  intro x inX y inY z inZ first second
  obtain ⟨_, _, loadedX⟩ := tree.of_mem x inX
  obtain ⟨_, _, loadedY⟩ := tree.of_mem y inY
  obtain ⟨_, _, loadedZ⟩ := tree.of_mem z inZ
  have apartXY := apart_pair apart inX inY
  have apartYZ := apart_pair apart inY inZ
  rw [loadedX.keepsPlace_iff loadedZ (apart_pair apart inX inZ)]
  exact ((loadedX.keepsPlace_iff loadedY apartXY).mp first).trans ((loadedY.keepsPlace_iff loadedZ apartYZ).mp second)
    (loadedX.markedApart loadedY apartXY) (loadedY.markedApart loadedZ apartYZ)

theorem keepsPlace_total (tree : CommitTree env store handler g genesis tips)
    (apart : AnchoredApart store (g.cid :: tips)) : ∀ x ∈ g.cid :: tips, ∀ y ∈ g.cid :: tips,
      keepsPlace store x y = false → keepsPlace store y x = true := by
  intro x inX y inY replaced
  obtain ⟨_, _, loadedX⟩ := tree.of_mem x inX
  obtain ⟨_, _, loadedY⟩ := tree.of_mem y inY
  exact loadedX.keepsPlace_total loadedY (apart_pair apart inX inY) replaced

end CommitTree

/-- What a user's commit changes a tip from the network changes too; only the former is refused on conflict. -/
theorem StreamUpdater.applyTipFromNetwork_of_user {env : Environment} {store : CommitStore} {s next : StreamState}
    {tip : Cid} (applied : applyCommitFromUser env store s tip = .ok next) :
    applyTipFromNetwork env store s tip = .ok next := by
  obtain ⟨log, synced, applied⟩ := bind_eq_ok.mp applied
  refine bind_eq_ok.mpr ⟨log, synced, ?_⟩
  obtain ⟨resolved, applied, checked⟩ := bind_eq_ok.mp applied
  refine bind_eq_ok.mpr ⟨resolved, ?_, checked⟩
  cases extracted : verifyAnchorAndApplyTimestamps store.toDispatcher log with
  | nil =>
    rw [extracted] at applied
    exact applied
  | cons first rest =>
    rw [extracted] at applied
    obtain ⟨handler, found, linked⟩ := bind_eq_ok.mp applied
    refine bind_eq_ok.mpr ⟨handler, found, ?_⟩
    cases link : first.commit.prev with
    | none => simp [link, throw, throwThe, MonadExceptOf.throw] at linked
    | some prev =>
      simp only [link] at linked ⊢
      by_cases extending : prev = tipFromState s
      · rw [if_pos extending] at linked ⊢
        exact applyLogFrom_throwing linked false
      · rw [if_neg extending] at linked
        unfold resolveConflict at linked
        simp [throw, throwThe, MonadExceptOf.throw, bind, Except.bind] at linked

/-- The nodes that keep a stream: what each of them holds, the tips it has handled, and the tips that have been
published to all. -/
structure StreamNetwork (Node : Type) where
  held : Node → StreamState
  learned : Node → List Cid
  published : List Cid

namespace StreamNetwork

/-- A node publishes the tip it holds, on its own or in answer to a query; it handles a tip that was published, a
user's commit that has just been stored, or the anchor commit of one of its tips. -/
inductive Action (Node : Type) where
  | publishTip (node : Node)
  | handleUpdateFromNetwork (node : Node) (tip : Cid)
  | applyCommit (node : Node) (commitCid : Cid)
  | handleAnchorCommit (node : Node) (anchorCommitCID : Cid)

variable {Node : Type} [DecidableEq Node]

def learn (net : StreamNetwork Node) (node : Node) (tip : Cid) (next : StreamState) : StreamNetwork Node :=
  { net with
    held := Function.update net.held node next
    learned := Function.update net.learned node (tip :: net.learned node) }

/-- A tip that cannot be applied leaves the node as it is. -/
def handled (net : StreamNetwork Node) (node : Node) (tip : Cid) (applied : Except JsError StreamState) :
    StreamNetwork Node :=
  match applied with
  | .ok next => net.learn node tip next
  | .error _ => net

def step (env : Environment) (store : CommitStore) (net : StreamNetwork Node) :
    Action Node → Option (StreamNetwork Node)
  | .publishTip node => some { net with published := tipFromState (net.held node) :: net.published }
  | .handleUpdateFromNetwork node tip =>
    if tip ∈ net.published then
      some (net.handled node tip (StreamUpdater.applyTipFromNetwork env store (net.held node) tip))
    else none
  | .applyCommit node commitCid =>
    some (net.handled node commitCid (StreamUpdater.applyCommitFromUser env store (net.held node) commitCid))
  | .handleAnchorCommit node anchorCommitCID =>
    some (net.handled node anchorCommitCID
      (StreamUpdater.applyTipFromNetwork env store (net.held node) anchorCommitCID))

/-- New commits are commits of the stream. -/
def Among (tips : List Cid) (_ : StreamNetwork Node) : Action Node → Prop
  | .applyCommit _ commitCid => commitCid ∈ tips
  | .handleAnchorCommit _ anchorCommitCID => anchorCommitCID ∈ tips
  | _ => True

/-- Every node has loaded the stream from its genesis. -/
def start (Node : Type) (genesis : StreamState) : StreamNetwork Node where
  held _ := genesis
  learned _ := [tipFromState genesis]
  published := []

/-- Each node holds the state of a tip of the stream, one that keeps its place against all it has handled. -/
structure HoldsBest (env : Environment) (store : CommitStore) (handler : StreamHandler) (g : CommitData)
    (tips : List Cid) (net : StreamNetwork Node) : Prop where
  loaded : ∀ node, ∃ cs, LoadedTip env store handler g (tipFromState (net.held node)) cs (net.held node)
  known : ∀ node, tipFromState (net.held node) ∈ g.cid :: tips
  learned : ∀ node, ∀ tip ∈ net.learned node, tip ∈ g.cid :: tips
  best : ∀ node, ∀ tip ∈ net.learned node, keepsPlace store (tipFromState (net.held node)) tip = true
  published : ∀ tip ∈ net.published, tip ∈ g.cid :: tips

variable {env : Environment} {store : CommitStore} {handler : StreamHandler} {g : CommitData}
  {genesis : StreamState} {tips : List Cid} {net next : StreamNetwork Node}

omit [DecidableEq Node] in
theorem HoldsBest.of_start (tree : CommitTree env store handler g genesis tips) :
    HoldsBest env store handler g tips (start Node genesis) := by
  obtain ⟨lawful, _⟩ := HandlersMap.get_lawful tree.registered
  have tip := tree.root.tip_eq lawful
  refine ⟨fun _ => ⟨[], ?_⟩, fun _ => ?_, fun _ => ?_, fun _ => ?_, fun x member => absurd member List.not_mem_nil⟩
  · rw [start, tip]
    exact tree.root
  · rw [start, tip]
    exact List.mem_cons_self
  · rw [start, tip]
    exact List.forall_mem_singleton.mpr List.mem_cons_self
  · rw [start, tip]
    exact List.forall_mem_singleton.mpr (keepsPlace_self store g.cid)

theorem HoldsBest.handled (tree : CommitTree env store handler g genesis tips)
    (apart : AnchoredApart store (g.cid :: tips)) (holds : HoldsBest env store handler g tips net) (node : Node)
    {tip : Cid} (inTree : tip ∈ g.cid :: tips) {applied : Except JsError StreamState}
    (same : ∀ s, applied = .ok s → StreamUpdater.applyTipFromNetwork env store (net.held node) tip = .ok s) :
    HoldsBest env store handler g tips (net.handled node tip applied) := by
  cases applied with
  | error e => exact holds
  | ok s =>
    obtain ⟨lawful, _⟩ := HandlersMap.get_lawful tree.registered
    obtain ⟨cs, first⟩ := holds.loaded node
    obtain ⟨ds, t, second⟩ := tree.of_mem tip inTree
    have result := Except.ok.inj ((same s rfl).symm.trans (first.apply_tip tree.registered second))
    obtain ⟨es, last, held⟩ : ∃ es, LoadedTip env store handler g (tipFromState s) es s ∧
        tipFromState s = hold (keepsPlace store) (tipFromState (net.held node)) tip := by
      unfold hold
      cases verdict : keepsPlace store (tipFromState (net.held node)) tip with
      | true =>
        obtain rfl : s = net.held node := result.trans (if_pos verdict)
        exact ⟨cs, first, rfl⟩
      | false =>
        obtain rfl : s = t := result.trans (if_neg (by simp [verdict]))
        have tipT := second.tip_eq lawful
        exact ⟨ds, tipT.symm ▸ second, tipT⟩
    have among : ∀ x ∈ tipFromState (net.held node) :: tip :: net.learned node, x ∈ g.cid :: tips :=
      List.forall_mem_cons.mpr ⟨holds.known node, List.forall_mem_cons.mpr ⟨inTree, holds.learned node⟩⟩
    have best := hold_keeps (keepsPlace store) (fun x _ => keepsPlace_self store x) (tree.keepsPlace_total apart)
      (tree.keepsPlace_trans apart) among (holds.best node)
    rw [← held] at best
    refine ⟨fun other => ?_, fun other => ?_, fun other => ?_, fun other => ?_, holds.published⟩
    · by_cases own : other = node
      · subst own
        simpa [StreamNetwork.handled, learn] using ⟨es, last⟩
      · simpa [StreamNetwork.handled, learn, own] using holds.loaded other
    · by_cases own : other = node
      · subst own
        have oneOf := among _ (List.mem_of_mem_take (i := 2) (held ▸ hold_mem _ _ _))
        simpa [StreamNetwork.handled, learn] using oneOf
      · simpa [StreamNetwork.handled, learn, own] using holds.known other
    · by_cases own : other = node
      · subst own
        simpa [StreamNetwork.handled, learn] using ⟨List.mem_cons.mp inTree, by simpa using holds.learned other⟩
      · simpa [StreamNetwork.handled, learn, own] using holds.learned other
    · by_cases own : other = node
      · subst own
        simpa [StreamNetwork.handled, learn] using best
      · simpa [StreamNetwork.handled, learn, own] using holds.best other

theorem HoldsBest.step (tree : CommitTree env store handler g genesis tips)
    (apart : AnchoredApart store (g.cid :: tips)) (holds : HoldsBest env store handler g tips net)
    {action : Action Node} (among : Among tips net action) (stepped : StreamNetwork.step env store net action = some next) :
    HoldsBest env store handler g tips next := by
  cases action with
  | publishTip node =>
    obtain rfl := Option.some.inj stepped
    exact { holds with published := List.forall_mem_cons.mpr ⟨holds.known node, holds.published⟩ }
  | handleUpdateFromNetwork node tip =>
    obtain ⟨published, handled⟩ := Option.ite_none_right_eq_some.mp stepped
    obtain rfl := Option.some.inj handled
    exact holds.handled tree apart node (holds.published tip published) fun s => id
  | applyCommit node commitCid =>
    obtain rfl := Option.some.inj stepped
    exact holds.handled tree apart node (List.mem_cons_of_mem _ among)
      fun s => StreamUpdater.applyTipFromNetwork_of_user
  | handleAnchorCommit node anchorCommitCID =>
    obtain rfl := Option.some.inj stepped
    exact holds.handled tree apart node (List.mem_cons_of_mem _ among) fun s => id

theorem holdsBest_of_reaches (tree : CommitTree env store handler g genesis tips)
    (apart : AnchoredApart store (g.cid :: tips))
    (reaches : Reaches (step env store) (Among tips) (start Node genesis) net) :
    HoldsBest env store handler g tips net :=
  reaches.invariant (.of_start tree) fun _ _ _ holds among stepped => holds.step tree apart among stepped

omit [DecidableEq Node] in
/-- Two nodes that have each handled the tip the other one holds hold the same state. -/
theorem HoldsBest.agree (holds : HoldsBest env store handler g tips net) {node other : Node}
    (heard : tipFromState (net.held other) ∈ net.learned node)
    (heard' : tipFromState (net.held node) ∈ net.learned other) : net.held node = net.held other := by
  obtain ⟨cs, first⟩ := holds.loaded node
  obtain ⟨ds, second⟩ := holds.loaded other
  have same := first.eq_of_keepsPlace second (holds.best node _ heard) (holds.best other _ heard')
  rw [same] at first
  exact (first.unique second).2

end StreamNetwork

end Ceramic
