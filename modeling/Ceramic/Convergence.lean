import Ceramic.LoadedTip
import Ceramic.Library.Tournament

/-! Nodes that learn the same tips of a valid stream in different orders. Each tip
stands for one state, and applying a tip holds the winner of a comparison, so the end
does not depend on the order exactly when one tip wins against all others. -/
namespace Ceramic

open StateManipulator StreamUtils AnchorTimestampExtractor Tournament

/-- The commits from the genesis to a tip. -/
def logOf (store : CommitStore) (tip : Cid) : List CommitData :=
  (LogSyncer.syncLogHelper store tip none).toOption.getD []

/-- What is held behind a divergence point stays when nothing else is there, or when it
wins against what is there. -/
def keepsSuffix (dispatcher : Dispatcher) (localLog remoteLog : List CommitData) : Bool :=
  remoteLog.isEmpty || (!localLog.isEmpty &&
    pickLogToAccept (entries (verifyAnchorAndApplyTimestamps dispatcher localLog))
      (entries (verifyAnchorAndApplyTimestamps dispatcher remoteLog)) = .log1)

/-- The first tip stays when the second one is learned. -/
def keepsPlace (store : CommitStore) (held tip : Cid) : Bool :=
  keepsSuffix store.toDispatcher (behindDivergence (logOf store held) (logOf store tip)).1
    (behindDivergence (logOf store held) (logOf store tip)).2

theorem keepsSuffix_antisymm {dispatcher : Dispatcher} {a b : List CommitData}
    (keeps : keepsSuffix dispatcher a b = true) (keeps' : keepsSuffix dispatcher b a = true) :
    a = [] ∧ b = [] := by
  cases a with
  | nil => simpa [keepsSuffix] using keeps
  | cons x a =>
    cases b with
    | nil => simp [keepsSuffix] at keeps'
    | cons y b =>
      simp only [keepsSuffix, List.isEmpty_cons, Bool.not_false, Bool.true_and, Bool.false_or,
        decide_eq_true_eq] at keeps keeps'
      rw [pickLogToAccept_antisymm keeps] at keeps'
      cases keeps'

theorem keepsPlace_self (store : CommitStore) (tip : Cid) : keepsPlace store tip tip = true := by
  simp [keepsPlace, keepsSuffix, behindDivergence_self]

namespace LoadedTip

variable {env : Environment} {store : CommitStore} {handler : StreamHandler} {g : CommitData}
  {held tip : Cid} {cs ds : List CommitData} {s t : StreamState}

theorem logOf_eq (loaded : LoadedTip env store handler g tip cs s) : logOf store tip = g :: cs := by
  have walked := LogSyncer.walk_complete none (store.height tip + 1) tip (g :: cs) [] (by omega)
    loaded.path loaded.valid.stored rfl
  simp [logOf, LogSyncer.syncLogHelper, walked, Except.toOption]

theorem keepsPlace_genesis (loaded : LoadedTip env store handler g tip cs s)
    (root : LoadedTip env store handler g g.cid [] t) : keepsPlace store tip g.cid = true := by
  simp [keepsPlace, keepsSuffix, loaded.logOf_eq, root.logOf_eq, behindDivergence]

theorem eq_of_keepsPlace (first : LoadedTip env store handler g held cs s)
    (second : LoadedTip env store handler g tip ds t) (keeps : keepsPlace store held tip = true)
    (keeps' : keepsPlace store tip held = true) : held = tip := by
  unfold keepsPlace at keeps keeps'
  rw [behindDivergence_swap, Prod.fst_swap, Prod.snd_swap] at keeps'
  rw [first.logOf_eq, second.logOf_eq] at keeps keeps'
  obtain ⟨noneHeld, noneTip⟩ := keepsSuffix_antisymm keeps keeps'
  obtain ⟨shared, eqHeld, eqTip, _⟩ :=
    behindDivergence_split first.valid.stored second.valid.stored
  rw [noneHeld, List.append_nil] at eqHeld
  rw [noneTip, List.append_nil] at eqTip
  obtain ⟨c, last⟩ : ∃ c, (g :: cs).getLast? = some c := ⟨_, List.getLast?_eq_some_getLast (by simp)⟩
  have tipHeld := path_tip first.path last
  have tipTip := path_tip second.path (eqTip ▸ eqHeld ▸ last)
  exact Option.some.inj (tipHeld.trans tipTip.symm)

/-- Learning a tip: its commits behind the divergence point are fetched and compared
with the local ones there. -/
theorem apply_tip_behind {shared a b : List CommitData}
    (registered : HandlersMap.get env handler.type = .ok handler)
    (first : LoadedTip env store handler g held (shared ++ a) s)
    (second : LoadedTip env store handler g tip (shared ++ b) t)
    (apart : ∀ x y, a.head? = some x → b.head? = some y → x ≠ y) :
    StreamUpdater.applyTipFromNetwork env store s tip =
      .ok (if keepsSuffix store.toDispatcher a b then s else t) := by
  obtain ⟨lawful, _⟩ := HandlersMap.get_lawful registered
  have registeredHeld : HandlersMap.get env s.type = .ok handler := first.type lawful ▸ registered
  obtain ⟨middleTip, front, localPath⟩ := path_split first.path
  obtain ⟨middleTip', front', remotePath⟩ := path_split second.path
  obtain rfl : middleTip = middleTip' := Option.some.inj (path_end front front')
  have storedWhole : Stored store ((g :: shared) ++ b) := second.valid.stored
  have storedRest := (stored_append.mp storedWhole).2
  have fetched : LogSyncer.syncLogUntilMatch store tip (cids s) = .ok b := by
    rw [first.cids_eq lawful]
    refine LogSyncer.syncLogUntilMatch_complete ?_ remotePath storedRest ?_
    · obtain ⟨c, last⟩ : ∃ c, (g :: shared).getLast? = some c :=
        ⟨_, List.getLast?_eq_some_getLast (by simp)⟩
      have member : c ∈ (g :: shared) ++ a := List.mem_append_left _ (List.mem_of_getLast? last)
      rw [Option.some.inj (path_tip front last)]
      exact List.mem_map_of_mem member
    · exact behindDivergence_unknown (g :: shared) first.path first.valid.stored second.path
        second.valid.stored apart
  refine bind_eq_ok.mpr ⟨b, fetched, ?_⟩
  cases b with
  | nil => exact bind_eq_ok.mpr ⟨s, rfl, bind_eq_ok.mpr ⟨(), first.unexpired lawful, rfl⟩⟩
  | cons d b =>
    obtain ⟨middle, appliedFront, appliedRest⟩ := second.valid.in_parts registered second.applied
    have loadedFront : LoadedTip env store handler g middleTip shared middle :=
      ⟨second.valid.front, front, appliedFront⟩
    rw [extracted_cons] at appliedRest
    have applied := applyLogFrom_throwing appliedRest false
    cases a with
    | nil =>
      -- the tip held is the divergence point
      rw [List.append_nil] at first
      obtain rfl : middleTip = held := Option.some.inj (path_end front first.path)
      obtain ⟨_, rfl⟩ := loadedFront.unique first
      have replaced : keepsSuffix store.toDispatcher [] (d :: b) = false := rfl
      rw [replaced, extracted_cons]
      refine applyLogToState_appended registeredHeld ?_ applied (second.unexpired lawful)
      rw [first.tip_eq lawful]
      exact remotePath.1
    | cons c a =>
      have conflict : middleTip ≠ tipFromState s := by
        rw [first.tip_eq lawful]
        exact first.middle_ne_tip front (by simp)
      have picked := pickLogToAccept_congr (first.behind_keys lawful front)
        (rfl : (entries (verifyAnchorAndApplyTimestamps store.toDispatcher (d :: b))).map (·.key) = _)
      rw [extracted_cons] at picked
      have link : (stamped store.toDispatcher d b).commit.prev = some middleTip := remotePath.1
      by_cases keeps : keepsSuffix store.toDispatcher (c :: a) (d :: b) = true
      · rw [if_pos keeps]
        have loses : pickLogToAccept (localConflictingLog s middleTip) (entries
            (stamped store.toDispatcher d b :: verifyAnchorAndApplyTimestamps store.toDispatcher b)) =
            .log1 := by
          rw [picked]
          simpa [keepsSuffix] using keeps
        rw [extracted_cons]
        exact applyLogToState_kept registeredHeld link conflict loses (first.unexpired lawful) false
      · rw [if_neg keeps]
        have wins : pickLogToAccept (localConflictingLog s middleTip) (entries
            (stamped store.toDispatcher d b :: verifyAnchorAndApplyTimestamps store.toDispatcher b)) =
            .log2 := by
          rw [picked]
          cases choice : pickLogToAccept (entries (verifyAnchorAndApplyTimestamps store.toDispatcher
            (c :: a))) (entries (stamped store.toDispatcher d b ::
              verifyAnchorAndApplyTimestamps store.toDispatcher b)) with
          | log1 => simp_all [keepsSuffix]
          | log2 => rfl
        rw [extracted_cons]
        exact applyLogToState_replaced registeredHeld link conflict wins
          (first.reset_eq registered loadedFront) false applied (second.unexpired lawful)

/-- The state of the winner is held. -/
theorem apply_tip (registered : HandlersMap.get env handler.type = .ok handler)
    (first : LoadedTip env store handler g held cs s)
    (second : LoadedTip env store handler g tip ds t) :
    StreamUpdater.applyTipFromNetwork env store s tip =
      .ok (if keepsPlace store held tip then s else t) := by
  obtain ⟨shared, eqHeld, eqTip, apart⟩ :=
    behindDivergence_split first.valid.stored second.valid.stored
  unfold keepsPlace
  rw [first.logOf_eq, second.logOf_eq]
  generalize (behindDivergence (g :: cs) (g :: ds)).1 = a at *
  generalize (behindDivergence (g :: cs) (g :: ds)).2 = b at *
  cases shared with
  | nil => exact absurd rfl (apart g g (by rw [← List.nil_append a, ← eqHeld]; rfl)
      (by rw [← List.nil_append b, ← eqTip]; rfl))
  | cons g' shared =>
    obtain ⟨rfl, rfl⟩ : g = g' ∧ cs = shared ++ a := by simpa using eqHeld
    obtain rfl : ds = shared ++ b := by simpa using eqTip
    exact apply_tip_behind registered first second apart

end LoadedTip

/-- Tips learned one after the other. -/
def applyTips (env : Environment) (store : CommitStore) (state : StreamState) (tips : List Cid) :
    Except JsError StreamState :=
  tips.foldlM (StreamUpdater.applyTipFromNetwork env store) state

/-- Commits of one stream, each tip of which can be loaded. -/
structure CommitTree (env : Environment) (store : CommitStore) (handler : StreamHandler)
    (g : CommitData) (genesis : StreamState) (tips : List Cid) : Prop where
  registered : HandlersMap.get env handler.type = .ok handler
  root : LoadedTip env store handler g g.cid [] genesis
  loaded : ∀ tip ∈ tips, ∃ cs s, LoadedTip env store handler g tip cs s

namespace CommitTree

variable {env : Environment} {store : CommitStore} {handler : StreamHandler} {g : CommitData}
  {genesis : StreamState} {tips : List Cid}

theorem of_mem (tree : CommitTree env store handler g genesis tips) :
    ∀ tip ∈ g.cid :: tips, ∃ cs s, LoadedTip env store handler g tip cs s := by
  intro tip member
  rcases List.mem_cons.mp member with rfl | behind
  · exact ⟨[], genesis, tree.root⟩
  · exact tree.loaded tip behind

/-- Learning tips holds the winners of the comparisons. -/
theorem applyTips_hold (tree : CommitTree env store handler g genesis tips) {held : Cid}
    {cs : List CommitData} {s : StreamState} (first : LoadedTip env store handler g held cs s)
    {learned : List Cid} (inside : ∀ tip ∈ learned, tip ∈ tips) :
    ∃ ds t, applyTips env store s learned = .ok t ∧
      LoadedTip env store handler g (holdAll (keepsPlace store) held learned) ds t := by
  induction learned generalizing held cs s with
  | nil => exact ⟨cs, s, rfl, first⟩
  | cons tip learned ih =>
    obtain ⟨ds, t, second⟩ := tree.loaded tip (inside tip (by simp))
    have step := first.apply_tip tree.registered second
    have rest : ∀ tip ∈ learned, tip ∈ tips := fun tip member =>
      inside tip (List.mem_cons_of_mem _ member)
    by_cases keeps : keepsPlace store held tip = true
    · obtain ⟨es, u, applied, last⟩ := ih first rest
      refine ⟨es, u, bind_eq_ok.mpr ⟨s, ?_, applied⟩, ?_⟩
      · simpa [keeps] using step
      · simpa [holdAll, hold, keeps] using last
    · obtain ⟨es, u, applied, last⟩ := ih second rest
      refine ⟨es, u, bind_eq_ok.mpr ⟨t, ?_, applied⟩, ?_⟩
      · simpa [keeps] using step
      · simpa [holdAll, hold, keeps] using last

theorem keepsPlace_antisymmetric (tree : CommitTree env store handler g genesis tips) :
    Antisymmetric (keepsPlace store) (g.cid :: tips) := by
  intro x memberX y memberY keeps keeps'
  obtain ⟨_, _, loadedX⟩ := tree.of_mem x memberX
  obtain ⟨_, _, loadedY⟩ := tree.of_mem y memberY
  exact loadedX.eq_of_keepsPlace loadedY keeps keeps'

end CommitTree

/-- However often and in whatever order the tips are learned, the logs end up equal. -/
def Converges (env : Environment) (store : CommitStore) (genesis : StreamState) (tips : List Cid) :
    Prop :=
  ∀ xs ys, Covers tips xs → Covers tips ys → ∃ s t,
    applyTips env store genesis xs = .ok s ∧ applyTips env store genesis ys = .ok t ∧ s.log = t.log

/-- The order of the tips does not matter exactly when one of them wins against all. -/
theorem converges_iff {env : Environment} {store : CommitStore} {handler : StreamHandler}
    {g : CommitData} {genesis : StreamState} {tips : List Cid}
    (tree : CommitTree env store handler g genesis tips) :
    Converges env store genesis tips ↔
      ∃ winner ∈ g.cid :: tips, ∀ tip ∈ tips, keepsPlace store winner tip = true := by
  obtain ⟨lawful, _⟩ := HandlersMap.get_lawful tree.registered
  have overRoot : ∀ tip ∈ tips, keepsPlace store tip g.cid = true := by
    intro tip member
    obtain ⟨_, _, loaded⟩ := tree.loaded tip member
    exact loaded.keepsPlace_genesis tree.root
  rw [← holdAll_converges_iff (keepsPlace store) tree.keepsPlace_antisymmetric
    (fun tip _ => keepsPlace_self store tip) overRoot]
  constructor
  · intro converges xs ys coversX coversY
    obtain ⟨s, t, appliedX, appliedY, sameLog⟩ := converges xs ys coversX coversY
    obtain ⟨_, _, appliedX', loadedX⟩ := tree.applyTips_hold tree.root coversX.1
    obtain ⟨_, _, appliedY', loadedY⟩ := tree.applyTips_hold tree.root coversY.1
    obtain rfl := Except.ok.inj (appliedX.symm.trans appliedX')
    obtain rfl := Except.ok.inj (appliedY.symm.trans appliedY')
    rw [← loadedX.tip_eq lawful, ← loadedY.tip_eq lawful, tipFromState, tipFromState, sameLog]
  · intro same xs ys coversX coversY
    obtain ⟨_, s, appliedX, loadedX⟩ := tree.applyTips_hold tree.root coversX.1
    obtain ⟨_, t, appliedY, loadedY⟩ := tree.applyTips_hold tree.root coversY.1
    rw [same xs ys coversX coversY] at loadedX
    exact ⟨s, t, appliedX, appliedY, congrArg StreamState.log (loadedX.unique loadedY).2⟩

namespace BlockStore

/-- Two updates of one Tile, an anchor of each on a chain of its own, and one more update
behind the first anchor. -/
def anchoredTwice : List Block :=
  [⟨⟨[1]⟩, .plain { header := some [("controllers", .arr [.str "did:key:z6Mk"])] }⟩,
   ⟨⟨[2]⟩, .signed ⟨⟨[2, 0]⟩, "", ""⟩⟩,
   ⟨⟨[2, 0]⟩, .plain { id := some ⟨[1]⟩, prev := some ⟨[1]⟩, header := some [] }⟩,
   ⟨⟨[3]⟩, .signed ⟨⟨[3, 0]⟩, "", ""⟩⟩,
   ⟨⟨[3, 0]⟩, .plain { id := some ⟨[1]⟩, prev := some ⟨[1]⟩, header := some [] }⟩,
   ⟨⟨[4]⟩, .plain { id := some ⟨[1]⟩, prev := some ⟨[2]⟩, proof := some ⟨[4, 1]⟩ }⟩,
   ⟨⟨[5]⟩, .plain { id := some ⟨[1]⟩, prev := some ⟨[3]⟩, proof := some ⟨[5, 1]⟩ }⟩,
   ⟨⟨[6]⟩, .signed ⟨⟨[6, 0]⟩, "", ""⟩⟩,
   ⟨⟨[6, 0]⟩, .plain { id := some ⟨[1]⟩, prev := some ⟨[4]⟩, header := some [] }⟩]

def proofOf (cid : Cid) : Option AnchorProof :=
  if cid = ⟨[4, 1]⟩ then some ⟨"eip155:1", ⟨[8]⟩, ⟨[2]⟩, none⟩
  else if cid = ⟨[5, 1]⟩ then some ⟨"eip155:100", ⟨[8]⟩, ⟨[3]⟩, none⟩
  else none

/-- The first anchor's block is at 100, the second one's at the given time. -/
def anchoredAt (second : Nat) : CommitStore :=
  store anchoredTwice proofOf (fun chainId => if chainId = "eip155:1" then some 100 else some second)
    (by decide)

/-- What is left to check of a tip where every signature verifies. -/
def Loadable (store : CommitStore) (handler : StreamHandler) (g : CommitData) (tip : Cid) : Prop :=
  (logOf store tip).head? = some g ∧
  (∀ c ∈ logOf store tip, Utils.getCommitData store.toDispatcher c.cid = .ok c ∧ c.capability = none ∧
    (c.type = .TIME → (verifyAnchorCommit store.toDispatcher c).toOption.isSome)) ∧
  Path none (logOf store tip) (some tip) ∧
  (applyLog handler none (verifyAnchorAndApplyTimestamps store.toDispatcher (logOf store tip))
    true).toOption.isSome

instance : (start tip : Option Cid) → (cs : List CommitData) → Decidable (Path start cs tip)
  | start, tip, [] => inferInstanceAs (Decidable (tip = start))
  | start, tip, c :: cs =>
    have := instDecidablePath (some c.cid) tip cs
    inferInstanceAs (Decidable (c.commit.prev = start ∧ Path (some c.cid) cs tip))

instance (store : CommitStore) (handler : StreamHandler) (g : CommitData) (tip : Cid) :
    Decidable (Loadable store handler g tip) :=
  inferInstanceAs (Decidable (_ ∧ _ ∧ _ ∧ _))

theorem loadedTip_of_loadable {store : CommitStore} {handler : StreamHandler} {g : CommitData}
    {tip : Cid} (loadable : Loadable store handler g tip) :
    ∃ cs s, LoadedTip .permissive store handler g tip cs s := by
  obtain ⟨head, commits, path, applied⟩ := loadable
  obtain ⟨cs, eq⟩ := List.head?_eq_some_iff.mp head
  rw [eq] at commits path applied
  obtain ⟨s, run⟩ := ok_of_isSome applied
  exact ⟨cs, s, ⟨fun c member => (commits c member).1, ⟨tip, path⟩,
    fun c member time => ok_of_isSome ((commits c member).2.2 time),
    fun c member => timeless_permissive (commits c member).2.1⟩, path, run⟩

def genesisCommit : CommitData where
  cid := ⟨[1]⟩
  type := .INIT
  commit := { header := some [("controllers", .arr [.str "did:key:z6Mk"])] }

def tips : List Cid := [⟨[4]⟩, ⟨[5]⟩, ⟨[6]⟩]

theorem genesis_loaded (second : Nat) : LoadedTip .permissive (anchoredAt second)
    (TileDocumentHandler.handler .permissive) genesisCommit genesisCommit.cid [] genesisOnly := by
  have only : ∀ c ∈ [genesisCommit], c = genesisCommit := by simp
  refine ⟨⟨fun c member => ?_, ⟨genesisCommit.cid, rfl, rfl⟩, fun c member time => ?_,
    fun c member => ?_⟩, ⟨rfl, rfl⟩, rfl⟩
  · rw [only c member]
    rfl
  · rw [only c member] at time
    cases time
  · rw [only c member]
    exact timeless_permissive rfl

theorem anchoredAt_tree {second : Nat} (loadable : ∀ tip ∈ tips, Loadable (anchoredAt second)
      (TileDocumentHandler.handler .permissive) genesisCommit tip) :
    CommitTree .permissive (anchoredAt second) (TileDocumentHandler.handler .permissive)
      genesisCommit genesisOnly tips :=
  ⟨rfl, genesis_loaded second, fun tip member => loadedTip_of_loadable (loadable tip member)⟩

theorem converges_iff_anchoredLater : Converges .permissive (anchoredAt 120) genesisOnly tips ↔
    ∃ winner ∈ genesisCommit.cid :: tips, ∀ tip ∈ tips,
      keepsPlace (anchoredAt 120) winner tip = true :=
  converges_iff (anchoredAt_tree (by decide))

/-- Anchored at the same time, the first anchor wins against the second by its CID, and
the second one against the update behind the first. -/
theorem same_time_anchors_diverge :
    CommitTree .permissive (anchoredAt 100) (TileDocumentHandler.handler .permissive)
      genesisCommit genesisOnly tips ∧
    ¬Converges .permissive (anchoredAt 100) genesisOnly tips := by
  refine ⟨anchoredAt_tree (by decide), fun converges => ?_⟩
  obtain ⟨s, t, first, second, same⟩ := converges [⟨[4]⟩, ⟨[5]⟩, ⟨[6]⟩] [⟨[6]⟩, ⟨[5]⟩, ⟨[4]⟩]
    ⟨by decide, by decide⟩ ⟨by decide, by decide⟩
  have endsBehind : (applyTips .permissive (anchoredAt 100) genesisOnly
      [⟨[4]⟩, ⟨[5]⟩, ⟨[6]⟩]).map tipFromState = .ok ⟨[6]⟩ := by decide
  have endsAtAnchor : (applyTips .permissive (anchoredAt 100) genesisOnly
      [⟨[6]⟩, ⟨[5]⟩, ⟨[4]⟩]).map tipFromState = .ok ⟨[4]⟩ := by decide
  have tipFirst : tipFromState s = ⟨[6]⟩ := by simpa [first, Except.map] using endsBehind
  have tipSecond : tipFromState t = ⟨[4]⟩ := by simpa [second, Except.map] using endsAtAnchor
  rw [tipFromState, same] at tipFirst
  rw [tipFromState, tipFirst] at tipSecond
  cases tipSecond

end BlockStore

end Ceramic
