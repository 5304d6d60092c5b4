import Ceramic.RepositoryTurns

/-! Whether a commit that was applied stays in the log of the stream's registered running
state. The lane of the stream keeps its writers apart, so only loads and a running state that
is no longer the registered one can lose it. -/
namespace Ceramic

open StreamUtils

namespace Repository

/-- The tips that `applyCommit` has applied, also where it has not resolved yet. -/
def committed (repository : Repository) : List Cid :=
  repository.resolved ++ repository.operations.filterMap fun operation => operation.stage.applied

/-- A tip with which `applyCommit` has resolved is in the log, unless it has lost. -/
def NoLostUpdate (repository : Repository) : Prop :=
  ∀ c ∈ repository.resolved, c ∈ repository.outcompeted ∨ c ∈ repository.registeredLog

/-- A log has every applied tip that the registered running state still has. -/
def keepsCommitted (repository : Repository) (log : List Cid) : Bool :=
  repository.committed.all fun c => c ∉ repository.registeredLog || c ∈ log

end Repository

namespace Node

variable {stream : StreamID} (node : Node stream)

/-- A load writes only if what it goes by has the commits applied meanwhile, and a commit is
applied to the running state that is registered. -/
def mayWrite (repository : Repository) : RepositoryAction → Bool
  | .proceed index moment _ =>
    match repository.operations[index]? with
    | some operation =>
      match operation.stage with
      | .syncing state snapshot => repository.inmemory ≠ some state || repository.keepsCommitted (cids snapshot)
      | .applying state _ => repository.inmemory = some state
      | stage => (node.basis moment stage).all repository.keepsCommitted
    | none => true
  | _ => true

end Node

section

variable {stream : StreamID} {node : Node stream} {repository : Repository}

structure Safe (node : Node stream) (repository : Repository) : Prop where
  exclusive : ∀ (i j : Nat) (first second : Operation) (lane : Lane),
    repository.operations[i]? = some first → repository.operations[j]? = some second →
    first.lane stream = some lane → second.lane stream = some lane → i = j
  kept : ∀ c ∈ repository.committed, c ∈ repository.outcompeted ∨ c ∈ repository.registeredLog
  /-- What is read in the lane of the stream stays up to date as far as applied commits go. -/
  held : ∀ operation ∈ repository.operations, ∀ state value,
    operation.stage.held = some (state, value) → repository.inmemory = some state →
    ∀ c ∈ repository.committed, c ∈ repository.outcompeted ∨ c ∈ cids value

structure Valid (node : Node stream) (repository : Repository) : Prop where
  sound : Sound node repository
  safe : Safe node repository

theorem boot_safe (stored : Option StreamState) : Safe node (.boot stored) := by
  constructor <;> simp [Repository.boot, Repository.committed]

theorem mem_registeredLog {c : Cid} : c ∈ repository.registeredLog ↔
    ∃ state found, repository.inmemory = some state ∧ repository.heap[state]? = some found ∧
      c ∈ cids found.value := by
  unfold Repository.registeredLog Repository.registered
  cases inmemory : repository.inmemory with
  | none => simp
  | some state => cases at_state : repository.heap[state]? <;> simp [at_state]

@[simp] theorem take_inmemory (index : Nat) (operation : Operation) (turn : Turn) :
    (repository.take index operation turn).inmemory = (repository.write turn.write).inmemory := rfl

@[simp] theorem take_heap (index : Nat) (operation : Operation) (turn : Turn) :
    (repository.take index operation turn).heap = (repository.write turn.write).heap := rfl

theorem mem_outcompeted {index : Nat} {operation : Operation} {turn : Turn} {c : Cid}
    (lost : c ∈ repository.outcompeted ∨ c ∈ turn.outcompeted) (apart : turn.applied ≠ some c) :
    c ∈ (repository.take index operation turn).outcompeted :=
  List.mem_filter.mpr ⟨List.mem_append.mpr lost, by simpa using Ne.symm apart⟩

variable {index moment : Nat} {operation : Operation} {turn : Turn}

/-- A turn applies at most one more commit. -/
theorem committed_take (spec : TurnSpec node repository operation moment turn)
    (at_index : repository.operations[index]? = some operation) {c : Cid}
    (member : c ∈ (repository.take index operation turn).committed) :
    c ∈ repository.committed ∨ turn.applied = some c := by
  have before {c : Cid} (applied : operation.stage.applied = some c) : c ∈ repository.committed :=
    List.mem_append_right _ (List.mem_filterMap.mpr ⟨operation, List.mem_of_getElem? at_index, applied⟩)
  rcases List.mem_append.mp member with resolved | applied
  · rcases List.mem_append.mp resolved with old | new
    · exact .inl (List.mem_append_left _ old)
    · exact (spec.carried c (.inl (Option.mem_toList.mp new))).imp_left before
  · obtain ⟨other, inList, isApplied⟩ := List.mem_filterMap.mp applied
    rcases List.mem_or_eq_of_mem_set inList with old | rfl
    · exact .inl (List.mem_append_right _ (List.mem_filterMap.mpr ⟨other, old, isApplied⟩))
    · exact (spec.carried c (.inr isApplied)).imp_left before

/-- A turn that keeps what the running states have keeps it in the registered one. -/
theorem Keeps.registeredLog (keeps : Keeps repository turn) {c : Cid}
    (member : c ∈ repository.registeredLog) :
    c ∈ (repository.take index operation turn).registeredLog := by
  obtain ⟨state, found, inmemory, at_state, inLog⟩ := mem_registeredLog.mp member
  rw [mem_registeredLog, take_inmemory, take_heap]
  cases keeps with
  | unwritten notNext notRegister =>
    cases written : turn.write with
    | next other value => exact absurd written (notNext other value)
    | register other => exact absurd written (notRegister other)
    | save other value =>
      refine ⟨state, if other = state then found.markAsPinned else found, inmemory, ?_, ?_⟩
      · simp [Repository.write, Repository.save, List.getElem?_modify, at_state]
      · split <;> exact inLog
    | nothing => exact ⟨state, found, inmemory, at_state, inLog⟩
    | markPinnedAndSynced => exact ⟨state, found, inmemory, at_state, inLog⟩
  | grown other value old written at_other grows =>
    rw [written]
    refine ⟨state, if other = state then { found with value } else found, inmemory, ?_, ?_⟩
    · simp [Repository.write, Repository.next, List.getElem?_modify, at_state]
    · split
      next same =>
        subst same
        obtain rfl := Option.some.inj (at_state.symm.trans at_other)
        exact grows c inLog
      next => exact inLog

/-- A value written over another keeps a commit, if it has it where it is registered. -/
theorem registeredLog_next {state : Nat} {value : StreamState} {c : Cid}
    (written : turn.write = .next state value) (member : c ∈ repository.registeredLog)
    (kept : repository.inmemory = some state → c ∈ cids value) :
    c ∈ (repository.take index operation turn).registeredLog := by
  obtain ⟨registered, found, inmemory, at_state, inLog⟩ := mem_registeredLog.mp member
  rw [mem_registeredLog, take_inmemory, take_heap, written]
  refine ⟨registered, if state = registered then { found with value } else found, inmemory, ?_, ?_⟩
  · simp [Repository.write, Repository.next, List.getElem?_modify, at_state]
  · split
    next same => exact kept (by rw [same]; exact inmemory)
    next => exact inLog

theorem registeredLog_register {state : RunningState} {c : Cid}
    (written : turn.write = .register state) (kept : c ∈ cids state.value) :
    c ∈ (repository.take index operation turn).registeredLog := by
  rw [mem_registeredLog, take_inmemory, take_heap, written]
  exact ⟨repository.heap.length, state, rfl, by simp [Repository.write, Repository.registerRunningState], kept⟩

theorem lane_of_held (stream : StreamID) {operation : Operation} {state : Nat} {value : StreamState}
    (holds : operation.stage.held = some (state, value)) :
    operation.lane stream = some (.execution stream.toString) ∧
      state ∈ operation.stage.runningStates := by
  unfold Stage.held at holds
  split at holds
  next other snapshot stage =>
    obtain ⟨rfl, rfl⟩ := Prod.mk.inj (Option.some.inj holds)
    simp [Operation.lane, stage, Stage.runningStates]
  next other tip attempt snapshot stage =>
    obtain ⟨rfl, rfl⟩ := Prod.mk.inj (Option.some.inj holds)
    simp [Operation.lane, stage, Stage.runningStates]
  next => cases holds

/-- Two operations hold different lanes also after one of them took its turn. -/
theorem exclusive_take (safe : Safe node repository)
    (spec : TurnSpec node repository operation moment turn)
    (at_index : repository.operations[index]? = some operation) (i j : Nat)
    (first second : Operation) (lane : Lane)
    (at_i : (repository.operations.set index { operation with stage := turn.stage })[i]? = some first)
    (at_j : (repository.operations.set index { operation with stage := turn.stage })[j]? = some second)
    (holdsFirst : first.lane stream = some lane) (holdsSecond : second.lane stream = some lane) :
    i = j := by
  -- the operation that took the turn against another one
  have moved {k : Nat} {other : Operation} (apart : k ≠ index)
      (at_k : repository.operations[k]? = some other) (holds : other.lane stream = some lane)
      (entered : Operation.lane stream ⟨operation.call, turn.stage⟩ = some lane) : False := by
    rcases spec.lane lane entered with had | free
    · exact apart (safe.exclusive k index other operation lane at_k at_index holds had)
    · have notHeld := List.all_eq_true.mp free other (List.mem_of_getElem? at_k)
      simp [holds] at notHeld
  have old {k : Nat} {other : Operation} (apart : index ≠ k)
      (at_k : (repository.operations.set index { operation with stage := turn.stage })[k]? = some other) :
      repository.operations[k]? = some other := by
    rwa [List.getElem?_set_ne apart] at at_k
  have new {other : Operation}
      (at_k : (repository.operations.set index { operation with stage := turn.stage })[index]? =
        some other) : other = { operation with stage := turn.stage } := by
    rw [List.getElem?_set_self (List.getElem?_eq_some_iff.mp at_index).1] at at_k
    exact (Option.some.inj at_k).symm
  by_cases isFirst : index = i
  · by_cases isSecond : index = j
    · omega
    · subst isFirst
      rw [new at_i] at holdsFirst
      exact (moved (Ne.symm isSecond) (old isSecond at_j) holdsSecond holdsFirst).elim
  · by_cases isSecond : index = j
    · subst isSecond
      rw [new at_j] at holdsSecond
      exact (moved (Ne.symm isFirst) (old isFirst at_i) holdsFirst holdsSecond).elim
    · exact safe.exclusive i j first second lane (old isFirst at_i) (old isSecond at_j) holdsFirst holdsSecond

/-- What is needed of a turn for the registered running state to keep the applied commits. -/
def KeepsRegistered (repository : Repository) (index : Nat) (operation : Operation) (turn : Turn) : Prop :=
  (∀ c ∈ repository.committed, c ∈ repository.registeredLog →
    c ∈ repository.outcompeted ∨ c ∈ turn.outcompeted ∨
      c ∈ (repository.take index operation turn).registeredLog) ∧
  ∀ c, turn.applied = some c → c ∈ (repository.take index operation turn).registeredLog

theorem take_safe (sound : Sound node repository) (safe : Safe node repository)
    (spec : TurnSpec node repository operation moment turn)
    (at_index : repository.operations[index]? = some operation)
    (keeps : KeepsRegistered repository index operation turn) :
    Safe node (repository.take index operation turn) := by
  have still {c : Cid} (member : c ∈ repository.committed) :
      c ∈ repository.outcompeted ∨ c ∈ turn.outcompeted ∨
        c ∈ (repository.take index operation turn).registeredLog := by
    rcases safe.kept c member with lost | inLog
    · exact .inl lost
    · exact keeps.1 c member inLog
  constructor
  · exact exclusive_take safe spec at_index
  · intro c member
    by_cases applied : turn.applied = some c
    · exact .inr (keeps.2 c applied)
    · have old := (committed_take spec at_index member).resolve_right applied
      rcases still old with lost | lost | inLog
      · exact .inl (mem_outcompeted (.inl lost) applied)
      · exact .inl (mem_outcompeted (.inr lost) applied)
      · exact .inr inLog
  · intro other inList state value holds registered c member
    obtain ⟨k, at_k⟩ := List.mem_iff_getElem?.mp inList
    change (repository.operations.set index { operation with stage := turn.stage })[k]? = some other at at_k
    by_cases isTurn : index = k
    · -- the value has just been read
      subst isTurn
      rw [List.getElem?_set_self (List.getElem?_eq_some_iff.mp at_index).1] at at_k
      obtain rfl := Option.some.inj at_k
      obtain ⟨unwritten, unapplied, found, at_state, rfl⟩ := spec.held state value holds
      have old := (committed_take spec at_index member).resolve_right (by simp [unapplied])
      rw [take_inmemory, unwritten] at registered
      rcases safe.kept c old with lost | inLog
      · exact .inl (mem_outcompeted (.inl lost) (by simp [unapplied]))
      · obtain ⟨state', found', inmemory, at_state', inLog⟩ := mem_registeredLog.mp inLog
        obtain rfl := Option.some.inj (registered.symm.trans inmemory)
        obtain rfl := Option.some.inj (at_state.symm.trans at_state')
        exact .inr inLog
    · rw [List.getElem?_set_ne isTurn] at at_k
      have before := List.mem_of_getElem? at_k
      obtain ⟨lane, inHand⟩ := lane_of_held stream holds
      have unapplied : turn.applied ≠ some c := by
        intro applied
        obtain ⟨other', snapshot, _, stage, _⟩ := spec.applied c applied
        have holds' : operation.stage.held = some (other', snapshot) := by rw [stage]; rfl
        exact isTurn (safe.exclusive index k operation other _ at_index at_k (lane_of_held stream holds').1 lane)
      have old := (committed_take spec at_index member).resolve_right unapplied
      have sameMemory : repository.inmemory = some state := by
        cases written : turn.write with
        | register new =>
          rw [take_inmemory, written] at registered
          have within := sound.runningStates other before state inHand
          obtain rfl := Option.some.inj registered
          omega
        | _ =>
          rw [take_inmemory, written] at registered
          exact registered
      exact (safe.held other before state value holds sameMemory c old).imp_left
        fun lost => mem_outcompeted (.inl lost) unapplied

/-- Without a write that could lose a commit, nothing is lost. -/
theorem keepsRegistered_of_keeps (keeps : Keeps repository turn) (unapplied : turn.applied = none) :
    KeepsRegistered repository index operation turn :=
  ⟨fun _ _ inLog => .inr (.inr (keeps.registeredLog inLog)), by simp [unapplied]⟩

theorem keepsCommitted_iff {log : List Cid} : repository.keepsCommitted log = true ↔
    ∀ c ∈ repository.committed, c ∈ repository.registeredLog → c ∈ log := by
  simp [Repository.keepsCommitted, ← imp_iff_not_or]

/-- The condition on a step is what its turn needs. -/
theorem keepsRegistered_of_mayWrite {tips : List TipResponse} (safe : Safe node repository)
    (spec : TurnSpec node repository operation moment turn)
    (at_index : repository.operations[index]? = some operation)
    (may : node.mayWrite repository (.proceed index moment tips) = true) :
    KeepsRegistered repository index operation turn := by
  unfold Node.mayWrite at may
  simp only [at_index] at may
  constructor
  · intro c member inLog
    cases spec.origin with
    | current keeps => exact .inr (.inr (keeps.registeredLog inLog))
    | snapshot state snapshot value written read kept =>
      -- what was read had the commit, if the state is the registered one
      have had : repository.inmemory = some state →
          c ∈ repository.outcompeted ∨ c ∈ cids snapshot := by
        intro inmemory
        rcases read with stage | held
        · rw [stage] at may
          have keeps : repository.keepsCommitted (cids snapshot) = true := by simpa [inmemory] using may
          exact .inr (keepsCommitted_iff.mp keeps c member inLog)
        · exact safe.held operation (List.mem_of_getElem? at_index) state snapshot held inmemory c member
      by_cases inmemory : repository.inmemory = some state
      · rcases had inmemory with lost | inSnapshot
        · exact .inl lost
        · rcases kept c inSnapshot with inValue | lost
          · exact .inr (.inr (registeredLog_next written inLog fun _ => inValue))
          · exact .inr (.inl lost)
      · exact .inr (.inr (registeredLog_next written inLog fun same => absurd same inmemory))
    | registered state log written basis kept =>
      have keeps : repository.keepsCommitted log = true := by
        split at may
        next stage => simp [stage, Node.basis] at basis
        next stage => simp [stage, Node.basis] at basis
        next => simpa [basis] using may
      rcases kept c (keepsCommitted_iff.mp keeps c member inLog) with inValue | lost
      · exact .inr (.inr (registeredLog_register written inValue))
      · exact .inr (.inl lost)
  · intro c applied
    obtain ⟨state, snapshot, found, stage, sameMemory, at_state, inLog⟩ := spec.applied c applied
    rw [stage] at may
    have registered : repository.inmemory = some state := by simpa using may
    rw [mem_registeredLog, take_inmemory, take_heap, sameMemory]
    exact ⟨state, found, registered, at_state, inLog⟩

/-- A call begins without anything in hand. -/
theorem call_safe {call : Call} {stage : Stage} (safe : Safe node repository)
    (started : node.start repository call = some stage) :
    Safe node { repository with operations := repository.operations ++ [⟨call, stage⟩] } := by
  have idle : Operation.lane stream ⟨call, stage⟩ = none ∧ stage.applied = none ∧ stage.held = none := by
    cases call with
    | loadAtCommit commitId sync =>
      unfold Node.start at started
      dsimp only at started
      split at started
      · obtain rfl := Option.some.inj started
        exact ⟨rfl, rfl, rfl⟩
      · cases started
    | handleAnchorEvent state event =>
      unfold Node.start at started
      dsimp only at started
      split at started
      · obtain rfl := Option.some.inj started
        exact ⟨rfl, rfl, rfl⟩
      · cases started
    | _ =>
      obtain rfl := Option.some.inj started
      exact ⟨rfl, rfl, rfl⟩
  obtain ⟨lane, applied, held⟩ := idle
  have same : Repository.committed { repository with operations := repository.operations ++ [⟨call, stage⟩] } =
      repository.committed := by
    simp [Repository.committed, List.filterMap_append, applied]
  have old {k : Nat} {operation : Operation} {held : Lane}
      (at_k : (repository.operations ++ [⟨call, stage⟩])[k]? = some operation)
      (holds : operation.lane stream = some held) : repository.operations[k]? = some operation := by
    rw [List.getElem?_append] at at_k
    split at at_k
    · exact at_k
    · obtain rfl := List.mem_singleton.mp (List.mem_of_getElem? at_k)
      rw [lane] at holds
      cases holds
  constructor
  · intro i j first second held at_i at_j holdsFirst holdsSecond
    exact safe.exclusive i j first second held (old at_i holdsFirst) (old at_j holdsSecond)
      holdsFirst holdsSecond
  · rw [same]
    exact safe.kept
  · intro operation member state value holds registered
    rw [same]
    rcases List.mem_append.mp member with before | isNew
    · exact safe.held operation before state value holds registered
    · obtain rfl := List.mem_singleton.mp isNew
      rw [held] at holds
      cases holds

theorem step_safe {action : RepositoryAction} {repository' : Repository} (sound : Sound node repository)
    (safe : Safe node repository) (may : node.mayWrite repository action = true)
    (stepped : repository.step node action = some repository') : Safe node repository' := by
  cases step_cases sound stepped with
  | called call stage started => exact call_safe safe started
  | proceeded index moment tips operation turn at_index spec =>
    exact take_safe sound safe spec at_index (keepsRegistered_of_mayWrite safe spec at_index may)
  | failed index operation turn at_index spec unapplied keeps =>
    exact take_safe sound safe spec at_index (keepsRegistered_of_keeps keeps unapplied)

/-- As long as what a load writes goes by the commits applied meanwhile, and commits are applied
to the registered running state, no commit is lost but to a conflicting log. -/
theorem no_lost_update {booted reached : Repository} (boot : Booted node booted)
    (run : Transition.Reaches (Repository.step node) (fun s a => node.mayWrite s a = true) booted reached) :
    reached.NoLostUpdate := by
  have initial : Valid node booted := by
    refine ⟨boot.sound, ?_⟩
    cases boot with
    | first => exact boot_safe none
    | again _ _ => exact boot_safe _
  have valid : Valid node reached := run.invariant initial fun s a s' valid may stepped =>
    ⟨step_sound valid.sound stepped, step_safe valid.sound valid.safe may stepped⟩
  exact fun c resolved => valid.safe.kept c (List.mem_append_left _ resolved)

end

namespace BlockStore

/-- A Tile and an update of it. -/
def tileUpdate : List Block :=
  [⟨⟨[1]⟩, .plain { header := some [("controllers", .arr [.str "did:key:z6Mk"])] }⟩,
   ⟨⟨[2]⟩, .signed ⟨⟨[2, 0]⟩, "", ""⟩⟩, ⟨⟨[2, 0]⟩, update ⟨[1]⟩ ⟨[1]⟩⟩]

def tileStore : CommitStore :=
  store tileUpdate (fun _ => none) (fun _ => none) (by decide)

def tile : StreamID := ⟨TILE_TYPE_ID, ⟨[1]⟩⟩

def tileNetwork : Network tile where
  world := fun _ => ⟨.permissive, tileStore⟩
  sameCommit := fun _ _ _ _ _ read read' => by rw [Except.ok.inj (read.symm.trans read')]
  genesis := fun _ c read => by
    have read : Utils.getCommitData (dispatcher tileUpdate (fun _ => none) (fun _ => none)) ⟨[1]⟩ =
      .ok c := read
    obtain ⟨block, member, same, eq⟩ := getCommitData_payload read
    have all : ∀ block ∈ tileUpdate, block.cid = ⟨[1]⟩ →
        (payload tileUpdate block.stored).prev = none := by decide
    rw [eq, all block member same]

def tileNode : Node tile := ⟨tileNetwork, fun _ => false⟩

/-- The operation takes its next turns without finding a tip. -/
def turns (index count : Nat) : List RepositoryAction :=
  List.replicate count (.proceed index 0 [])

/-- A resync begins once the update has been applied. -/
def resyncAfterUpdate : List RepositoryAction :=
  [.call (.applyCommit ⟨[2]⟩)] ++ turns 0 14 ++ [.call (.load .SYNC_ALWAYS)] ++ turns 1 2

/-- A resync begins before the update is applied, and ends after that. -/
def resyncDuringUpdate : List RepositoryAction :=
  [.call (.applyCommit ⟨[2]⟩)] ++ turns 0 9 ++ [.call (.load .SYNC_ALWAYS)] ++ turns 1 1 ++
    turns 0 5 ++ turns 1 1

def afterTurns (actions : List RepositoryAction) : Repository :=
  (Transition.run (Repository.step tileNode) (.boot none) actions).getD (.boot none)

theorem no_lost_update_resyncAfterUpdate : (afterTurns resyncAfterUpdate).NoLostUpdate :=
  no_lost_update (.first : Booted tileNode (.boot none)) (Transition.reaches_of_run
    (rfl : Transition.run (Repository.step tileNode) (.boot none) resyncAfterUpdate =
      some (afterTurns resyncAfterUpdate)) (by decide))

/-- The resync registers what the tip it had read before leads to. -/
theorem resync_loses_update : ¬∀ repository : Repository,
    Transition.Reaches (Repository.step tileNode) (fun _ _ => True) (.boot none) repository →
      repository.NoLostUpdate := by
  intro kept
  have ran : Transition.run (Repository.step tileNode) (.boot none) resyncDuringUpdate =
      some (afterTurns resyncDuringUpdate) := rfl
  have lost := kept _ (Transition.reaches_of_run ran (by decide)) ⟨[2]⟩ (by decide)
  revert lost
  decide

end BlockStore

end Ceramic
