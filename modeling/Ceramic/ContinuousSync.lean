import Ceramic.SyncApi

/-! What lies behind the number of the last processed block. The subscription starts before the
catch-up job is added, and the handlers of the blocks run beside each other, so the number can
come past blocks that no job covers, and can go back. -/
namespace Ceramic

namespace SyncApi

/-- A job has been enqueued for the block. -/
def Covered (jobs : List SyncJobData) (b : Int) : Prop :=
  ∃ job ∈ jobs, job.fromBlock ≤ b ∧ b ≤ job.toBlock

/-- No block with anchors is lost behind the cursor. -/
def Behind (config : SyncConfig) (sync : SyncApi) : Prop :=
  ∀ n, sync.state.processedBlockNumber = some n →
    ∀ b, config.defaultStartBlock ≤ b → b ≤ n → config.anchored b → Covered sync.jobs b

/-- The first block of the listener comes right after the block that the session started at, or
the job for it covers what is in between. -/
def NoGap (config : SyncConfig) (sync : SyncApi) (session : SyncSession) (block : Block) : Prop :=
  session.previous = none →
    ∀ b ∈ blocksAfter session.startBlock.number
        ((blockJob config.modelsToSync block (session.reorganized block)).fromBlock - 1),
      config.anchored b → ∃ done ∈ sync.state.processedBlockNumber, b ≤ done

/-- All that is behind a block has been enqueued when its number is stored. -/
structure InTurn (sync : SyncApi) (session : SyncSession) (block : Block) : Prop where
  caughtUp : session.catchUp = .done
  forward : ∀ done ∈ sync.state.processedBlockNumber, done ≤ block.number
  handled : ∀ other ∈ session.handlers, other.stage = .adding → block.number < other.block.number
  loaded : ∀ n ∈ session.loaded, block.number < n

instance (sync : SyncApi) (session : SyncSession) (block : Block) :
    Decidable (InTurn sync session block) :=
  decidable_of_iff (session.catchUp = .done ∧
      (∀ done ∈ sync.state.processedBlockNumber, done ≤ block.number) ∧
      (∀ other ∈ session.handlers, other.stage = .adding → block.number < other.block.number) ∧
      ∀ n ∈ session.loaded, block.number < n)
    ⟨fun ⟨caughtUp, forward, handled, loaded⟩ => ⟨caughtUp, forward, handled, loaded⟩,
      fun turn => ⟨turn.caughtUp, turn.forward, turn.handled, turn.loaded⟩⟩

/-- No handler of a later block than those that are dropped runs on. -/
def Ahead (dropped : List Int) (handlers : List BlockHandler) : Prop :=
  ∀ n ∈ dropped, ∀ other ∈ handlers, other.block.number < n

/-- The blocks whose jobs are lost when a handler fails. -/
def lost (handler : BlockHandler) : List Int :=
  if handler.stage = .adding then [handler.block.number] else []

/-- The cursor is stored in the order of the blocks, and nothing that failed is passed. -/
def InOrder (config : SyncConfig) (sync : SyncApi) (action : SyncAction) : Prop :=
  ∀ session ∈ sync.session,
    match action with
    | .emit hash parentHash => ∀ n ∈ session.loaded.head?, NoGap config sync session ⟨n, hash, parentHash⟩
    | .updated i => ∀ handler ∈ session.handlers[i]?, InTurn sync session handler.block
    | .failed i => ∀ handler ∈ session.handlers[i]?,
        Ahead (lost handler ++ session.loaded) (session.handlers.eraseIdx i)
    | .listenerFailed => Ahead session.loaded session.handlers
    | _ => True

/-- A job for the block is still to come: the block is loaded, or it is in the range of a handler
that adds its job. The handler of the first block covers what is before that block. -/
inductive ToCome (loaded : List Int) (handlers : List BlockHandler) (b : Int) : Prop where
  | loaded : b ∈ loaded → ToCome loaded handlers b
  | own (handler : BlockHandler) : handler ∈ handlers → handler.stage = .adding →
      b = handler.block.number → ToCome loaded handlers b
  | first (handler : BlockHandler) : handler ∈ handlers → handler.stage = .adding →
      handler.job.fromBlock ≤ b → b ≤ handler.block.number →
      (∀ other ∈ handlers, handler.block.number ≤ other.block.number) →
      (∀ n ∈ loaded, handler.block.number ≤ n) → ToCome loaded handlers b

/-- The session answers for the block: one of its handlers can store a number as high, or will. -/
def AnswersFor (session : SyncSession) (b : Int) : Prop :=
  (∃ handler ∈ session.handlers, b ≤ handler.block.number) ∨
    session.subscribed = true ∧ session.previous ≠ none ∧ ∃ top ∈ session.highest, b ≤ top

/-- What a session keeps. -/
structure Live (config : SyncConfig) (enqueued : List SyncJobData) (session : SyncSession) : Prop where
  opened : session.loaded ≠ [] → session.subscribed = true
  unheard : session.highest = none → session.previous = none
  heard : session.previous = none → session.subscribed = true → session.loaded = [] →
    session.highest = none
  adding : ∀ job, session.catchUp = .adding job → job.models = config.modelsToSync ∧
    job.toBlock = session.startBlock.number ∧
      ∀ b, config.defaultStartBlock ≤ b → b < job.fromBlock → config.anchored b → Covered enqueued b
  done : session.catchUp = .done → ∀ b, config.defaultStartBlock ≤ b →
    b ≤ session.startBlock.number → config.anchored b → Covered enqueued b
  jobs : ∀ handler ∈ session.handlers, handler.job.models = config.modelsToSync ∧
    handler.job.fromBlock ≤ handler.block.number ∧ handler.job.toBlock = handler.block.number
  updating : ∀ handler ∈ session.handlers, handler.stage = .updating →
    ∀ b, handler.job.fromBlock ≤ b → b ≤ handler.block.number → Covered enqueued b
  reached : ∀ handler ∈ session.handlers, ∃ top ∈ session.highest, handler.block.number ≤ top
  loaded : ∀ n ∈ session.loaded, ∃ top ∈ session.highest, n ≤ top
  unhandled : session.previous = none → session.handlers = []
  waiting : session.previous = none → ∀ first ∈ session.loaded.head?,
    (∀ n ∈ session.loaded, first ≤ n) ∧
      ∀ top ∈ session.highest, ∀ b, first ≤ b → b ≤ top → config.anchored b → b ∈ session.loaded
  answered : ∀ b, config.defaultStartBlock ≤ b → config.anchored b → session.startBlock.number < b →
    AnswersFor session b → Covered enqueued b ∨ ToCome session.loaded session.handlers b

theorem Covered.mono {jobs jobs' : List SyncJobData} {b : Int} (sublist : jobs ⊆ jobs')
    (covered : Covered jobs b) : Covered jobs' b := by
  obtain ⟨job, member, range⟩ := covered
  exact ⟨job, sublist member, range⟩

theorem addSyncJob_of_models {jobs : List SyncJobData} {job : SyncJobData} (models : job.models ≠ []) :
    _addSyncJob jobs job = jobs ++ [job] := if_neg models

theorem blockJob_spec (models : List String) (block : Block) (reorganized : Bool) :
    (blockJob models block reorganized).models = models ∧
      (blockJob models block reorganized).fromBlock ≤ block.number ∧
      (blockJob models block reorganized).toBlock = block.number := by
  unfold blockJob
  cases reorganized with
  | true => exact ⟨rfl, Int.sub_le_self _ (by decide), rfl⟩
  | false => exact ⟨rfl, le_refl _, rfl⟩

theorem Live.mono {config : SyncConfig} {jobs jobs' : List SyncJobData} {session : SyncSession}
    (live : Live config jobs session) (sublist : jobs ⊆ jobs') : Live config jobs' session where
  opened := live.opened
  unheard := live.unheard
  heard := live.heard
  adding job added := by
    obtain ⟨models, upTo, before⟩ := live.adding job added
    exact ⟨models, upTo, fun b low high anchor => (before b low high anchor).mono sublist⟩
  done caughtUp b low high anchor := (live.done caughtUp b low high anchor).mono sublist
  jobs := live.jobs
  updating handler member stage b low high := (live.updating handler member stage b low high).mono sublist
  reached := live.reached
  loaded := live.loaded
  unhandled := live.unhandled
  waiting := live.waiting
  answered b low anchor after answers := by
    rcases live.answered b low anchor after answers with covered | toCome
    · exact .inl (covered.mono sublist)
    · exact .inr toCome

/-- A node that starts knows what is behind the stored number. -/
theorem Behind.live {config : SyncConfig} {sync : SyncApi} (behind : Behind config sync)
    (latestBlock : Block) : ∀ session ∈ (sync.init config latestBlock).session,
      Live config sync.jobs session := by
  rintro _ ⟨⟩
  refine ⟨fun _ => rfl, fun _ => rfl, fun _ _ _ => rfl, ?_, ?_, ?_, ?_, ?_, ?_, fun _ => rfl, ?_, ?_⟩
  · intro job adding
    unfold catchUpJob at adding
    dsimp only at adding
    split at adding
    next =>
      cases adding
      exact ⟨rfl, rfl, fun b low high => absurd low (not_le.mpr high)⟩
    next done stored =>
      split at adding
      next =>
        cases adding
        exact ⟨rfl, rfl, fun b low high anchor => behind done stored b low high.le anchor⟩
      next => cases adding
  · intro finished b low high anchor
    unfold catchUpJob at finished
    dsimp only at finished
    split at finished
    next => cases finished
    next done stored =>
      split at finished
      next => cases finished
      next notBehind => exact behind done stored b low (high.trans (not_lt.mp notBehind)) anchor
  · rintro _ ⟨⟩
  · rintro _ ⟨⟩
  · rintro _ ⟨⟩
  · rintro _ ⟨⟩
  · rintro - _ first
    cases first
  · rintro b - - - (⟨_, ⟨⟩, _⟩ | ⟨_, again, _⟩)
    exact absurd rfl again

section

variable {config : SyncConfig} {jobs : List SyncJobData} {session : SyncSession}
  (live : Live config jobs session)

include live

theorem Live.catchUpAdded {job : SyncJobData} (adding : session.catchUp = .adding job)
    (models : config.modelsToSync ≠ []) :
    Live config (_addSyncJob jobs job) { session with catchUp := .done } := by
  obtain ⟨ofModels, upTo, before⟩ := live.adding job adding
  rw [addSyncJob_of_models (ofModels ▸ models)]
  have more := live.mono (List.subset_append_left jobs [job])
  refine ⟨more.opened, more.unheard, more.heard, ?_, ?_, more.jobs, more.updating, more.reached,
    more.loaded, more.unhandled, more.waiting, more.answered⟩
  · rintro _ ⟨⟩
  · intro _ b low high anchor
    by_cases early : b < job.fromBlock
    · exact (before b low early anchor).mono (List.subset_append_left jobs [job])
    · exact ⟨job, List.mem_append_right _ (List.mem_singleton_self _), not_lt.mp early, upTo ▸ high⟩

theorem Live.catchUpFailed : Live config jobs { session with catchUp := .failed } := by
  refine ⟨live.opened, live.unheard, live.heard, ?_, ?_, live.jobs, live.updating, live.reached,
    live.loaded, live.unhandled, live.waiting, live.answered⟩
  · rintro _ ⟨⟩
  · rintro ⟨⟩

theorem Live.block (subscribed : session.subscribed = true) (blockNumber : Int) :
    Live config jobs { session with
      highest := (createContinuousBlocksListener session.highest blockNumber).2
      loaded := session.loaded ++ createBlockProofsLoaderForRange config.anchored
        (createContinuousBlocksListener session.highest blockNumber).1 } := by
  cases heard : session.highest with
  | none =>
    -- the first block is loaded alone
    have previous := live.unheard heard
    have none : session.loaded = [] := by
      refine List.eq_nil_iff_forall_not_mem.mpr fun n member => ?_
      obtain ⟨top, high, _⟩ := live.loaded n member
      rw [heard] at high
      cases high
    have handlers := live.unhandled previous
    have single : createBlockProofsLoaderForRange config.anchored [blockNumber] = [blockNumber] := by
      simp [createBlockProofsLoaderForRange]
    dsimp only [createContinuousBlocksListener]
    rw [none, single, List.nil_append]
    refine ⟨fun _ => subscribed, nofun, fun _ _ empty => (List.cons_ne_nil _ _ empty).elim,
      live.adding, live.done, live.jobs, live.updating, ?_, ?_, live.unhandled, ?_, ?_⟩
    · intro handler member
      rw [handlers] at member
      cases member
    · intro n member
      exact ⟨blockNumber, rfl, (List.mem_singleton.mp member).le⟩
    · rintro - _ ⟨⟩
      refine ⟨fun n member => (List.mem_singleton.mp member).ge, ?_⟩
      rintro _ ⟨⟩ b low high -
      exact List.mem_singleton.mpr (le_antisymm high low)
    · rintro b - - - (⟨handler, member, _⟩ | ⟨_, again, _⟩)
      · rw [handlers] at member
        cases member
      · exact absurd previous again
  | some top =>
    dsimp only [createContinuousBlocksListener]
    by_cases old : blockNumber ≤ top
    · rw [if_pos old]
      have nothing : createBlockProofsLoaderForRange config.anchored [] = [] := rfl
      dsimp only
      rw [nothing, List.append_nil, ← heard]
      exact live
    · rw [if_neg old]
      dsimp only
      have new : ∀ n ∈ createBlockProofsLoaderForRange config.anchored (blocksAfter top blockNumber),
          top < n ∧ n ≤ blockNumber :=
        fun n member => mem_blocksAfter.mp (mem_of_mem_loaded member)
      have all : ∀ b, top < b → b ≤ blockNumber → config.anchored b →
          b ∈ createBlockProofsLoaderForRange config.anchored (blocksAfter top blockNumber) :=
        fun b low high anchor => mem_loaded_of_anchored (mem_blocksAfter.mpr ⟨low, high⟩) anchor
      have upToTop : ∀ n ∈ session.loaded, n ≤ top := by
        intro n member
        obtain ⟨_, high, le⟩ := live.loaded n member
        rw [heard] at high
        exact Option.some.inj high ▸ le
      have handledToTop : ∀ handler ∈ session.handlers, handler.block.number ≤ top := by
        intro handler member
        obtain ⟨_, high, le⟩ := live.reached handler member
        rw [heard] at high
        exact Option.some.inj high ▸ le
      have higher : top < blockNumber := not_le.mp old
      refine ⟨fun _ => subscribed, nofun, ?_, live.adding, live.done, live.jobs,
        live.updating, ?_, ?_, live.unhandled, ?_, ?_⟩
      · intro previous _ empty
        have never := live.heard previous subscribed (List.append_eq_nil_iff.mp empty).1
        rw [heard] at never
        cases never
      · exact fun handler member => ⟨blockNumber, rfl, (handledToTop handler member).trans higher.le⟩
      · intro n member
        rcases List.mem_append.mp member with before | after
        · exact ⟨blockNumber, rfl, (upToTop n before).trans higher.le⟩
        · exact ⟨blockNumber, rfl, (new n after).2⟩
      · intro previous first head
        cases loaded : session.loaded with
        | nil =>
          have never := live.heard previous subscribed loaded
          rw [heard] at never
          cases never
        | cons front rest =>
          rw [loaded] at head
          obtain rfl := Option.some.inj head
          obtain ⟨least, kept⟩ := live.waiting previous front (by rw [loaded]; rfl)
          have frontLow := upToTop front (by rw [loaded]; exact List.mem_cons_self)
          rw [← loaded]
          refine ⟨fun n member => ?_, ?_⟩
          · rcases List.mem_append.mp member with before | after
            · exact least n before
            · exact frontLow.trans (new n after).1.le
          · rintro _ ⟨⟩ b low high anchor
            by_cases before : b ≤ top
            · exact List.mem_append_left _ (kept top heard b low before anchor)
            · exact List.mem_append_right _ (all b (not_le.mp before) high anchor)
      · intro b low anchor after answers
        by_cases beyond : top < b ∧ b ≤ blockNumber
        · exact .inr (.loaded (List.mem_append_right _ (all b beyond.1 beyond.2 anchor)))
        · have before : AnswersFor session b := by
            rcases answers with handled | ⟨_, handling, _, ⟨⟩, le⟩
            · exact .inl handled
            · exact .inr ⟨subscribed, handling, top, heard, by omega⟩
          rcases live.answered b low anchor after before with covered | toCome
          · exact .inl covered
          · refine .inr ?_
            cases toCome with
            | loaded member => exact .loaded (List.mem_append_left _ member)
            | own handler member stage self => exact .own handler member stage self
            | first handler member stage low high others rest =>
              refine .first handler member stage low high others fun n inLoaded => ?_
              rcases List.mem_append.mp inLoaded with before | after
              · exact rest n before
              · exact (handledToTop handler member).trans (new n after).1.le

theorem Live.emit {number : Int} {rest : List Int} (loaded : session.loaded = number :: rest)
    {block : Block} (self : block.number = number) {job : SyncJobData}
    (ofBlock : job.models = config.modelsToSync ∧ job.fromBlock ≤ block.number ∧
      job.toBlock = block.number)
    (noGap : session.previous = none → ∀ b, config.defaultStartBlock ≤ b →
      session.startBlock.number < b → b < job.fromBlock → config.anchored b → Covered jobs b) :
    Live config jobs { session with
      loaded := rest
      previous := some block
      handlers := session.handlers ++ [⟨block, job, .adding⟩] } := by
  have subscribed := live.opened (loaded ▸ List.cons_ne_nil number rest)
  obtain ⟨top, heard, high⟩ := live.loaded number (loaded ▸ List.mem_cons_self)
  have inRest : ∀ n ∈ rest, n ∈ session.loaded := fun n member => loaded ▸ List.mem_cons_of_mem _ member
  have new : (⟨block, job, .adding⟩ : BlockHandler) ∈
      session.handlers ++ [(⟨block, job, .adding⟩ : BlockHandler)] :=
    List.mem_append_right _ (List.mem_singleton_self _)
  refine ⟨fun _ => subscribed, fun never => ?_, nofun, live.adding, live.done, ?_, ?_, ?_,
    fun n member => live.loaded n (inRest n member), nofun, nofun, ?_⟩
  · rw [show session.highest = some top from heard] at never
    cases never
  · intro handler member
    rcases List.mem_append.mp member with before | added
    · exact live.jobs handler before
    · rw [List.mem_singleton.mp added]
      exact ofBlock
  · intro handler member stage
    rcases List.mem_append.mp member with before | added
    · exact live.updating handler before stage
    · rw [List.mem_singleton.mp added] at stage
      cases stage
  · intro handler member
    rcases List.mem_append.mp member with before | added
    · exact live.reached handler before
    · rw [List.mem_singleton.mp added]
      exact ⟨top, heard, self ▸ high⟩
  · intro b low anchor after answers
    have upToTop : (∃ handler ∈ session.handlers, b ≤ handler.block.number) ∨ b ≤ top := by
      rcases answers with ⟨handler, member, le⟩ | ⟨_, _, other, same, le⟩
      · rcases List.mem_append.mp member with before | added
        · exact .inl ⟨handler, before, le⟩
        · rw [List.mem_singleton.mp added] at le
          exact .inr (le.trans (self ▸ high))
      · exact .inr (Option.some.inj (same.symm.trans heard) ▸ le)
    by_cases initial : session.previous = none
    · have handlers := live.unhandled initial
      obtain ⟨least, kept⟩ := live.waiting initial number (by rw [loaded]; rfl)
      have le : b ≤ top := by
        rcases upToTop with ⟨handler, member, _⟩ | le
        · rw [handlers] at member
          cases member
        · exact le
      by_cases gap : b < job.fromBlock
      · exact .inl (noGap initial b low after gap anchor)
      · refine .inr ?_
        by_cases upTo : b ≤ number
        · refine .first _ new rfl (not_lt.mp gap) (self ▸ upTo) ?_ fun n member => ?_
          · rw [handlers]
            exact fun other member => (List.mem_singleton.mp member) ▸ le_refl _
          · exact self ▸ least n (inRest n member)
        · have member := kept top heard b (not_le.mp upTo).le le anchor
          rw [loaded] at member
          rcases List.mem_cons.mp member with first | inTail
          · exact absurd first.le upTo
          · exact .loaded inTail
    · have before : AnswersFor session b := by
        rcases upToTop with handled | le
        · exact .inl handled
        · exact .inr ⟨subscribed, initial, top, heard, le⟩
      rcases live.answered b low anchor after before with covered | toCome
      · exact .inl covered
      · refine .inr ?_
        cases toCome with
        | loaded member =>
          rw [loaded] at member
          rcases List.mem_cons.mp member with first | inTail
          · exact .own _ new rfl (first.trans self.symm)
          · exact .loaded inTail
        | own handler member stage same => exact .own handler (List.mem_append_left _ member) stage same
        | first handler member stage low high others least =>
          refine .first handler (List.mem_append_left _ member) stage low high ?_
            fun n inTail => least n (inRest n inTail)
          intro other inHandlers
          rcases List.mem_append.mp inHandlers with old | added
          · exact others other old
          · rw [List.mem_singleton.mp added]
            exact self ▸ least number (loaded ▸ List.mem_cons_self)

theorem Live.added {i : Nat} {block : Block} {job : SyncJobData}
    (here : session.handlers[i]? = some ⟨block, job, .adding⟩) (models : config.modelsToSync ≠ []) :
    Live config (_addSyncJob jobs job) { session with
      handlers := session.handlers.set i ⟨block, job, .updating⟩ } := by
  have member := List.mem_of_getElem? here
  obtain ⟨ofModels, _, upTo⟩ := live.jobs _ member
  rw [addSyncJob_of_models (show job.models ≠ [] from ofModels ▸ models)]
  have more := live.mono (List.subset_append_left jobs [job])
  have byJob : ∀ b, job.fromBlock ≤ b → b ≤ block.number → Covered (jobs ++ [job]) b :=
    fun b low high => ⟨job, List.mem_append_right _ (List.mem_singleton_self _), low, upTo ▸ high⟩
  have old : ∀ handler ∈ session.handlers.set i ⟨block, job, .updating⟩,
      ∃ before ∈ session.handlers, before.block = handler.block := by
    intro handler inSet
    rcases List.mem_or_eq_of_mem_set inSet with before | rfl
    · exact ⟨handler, before, rfl⟩
    · exact ⟨_, member, rfl⟩
  have kept : ∀ handler ∈ session.handlers, handler ≠ ⟨block, job, .adding⟩ →
      handler ∈ session.handlers.set i ⟨block, job, .updating⟩ := by
    intro handler inHandlers other
    obtain ⟨j, there⟩ := List.mem_iff_getElem?.mp inHandlers
    have apart : i ≠ j := by
      rintro rfl
      exact other (Option.some.inj (there.symm.trans here))
    exact List.mem_iff_getElem?.mpr ⟨j, by rw [List.getElem?_set_ne apart, there]⟩
  refine ⟨more.opened, more.unheard, more.heard, more.adding, more.done, ?_, ?_, ?_, more.loaded, ?_,
    more.waiting, ?_⟩
  · intro handler inSet
    rcases List.mem_or_eq_of_mem_set inSet with before | rfl
    · exact more.jobs handler before
    · exact ⟨ofModels, (live.jobs _ member).2⟩
  · intro handler inSet stage
    rcases List.mem_or_eq_of_mem_set inSet with before | rfl
    · exact more.updating handler before stage
    · exact byJob
  · intro handler inSet
    obtain ⟨before, inHandlers, same⟩ := old handler inSet
    exact same ▸ more.reached before inHandlers
  · intro initial
    rw [live.unhandled initial] at member
    cases member
  · intro b low anchor after answers
    have before : AnswersFor session b := by
      rcases answers with ⟨handler, inSet, le⟩ | open_
      · obtain ⟨before, inHandlers, same⟩ := old handler inSet
        exact .inl ⟨before, inHandlers, same ▸ le⟩
      · exact .inr open_
    rcases more.answered b low anchor after before with covered | toCome
    · exact .inl covered
    · cases toCome with
      | loaded inLoaded => exact .inr (.loaded inLoaded)
      | own handler inHandlers stage same =>
        by_cases self : handler = ⟨block, job, .adding⟩
        · subst self
          exact .inl (byJob b (same ▸ (live.jobs _ member).2.1) same.le)
        · exact .inr (.own handler (kept handler inHandlers self) stage same)
      | first handler inHandlers stage low high others rest =>
        by_cases self : handler = ⟨block, job, .adding⟩
        · subst self
          exact .inl (byJob b low high)
        · refine .inr (.first handler (kept handler inHandlers self) stage low high ?_ rest)
          intro other inSet
          obtain ⟨before, inBefore, same⟩ := old other inSet
          exact same ▸ others before inBefore

/-- Handlers end, and maybe the subscription too. None that runs on is of a later block than
those whose jobs are lost. -/
theorem Live.fewer {handlers : List BlockHandler} {loaded : List Int} {subscribed : Bool}
    (sublist : handlers ⊆ session.handlers)
    (listening : loaded = session.loaded ∧ subscribed = session.subscribed ∧
        (∀ handler ∈ session.handlers, handler.stage = .adding → handler ∈ handlers) ∨
      loaded = [] ∧ subscribed = false ∧ Ahead session.loaded handlers ∧
        ∀ handler ∈ session.handlers, handler.stage = .adding → handler ∈ handlers ∨
          ∀ other ∈ handlers, other.block.number < handler.block.number) :
    Live config jobs { session with handlers, loaded, subscribed } := by
  have inLoaded : ∀ n ∈ loaded, n ∈ session.loaded := by
    rcases listening with ⟨rfl, _⟩ | ⟨rfl, _⟩
    · exact fun _ => id
    · exact fun _ never => by cases never
  refine ⟨?_, live.unheard, ?_, live.adding, live.done,
    fun handler member => live.jobs handler (sublist member),
    fun handler member => live.updating handler (sublist member),
    fun handler member => live.reached handler (sublist member),
    fun n member => live.loaded n (inLoaded n member), ?_, ?_, ?_⟩
  · rcases listening with ⟨rfl, rfl, _⟩ | ⟨rfl, _⟩
    · exact live.opened
    · exact fun never => absurd rfl never
  · rcases listening with ⟨rfl, rfl, _⟩ | ⟨_, rfl, _⟩
    · exact live.heard
    · exact fun _ never => by cases never
  · intro initial
    exact List.eq_nil_iff_forall_not_mem.mpr fun handler member => by
      have inHandlers := sublist member
      rw [live.unhandled initial] at inHandlers
      cases inHandlers
  · rcases listening with ⟨rfl, _⟩ | ⟨rfl, _⟩
    · exact live.waiting
    · rintro - _ ⟨⟩
  · intro b low anchor after answers
    have before : AnswersFor session b := by
      rcases answers with ⟨handler, member, le⟩ | ⟨open_, rest⟩
      · exact .inl ⟨handler, sublist member, le⟩
      · rcases listening with ⟨_, rfl, _⟩ | ⟨_, rfl, _⟩
        · exact .inr ⟨open_, rest⟩
        · cases open_
    rcases live.answered b low anchor after before with covered | toCome
    · exact .inl covered
    · rcases listening with ⟨rfl, rfl, kept⟩ | ⟨rfl, rfl, ahead, kept⟩
      · refine .inr ?_
        cases toCome with
        | loaded member => exact .loaded member
        | own handler member stage same => exact .own handler (kept handler member stage) stage same
        | first handler member stage low high others rest =>
          exact .first handler (kept handler member stage) stage low high
            (fun other inHandlers => others other (sublist inHandlers)) rest
      · obtain ⟨behind, inHandlers, le⟩ : ∃ handler ∈ handlers, b ≤ handler.block.number := by
          rcases answers with handled | ⟨open_, _⟩
          · exact handled
          · cases open_
        cases toCome with
        | loaded member => exact absurd (ahead b member behind inHandlers) (not_lt.mpr le)
        | own handler member stage same =>
          rcases kept handler member stage with still | passed
          · exact .inr (.own handler still stage same)
          · exact absurd (passed behind inHandlers) (not_lt.mpr (same ▸ le))
        | first handler member stage low high others rest =>
          rcases kept handler member stage with still | passed
          · exact .inr (.first handler still stage low high
              (fun other inFewer => others other (sublist inFewer)) (fun _ never => by cases never))
          · exact absurd (passed behind inHandlers) (not_lt.mpr (others behind (sublist inHandlers)))

/-- What the storing of a number in turn leaves behind it. -/
theorem Live.behind {sync : SyncApi} {handler : BlockHandler} (member : handler ∈ session.handlers)
    (turn : InTurn sync session handler.block) :
    ∀ b, config.defaultStartBlock ≤ b → b ≤ handler.block.number → config.anchored b →
      Covered jobs b := by
  intro b low high anchor
  by_cases before : b ≤ session.startBlock.number
  · exact live.done turn.caughtUp b low before anchor
  · rcases live.answered b low anchor (not_le.mp before) (.inl ⟨handler, member, high⟩) with
      covered | toCome
    · exact covered
    · cases toCome with
      | loaded inLoaded => exact absurd (turn.loaded b inLoaded) (not_lt.mpr high)
      | own other inHandlers adding same =>
        exact absurd (turn.handled other inHandlers adding) (not_lt.mpr (same ▸ high))
      | first other inHandlers adding _ _ least _ =>
        exact absurd (turn.handled other inHandlers adding) (not_lt.mpr (least handler member))

end

/-- What holds while the node is up and while it is down. -/
structure Kept (config : SyncConfig) (sync : SyncApi) : Prop where
  behind : Behind config sync
  live : ∀ session ∈ sync.session, Live config sync.jobs session

theorem Behind.mono {config : SyncConfig} {sync sync' : SyncApi} (behind : Behind config sync)
    (state : sync'.state = sync.state) (sublist : sync.jobs ⊆ sync'.jobs) : Behind config sync' := by
  intro n stored b low high anchor
  rw [state] at stored
  exact (behind n stored b low high anchor).mono sublist

theorem subset_addSyncJob (jobs : List SyncJobData) (job : SyncJobData) :
    jobs ⊆ _addSyncJob jobs job := by
  unfold _addSyncJob
  split
  · exact List.Subset.refl jobs
  · exact List.subset_append_left jobs [job]

/-- A step in order keeps what is behind the cursor, and the cursor does not go back. -/
theorem Kept.step {config : SyncConfig} (models : config.modelsToSync ≠ []) {sync sync' : SyncApi}
    {action : SyncAction} (kept : Kept config sync) (inOrder : InOrder config sync action)
    (stepped : step config sync action = some sync') :
    Kept config sync' ∧ ∀ n ∈ sync.state.processedBlockNumber,
      ∃ n' ∈ sync'.state.processedBlockNumber, n ≤ n' := by
  obtain ⟨behind, live⟩ := kept
  have same : ∀ n ∈ sync.state.processedBlockNumber, ∃ n' ∈ sync.state.processedBlockNumber, n ≤ n' :=
    fun n stored => ⟨n, stored, le_refl n⟩
  unfold SyncApi.step at stepped
  split at stepped
  next session up =>
    have live := live session up
    have inOrder := inOrder session up
    cases action with
    | init latestBlock => cases stepped
    | catchUpAdded =>
      dsimp only [sessionStep] at stepped
      split at stepped
      next job adding =>
        obtain rfl := Option.some.inj stepped
        refine ⟨⟨behind.mono rfl (subset_addSyncJob _ _), ?_⟩, same⟩
        rintro _ ⟨⟩
        exact live.catchUpAdded adding models
      next => cases stepped
    | catchUpFailed =>
      dsimp only [sessionStep] at stepped
      split at stepped
      next =>
        obtain rfl := Option.some.inj stepped
        refine ⟨⟨behind, ?_⟩, same⟩
        rintro _ ⟨⟩
        exact live.catchUpFailed
      next => cases stepped
    | block blockNumber =>
      dsimp only [sessionStep] at stepped
      split at stepped
      next subscribed =>
        obtain rfl := Option.some.inj stepped
        refine ⟨⟨behind, ?_⟩, same⟩
        rintro _ ⟨⟩
        exact live.block subscribed (blockNumber - BLOCK_CONFIRMATIONS)
      next => cases stepped
    | emit hash parentHash =>
      dsimp only [sessionStep] at stepped
      split at stepped
      next => cases stepped
      next number rest loaded =>
        obtain rfl := Option.some.inj stepped
        refine ⟨⟨behind, ?_⟩, same⟩
        rintro _ ⟨⟩
        refine live.emit loaded rfl (blockJob_spec _ _ _) fun initial b low after before anchor => ?_
        have noGap := inOrder number (by rw [loaded]; rfl) initial b
          (mem_blocksAfter.mpr ⟨after, by omega⟩) anchor
        obtain ⟨done, stored, le⟩ := noGap
        exact behind done stored b low le anchor
    | added i =>
      dsimp only [sessionStep] at stepped
      split at stepped
      next block job here =>
        obtain rfl := Option.some.inj stepped
        refine ⟨⟨behind.mono rfl (subset_addSyncJob _ _), ?_⟩, same⟩
        rintro _ ⟨⟩
        exact live.added here models
      next => cases stepped
    | updated i =>
      dsimp only [sessionStep] at stepped
      split at stepped
      next block job here =>
        obtain rfl := Option.some.inj stepped
        have turn := inOrder _ here
        have member := List.mem_of_getElem? here
        refine ⟨⟨?_, ?_⟩, fun n stored => ⟨_, rfl, turn.forward n stored⟩⟩
        · rintro _ ⟨⟩
          exact live.behind member turn
        · rintro _ ⟨⟩
          refine live.fewer (List.eraseIdx_sublist _ i).subset (.inl ⟨rfl, rfl, fun handler inHandlers adding => ?_⟩)
          obtain ⟨j, there⟩ := List.mem_iff_getElem?.mp inHandlers
          refine List.mem_eraseIdx_iff_getElem?.mpr ⟨j, ?_, there⟩
          rintro rfl
          rw [Option.some.inj (there.symm.trans here)] at adding
          cases adding
      next => cases stepped
    | failed i =>
      dsimp only [sessionStep] at stepped
      split at stepped
      next failing here =>
        obtain rfl := Option.some.inj stepped
        have ahead := inOrder failing here
        refine ⟨⟨behind, ?_⟩, same⟩
        rintro _ ⟨⟩
        refine live.fewer (List.eraseIdx_sublist _ i).subset (.inr ⟨rfl, rfl,
          fun n member => ahead n (List.mem_append_right _ member), fun handler inHandlers adding => ?_⟩)
        obtain ⟨j, there⟩ := List.mem_iff_getElem?.mp inHandlers
        by_cases self : j = i
        · subst self
          obtain rfl := Option.some.inj (there.symm.trans here)
          refine .inr fun other inFewer => ahead _ (List.mem_append_left _ ?_) other inFewer
          rw [lost, if_pos adding]
          exact List.mem_singleton_self _
        · exact .inl (List.mem_eraseIdx_iff_getElem?.mpr ⟨j, self, there⟩)
      next => cases stepped
    | listenerFailed =>
      obtain rfl := Option.some.inj stepped
      refine ⟨⟨behind, ?_⟩, same⟩
      rintro _ ⟨⟩
      exact live.fewer (List.Subset.refl _)
        (.inr ⟨rfl, rfl, inOrder, fun handler inHandlers _ => .inl inHandlers⟩)
    | crash =>
      obtain rfl := Option.some.inj stepped
      refine ⟨⟨behind, ?_⟩, same⟩
      rintro _ ⟨⟩
  next down =>
    cases action with
    | init latestBlock =>
      obtain rfl := Option.some.inj stepped
      exact ⟨⟨behind, behind.live latestBlock⟩, same⟩
    | _ => cases stepped

/-- In a run in order every block with anchors behind the cursor has a job, and the next step in
order does not move the cursor back. -/
theorem continuous_sync_keeps_up {config : SyncConfig} (models : config.modelsToSync ≠ [])
    {sync : SyncApi} (reaches : Transition.Reaches (step config) (InOrder config) fresh sync) :
    Behind config sync ∧ ∀ action sync', InOrder config sync action →
      step config sync action = some sync' → ∀ n ∈ sync.state.processedBlockNumber,
        ∃ n' ∈ sync'.state.processedBlockNumber, n ≤ n' := by
  have initial : Kept config fresh := by
    constructor
    · intro n stored
      cases stored
    · intro session active
      cases active
  have kept := reaches.invariant initial fun _ _ _ kept inOrder stepped =>
    (kept.step models inOrder stepped).1
  exact ⟨kept.behind, fun action sync' inOrder stepped => (kept.step models inOrder stepped).2⟩

instance (config : SyncConfig) (sync : SyncApi) (session : SyncSession) (block : Block) :
    Decidable (NoGap config sync session block) :=
  inferInstanceAs (Decidable (session.previous = none →
    ∀ b ∈ blocksAfter session.startBlock.number
        ((blockJob config.modelsToSync block (session.reorganized block)).fromBlock - 1),
      config.anchored b → ∃ done ∈ sync.state.processedBlockNumber, b ≤ done))

instance (dropped : List Int) (handlers : List BlockHandler) : Decidable (Ahead dropped handlers) :=
  inferInstanceAs (Decidable (∀ n ∈ dropped, ∀ other ∈ handlers, other.block.number < n))

instance (config : SyncConfig) (sync : SyncApi) : (action : SyncAction) →
    Decidable (InOrder config sync action)
  | .emit hash parentHash => inferInstanceAs (Decidable (∀ session ∈ sync.session,
      ∀ n ∈ session.loaded.head?, NoGap config sync session ⟨n, hash, parentHash⟩))
  | .updated i => inferInstanceAs (Decidable (∀ session ∈ sync.session,
      ∀ handler ∈ session.handlers[i]?, InTurn sync session handler.block))
  | .failed i => inferInstanceAs (Decidable (∀ session ∈ sync.session,
      ∀ handler ∈ session.handlers[i]?,
        Ahead (lost handler ++ session.loaded) (session.handlers.eraseIdx i)))
  | .listenerFailed => inferInstanceAs (Decidable (∀ session ∈ sync.session,
      Ahead session.loaded session.handlers))
  | .init _ => isTrue fun _ _ => trivial
  | .catchUpAdded => isTrue fun _ _ => trivial
  | .catchUpFailed => isTrue fun _ _ => trivial
  | .block _ => isTrue fun _ _ => trivial
  | .added _ => isTrue fun _ _ => trivial
  | .crash => isTrue fun _ _ => trivial

/-- A node that syncs one model from the first block on. -/
def oneModel : SyncConfig :=
  { defaultStartBlock := 0
    modelsToSync := ["kjzl6hvfrbw6c"]
    anchored := fun b => 0 ≤ b }

/-- The catch-up job is added before the first block of the listener is handled. -/
def caughtUpFirst : List SyncAction :=
  [.init ⟨100, "0x64", "0x63"⟩, .block 121, .emit "0x65" "0x64", .added 0, .catchUpAdded, .updated 0,
    .block 123, .emit "0x66" "0x65", .emit "0x67" "0x66", .added 1, .added 0, .updated 0, .crash,
    .init ⟨103, "0x67", "0x66"⟩, .catchUpAdded]

/-- The node crashes when the first block of the listener has been handled, and the catch-up job
has not been added. -/
def crashBeforeCatchUp : List SyncAction :=
  [.init ⟨100, "0x64", "0x63"⟩, .block 121, .emit "0x65" "0x64", .added 0, .updated 0, .crash]

def afterSync (actions : List SyncAction) : SyncApi :=
  (Transition.run (step oneModel) fresh actions).getD fresh

theorem keeps_up_caughtUpFirst : Behind oneModel (afterSync caughtUpFirst) ∧
    ∀ action sync', InOrder oneModel (afterSync caughtUpFirst) action →
      step oneModel (afterSync caughtUpFirst) action = some sync' →
        ∀ n ∈ (afterSync caughtUpFirst).state.processedBlockNumber,
          ∃ n' ∈ sync'.state.processedBlockNumber, n ≤ n' :=
  continuous_sync_keeps_up (by decide) (Transition.reaches_of_run
    (rfl : Transition.run (step oneModel) fresh caughtUpFirst = some (afterSync caughtUpFirst)) (by decide))

/-- The blocks before the first one of the listener are behind the cursor, and no job is for them. -/
theorem catch_up_lost : ¬∀ (config : SyncConfig) (sync : SyncApi), config.modelsToSync ≠ [] →
    Transition.Reaches (step config) (fun _ _ => True) fresh sync → Behind config sync := by
  intro always
  have ran : Transition.run (step oneModel) fresh crashBeforeCatchUp =
      some (afterSync crashBeforeCatchUp) := rfl
  have behind := always oneModel _ (by decide) (Transition.reaches_of_run ran (by decide))
  have covered := behind 101 rfl 50 (by decide) (by decide) rfl
  revert covered
  unfold Covered
  decide

end SyncApi

end Ceramic
