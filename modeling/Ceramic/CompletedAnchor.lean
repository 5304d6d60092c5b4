import Ceramic.AnchorCommit

/-! What has become of a completed anchor once its request is not polled any more. A failure to
validate the anchor is kept with the commit as if the anchor were invalid, and an invalid commit
of a tip from the network is passed over, so the handling ends well without the anchor. -/
namespace Ceramic

open StateManipulator StreamUtils AnchorTimestampExtractor

namespace Repository

variable {stream : StreamID} (net : Network stream) (ideal : World)

/-- The anchor service's anchor commit for a tip. -/
def Anchors (tip anchorCommit : Cid) : Prop :=
  ∀ moment c, Utils.getCommitData (net.store moment).toDispatcher anchorCommit = .ok c →
    isAnchorCommitData c = true ∧ c.commit.prev = some tip

/-- What the world answers, it also answers when all of it can be reached. -/
structure Tells (world : World) : Prop where
  commit : ∀ cid c, Utils.getCommitData world.store.toDispatcher cid = .ok c →
    Utils.getCommitData ideal.store.toDispatcher cid = .ok c
  anchor : ∀ c time, verifyAnchorCommit world.store.toDispatcher c = .ok time →
    verifyAnchorCommit ideal.store.toDispatcher c = .ok time
  mode : world.env.useRustCeramic = ideal.env.useRustCeramic

/-- No state of the stream whose tip it follows accepts the anchor commit, although every
dependency answers. -/
def InvalidAnchor (type : Nat) (anchorCommit : Cid) : Prop :=
  ∃ c, Utils.getCommitData ideal.store.toDispatcher anchorCommit = .ok c ∧
    ∀ handler base, HandlersMap.get ideal.env type = .ok handler → base.log.first.cid = stream.cid →
      c.commit.prev = some (tipFromState base) →
      ∃ e left, handler.applyCommit (stamped ideal.store.toDispatcher c []) (some base) = .threw e left

/-- The log that is fetched for a tip, with the times of its anchors. -/
def IsLogOf (moment : Nat) (state : StreamState) (tip : Cid) (log : List CommitData) : Prop :=
  ∃ fetched, LogSyncer.syncLogUntilMatch (net.store moment) tip (cids state) = .ok fetched ∧
    log = verifyAnchorAndApplyTimestamps (net.store moment).toDispatcher fetched

/-- The log of the tip was compared with the local one, and the local one was picked. -/
def LostConflict (moment : Nat) (state : StreamState) (tip : Cid) : Prop :=
  ∃ log first prev, IsLogOf net moment state tip log ∧ log.head? = some first ∧
    first.commit.prev = some prev ∧ prev ≠ tipFromState state ∧
    pickLogToAccept (localConflictingLog state prev) (entries log) = .log1

/-- The anchor is in the log, or there is a reason that it is not. -/
def Settled (moment : Nat) (before after : StreamState) (tip anchorCommit : Cid) : Prop :=
  anchorCommit ∈ cids after ∨ tip ∉ cids after ∨ LostConflict net moment before anchorCommit ∨
    @InvalidAnchor stream ideal before.type anchorCommit

/-- The handler and the state that the log of the anchor commit is applied to. -/
structure AppliesTo (moment : Nat) (state : StreamState) (anchorCommit : Cid) (handler : StreamHandler)
    (base : StreamState) (log : List CommitData) : Prop where
  fetched : IsLogOf net moment state anchorCommit log
  registered : HandlersMap.get (net.env moment) state.type = .ok handler
  base : BaseState (net.env moment) (net.store moment) state log base

/-- The commits before the anchor were applied, and the anchor could not be validated. -/
def Unanswered (moment : Nat) (state : StreamState) (anchorCommit : Cid) : Prop :=
  ∃ handler base front anchor before e,
    AppliesTo net moment state anchorCommit handler base (front ++ [anchor]) ∧
      applyLogFrom handler true base front = .ok before ∧ anchor.anchorValidationError = some e

/-- The tip was refused after its handler had entered it. -/
def TipHalfApplied (moment : Nat) (state : StreamState) (anchorCommit : Cid) : Prop :=
  ∃ handler base front refused anchor before e left,
    AppliesTo net moment state anchorCommit handler base (front ++ [refused, anchor]) ∧
      applyLogFrom handler true base front = .ok before ∧
      handler.applyCommit refused (some before) = .threw e (some left) ∧ left.log ≠ before.log

/-- A valid anchor commit is passed over. -/
def PassedOver (moment : Nat) (state : StreamState) (anchorCommit : Cid) : Prop :=
  ¬@InvalidAnchor stream ideal state.type anchorCommit ∧
    (Unanswered net moment state anchorCommit ∨ TipHalfApplied net moment state anchorCommit)

end Repository

/-- Either all commits are accepted, or some are and the next one is refused. -/
theorem entered_cases (handler : StreamHandler) (s : StreamState) (cs : List CommitData) :
    (∃ s', applyLogFrom handler true s cs = .ok s') ∨
    ∃ front c rest before e left, cs = front ++ c :: rest ∧
      applyLogFrom handler true s front = .ok before ∧
      handler.applyCommit c (some before) = .threw e left ∧
      entered handler s cs = front.length + if (left.getD before).log = before.log then 0 else 1 := by
  induction cs generalizing s with
  | nil => exact .inl ⟨s, rfl⟩
  | cons c cs ih =>
    cases outcome : handler.applyCommit c (some s) with
    | applied next =>
      rcases ih next with ⟨s', all⟩ | ⟨front, d, rest, before, e, left, rfl, accepted, refused, count⟩
      · exact .inl ⟨s', by simpa [applyLogFrom, outcome] using all⟩
      · refine .inr ⟨c :: front, d, rest, before, e, left, rfl, ?_, refused, ?_⟩
        · simpa [applyLogFrom, outcome] using accepted
        · simp only [entered, outcome, count, List.length_cons]
          omega
    | threw e left =>
      exact .inr ⟨[], c, cs, s, e, left, rfl, rfl, outcome, by simp [entered, outcome]⟩

/-- What is refused after the first commits ends the count there. -/
theorem entered_append {handler : StreamHandler} {s before : StreamState} {front : List CommitData}
    {c : CommitData} {e : JsError} {left : Option StreamState} (rest : List CommitData)
    (accepted : applyLogFrom handler true s front = .ok before)
    (refused : handler.applyCommit c (some before) = .threw e left) :
    entered handler s (front ++ c :: rest) =
      front.length + if (left.getD before).log = before.log then 0 else 1 := by
  induction front generalizing s with
  | nil =>
    obtain rfl := Except.ok.inj accepted
    simp [entered, refused]
  | cons d front ih =>
    cases outcome : handler.applyCommit d (some s) with
    | applied next =>
      have tail : applyLogFrom handler true next front = .ok before := by
        simpa [applyLogFrom, outcome] using accepted
      have count := ih tail
      simp only [List.cons_append, entered, outcome, count, List.length_cons]
      omega
    | threw e left => simp [applyLogFrom, outcome] at accepted

/-- A handler that refuses every commit of its streams. -/
def refusesAll (env : Environment) (type : Nat) : Bool :=
  env.useRustCeramic && (type == TILE_TYPE_ID || type == CAIP10_LINK_TYPE_ID)

theorem anchor_applied_of_dispatch {handler : StreamHandler} {refuses : Bool} {e : JsError}
    {genesis : CommitData → Except JsError StreamState} {signed : CommitData → StreamState → Outcome}
    {c : CommitData} {s : StreamState} (anchor : isAnchorCommitData c = true)
    (dispatches : handler.applyCommit c (some s) =
      if refuses then .threw e (some s) else dispatch genesis signed c (some s)) :
    (∃ next, handler.applyCommit c (some s) = .applied next) ↔ refuses = false ∧
      assertCommitLinksToState s c.commit = .ok () ∧ c.anchorValidationError = none := by
  rw [dispatches]
  cases refuses with
  | true => simp
  | false =>
    have shared : dispatch genesis signed c (some s) = .ofExcept (some s) (applyAnchorCommit c s) :=
      if_pos anchor
    rw [if_neg Bool.false_ne_true, shared]
    constructor
    · rintro ⟨next, applied⟩
      obtain ⟨links, valid, _⟩ := applyAnchorCommit_ok.mp (outcome_of_except applied)
      exact ⟨rfl, links, valid⟩
    · rintro ⟨_, links, valid⟩
      refine ⟨anchoredState c s, ?_⟩
      rw [applyAnchorCommit_ok.mpr ⟨links, valid, rfl⟩]
      rfl

/-- All handlers apply anchors alike. -/
theorem anchor_applied_iff {env : Environment} {type : Nat} {handler : StreamHandler}
    (registered : HandlersMap.get env type = .ok handler) {c : CommitData}
    (anchor : isAnchorCommitData c = true) (s : StreamState) :
    (∃ next, handler.applyCommit c (some s) = .applied next) ↔ refusesAll env type = false ∧
      assertCommitLinksToState s c.commit = .ok () ∧ c.anchorValidationError = none := by
  obtain ⟨member, rfl⟩ := HandlersMap.get_mem registered
  simp only [HandlersMap.defaultHandlers, List.mem_cons, List.not_mem_nil, or_false] at member
  rcases member with rfl | rfl | rfl | rfl
  · have mode : refusesAll env TILE_TYPE_ID = env.useRustCeramic := Bool.and_true _
    exact mode ▸ anchor_applied_of_dispatch anchor rfl
  · have mode : refusesAll env CAIP10_LINK_TYPE_ID = env.useRustCeramic := Bool.and_true _
    exact mode ▸ anchor_applied_of_dispatch anchor rfl
  · have mode : refusesAll env (ModelHandler.handler env).type = false := Bool.and_false _
    have shared : (ModelHandler.handler env).applyCommit c (some s) = if (false : Bool)
        then .threw ⟨""⟩ (some s)
        else dispatch (ModelHandler.applyGenesis env) ModelHandler.applySigned c (some s) := rfl
    rw [mode]
    exact anchor_applied_of_dispatch anchor shared
  · have mode : refusesAll env (ModelInstanceDocumentHandler.handler env).type = false := Bool.and_false _
    have shared : (ModelInstanceDocumentHandler.handler env).applyCommit c (some s) = if (false : Bool)
        then .threw ⟨""⟩ (some s)
        else dispatch (ModelInstanceDocumentHandler.applyGenesis env)
          (ModelInstanceDocumentHandler.applySigned env) c (some s) := rfl
    rw [mode]
    exact anchor_applied_of_dispatch anchor shared

/-- A log that is not applied is empty, or it has lost. -/
theorem applyLogToState_unapplied {env : Environment} {store : CommitStore} {state result : StreamState}
    {log : List CommitData} {opts : ApplyLogToStateOpts}
    (h : applyLogToState env store state log opts = .ok result)
    (unapplied : ∀ base, ¬BaseState env store state log base) :
    log = [] ∨ ∃ first prev, log.head? = some first ∧ first.commit.prev = some prev ∧
      prev ≠ tipFromState state ∧
      pickLogToAccept (localConflictingLog state prev) (entries log) = .log1 := by
  obtain ⟨resolved, applied, _⟩ := bind_eq_ok.mp h
  cases log with
  | nil => exact .inl rfl
  | cons first rest =>
    obtain ⟨handler, _, linked⟩ := bind_eq_ok.mp applied
    cases link : first.commit.prev with
    | none => simp [link, throw, throwThe, MonadExceptOf.throw] at linked
    | some prev =>
      simp only [link] at linked
      by_cases extending : prev = tipFromState state
      · exact absurd (.appended first rfl (by rw [link, extending])) (unapplied state)
      · rw [if_neg extending] at linked
        rcases resolveConflict_ok linked with ⟨_, picked⟩ | ⟨picked, base, reset, _⟩
        · exact .inr ⟨first, prev, rfl, link, extending, picked⟩
        · exact absurd (.replaced first prev base rfl link extending picked reset) (unapplied base)

/-- Nothing is fetched for a commit that is known, or whose `prev` is of another stream. -/
theorem syncLogUntilMatch_nil {store : CommitStore} {cid prev : Cid} {existing : List Cid}
    (h : LogSyncer.syncLogUntilMatch store cid existing = .ok [])
    (link : ∀ c, Utils.getCommitData store.toDispatcher cid = .ok c → c.commit.prev = some prev) :
    cid ∈ existing ∨ prev ∉ existing := by
  by_cases known : cid ∈ existing
  · exact .inl known
  · refine .inr fun member => ?_
    have unknown : LogSyncer.logIncludes cid (some existing) = false := by
      simpa [LogSyncer.logIncludes] using known
    unfold LogSyncer.syncLogUntilMatch LogSyncer.syncLogHelper LogSyncer.walk at h
    rw [unknown, if_neg Bool.false_ne_true] at h
    obtain ⟨c, read, rest⟩ := bind_eq_ok.mp h
    have lower := store.acyclic cid c prev read (link c read)
    obtain ⟨fuel, eq⟩ : ∃ fuel, store.height cid = fuel + 1 := ⟨store.height cid - 1, by omega⟩
    have includes : LogSyncer.logIncludes prev (some existing) = true := by
      simpa [LogSyncer.logIncludes] using member
    simp only [link c read, eq, LogSyncer.walk, includes, if_true] at rest
    cases Except.ok.inj rest

namespace Repository

variable {stream : StreamID} {net : Network stream} {ideal : World} {moment : Nat}
  {state : StreamState} {tip anchorCommit : Cid} {handler : StreamHandler} {base : StreamState}
  {log : List CommitData}

/-- The log that is applied ends with the anchor commit. -/
theorem AppliesTo.anchor (applies : AppliesTo net moment state anchorCommit handler base log) :
    ∃ front c, log = front ++ [stamped (net.store moment).toDispatcher c []] ∧
      Utils.getCommitData (net.store moment).toDispatcher anchorCommit = .ok c ∧ c.cid = anchorCommit := by
  obtain ⟨fetched, found, rfl⟩ := applies.fetched
  have nonempty : fetched ≠ [] := by
    rintro rfl
    cases applies.base with
    | appended _ head => cases head
    | replaced _ _ _ head => cases head
  rcases LogSyncer.syncLogUntilMatch_ok found with rfl | ⟨prev, _, path, stored, _⟩
  · exact absurd rfl nonempty
  · obtain ⟨cs, c, rfl⟩ := (List.eq_nil_or_concat' fetched).resolve_left nonempty
    have last := ((path_snoc (some prev) (some anchorCommit) cs c).mp path).2
    have same : c.cid = anchorCommit := (Option.some.inj last).symm
    have read : Utils.getCommitData (net.store moment).toDispatcher anchorCommit = .ok c :=
      same ▸ stored c (by simp)
    have dropped := extracted_drop (net.store moment).toDispatcher (cs ++ [c]) cs.length
    rw [List.drop_left, extracted_cons, extracted_nil] at dropped
    have split := List.take_append_drop cs.length
      (verifyAnchorAndApplyTimestamps (net.store moment).toDispatcher (cs ++ [c]))
    rw [dropped] at split
    exact ⟨_, c, split.symm, read, same⟩

/-- The commits that would be in the log if all of them were applied. -/
theorem AppliesTo.chain (applies : AppliesTo net moment state anchorCommit handler base log)
    (chain : net.Chain (cids state)) : net.Chain (cids base ++ commitCids log) := by
  obtain ⟨fetched, found, rfl⟩ := applies.fetched
  have sameCids : commitCids (verifyAnchorAndApplyTimestamps (net.store moment).toDispatcher fetched) =
      commitCids fetched := extracted_map _ _ (fun _ _ _ => rfl) _
  have whole := applied_chain chain found applies.base (commitCids fetched).length
  rwa [List.take_length, ← sameCids] at whole

theorem IsLogOf.unique {log' : List CommitData} (first : IsLogOf net moment state anchorCommit log)
    (second : IsLogOf net moment state anchorCommit log') : log = log' := by
  obtain ⟨fetched, found, rfl⟩ := first
  obtain ⟨fetched', found', rfl⟩ := second
  obtain rfl := Except.ok.inj (found.symm.trans found')
  rfl

theorem AppliesTo.unique {handler' : StreamHandler} {base' : StreamState} {log' : List CommitData}
    (first : AppliesTo net moment state anchorCommit handler base log)
    (second : AppliesTo net moment state anchorCommit handler' base' log') :
    handler = handler' ∧ base = base' ∧ log = log' := by
  obtain rfl := first.fetched.unique second.fetched
  exact ⟨Except.ok.inj (first.registered.symm.trans second.registered), first.base.unique second.base, rfl⟩

/-- In a chain a commit is in the first part if its place is. -/
theorem mem_take_iff {chainLog : List Cid} (chain : net.Chain chainLog) {cid : Cid} {i k : Nat}
    (found : chainLog[i]? = some cid) : cid ∈ chainLog.take k ↔ i < k := by
  constructor
  · intro member
    obtain ⟨j, at_j⟩ := List.mem_iff_getElem?.mp member
    have less : j < k := by
      have inside := (List.getElem?_eq_some_iff.mp at_j).1
      rw [List.length_take] at inside
      omega
    rw [List.getElem?_take_of_lt less] at at_j
    rwa [chain.index_unique found at_j]
  · intro less
    exact List.mem_of_getElem? ((List.getElem?_take_of_lt less).trans found)

/-- What of the fetched log is in the log of the result, by how much of it was entered. -/
theorem AppliesTo.mem_result {result : StreamState} {throwing : Bool} {front : List CommitData}
    {c : CommitData} (applies : AppliesTo net moment state anchorCommit handler base log)
    (chain : net.Chain (cids state)) (anchors : Anchors net tip anchorCommit)
    (ends : log = front ++ [stamped (net.store moment).toDispatcher c []])
    (read : Utils.getCommitData (net.store moment).toDispatcher anchorCommit = .ok c)
    (applied : applyLogFrom handler throwing base log = .ok result) :
    (anchorCommit ∈ cids result ↔ entered handler base log = front.length + 1) ∧
      (tip ∈ cids result ↔ front.length ≤ entered handler base log) ∧
      (cids base ++ commitCids front).getLast? = some tip := by
  obtain ⟨lawful, _⟩ := HandlersMap.get_lawful applies.registered
  have whole := applies.chain chain
  have bound := entered_le handler base log
  have same : c.cid = anchorCommit := (getCommitData_ok read).1
  have split : cids base ++ commitCids log = (cids base ++ commitCids front) ++ [anchorCommit] := by
    rw [ends, commitCids, List.map_append, List.append_assoc]
    exact congrArg _ (congrArg _ (congrArg (fun cid => [cid]) same))
  have resultCids : cids result = (cids base ++ commitCids log).take
      ((cids base).length + entered handler base log) := by
    rw [applyLogFrom_cids lawful applied, List.take_length_add_append, commitCids, List.map_take]
    rfl
  have at_anchor : (cids base ++ commitCids log)[(cids base ++ commitCids front).length]? =
      some anchorCommit := by
    rw [split, List.getElem?_append_right (le_refl _), Nat.sub_self]
    rfl
  have length : (cids base ++ commitCids front).length = (cids base).length + front.length := by
    simp [commitCids]
  have logLength : log.length = front.length + 1 := by simp [ends]
  have prev := whole.prev_eq at_anchor read
  rw [(anchors moment c read).2] at prev
  have positive : (cids base ++ commitCids front).length ≠ 0 := by
    intro zero
    rw [if_pos zero] at prev
    cases prev
  rw [if_neg positive] at prev
  refine ⟨?_, ?_, ?_⟩
  · rw [resultCids, mem_take_iff whole at_anchor]
    omega
  · rw [resultCids, mem_take_iff whole prev.symm]
    omega
  · rw [List.getLast?_eq_getElem?]
    rw [split, List.getElem?_append_left (by omega)] at prev
    exact prev.symm

/-- A state that accepted all before the anchor commit is a chain that ends with the tip. -/
theorem AppliesTo.before {before : StreamState} {front : List CommitData} {c : CommitData}
    (applies : AppliesTo net moment state anchorCommit handler base log)
    (chain : net.Chain (cids state))
    (ends : log = front ++ [stamped (net.store moment).toDispatcher c []])
    (last : (cids base ++ commitCids front).getLast? = some tip)
    (accepted : applyLogFrom handler true base front = .ok before) :
    before.log.first.cid = stream.cid ∧ tipFromState before = tip := by
  obtain ⟨lawful, _⟩ := HandlersMap.get_lawful applies.registered
  have beforeCids : cids before = cids base ++ commitCids front := by
    rw [applyLogFrom_cids lawful accepted, entered_all accepted, List.take_length]
  have whole := applies.chain chain
  have first : net.Chain (cids before) := by
    have positive : 0 < (cids before).length := by
      rw [cids, List.length_map]
      exact List.length_pos_iff.mpr before.log.nonempty
    obtain ⟨n, length⟩ := Nat.exists_eq_add_one.mpr positive
    have taken := whole.take n
    rwa [ends, commitCids, List.map_append, ← List.append_assoc, ← commitCids, ← beforeCids,
      List.take_left' length] at taken
  refine ⟨stream_of_chain first, ?_⟩
  have tipLast := cids_getLast? before
  rw [beforeCids, last] at tipLast
  exact (Option.some.inj tipLast).symm

/-- A valid anchor commit is refused only because it could not be validated. -/
theorem refused_of_valid {c : CommitData} {before : StreamState} {e : JsError}
    {left : Option StreamState} (tells : Tells ideal (net.world moment))
    (anchors : Anchors net tip anchorCommit)
    (read : Utils.getCommitData (net.store moment).toDispatcher anchorCommit = .ok c)
    (registered : HandlersMap.get (net.env moment) state.type = .ok handler)
    (valid : ¬@InvalidAnchor stream ideal state.type anchorCommit)
    (genesis : before.log.first.cid = stream.cid) (ofTip : tipFromState before = tip)
    (refused : handler.applyCommit (stamped (net.store moment).toDispatcher c []) (some before) =
      .threw e left) :
    (stamped (net.store moment).toDispatcher c []).anchorValidationError ≠ none := by
  intro validated
  have anchor := (anchors moment c read).1
  have notApplied : ¬∃ next, handler.applyCommit (stamped (net.store moment).toDispatcher c [])
      (some before) = .applied next := by
    rintro ⟨next, applied⟩
    cases refused.symm.trans applied
  rw [anchor_applied_iff registered (show isAnchorCommitData (stamped _ c []) = true from anchor)] at notApplied
  refine valid ⟨c, tells.commit anchorCommit c read, fun other base' registered' first link => ?_⟩
  cases outcome : other.applyCommit (stamped ideal.store.toDispatcher c []) (some base') with
  | threw e left => exact ⟨e, left, rfl⟩
  | applied next =>
    obtain ⟨mode, links, _⟩ := (anchor_applied_iff registered'
      (show isAnchorCommitData (stamped _ c []) = true from anchor) base').mp ⟨next, outcome⟩
    refine absurd ⟨?_, ?_, validated⟩ notApplied
    · unfold refusesAll at mode ⊢
      rwa [show (net.env moment).useRustCeramic = ideal.env.useRustCeramic from tells.mode]
    · obtain ⟨ids, _⟩ := (links_iff base' c.commit).mp links
      refine (links_iff before c.commit).mpr ⟨fun id isId => ?_, ?_⟩
      · rw [ids id isId, first, genesis]
      · rw [(anchors moment c read).2, ← ofTip]
        rfl

/-- The log of the anchor commit is applied. -/
theorem AppliesTo.settled_iff {result : StreamState}
    (applies : AppliesTo net moment state anchorCommit handler base log)
    (chain : net.Chain (cids state)) (anchors : Anchors net tip anchorCommit)
    (tells : Tells ideal (net.world moment))
    (applied : applyLogFrom handler false base log = .ok result) :
    Settled net ideal moment state result tip anchorCommit ↔
      ¬PassedOver net ideal moment state anchorCommit := by
  obtain ⟨lawful, _⟩ := HandlersMap.get_lawful applies.registered
  obtain ⟨front, c, ends, read, same⟩ := applies.anchor
  obtain ⟨anchorIn, tipIn, last⟩ := applies.mem_result chain anchors ends read applied
  have isAnchor : isAnchorCommitData (stamped (net.store moment).toDispatcher c []) = true :=
    (anchors moment c read).1
  have notLost : ¬LostConflict net moment state anchorCommit := by
    rintro ⟨log', first, prev, isLog, head, link, conflict, picked⟩
    obtain rfl := applies.fetched.unique isLog
    cases applies.base with
    | appended first' head' link' =>
      obtain rfl := Option.some.inj (head.symm.trans head')
      exact conflict (Option.some.inj (link.symm.trans link'))
    | replaced first' prev' _ head' link' _ wins =>
      obtain rfl := Option.some.inj (head.symm.trans head')
      obtain rfl := Option.some.inj (link.symm.trans link')
      cases picked.symm.trans wins
  have leftAlone : ∀ {before e left}, handler.applyCommit
      (stamped (net.store moment).toDispatcher c []) (some before) = .threw e left →
      (left.getD before).log = before.log := by
    intro before e left refused
    obtain ⟨state', rfl, _, unchanged | ⟨notAnchor, _⟩⟩ := lawful.left refused
    · exact unchanged
    · rw [isAnchor] at notAnchor
      cases notAnchor
  constructor
  · rintro settled ⟨valid, passed⟩
    have count : entered handler base log = front.length := by
      rcases passed with ⟨handler', base', front', anchor, before, e, applies', accepted, failed⟩ |
        ⟨handler', base', front', refused, anchor, before, e, left, applies', accepted, threw, entered⟩
      · obtain ⟨rfl, rfl, sameLog⟩ := applies.unique applies'
        obtain ⟨rfl, isLast⟩ := List.append_inj' (ends.symm.trans sameLog) rfl
        obtain rfl := (List.cons.inj isLast).1
        cases outcome : handler.applyCommit (stamped (net.store moment).toDispatcher c []) (some before) with
        | applied next =>
          have valid := ((anchor_applied_iff applies.registered isAnchor before).mp ⟨next, outcome⟩).2.2
          rw [failed] at valid
          cases valid
        | threw e left =>
          rw [ends, entered_append [] accepted outcome, if_pos (leftAlone outcome), Nat.add_zero]
      · obtain ⟨rfl, rfl, sameLog⟩ := applies.unique applies'
        have split : front ++ [stamped (net.store moment).toDispatcher c []] =
            (front' ++ [refused]) ++ [anchor] := by
          rw [← ends, sameLog, List.append_assoc]
          rfl
        obtain ⟨rfl, _⟩ := List.append_inj' split rfl
        rw [sameLog, entered_append [anchor] accepted threw, Option.getD_some, if_neg entered,
          List.length_append]
        rfl
    rcases settled with inLog | gone | lost | invalid
    · have := anchorIn.mp inLog
      omega
    · exact gone (tipIn.mpr count.ge)
    · exact notLost lost
    · exact valid invalid
  · intro notPassed
    by_cases valid : @InvalidAnchor stream ideal state.type anchorCommit
    · exact .inr (.inr (.inr valid))
    by_cases most : front.length ≤ entered handler base log
    · rcases entered_cases handler base log with ⟨_, all⟩ |
        ⟨front', d, rest, before, e, left, split, accepted, refused, count⟩
      · refine .inl (anchorIn.mpr ?_)
        rw [entered_all all, ends, List.length_append]
        rfl
      · refine absurd ⟨valid, ?_⟩ notPassed
        have lengths : front.length + 1 = front'.length + (rest.length + 1) := by
          have := congrArg List.length (ends.symm.trans split)
          simpa using this
        cases rest with
        | nil =>
          obtain ⟨rfl, isLast⟩ := List.append_inj (ends.symm.trans split) (by simpa using lengths)
          obtain rfl := (List.cons.inj isLast).1
          obtain ⟨genesis, ofTip⟩ := applies.before chain ends last accepted
          have failed := refused_of_valid tells anchors read applies.registered valid genesis ofTip refused
          obtain ⟨e, error⟩ := Option.ne_none_iff_exists'.mp failed
          exact .inl ⟨handler, base, front, _, before, e, ends ▸ applies, accepted, error⟩
        | cons anchor rest =>
          rw [List.length_cons] at lengths
          obtain ⟨left, rfl, _⟩ := lawful.left refused
          have changed : left.log ≠ before.log := by
            intro same
            rw [count, Option.getD_some, if_pos same] at most
            omega
          rw [count, Option.getD_some, if_neg changed] at most
          obtain rfl : rest = [] := List.length_eq_zero_iff.mp (by omega)
          exact .inr ⟨handler, base, front', d, anchor, before, e, left, split ▸ applies, accepted,
            refused, changed⟩
    · exact .inr (.inl fun inLog => most (tipIn.mp inLog))

/-- A pass that goes well settles the anchor unless it passes over a valid one. -/
theorem settled_iff {after : StreamState} (chain : net.Chain (cids state))
    (anchors : Anchors net tip anchorCommit) (tells : Tells ideal (net.world moment))
    (applied : StreamUpdater.applyTipFromNetwork (net.env moment) (net.store moment) state anchorCommit =
      .ok after) :
    Settled net ideal moment state after tip anchorCommit ↔
      ¬PassedOver net ideal moment state anchorCommit := by
  obtain ⟨fetched, found, applied⟩ := bind_eq_ok.mp applied
  have isLog : IsLogOf net moment state anchorCommit
      (verifyAnchorAndApplyTimestamps (net.store moment).toDispatcher fetched) := ⟨fetched, found, rfl⟩
  rcases applyLogToState_ok applied with ⟨rfl, unapplied⟩ | ⟨handler, base, registered, applies, result⟩
  · refine iff_of_true ?_ ?_
    · rcases applyLogToState_unapplied applied unapplied with empty | ⟨first, prev, head, link, conflict, lost⟩
      · have nothing : fetched = [] := by
          have length := extracted_length (net.store moment).toDispatcher fetched
          rw [empty] at length
          exact List.eq_nil_of_length_eq_zero length.symm
        rcases syncLogUntilMatch_nil (nothing ▸ found) fun c read => (anchors moment c read).2 with
          known | other
        · exact .inl known
        · exact .inr (.inl other)
      · exact .inr (.inr (.inl ⟨_, first, prev, isLog, head, link, conflict, lost⟩))
    · rintro ⟨_, ⟨_, base, _, _, _, _, applies, _⟩ | ⟨_, base, _, _, _, _, _, _, applies, _⟩⟩
      · exact unapplied base (isLog.unique applies.fetched ▸ applies.base)
      · exact unapplied base (isLog.unique applies.fetched ▸ applies.base)
  · exact (AppliesTo.mk isLog registered applies).settled_iff chain anchors tells result

/-- When the handling of a completed anchor returns true, the anchor is in the log or there is a
reason that it is not, exactly if the pass that ended the handling did not pass over it. -/
theorem completed_anchor_settled_iff {node : Node stream} {booted repository : Repository}
    (boot : Booted node booted)
    (run : Transition.Reaches (Repository.step node) (fun _ _ => True) booted repository)
    {running : RunningState} (held : running ∈ repository.heap)
    (tells : ∀ moment, Tells ideal (node.net.world moment)) {passes : Nat → AnchorTry}
    {event : AnchorEvent} (completed : event.status = .COMPLETED)
    (root : event.witnessRoot = some anchorCommit) (anchors : Anchors node.net event.cid anchorCommit)
    {after : StreamState}
    (resolved : handleAnchorEvent node.net passes running.value event = (after, .ok true)) :
    ∃ last before, lastTry node.net passes anchorCommit (APPLY_ANCHOR_COMMIT_ATTEMPTS - 1)
        running.value = some (last, before) ∧
      (Settled node.net ideal last.moment before after event.cid anchorCommit ↔
        ¬PassedOver node.net ideal last.moment before anchorCommit) := by
  have chain := (reaches_sound boot.sound run).heap running held
  unfold handleAnchorEvent at resolved
  rw [completed, root] at resolved
  dsimp only at resolved
  cases handled : _handleAnchorCommit node.net passes event.cid anchorCommit
      (APPLY_ANCHOR_COMMIT_ATTEMPTS - 1) running.value with
  | mk next result =>
    rw [handled] at resolved
    cases result with
    | error e => cases (Prod.mk.inj resolved).2
    | ok _ =>
      obtain ⟨rfl, _⟩ := Prod.mk.inj resolved
      obtain ⟨last, before, isLast, chainBefore, applied⟩ := handleAnchorCommit_ok chain handled
      exact ⟨last, before, isLast, settled_iff chainBefore anchors (tells last.moment) applied⟩

end Repository

namespace BlockStore

/-- A Tile and the anchor commit of its genesis. -/
def anchoredTile : List Block :=
  [⟨⟨[1]⟩, .plain { header := some [("controllers", .arr [.str "did:key:z6Mk"])] }⟩,
   ⟨⟨[2]⟩, .plain { id := some ⟨[1]⟩, prev := some ⟨[1]⟩, proof := some ⟨[9]⟩ }⟩]

def anchorProof (cid : Cid) : Option AnchorProof :=
  if cid = ⟨[9]⟩ then some ⟨"eip155:1", ⟨[8]⟩, ⟨[1]⟩, none⟩ else none

/-- The chain of the anchors cannot be reached at first. -/
def chainTime (moment : Nat) (chainId : String) : Option Nat :=
  if moment ≠ 0 ∧ chainId = "eip155:1" then some 100 else none

def anchoredTileStore (moment : Nat) : CommitStore :=
  store anchoredTile anchorProof (chainTime moment) (by decide)

/-- What is said of an anchor while its chain cannot be reached is an error. -/
theorem tells_of_later {blocks : List Block} {proofs : Cid → Option AnchorProof}
    {earlier later : String → Option Nat} {ordered : Ordered blocks} (env : Environment)
    (more : ∀ chainId time, earlier chainId = some time → later chainId = some time) :
    Repository.Tells ⟨env, store blocks proofs later ordered⟩
      ⟨env, store blocks proofs earlier ordered⟩ where
  commit := fun _ _ read => read
  mode := rfl
  anchor := by
    intro c time verified
    unfold verifyAnchorCommit at verified ⊢
    cases hasProof : c.proof with
    | none => simp [hasProof, throw, throwThe, MonadExceptOf.throw, bind, Except.bind] at verified
    | some proof =>
      by_cases direct : c.commit.path = ""
      · simp only [hasProof, direct, if_true, pure_bind] at verified ⊢
        cases hasPrev : c.commit.prev with
        | none => simp [hasPrev, throw, throwThe, MonadExceptOf.throw] at verified
        | some prev =>
          simp only [hasPrev] at verified ⊢
          split at verified
          next => cases verified
          next same =>
            rw [if_neg same]
            simp only [store, dispatcher] at verified ⊢
            cases answered : earlier proof.chainId with
            | none => simp [answered] at verified
            | some time' =>
              rw [more _ _ answered]
              simpa [answered] using verified
      · cases viaTree : c.commit.proof <;>
          simp [hasProof, direct, viaTree, store, dispatcher, throw, throwThe, MonadExceptOf.throw, bind,
            Except.bind, pure, Except.pure] at verified

def anchoredTileNode : Node ⟨TILE_TYPE_ID, ⟨[1]⟩⟩ where
  net := {
    world := fun moment => ⟨.permissive, anchoredTileStore moment⟩
    sameCommit := fun i j cid c d read read' => by
      have read' : Utils.getCommitData (anchoredTileStore i).toDispatcher cid = .ok d := read'
      rw [Except.ok.inj (read.symm.trans read')]
    genesis := fun moment c read => by
      have read : Utils.getCommitData
        (dispatcher anchoredTile anchorProof (chainTime moment)) ⟨[1]⟩ = .ok c := read
      obtain ⟨block, member, same, eq⟩ := getCommitData_payload read
      have all : ∀ block ∈ anchoredTile, block.cid = ⟨[1]⟩ →
          (payload anchoredTile block.stored).prev = none := by decide
      rw [eq, all block member same] }
  shouldIndex := fun _ => false

def completedAnchor : AnchorEvent := ⟨.COMPLETED, ⟨[1]⟩, some ⟨[2]⟩⟩

/-- All passes are made at one moment; only the last ones can import the witness CAR. -/
def passesAt (moment lasting : Nat) (remainingRetries : Nat) : AnchorTry where
  moment := moment
  imported := if remainingRetries ≤ lasting then .ok () else .error ⟨"not found"⟩
  updated := .ok ()

/-- The Tile is loaded, without an anchor. -/
def loadTile : List RepositoryAction :=
  .call (.load .PREFER_CACHE) :: List.replicate 5 (.proceed 0 0 [])

def loadedTile : Repository :=
  (Transition.run (Repository.step anchoredTileNode) (.boot none) loadTile).getD (.boot none)

def loadedRunning : RunningState := loadedTile.heap.get ⟨0, by decide⟩

theorem loadTile_reaches : Transition.Reaches (Repository.step anchoredTileNode) (fun _ _ => True)
    (.boot none) loadedTile :=
  Transition.reaches_of_run
    (rfl : Transition.run (Repository.step anchoredTileNode) (.boot none) loadTile = some loadedTile)
    (by decide)

/-- What can be read of the anchor commit does not depend on its chain. -/
theorem read_anchor (moment : Nat) :
    Utils.getCommitData (anchoredTileStore moment).toDispatcher ⟨[2]⟩ = .ok
      { cid := ⟨[2]⟩
        type := .TIME
        commit := { id := some ⟨[1]⟩, prev := some ⟨[1]⟩, proof := some ⟨[9]⟩ }
        proof := anchorProof ⟨[9]⟩ } := rfl

theorem tile_anchors : Repository.Anchors anchoredTileNode.net ⟨[1]⟩ ⟨[2]⟩ := by
  intro moment c read
  obtain rfl := Except.ok.inj ((read_anchor moment).symm.trans read)
  exact ⟨rfl, rfl⟩

theorem tile_tells (moment : Nat) :
    Repository.Tells (anchoredTileNode.net.world 1) (anchoredTileNode.net.world moment) := by
  refine tells_of_later .permissive fun chainId time answered => ?_
  unfold chainTime at answered ⊢
  split at answered
  next known => rw [if_pos ⟨one_ne_zero, known.2⟩, ← Option.some.inj answered]
  next => cases answered

/-- The log of the Tile once the passes have been made. -/
def handledTile (passes : Nat → AnchorTry) : StreamState :=
  (Repository.handleAnchorEvent anchoredTileNode.net passes loadedRunning.value completedAnchor).1

theorem completed_anchor_settled_iff_secondPass : ∃ last before,
    Repository.lastTry anchoredTileNode.net (passesAt 1 1) ⟨[2]⟩
        (APPLY_ANCHOR_COMMIT_ATTEMPTS - 1) loadedRunning.value = some (last, before) ∧
      (Repository.Settled anchoredTileNode.net (anchoredTileNode.net.world 1) last.moment before
          (handledTile (passesAt 1 1)) ⟨[1]⟩ ⟨[2]⟩ ↔
        ¬Repository.PassedOver anchoredTileNode.net (anchoredTileNode.net.world 1) last.moment
          before ⟨[2]⟩) :=
  Repository.completed_anchor_settled_iff (.first : Booted anchoredTileNode (.boot none))
    loadTile_reaches (List.get_mem loadedTile.heap ⟨0, by decide⟩) tile_tells
    (rfl : completedAnchor.status = .COMPLETED) (rfl : completedAnchor.witnessRoot = some ⟨[2]⟩)
    tile_anchors
    (rfl : Repository.handleAnchorEvent anchoredTileNode.net (passesAt 1 1) loadedRunning.value
      completedAnchor = (handledTile (passesAt 1 1), .ok true))

/-- While its chain cannot be reached, a valid anchor commit is passed over, and its request is
done with. -/
theorem unreachable_chain_loses_anchor :
    ¬∀ (passes : Nat → AnchorTry) (after : StreamState),
      Repository.handleAnchorEvent anchoredTileNode.net passes loadedRunning.value completedAnchor =
        (after, .ok true) →
      ∀ last before, Repository.lastTry anchoredTileNode.net passes ⟨[2]⟩
          (APPLY_ANCHOR_COMMIT_ATTEMPTS - 1) loadedRunning.value = some (last, before) →
        Repository.Settled anchoredTileNode.net (anchoredTileNode.net.world 1) last.moment before
          after ⟨[1]⟩ ⟨[2]⟩ := by
  intro settles
  have settled := settles (passesAt 0 2) (handledTile (passesAt 0 2)) rfl (passesAt 0 2 2)
    loadedRunning.value rfl
  rcases settled with inLog | gone | ⟨log, first, prev, ⟨fetched, found, rfl⟩, head, link, conflict, _⟩ |
    ⟨c, read, refuses⟩
  · revert inLog
    decide
  · revert gone
    decide
  · have alone : LogSyncer.syncLogUntilMatch (anchoredTileNode.net.store 0) ⟨[2]⟩
        (cids loadedRunning.value) = .ok [_] := rfl
    obtain rfl := Except.ok.inj (alone.symm.trans found)
    obtain rfl := Option.some.inj head
    obtain rfl := Option.some.inj link
    revert conflict
    decide
  · obtain rfl := Except.ok.inj ((read_anchor 1).symm.trans read)
    obtain ⟨e, left, refused⟩ := refuses _ loadedRunning.value rfl (by decide) (by decide)
    cases refused

end BlockStore

end Ceramic
