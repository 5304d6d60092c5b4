import Ceramic.StreamUtils

/-! Steps the stream handlers share: applying an anchor commit, verifying the
signature of a signed one, and the interface through which a handler is used. -/
namespace Ceramic

/-- The result of `applyCommit`. A handler writes into the state object it is given,
so after a throw that object holds `left`, which need not be what was passed in. -/
inductive Outcome where
  | applied (state : StreamState)
  | threw (error : JsError) (left : Option StreamState)
  deriving DecidableEq

def Outcome.ofExcept (given : Option StreamState) : Except JsError StreamState → Outcome
  | .ok state => .applied state
  | .error e => .threw e given

structure StreamHandler where
  type : Nat
  applyCommit : CommitData → Option StreamState → Outcome

/-- `payload.header`, where a property of it is read next. -/
def headerOf (payload : Commit) : Except JsError JsObject :=
  match payload.header with
  | some header => .ok header
  | none => .error ⟨"Cannot read properties of undefined (reading 'controllers')"⟩

theorem headerOf_ok {payload : Commit} {header : JsObject} (read : headerOf payload = .ok header) :
    payload.header = some header := by
  unfold headerOf at read
  split at read
  next found => rw [found, Except.ok.inj read]
  next => cases read

/-- The check of `header.controllers` every genesis goes through. -/
def assertOneController (controllers : JsValue) : Except JsError Unit := do
  if !controllers.truthy then throw ⟨"Exactly one controller must be specified"⟩
  if (← controllers.prop "length") != .num 1 then
    throw ⟨"Exactly one controller must be specified"⟩

/-- Walks the log from its end, carrying the timestamp of the last anchor passed. -/
def applyAnchorTimestampsToLog (log : List LogEntry) : List LogEntry :=
  (log.foldr (fun logEntry (acc : List LogEntry × Timestamp) =>
    if logEntry.type = .TIME then (logEntry :: acc.1, logEntry.timestamp)
    else ({ logEntry with timestamp := acc.2 } :: acc.1, acc.2)) ([], .undefined)).1

/-- The timestamp of the first anchor of a log. -/
def firstAnchorTimestamp (log : List LogEntry) : Timestamp :=
  match log.find? (fun entry => entry.type = .TIME) with
  | some entry => entry.timestamp
  | none => .undefined

theorem foldr_anchor_timestamp (log : List LogEntry) :
    (log.foldr (fun logEntry (acc : List LogEntry × Timestamp) =>
      if logEntry.type = .TIME then (logEntry :: acc.1, logEntry.timestamp)
      else ({ logEntry with timestamp := acc.2 } :: acc.1, acc.2)) ([], .undefined)).2 =
      firstAnchorTimestamp log := by
  induction log with
  | nil => rfl
  | cons entry log ih =>
    by_cases anchor : entry.type = .TIME
    · simp [firstAnchorTimestamp, anchor]
    · simp only [List.foldr_cons, if_neg anchor, ih]
      simp [firstAnchorTimestamp, anchor]

@[simp] theorem applyAnchorTimestampsToLog_nil : applyAnchorTimestampsToLog [] = [] := rfl

theorem applyAnchorTimestampsToLog_anchor (entry : LogEntry) (log : List LogEntry)
    (anchor : entry.type = .TIME) :
    applyAnchorTimestampsToLog (entry :: log) = entry :: applyAnchorTimestampsToLog log := by
  simp [applyAnchorTimestampsToLog, anchor]

theorem applyAnchorTimestampsToLog_other (entry : LogEntry) (log : List LogEntry)
    (other : entry.type ≠ .TIME) :
    applyAnchorTimestampsToLog (entry :: log) =
      { entry with timestamp := firstAnchorTimestamp log } :: applyAnchorTimestampsToLog log := by
  simp [applyAnchorTimestampsToLog, other, ← foldr_anchor_timestamp]

@[simp] theorem applyAnchorTimestampsToLog_length (log : List LogEntry) :
    (applyAnchorTimestampsToLog log).length = log.length := by
  induction log with
  | nil => rfl
  | cons entry log ih =>
    by_cases anchor : entry.type = .TIME
    · simp [applyAnchorTimestampsToLog_anchor _ _ anchor, ih]
    · simp [applyAnchorTimestampsToLog_other _ _ anchor, ih]

/-- Only timestamps change. -/
theorem applyAnchorTimestampsToLog_map {β : Type} (f : LogEntry → β)
    (untimed : ∀ entry t, f { entry with timestamp := t } = f entry) (log : List LogEntry) :
    (applyAnchorTimestampsToLog log).map f = log.map f := by
  induction log with
  | nil => rfl
  | cons entry log ih =>
    by_cases anchor : entry.type = .TIME
    · simp [applyAnchorTimestampsToLog_anchor _ _ anchor, ih]
    · simp [applyAnchorTimestampsToLog_other _ _ anchor, ih, untimed]

def restampedLog (log : NonEmptyArray LogEntry) : NonEmptyArray LogEntry :=
  ⟨applyAnchorTimestampsToLog log.toList, by
    have := log.nonempty
    rw [← List.length_pos_iff] at this ⊢
    simpa using this⟩

@[simp] theorem restampedLog_toList (log : NonEmptyArray LogEntry) :
    (restampedLog log).toList = applyAnchorTimestampsToLog log.toList := rfl

def applyAnchorCommit (commitData : CommitData) (state : StreamState) :
    Except JsError StreamState := do
  StreamUtils.assertCommitLinksToState state commitData.commit
  match commitData.anchorValidationError with
  | some error => throw error
  | none => pure ()
  let log := restampedLog (state.log.push
    { cid := commitData.cid, type := .TIME, timestamp := commitData.timestamp })
  let content := match state.next.bind (·.content) with
    | some content => if content.truthy then content else state.content
    | none => state.content
  let metadata := (state.next.bind (·.metadata)).getD state.metadata
  return { state with
    anchorStatus := .ANCHORED, anchorProof := commitData.proof, log, content, metadata,
    next := none }

namespace SignatureUtils

def DEFAULT_CACAO_REVOCATION_PHASE_OUT_SECS : Nat := 24 * 60 * 60

/-- A capability must name the stream, its payload, its model or every stream. -/
def verifyCapabilityAuthz (commitData : CommitData) (streamId : StreamID) (model : Option StreamID) :
    Except JsError (Option Cacao) :=
  match commitData.capability with
  | none => .ok none
  | some cacao =>
    match commitData.envelope with
    | none => .error ⟨"Cannot read properties of undefined (reading 'link')"⟩
    | some envelope =>
      let onStream := "ceramic://" ++ streamId.toString
      if !cacao.resources.contains "ceramic://*" && !cacao.resources.contains onStream &&
          !cacao.resources.contains (onStream ++ "?payload=" ++ envelope.link.toString) &&
          !(match model with
            | some model => cacao.resources.contains ("ceramic://*?model=" ++ model.toString)
            | none => false)
      then .error ⟨"Capability does not have appropriate permissions to update this Stream"⟩
      else .ok (some cacao)

def verifyCommitSignature (env : Environment) (commitData : CommitData) (controller : JsValue)
    (model : Option StreamID) (streamId : StreamID) : Except JsError Unit :=
  let verified := do
    let cacao ← verifyCapabilityAuthz commitData streamId model
    let atTime := match commitData.timestamp with
      | .seconds n => if n = 0 then none else some n
      | _ => none
    env.verifyJWS commitData.envelope
      ⟨atTime, controller, cacao, DEFAULT_CACAO_REVOCATION_PHASE_OUT_SECS⟩
  match verified with
  | .ok () => .ok ()
  | .error e => .error ⟨"Can not verify signature for commit " ++ commitData.cid.toString ++
      " to stream " ++ streamId.toString ++ " which has controller DID " ++
      env.stringOf controller ++ ": " ++ e.message⟩

/-- Whether an entry's capability had run out, grace period included, when it was
anchored, or has by now when it never was. -/
def cacaoExpired (env : Environment) (logEntry : LogEntry) : Bool :=
  let timestamp := match logEntry.timestamp with
    | .seconds n => n
    | _ => env.now
  match logEntry.expirationTime with
  | none => false
  | some expirationTime =>
    expirationTime != 0 &&
      decide (expirationTime + DEFAULT_CACAO_REVOCATION_PHASE_OUT_SECS < timestamp)

def checkForCacaoExpiration (env : Environment) (state : StreamState) : Except JsError Unit :=
  match state.log.toList.find? (cacaoExpired env) with
  | none => .ok ()
  | some logEntry => .error ⟨"CACAO expired: Commit " ++ logEntry.cid.toString ++ " of Stream " ++
      (StreamUtils.streamIdFromState state).toString ++ " has a CACAO that expired at " ++
      (match logEntry.expirationTime with | some t => toString t | none => "undefined") ++
      ". Loading the stream with 'sync: SyncOptions.ALWAYS_SYNC' will restore the stream to a usable state, by discarding the invalid commits (this means losing the data from those invalid writes!)"⟩

end SignatureUtils

/-- The entry a handler makes for an init or data commit. Caip10Link keeps only the
CID; the others also keep the anchor time and the capability's expiration. -/
def logEntryOf (env : Environment) (streamType : Nat) (commitData : CommitData)
    (type : EventType) : LogEntry :=
  if streamType = CAIP10_LINK_TYPE_ID then { cid := commitData.cid, type }
  else StreamUtils.commitDataToLogEntry env commitData type

@[simp] theorem logEntryOf_cid (env : Environment) (streamType : Nat) (c : CommitData)
    (type : EventType) : (logEntryOf env streamType c type).cid = c.cid := by
  unfold logEntryOf
  split <;> rfl

@[simp] theorem logEntryOf_type (env : Environment) (streamType : Nat) (c : CommitData)
    (type : EventType) : (logEntryOf env streamType c type).type = type := by
  unfold logEntryOf
  split <;> rfl

/-- The entry of an anchor commit. -/
def anchorEntry (commitData : CommitData) : LogEntry :=
  { cid := commitData.cid, type := .TIME, timestamp := commitData.timestamp }

/-- What an applied commit makes of the log. -/
def nextLog (env : Environment) (streamType : Nat) (log : List LogEntry) (commitData : CommitData) :
    List LogEntry :=
  if StreamUtils.isAnchorCommitData commitData
  then applyAnchorTimestampsToLog (log ++ [anchorEntry commitData])
  else log ++ [logEntryOf env streamType commitData .DATA]

/-- What every handler promises about the states it returns and leaves. -/
structure StreamHandler.Lawful (env : Environment) (handler : StreamHandler) : Prop where
  genesis : ∀ {c s}, handler.applyCommit c none = .applied s →
    s.type = handler.type ∧ s.log.toList = [logEntryOf env handler.type c .INIT]
  genesis_left : ∀ {c e left}, handler.applyCommit c none = .threw e left → left = none
  links : ∀ {c s s'}, handler.applyCommit c (some s) = .applied s' →
    StreamUtils.assertCommitLinksToState s c.commit = .ok ()
  type : ∀ {c s s'}, handler.applyCommit c (some s) = .applied s' → s'.type = s.type
  log : ∀ {c s s'}, handler.applyCommit c (some s) = .applied s' →
    s'.log.toList = nextLog env handler.type s.log.toList c
  valid_anchor : ∀ {c s s'}, handler.applyCommit c (some s) = .applied s' →
    StreamUtils.isAnchorCommitData c → c.anchorValidationError = none
  left : ∀ {c s e left}, handler.applyCommit c (some s) = .threw e left →
    ∃ s', left = some s' ∧ s'.type = s.type ∧
      (s'.log = s.log ∨ StreamUtils.isAnchorCommitData c = false ∧
        s'.log.toList = s.log.toList ++ [logEntryOf env handler.type c .DATA])

/-- What an anchor commit makes of a state. -/
def anchoredState (commitData : CommitData) (state : StreamState) : StreamState :=
  { state with
    anchorStatus := .ANCHORED, anchorProof := commitData.proof
    log := restampedLog (state.log.push (anchorEntry commitData))
    content := match state.next.bind (·.content) with
      | some content => if content.truthy then content else state.content
      | none => state.content
    metadata := (state.next.bind (·.metadata)).getD state.metadata
    next := none }

/-- An anchor commit is applied whole or not at all. -/
theorem applyAnchorCommit_ok {c : CommitData} {s s' : StreamState} :
    applyAnchorCommit c s = .ok s' ↔
      StreamUtils.assertCommitLinksToState s c.commit = .ok () ∧
      c.anchorValidationError = none ∧ s' = anchoredState c s := by
  unfold applyAnchorCommit
  cases links : StreamUtils.assertCommitLinksToState s c.commit with
  | error e => simp [bind, Except.bind]
  | ok _ =>
    cases failed : c.anchorValidationError with
    | some e => simp [bind, Except.bind, throw, throwThe, MonadExceptOf.throw]
    | none =>
      simp only [bind, Except.bind, pure, Except.pure, Except.ok.injEq, true_and]
      exact eq_comm

theorem outcome_of_except {given : Option StreamState} {r : Except JsError StreamState}
    {s : StreamState} (h : Outcome.ofExcept given r = .applied s) : r = .ok s := by
  cases r with
  | ok state => simpa [Outcome.ofExcept] using h
  | error e => simp [Outcome.ofExcept] at h

theorem left_of_except {given left : Option StreamState} {r : Except JsError StreamState}
    {e : JsError} (h : Outcome.ofExcept given r = .threw e left) : left = given := by
  cases r with
  | ok state => simp [Outcome.ofExcept] at h
  | error e => simp only [Outcome.ofExcept, Outcome.threw.injEq] at h; exact h.2.symm

/-- The dispatch all handlers share: genesis, anchor or signed commit, unless the
handler refuses every commit in the running mode. -/
def dispatch (genesis : CommitData → Except JsError StreamState)
    (signed : CommitData → StreamState → Outcome) (c : CommitData) : Option StreamState → Outcome
  | none => .ofExcept none (genesis c)
  | some s =>
    if StreamUtils.isAnchorCommitData c then .ofExcept (some s) (applyAnchorCommit c s)
    else signed c s

/-- The laws of a handler follow from those of its genesis and signed commits. -/
theorem StreamHandler.lawful_of_dispatch {env : Environment} {handler : StreamHandler}
    (genesis : CommitData → Except JsError StreamState)
    (signed : CommitData → StreamState → Outcome)
    (dispatches : ∀ c given, handler.applyCommit c given = dispatch genesis signed c given ∨
      ∃ e, handler.applyCommit c given = .threw e given)
    (genesis_ok : ∀ {c s}, genesis c = .ok s →
      s.type = handler.type ∧ s.log.toList = [logEntryOf env handler.type c .INIT])
    (signed_applied : ∀ {c s s'}, signed c s = .applied s' →
      StreamUtils.assertCommitLinksToState s c.commit = .ok () ∧ s'.type = s.type ∧
      s'.log.toList = s.log.toList ++ [logEntryOf env handler.type c .DATA])
    (signed_threw : ∀ {c s e left}, signed c s = .threw e left →
      ∃ s', left = some s' ∧ s'.type = s.type ∧ (s'.log = s.log ∨
        s'.log.toList = s.log.toList ++ [logEntryOf env handler.type c .DATA])) :
    handler.Lawful env := by
  have applied {c s s'} (h : handler.applyCommit c (some s) = .applied s') :
      (StreamUtils.isAnchorCommitData c = true ∧ applyAnchorCommit c s = .ok s') ∨
      (StreamUtils.isAnchorCommitData c = false ∧ signed c s = .applied s') := by
    rcases dispatches c (some s) with shared | ⟨e, blocked⟩
    · rw [shared, dispatch] at h
      cases anchor : StreamUtils.isAnchorCommitData c with
      | true => exact .inl ⟨rfl, outcome_of_except (by simpa [anchor] using h)⟩
      | false => exact .inr ⟨rfl, by simpa [anchor] using h⟩
    · rw [blocked] at h
      cases h
  constructor
  case genesis =>
    intro c s h
    rcases dispatches c none with shared | ⟨e, blocked⟩
    · rw [shared] at h
      exact genesis_ok (outcome_of_except h)
    · rw [blocked] at h
      cases h
  case genesis_left =>
    intro c e left h
    rcases dispatches c none with shared | ⟨e', blocked⟩
    · rw [shared] at h
      exact left_of_except h
    · rw [blocked] at h
      cases h
      rfl
  case links =>
    intro c s s' h
    rcases applied h with ⟨_, ok⟩ | ⟨_, ok⟩
    · exact (applyAnchorCommit_ok.mp ok).1
    · exact (signed_applied ok).1
  case type =>
    intro c s s' h
    rcases applied h with ⟨_, ok⟩ | ⟨_, ok⟩
    · rw [(applyAnchorCommit_ok.mp ok).2.2]
      rfl
    · exact (signed_applied ok).2.1
  case log =>
    intro c s s' h
    rcases applied h with ⟨anchor, ok⟩ | ⟨anchor, ok⟩
    · simp [(applyAnchorCommit_ok.mp ok).2.2, nextLog, anchor, anchoredState]
    · simp [(signed_applied ok).2.2, nextLog, anchor]
  case valid_anchor =>
    intro c s s' h anchor
    rcases applied h with ⟨_, ok⟩ | ⟨other, _⟩
    · exact (applyAnchorCommit_ok.mp ok).2.1
    · simp [anchor] at other
  case left =>
    intro c s e left h
    rcases dispatches c (some s) with shared | ⟨e', blocked⟩
    · rw [shared, dispatch] at h
      cases anchor : StreamUtils.isAnchorCommitData c with
      | true =>
        have same := left_of_except (by simpa [anchor] using h)
        exact ⟨s, same, rfl, .inl rfl⟩
      | false =>
        obtain ⟨s', found, sameType, logs⟩ := signed_threw (by simpa [anchor] using h)
        exact ⟨s', found, sameType, logs.imp_right fun appended => ⟨rfl, appended⟩⟩
    · rw [blocked] at h
      cases h
      exact ⟨s, rfl, rfl, .inl rfl⟩

end Ceramic
