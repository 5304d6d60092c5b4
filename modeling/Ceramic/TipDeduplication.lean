import Ceramic.OutstandingQueries
import Ceramic.ReconEvents
import Ceramic.Library.LruCache

/-! How the dispatcher handles the tips that it learns of from the pubsub topic. -/
namespace Ceramic

/-- What comes of a message. -/
inductive HandledMessage where
  | ignored
  | failed (error : String)
  | dropped (tip : Cid) (streamId : StreamID)
  | processing (update : NetworkUpdate)
  deriving DecidableEq, Repr

/-- The part of the dispatcher that handles messages. -/
structure PubsubDispatcher where
  enableSync : Bool
  pubsubCache : LruCache String String

namespace PubsubDispatcher

def PUBSUB_CACHE_SIZE : Nat := 500

def make (enableSync : Bool) : PubsubDispatcher := ⟨enableSync, .empty String String PUBSUB_CACHE_SIZE⟩

def _handleTip (dispatcher : PubsubDispatcher) (tip : Cid) (streamId : StreamID) (model : Option StreamID) :
    PubsubDispatcher × HandledMessage :=
  let touched := dispatcher.pubsubCache.touch tip.toString
  if dispatcher.pubsubCache.find? tip.toString = some streamId.toString then
    -- already processed for this stream recently
    ({ dispatcher with pubsubCache := touched }, .dropped tip streamId)
  else
    ({ dispatcher with pubsubCache := touched.set tip.toString streamId.toString },
      .processing ⟨streamId, tip, model⟩)

def _handleUpdateMessage (dispatcher : PubsubDispatcher) (stream : StreamID) (tip : Cid) (model : Option StreamID) :
    PubsubDispatcher × HandledMessage :=
  if !dispatcher.enableSync then (dispatcher, .ignored)
  else dispatcher._handleTip tip stream model

def getTip (tips : List (String × Cid)) (streamId : String) : Option Cid :=
  (tips.find? fun entry => entry.1 = streamId).map Prod.snd

def _handleResponseMessage (queryMap : InsertionMap String Query) (dispatcher : PubsubDispatcher) (queryId : String)
    (tips : List (String × Cid)) : PubsubDispatcher × HandledMessage :=
  if !dispatcher.enableSync then (dispatcher, .ignored)
  else
    match queryMap.find? queryId with
    | none => (dispatcher, .ignored)
    | some outstandingQuery =>
      match getTip tips outstandingQuery.streamID.toString with
      | none => (dispatcher, .failed ("Response to query with ID '" ++ queryId ++
          "' is missing expected new tip for StreamID '" ++ outstandingQuery.streamID.toString ++ "'"))
      | some newTip => dispatcher._handleTip newTip outstandingQuery.streamID none

/-- A query is answered from the state of the stream. -/
def handleMessage (queryMap : InsertionMap String Query) (dispatcher : PubsubDispatcher) :
    PubsubMessage → PubsubDispatcher × HandledMessage
  | .update stream tip model => dispatcher._handleUpdateMessage stream tip model
  | .query _ _ => (dispatcher, .ignored)
  | .response id tips => dispatcher._handleResponseMessage queryMap id tips
  | .keepalive _ _ _ => (dispatcher, .ignored)

end PubsubDispatcher

inductive TipEvent where
  | processing (update : NetworkUpdate)
  | finished (streamId : StreamID) (tip : Cid) (succeeded : Bool)
  | dropped (streamId : StreamID) (tip : Cid)
  deriving DecidableEq, Repr

/-- A dispatcher at work: the tips that it is processing, and what has happened, the latest first. -/
structure TipHandling where
  dispatcher : PubsubDispatcher
  pending : List NetworkUpdate
  events : List TipEvent

inductive TipAction where
  /-- A message comes in while these queries are outstanding. -/
  | message (queryMap : InsertionMap String Query) (message : PubsubMessage)
  /-- The processing of one of the tips ends. -/
  | finish (i : Nat) (succeeded : Bool)

namespace TipHandling

/-- Messages are subscribed to if syncing is enabled. -/
def start : TipHandling := ⟨.make true, [], []⟩

def handled (s : TipHandling) (dispatcher : PubsubDispatcher) : HandledMessage → TipHandling
  | .ignored | .failed _ => { s with dispatcher := dispatcher }
  | .dropped tip streamId => { s with dispatcher := dispatcher, events := .dropped streamId tip :: s.events }
  | .processing update =>
    ⟨dispatcher, s.pending ++ [update], .processing update :: s.events⟩

def step (s : TipHandling) : TipAction → Option TipHandling
  | .message queryMap message =>
    let (dispatcher, outcome) := s.dispatcher.handleMessage queryMap message
    some (s.handled dispatcher outcome)
  | .finish i succeeded =>
    match s.pending[i]? with
    | some update => some { s with
        pending := s.pending.eraseIdx i
        events := .finished update.streamId update.tip succeeded :: s.events }
    | none => none

/-- How the processing of a tip ended last. -/
def lastOutcome (streamId : StreamID) (tip : Cid) : List TipEvent → Option Bool
  | [] => none
  | .finished s t succeeded :: earlier =>
    if s = streamId ∧ t = tip then some succeeded else lastOutcome streamId tip earlier
  | _ :: earlier => lastOutcome streamId tip earlier

/-- A tip is dropped only if it was processed successfully before and, if processing it failed at some time, not
without another try. -/
def NothingLost : List TipEvent → Prop
  | [] => True
  | .dropped streamId tip :: earlier =>
    (.finished streamId tip true ∈ earlier ∧ lastOutcome streamId tip earlier ≠ some false) ∧ NothingLost earlier
  | _ :: earlier => NothingLost earlier

/-- The tip that a message tells of. -/
def Tells (queryMap : InsertionMap String Query) (streamId : StreamID) (tip : Cid) : PubsubMessage → Prop
  | .update stream newTip _ => stream = streamId ∧ newTip = tip
  | .response id tips => ∃ query ∈ queryMap.find? id, query.streamID = streamId ∧
      PubsubDispatcher.getTip tips query.streamID.toString = some tip
  | .query _ _ | .keepalive _ _ _ => False

/-- The entry for the tip has not been given up by the cache. -/
def Remembers (s : TipHandling) (streamId : StreamID) (tip : Cid) : Prop :=
  s.dispatcher.pubsubCache.find? tip.toString = some streamId.toString

/-- The tip is being processed. -/
def UnderWay (pending : List NetworkUpdate) (streamId : StreamID) (tip : Cid) : Prop :=
  ∃ update ∈ pending, update.streamId = streamId ∧ update.tip = tip

/-- A remembered tip does not come in again while it is being processed, unless it was processed successfully
before; and the cache has given it up when processing it fails, unless it is being processed once more. -/
def Settled (s : TipHandling) : TipAction → Prop
  | .message queryMap message => ∀ streamId tip, Tells queryMap streamId tip message → s.Remembers streamId tip →
      UnderWay s.pending streamId tip → lastOutcome streamId tip s.events = some true
  | .finish i succeeded => ∀ update ∈ s.pending[i]?, succeeded = false → s.Remembers update.streamId update.tip →
      UnderWay (s.pending.eraseIdx i) update.streamId update.tip

variable {s s' : TipHandling} {action : TipAction} {queryMap : InsertionMap String Query} {message : PubsubMessage}
  {streamId : StreamID} {tip : Cid}

theorem lastOutcome_eq_some_true {events : List TipEvent} : lastOutcome streamId tip events = some true ↔
    .finished streamId tip true ∈ events ∧ lastOutcome streamId tip events ≠ some false := by
  induction events with
  | nil => simp [lastOutcome]
  | cons event earlier ih =>
    cases event with
    | processing update => simp [lastOutcome, ih]
    | dropped => simp [lastOutcome, ih]
    | finished s t succeeded =>
      unfold lastOutcome
      split
      next same =>
        obtain ⟨rfl, rfl⟩ := same
        cases succeeded
        · simp
        · simp
      next other =>
        rw [ih, List.mem_cons]
        refine and_congr_left fun _ => (or_iff_right fun same => ?_).symm
        injection same with sameStream sameTip
        exact other ⟨sameStream.symm, sameTip.symm⟩

theorem nothingLost_dropped {earlier : List TipEvent} : NothingLost (.dropped streamId tip :: earlier) ↔
    lastOutcome streamId tip earlier = some true ∧ NothingLost earlier := by
  rw [NothingLost, lastOutcome_eq_some_true]

/-- A message tells of no tip, or of one that is handled. -/
theorem handleMessage_cases (dispatcher : PubsubDispatcher) (syncing : dispatcher.enableSync = true)
    (queryMap : InsertionMap String Query) (message : PubsubMessage) :
    ((∀ streamId tip, ¬Tells queryMap streamId tip message) ∧
      ((dispatcher.handleMessage queryMap message) = (dispatcher, .ignored) ∨
        ∃ error, dispatcher.handleMessage queryMap message = (dispatcher, .failed error))) ∨
    ∃ streamId tip model, Tells queryMap streamId tip message ∧
      (∀ s t, Tells queryMap s t message → s = streamId ∧ t = tip) ∧
      dispatcher.handleMessage queryMap message = dispatcher._handleTip tip streamId model := by
  cases message with
  | update stream tip model =>
    refine .inr ⟨stream, tip, model, ⟨rfl, rfl⟩, fun s t told => ⟨told.1.symm, told.2.symm⟩, ?_⟩
    simp [PubsubDispatcher.handleMessage, PubsubDispatcher._handleUpdateMessage, syncing]
  | query id stream => exact .inl ⟨fun _ _ told => told, .inl rfl⟩
  | keepalive ts ver ipfsVer => exact .inl ⟨fun _ _ told => told, .inl rfl⟩
  | response id tips =>
    simp only [PubsubDispatcher.handleMessage, PubsubDispatcher._handleResponseMessage, syncing, Tells]
    cases found : queryMap.find? id with
    | none => exact .inl ⟨by simp, .inl rfl⟩
    | some query =>
      cases new : PubsubDispatcher.getTip tips query.streamID.toString with
      | none => exact .inl ⟨by simp [new], .inr ⟨_, by simp only [new]; rfl⟩⟩
      | some tip =>
        refine .inr ⟨query.streamID, tip, none, ⟨query, rfl, rfl, new⟩, ?_, by simp [new]⟩
        rintro s t ⟨other, isOther, rfl, told⟩
        obtain rfl := Option.some.inj isOther
        exact ⟨rfl, Option.some.inj (told.symm.trans new)⟩

/-- What the cache holds after it was read, it held before. -/
theorem remembered_touch {cache : LruCache String String} {key k value : String}
    (found : (cache.touch key).find? k = some value) : cache.find? k = some value :=
  LruCache.find?_of_mem (LruCache.mem_touch (LruCache.mem_of_find? found))

/-- What it holds when the tip is put in, it held before or is that tip. -/
theorem remembered_set {cache : LruCache String String} {otherStream : StreamID} {otherTip : Cid}
    (found : ((cache.touch otherTip.toString).set otherTip.toString otherStream.toString).find? tip.toString =
      some streamId.toString) :
    (streamId = otherStream ∧ tip = otherTip) ∨ cache.find? tip.toString = some streamId.toString := by
  rcases LruCache.mem_set (LruCache.mem_of_find? found) with same | old
  · obtain ⟨sameTip, sameStream⟩ := Prod.mk.inj same
    exact .inl ⟨StreamID.toString_injective sameStream, Cid.toString_injective sameTip⟩
  · exact .inr (remembered_touch (LruCache.find?_of_mem old))

/-- The state after a tip was found in the cache. -/
def drop (s : TipHandling) (streamId : StreamID) (tip : Cid) : TipHandling where
  dispatcher := { s.dispatcher with pubsubCache := s.dispatcher.pubsubCache.touch tip.toString }
  pending := s.pending
  events := .dropped streamId tip :: s.events

/-- The state after a tip was put into the cache. -/
def process (s : TipHandling) (update : NetworkUpdate) : TipHandling where
  dispatcher := { s.dispatcher with
    pubsubCache :=
      (s.dispatcher.pubsubCache.touch update.tip.toString).set update.tip.toString update.streamId.toString }
  pending := s.pending ++ [update]
  events := .processing update :: s.events

theorem message_cases (syncing : s.dispatcher.enableSync = true)
    (stepped : s.step (.message queryMap message) = some s') :
    ((∀ streamId tip, ¬Tells queryMap streamId tip message) ∧ s' = s) ∨
    ∃ streamId tip model, Tells queryMap streamId tip message ∧
      (∀ s t, Tells queryMap s t message → s = streamId ∧ t = tip) ∧
      ((s.Remembers streamId tip ∧ s' = s.drop streamId tip) ∨
        (¬s.Remembers streamId tip ∧ s' = s.process ⟨streamId, tip, model⟩)) := by
  have result : s' = s.handled (s.dispatcher.handleMessage queryMap message).1
      (s.dispatcher.handleMessage queryMap message).2 := (Option.some.inj stepped).symm
  rcases handleMessage_cases s.dispatcher syncing queryMap message with
    ⟨silent, ignored | ⟨error, failed⟩⟩ | ⟨streamId, tip, model, tells, only, isHandled⟩
  · exact .inl ⟨silent, by rw [result, ignored]; rfl⟩
  · exact .inl ⟨silent, by rw [result, failed]; rfl⟩
  · refine .inr ⟨streamId, tip, model, tells, only, ?_⟩
    by_cases hit : s.Remembers streamId tip
    · have dropped : s.dispatcher._handleTip tip streamId model = _ := if_pos hit
      exact .inl ⟨hit, by rw [result, isHandled, dropped]; rfl⟩
    · have processing : s.dispatcher._handleTip tip streamId model = _ := if_neg hit
      exact .inr ⟨hit, by rw [result, isHandled, processing]; rfl⟩

theorem UnderWay.append {pending : List NetworkUpdate} (underWay : UnderWay pending streamId tip)
    (more : List NetworkUpdate) : UnderWay (pending ++ more) streamId tip := by
  obtain ⟨update, member, same⟩ := underWay
  exact ⟨update, List.mem_append_left _ member, same⟩

/-- Another tip stays under way when one of them ends. -/
theorem UnderWay.erase {pending : List NetworkUpdate} {i : Nat} {ended : NetworkUpdate}
    (underWay : UnderWay pending streamId tip) (here : pending[i]? = some ended)
    (other : ¬(ended.streamId = streamId ∧ ended.tip = tip)) : UnderWay (pending.eraseIdx i) streamId tip := by
  obtain ⟨update, member, same⟩ := underWay
  obtain ⟨j, there⟩ := List.mem_iff_getElem?.mp member
  have apart : j ≠ i := by
    rintro rfl
    obtain rfl := Option.some.inj (here.symm.trans there)
    exact other same
  exact ⟨update, List.mem_eraseIdx_iff_getElem?.mpr ⟨j, apart, there⟩, same⟩

/-- What holds of a dispatcher while its steps meet the condition. -/
structure Fresh (s : TipHandling) : Prop where
  syncing : s.dispatcher.enableSync = true
  remembered : ∀ streamId tip, s.Remembers streamId tip →
    UnderWay s.pending streamId tip ∨ lastOutcome streamId tip s.events = some true
  nothingLost : NothingLost s.events

theorem fresh_start : start.Fresh := ⟨rfl, nofun, trivial⟩

/-- A message loses nothing exactly if it meets the condition. -/
theorem nothingLost_message (fresh : s.Fresh) (stepped : s.step (.message queryMap message) = some s') :
    NothingLost s'.events ↔ s.Settled (.message queryMap message) := by
  rcases message_cases fresh.syncing stepped with
    ⟨silent, rfl⟩ | ⟨streamId, tip, model, tells, only, ⟨hit, rfl⟩ | ⟨miss, rfl⟩⟩
  · exact iff_of_true fresh.nothingLost fun streamId tip tells => absurd tells (silent streamId tip)
  · constructor
    · intro justified s t told _ _
      obtain ⟨rfl, rfl⟩ := only s t told
      exact (nothingLost_dropped.mp justified).1
    · intro settled
      refine nothingLost_dropped.mpr ⟨?_, fresh.nothingLost⟩
      rcases fresh.remembered streamId tip hit with underWay | succeeded
      · exact settled streamId tip tells hit underWay
      · exact succeeded
  · refine iff_of_true fresh.nothingLost fun s t told remembers => ?_
    obtain ⟨rfl, rfl⟩ := only s t told
    exact absurd remembers miss

theorem Fresh.handle (fresh : s.Fresh) (settled : s.Settled (.message queryMap message))
    (stepped : s.step (.message queryMap message) = some s') : s'.Fresh := by
  have nothingLost := (nothingLost_message fresh stepped).mpr settled
  rcases message_cases fresh.syncing stepped with
    ⟨-, rfl⟩ | ⟨streamId, tip, model, -, -, ⟨-, rfl⟩ | ⟨-, rfl⟩⟩
  · exact fresh
  · exact ⟨fresh.syncing, fun s t remembers => fresh.remembered s t (remembered_touch remembers), nothingLost⟩
  · refine ⟨fresh.syncing, fun s t remembers => ?_, nothingLost⟩
    rcases remembered_set remembers with ⟨rfl, rfl⟩ | before
    · exact .inl ⟨_, List.mem_append_right _ List.mem_cons_self, rfl, rfl⟩
    · exact (fresh.remembered s t before).imp_left fun underWay => underWay.append _

theorem finish_eq {i : Nat} {succeeded : Bool} (stepped : s.step (.finish i succeeded) = some s') :
    ∃ update, s.pending[i]? = some update ∧ s' = { s with
      pending := s.pending.eraseIdx i
      events := .finished update.streamId update.tip succeeded :: s.events } := by
  unfold step at stepped
  dsimp only at stepped
  split at stepped
  next update here => exact ⟨update, here, (Option.some.inj stepped).symm⟩
  next => cases stepped

theorem Fresh.ended {i : Nat} {succeeded : Bool} (fresh : s.Fresh) (settled : s.Settled (.finish i succeeded))
    (stepped : s.step (.finish i succeeded) = some s') : s'.Fresh := by
  obtain ⟨update, here, rfl⟩ := finish_eq stepped
  refine ⟨fresh.syncing, fun streamId tip remembers => ?_, fresh.nothingLost⟩
  by_cases ended : update.streamId = streamId ∧ update.tip = tip
  · obtain ⟨rfl, rfl⟩ := ended
    cases succeeded with
    | true => exact .inr (if_pos ⟨rfl, rfl⟩)
    | false => exact .inl (settled update here rfl remembers)
  · rcases fresh.remembered streamId tip remembers with underWay | before
    · exact .inl (underWay.erase here ended)
    · exact .inr ((if_neg ended).trans before)

theorem Fresh.step (fresh : s.Fresh) (settled : s.Settled action) (stepped : s.step action = some s') : s'.Fresh := by
  cases action with
  | message queryMap message => exact fresh.handle settled stepped
  | finish i succeeded => exact fresh.ended settled stepped

/-- A remembered tip of which the last processing failed is dropped if it comes in again. -/
theorem lost_again (syncing : s.dispatcher.enableSync = true) (remembers : s.Remembers streamId tip)
    (ended : ¬UnderWay s.pending streamId tip) (failed : lastOutcome streamId tip s.events = some false)
    (queryMap : InsertionMap String Query) (model : Option StreamID) :
    s.Settled (.message queryMap (.update streamId tip model)) ∧
      ∀ s', s.step (.message queryMap (.update streamId tip model)) = some s' → ¬NothingLost s'.events := by
  refine ⟨?_, fun s' again justified => ?_⟩
  · rintro _ _ ⟨rfl, rfl⟩ _ underWay
    exact absurd underWay ended
  · rcases message_cases syncing again with
      ⟨silent, -⟩ | ⟨_, _, _, ⟨rfl, rfl⟩, -, ⟨-, rfl⟩ | ⟨miss, -⟩⟩
    · exact silent _ _ ⟨rfl, rfl⟩
    · have succeeded := (nothingLost_dropped.mp justified).1
      exact absurd (succeeded.symm.trans failed) (by simp)
    · exact miss remembers

/-- When a processing ends that does not meet the condition, the tip is dropped if it comes in again. -/
theorem lost_of_unsettled {i : Nat} {succeeded : Bool} (fresh : s.Fresh)
    (stepped : s.step (.finish i succeeded) = some s') (unsettled : ¬s.Settled (.finish i succeeded)) :
    ∃ message s'', s'.Settled (.message queryMap message) ∧ s'.step (.message queryMap message) = some s'' ∧
      ¬NothingLost s''.events := by
  obtain ⟨update, here, rfl⟩ := finish_eq stepped
  obtain ⟨again, isAgain, rfl, remembers, ended⟩ : ∃ again ∈ s.pending[i]?, succeeded = false ∧
      s.Remembers again.streamId again.tip ∧ ¬UnderWay (s.pending.eraseIdx i) again.streamId again.tip := by
    simpa only [Settled, not_forall, exists_prop] using unsettled
  obtain rfl := Option.some.inj (here.symm.trans isAgain)
  obtain ⟨settled, lost⟩ := @lost_again { s with
      pending := s.pending.eraseIdx i
      events := .finished update.streamId update.tip false :: s.events } _ _ fresh.syncing remembers ended
    (if_pos ⟨rfl, rfl⟩) queryMap update.model
  exact ⟨_, _, settled, rfl, lost _ rfl⟩

/-- In every run whose steps meet the condition a tip is dropped only if it was processed successfully before, and not
after processing it failed. A further message leaves it so exactly if it meets the condition, and after a failure
that does not meet it there is a message that is lost. -/
theorem nothing_lost (reaches : Transition.Reaches step Settled start s) :
    NothingLost s.events ∧
    (∀ queryMap message s', s.step (.message queryMap message) = some s' →
      (NothingLost s'.events ↔ s.Settled (.message queryMap message))) ∧
    ∀ i succeeded s', s.step (.finish i succeeded) = some s' → ¬s.Settled (.finish i succeeded) →
      ∃ queryMap message s'', s'.Settled (.message queryMap message) ∧
        s'.step (.message queryMap message) = some s'' ∧ ¬NothingLost s''.events := by
  have fresh : s.Fresh := reaches.invariant fresh_start fun _ _ _ fresh settled stepped => fresh.step settled stepped
  refine ⟨fresh.nothingLost, fun _ _ _ stepped => nothingLost_message fresh stepped, ?_⟩
  intro i succeeded s' stepped unsettled
  exact ⟨.empty String Query, lost_of_unsettled fresh stepped unsettled⟩

def tippedStream : StreamID := ⟨TILE_TYPE_ID, ⟨[1]⟩⟩

/-- A tip that is published twice. -/
def publishedTip : TipAction := .message (.empty String Query) (.update tippedStream ⟨[2]⟩ none)

/-- It comes in again when it has been processed. -/
def publishedAgain (succeeded : Bool) : List TipAction := [publishedTip, .finish 0 succeeded, publishedTip]

def afterTips (actions : List TipAction) : TipHandling := (Transition.run step start actions).getD start

theorem events_publishedAgain (succeeded : Bool) : (afterTips (publishedAgain succeeded)).events =
    [.dropped tippedStream ⟨[2]⟩, .finished tippedStream ⟨[2]⟩ succeeded, .processing ⟨tippedStream, ⟨[2]⟩, none⟩] :=
  rfl

theorem nothing_lost_publishedAgain : NothingLost (afterTips (publishedAgain true)).events :=
  (nothing_lost (Transition.reaches_of_run
    (rfl : Transition.run step start (publishedAgain true) = some (afterTips (publishedAgain true)))
    ⟨nofun, nofun, fun _ _ _ _ ⟨_, member, _⟩ => absurd member List.not_mem_nil, trivial⟩)).1

/-- A tip that could not be processed is not tried again. -/
theorem tip_lost : ¬∀ s : TipHandling, Transition.Reaches step (fun _ _ => True) start s → NothingLost s.events := by
  intro never
  have ran : Transition.run step start (publishedAgain false) = some (afterTips (publishedAgain false)) := rfl
  have justified := never _ (Transition.reaches_of_run ran (by decide))
  rw [events_publishedAgain] at justified
  exact absurd justified.1.1 (by decide)

end TipHandling

end Ceramic
