import Ceramic.FeedCompleteness
import Ceramic.StreamUtils
import Mathlib.Logic.Function.Basic

/-! The feed of documents. Behind the entries that a reader is given, a transformer looks up the state
that each stream has by then. A consumer that loses its connection resumes behind the last document
that it received. The streams are those that are pinned or indexed; of others the feed never hears. -/
namespace Ceramic

open StreamUtils

structure FeedDocument where
  resumeToken : FeedKey
  commitId : CommitID
  content : JsValue
  metadata : Option StreamMetadata
  eventType : EventType

/-- `commitIdFromStreamState`. -/
def StreamUtils.commitIdFromStreamState (state : StreamState) : CommitID :=
  .make state.type state.log.first.cid (some (tipFromState state))

namespace FeedDocument

/-- What is pending goes before what is anchored, even where it is not there. -/
def fromStreamState (resumeToken : FeedKey) (streamState : StreamState) : FeedDocument where
  resumeToken
  commitId := commitIdFromStreamState streamState
  content := match streamState.next with
    | some next => next.content.getD .undefined
    | none => streamState.content
  metadata := match streamState.next with
    | some next => next.metadata
    | none => some streamState.metadata
  eventType := streamState.log.last.type

def streamId (document : FeedDocument) : StreamID := document.commitId.baseID

@[simp] theorem streamId_fromStreamState (token : FeedKey) (state : StreamState) :
    (fromStreamState token state).streamId = streamIdFromState state := rfl

@[simp] theorem resumeToken_fromStreamState (token : FeedKey) (state : StreamState) :
    (fromStreamState token state).resumeToken = token := rfl

end FeedDocument

/-- Where `transform` stands with the next entry. -/
inductive TransformStage where
  /-- The entry is not looked at yet. -/
  | idle
  /-- Its stream is not in memory, and the state store has been asked. -/
  | missed
  /-- The answer of the state store. -/
  | loaded (found : Option StreamState)
  deriving DecidableEq

/-- A node and one consumer of its documents. `documents(gt)` was called last, by a consumer that
began with `after`; the first `transformed` of the entries that were enqueued since are done. -/
structure DocumentFeed where
  feed : Feed
  inmemory : StreamID → Option StreamState
  stateStore : StreamID → Option StreamState
  /-- Streams whose new state is not in the state store yet. -/
  changed : List StreamID
  /-- Streams whose new state is stored and that are not put into the feed yet. -/
  pinned : List StreamID
  after : FeedKey
  gt : FeedKey
  transformed : Nat
  stage : TransformStage
  documents : List FeedDocument

inductive NodeAction where
  /-- `state$.next(state)`. -/
  | next (state : StreamState)
  | pin (id : StreamID)
  | put (id : StreamID) (now : Nat)
  /-- What else happens between the store of the feed and its reader. -/
  | feed (action : FeedAction)
  /-- A stream gets into memory and out of it. -/
  | register (id : StreamID)
  | evict (id : StreamID)
  /-- `transform` is called, asks the state store, and has its answer. -/
  | transform
  | load
  | loaded
  /-- The consumer has received so many documents when it resumes. -/
  | resume (received : Nat)

namespace DocumentFeed

def streamState (node : DocumentFeed) (id : StreamID) : Option StreamState :=
  (node.inmemory id).or (node.stateStore id)

/-- `documents(after)`. -/
def documentsAfter (keyGenerator : MonotonicKey) (store : FeedStore) (inmemory stateStore : StreamID → Option StreamState)
    (after : FeedKey) : DocumentFeed :=
  { feed := .streamIDs keyGenerator store after, inmemory, stateStore, changed := [], pinned := [], after
    gt := after, transformed := 0, stage := .idle, documents := [] }

def nextEntry (node : DocumentFeed) : Option FeedEntry := node.feed.enqueued[node.transformed]?

/-- A stream that is not found is passed over. -/
def enqueue (node : DocumentFeed) (entry : FeedEntry) (found : Option StreamState) : DocumentFeed :=
  { node with
    transformed := node.transformed + 1, stage := .idle
    documents := node.documents ++ (found.map (FeedDocument.fromStreamState entry.key)).toList }

/-- The token of the last document, or the one that the consumer began with. -/
def resumeToken (after : FeedKey) (documents : List FeedDocument) : FeedKey :=
  (documents.getLast?.map (·.resumeToken)).getD after

def resume (node : DocumentFeed) (received : Nat) : DocumentFeed :=
  let documents := node.documents.take received
  let gt := resumeToken node.after documents
  { node with
    feed := { node.feed with token := gt, pull := .idle, enqueued := [] }
    gt, transformed := 0, stage := .idle, documents }

def step (node : DocumentFeed) : NodeAction → Option DocumentFeed
  | .next state =>
    let id := streamIdFromState state
    some { node with
      inmemory := Function.update node.inmemory id (some state), changed := node.changed ++ [id] }
  | .pin id =>
    if id ∈ node.changed then
      (node.inmemory id).map fun state => { node with
        stateStore := Function.update node.stateStore id (some state)
        changed := node.changed.erase id, pinned := node.pinned ++ [id] }
    else none
  | .put id now =>
    if id ∈ node.pinned then
      some { node with feed := node.feed.put id now, pinned := node.pinned.erase id }
    else none
  | .feed (.put _ _) => none
  | .feed action => (node.feed.step action).map fun feed => { node with feed }
  | .register id =>
    if node.inmemory id = none then
      some { node with inmemory := Function.update node.inmemory id (node.stateStore id) }
    else none
  | .evict id => some { node with inmemory := Function.update node.inmemory id none }
  | .transform =>
    match node.stage, node.nextEntry with
    | .idle, some entry => match node.inmemory entry.streamID with
      | some found => some (node.enqueue entry (some found))
      | none => some { node with stage := .missed }
    | _, _ => none
  | .load =>
    match node.stage, node.nextEntry with
    | .missed, some entry => some { node with stage := .loaded (node.stateStore entry.streamID) }
    | _, _ => none
  | .loaded =>
    match node.stage, node.nextEntry with
    | .loaded found, some entry => some (node.enqueue entry found)
    | _, _ => none
  | .resume received => some (node.resume received)

/-- What a step does, and where it can be taken. -/
theorem step_cases {node node' : DocumentFeed} {action : NodeAction} (stepped : node.step action = some node') :
    (∃ state, action = .next state ∧ node' = { node with
      inmemory := Function.update node.inmemory (streamIdFromState state) (some state)
      changed := node.changed ++ [streamIdFromState state] }) ∨
    (∃ id state, action = .pin id ∧ id ∈ node.changed ∧ node.inmemory id = some state ∧ node' = { node with
      stateStore := Function.update node.stateStore id (some state)
      changed := node.changed.erase id, pinned := node.pinned ++ [id] }) ∨
    (∃ id now, action = .put id now ∧ id ∈ node.pinned ∧
      node' = { node with feed := node.feed.put id now, pinned := node.pinned.erase id }) ∨
    (∃ act feed, action = .feed act ∧ node.feed.step act = some feed ∧ node' = { node with feed }) ∨
    (∃ id, action = .register id ∧ node.inmemory id = none ∧
      node' = { node with inmemory := Function.update node.inmemory id (node.stateStore id) }) ∨
    (∃ id, action = .evict id ∧ node' = { node with inmemory := Function.update node.inmemory id none }) ∨
    (∃ entry found, action = .transform ∧ node.nextEntry = some entry ∧
      node.inmemory entry.streamID = some found ∧ node' = node.enqueue entry (some found)) ∨
    (action = .transform ∧ node' = { node with stage := .missed }) ∨
    (∃ entry, action = .load ∧ node.nextEntry = some entry ∧
      node' = { node with stage := .loaded (node.stateStore entry.streamID) }) ∨
    (∃ entry found, action = .loaded ∧ node.nextEntry = some entry ∧ node.stage = .loaded found ∧
      node' = node.enqueue entry found) ∨
    ∃ received, action = .resume received ∧ node' = node.resume received := by
  cases action with
  | next state => exact .inl ⟨state, rfl, (Option.some.inj stepped).symm⟩
  | pin id =>
    simp only [step, Option.ite_none_right_eq_some, Option.map_eq_some_iff] at stepped
    obtain ⟨member, state, held, rfl⟩ := stepped
    exact .inr (.inl ⟨id, state, rfl, member, held, rfl⟩)
  | put id now =>
    obtain ⟨member, isNode⟩ := Option.ite_some_none_eq_some.mp stepped
    exact .inr (.inr (.inl ⟨id, now, rfl, member, isNode.symm⟩))
  | feed action =>
    have inner : ∃ feed, node.feed.step action = some feed ∧ node' = { node with feed } := by
      cases action with
      | put => cases stepped
      | _ =>
        obtain ⟨feed, moved, rfl⟩ := Option.map_eq_some_iff.mp stepped
        exact ⟨feed, moved, rfl⟩
    obtain ⟨feed, moved, rfl⟩ := inner
    exact .inr (.inr (.inr (.inl ⟨action, feed, rfl, moved, rfl⟩)))
  | register id =>
    obtain ⟨absent, isNode⟩ := Option.ite_some_none_eq_some.mp stepped
    exact .inr (.inr (.inr (.inr (.inl ⟨id, rfl, absent, isNode.symm⟩))))
  | evict id => exact .inr (.inr (.inr (.inr (.inr (.inl ⟨id, rfl, (Option.some.inj stepped).symm⟩)))))
  | transform =>
    simp only [step] at stepped
    split at stepped
    next entry _ isNext =>
      split at stepped
      next found held =>
        exact .inr (.inr (.inr (.inr (.inr (.inr (.inl
          ⟨entry, found, rfl, isNext, held, (Option.some.inj stepped).symm⟩))))))
      next =>
        exact .inr (.inr (.inr (.inr (.inr (.inr (.inr (.inl ⟨rfl, (Option.some.inj stepped).symm⟩)))))))
    next => cases stepped
  | load =>
    simp only [step] at stepped
    split at stepped
    next entry _ isNext =>
      exact .inr (.inr (.inr (.inr (.inr (.inr (.inr (.inr (.inl
        ⟨entry, rfl, isNext, (Option.some.inj stepped).symm⟩))))))))
    next => cases stepped
  | loaded =>
    simp only [step] at stepped
    split at stepped
    next found entry isStage isNext =>
      exact .inr (.inr (.inr (.inr (.inr (.inr (.inr (.inr (.inr (.inl
        ⟨entry, found, rfl, isNext, isStage, (Option.some.inj stepped).symm⟩)))))))))
    next => cases stepped
  | resume received =>
    exact .inr (.inr (.inr (.inr (.inr (.inr (.inr (.inr (.inr (.inr
      ⟨received, rfl, (Option.some.inj stepped).symm⟩)))))))))

end DocumentFeed

end Ceramic
