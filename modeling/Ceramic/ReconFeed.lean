import Ceramic.ReconEvents
import Ceramic.Library.Transition

/-! Polling the Recon feed and handling what it has. A response is emitted as it arrives and waits
until those before it are handled; its cursor is stored after its events. A crash leaves the
stored cursor alone. -/
namespace Ceramic

def FEED_LIMIT : Nat := 1000

/-- The events that come after a cursor, and the cursor after them. A cursor is read as the
number of events before it. -/
structure ReconEventFeedResponse where
  events : List Cid
  cursor : Nat
  deriving DecidableEq, Repr

/-- A run of `handleReconEvents`. -/
structure ReconBatch where
  response : ReconEventFeedResponse
  left : List Cid
  outcomes : List (Cid × Except JsError Handled) := []
  deriving DecidableEq

/-- What a node has in memory from its start to its end. -/
structure ReconSession where
  /-- The cursor that was stored at the start. -/
  initialCursor : Nat
  /-- `prev.cursor`. -/
  cursor : Nat
  /-- The responses that `concatMap` holds back. -/
  buffer : List ReconEventFeedResponse := []
  batch : Option ReconBatch := none
  /-- Handling a response has thrown, which ends the subscription. -/
  ended : Bool := false
  /-- The events that were emitted, and those that were handled. -/
  emitted : List Cid := []
  attempted : List Cid := []
  deriving DecidableEq

structure ReconFeed where
  /-- All events that the feed has. -/
  events : List Cid := []
  /-- `RECON_STORE_CURSOR_KEY`. -/
  storedCursor : Nat := 0
  session : Option ReconSession := none
  /-- How handling the events has ended, in this session and in those before. -/
  handled : List (Cid × Except JsError Handled) := []
  deriving DecidableEq

inductive ReconAction where
  /-- The feed has one more event. -/
  | publish (cid : Cid)
  | init
  /-- The feed answers with so many events. -/
  | poll (count : Nat)
  /-- The request fails and will be retried. -/
  | pollFailed
  | next
  | handle (moment : Nat)
  /-- `reconStore.put`. -/
  | put (result : Except JsError Unit)
  | crash
  deriving DecidableEq

namespace ReconSession

/-- A response without events is filtered out. -/
def emit (session : ReconSession) (response : ReconEventFeedResponse) : ReconSession :=
  let polled := { session with cursor := response.cursor, emitted := session.emitted ++ response.events }
  if response.events.isEmpty || session.ended then polled
  else { polled with buffer := session.buffer ++ [response] }

end ReconSession

namespace ReconFeed

variable (node : ReconNode)

/-- `GET /ceramic/feed/events?resumeAt=cursor&limit=FEED_LIMIT`. -/
def response (feed : ReconFeed) (cursor count : Nat) : ReconEventFeedResponse :=
  let events := (feed.events.drop cursor).take (min count FEED_LIMIT)
  ⟨events, cursor + events.length⟩

def step (feed : ReconFeed) : ReconAction → Option ReconFeed
  | .publish cid => some { feed with events := feed.events ++ [cid] }
  | .init =>
    match feed.session with
    | none => some { feed with
        session := some { initialCursor := feed.storedCursor, cursor := feed.storedCursor } }
    | some _ => none
  | .poll count => do
    let session ← feed.session
    return { feed with session := some (session.emit (feed.response session.cursor count)) }
  | .pollFailed => some feed
  | .next => do
    let session ← feed.session
    match session.batch, session.buffer with
    | none, response :: buffer =>
      some { feed with session := some { session with
        buffer, batch := some { response, left := response.events } } }
    | _, _ => none
  | .handle moment => do
    let session ← feed.session
    let batch ← session.batch
    match batch.left with
    | cid :: left =>
      let outcome := (node.handleReconEvent ⟨moment, cid⟩).outcome
      some { feed with
        handled := feed.handled ++ [(cid, outcome)]
        session := some { session with
          attempted := session.attempted ++ [cid]
          batch := some { batch with left, outcomes := batch.outcomes ++ [(cid, outcome)] } } }
    | [] => none
  | .put result => do
    let session ← feed.session
    let batch ← session.batch
    match batch.left, result with
    | [], .ok () => some { feed with
        storedCursor := batch.response.cursor
        session := some { session with batch := none } }
    | [], .error _ => some { feed with
        session := some { session with batch := none, buffer := [], ended := true } }
    | _ :: _, _ => none
  | .crash => some { feed with session := none }

end ReconFeed

end Ceramic
