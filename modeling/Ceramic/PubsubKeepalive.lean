import Ceramic.PubsubMessage
import Ceramic.Library.Transition

/-! `PubsubKeepalive` on a clock. A moment is counted in half milliseconds, so that half of an interval
is a whole number of them; `Date.now()` shows whole milliseconds. -/
namespace Ceramic

/-- `Date.now()` -/
def dateNow (moment : Nat) : Nat := moment / 2

/-- `published` is what went to the underlying pubsub, the latest first, with its dates. -/
structure PubsubKeepalive where
  maxPubsubPublishInterval : Nat
  maxIntervalWithoutKeepalive : Nat
  lastPublishedMessageDate : Int
  lastPublishedKeepAliveMessageDate : Int
  _ipfsVersion : Option String
  published : List (Nat × PubsubMessage)

namespace PubsubKeepalive

def make (maxPubsubPublishInterval maxIntervalWithoutKeepalive now : Nat) : PubsubKeepalive where
  maxPubsubPublishInterval := maxPubsubPublishInterval
  maxIntervalWithoutKeepalive := maxIntervalWithoutKeepalive
  lastPublishedMessageDate := (now : Int) - maxPubsubPublishInterval
  -- start at 0 so it always publishes once on startup
  lastPublishedKeepAliveMessageDate := 0
  _ipfsVersion := none
  published := []

/-- `Math.min(maxPubsubPublishInterval / 2, maxIntervalWithoutKeepalive / 2)`, in half milliseconds -/
def interval (k : PubsubKeepalive) : Nat := min k.maxPubsubPublishInterval k.maxIntervalWithoutKeepalive

def next (k : PubsubKeepalive) (now : Nat) (message : PubsubMessage) : PubsubKeepalive :=
  { k with
    lastPublishedMessageDate := now
    lastPublishedKeepAliveMessageDate :=
      if message.typ = .keepalive then (now : Int) else k.lastPublishedKeepAliveMessageDate
    published := (now, message) :: k.published }

def needToPublishKeepaliveOnceADay (k : PubsubKeepalive) (now : Nat) : Prop :=
  (k.maxIntervalWithoutKeepalive : Int) < now - k.lastPublishedKeepAliveMessageDate

/-- `now - lastPublishedMessageDate >= maxPubsubPublishInterval / 2` -/
def needToPublishKeepaliveInactivity (k : PubsubKeepalive) (now : Nat) : Prop :=
  (k.maxPubsubPublishInterval : Int) ≤ 2 * (now - k.lastPublishedMessageDate)

instance (k : PubsubKeepalive) (now : Nat) : Decidable (k.needToPublishKeepaliveOnceADay now) :=
  inferInstanceAs (Decidable ((k.maxIntervalWithoutKeepalive : Int) < now - k.lastPublishedKeepAliveMessageDate))

instance (k : PubsubKeepalive) (now : Nat) : Decidable (k.needToPublishKeepaliveInactivity now) :=
  inferInstanceAs (Decidable ((k.maxPubsubPublishInterval : Int) ≤ 2 * (now - k.lastPublishedMessageDate)))

def publishPubsubKeepaliveIfNeeded (version : String) (k : PubsubKeepalive) (now : Nat) (ipfsVersion : String) :
    PubsubKeepalive :=
  if ¬k.needToPublishKeepaliveInactivity now ∧ ¬k.needToPublishKeepaliveOnceADay now then k
  else k.next now (.keepalive now version ipfsVersion)

/-- The version of IPFS is asked for until there is one. -/
def knownVersion (k : PubsubKeepalive) (answer : String) : String :=
  match k._ipfsVersion with
  | some known => if known = "" then answer else known
  | none => answer

/-- What the timer runs. -/
def onInterval (version : String) (k : PubsubKeepalive) (now : Nat) (answer : String) : PubsubKeepalive :=
  { k with _ipfsVersion := some (k.knownVersion answer) }.publishPubsubKeepaliveIfNeeded version now
    (k.knownVersion answer)

end PubsubKeepalive

/-- `PubsubKeepalive` from the moment it is subscribed to, with the next tick of its timer. -/
structure KeepaliveTimer where
  keepalive : PubsubKeepalive
  now : Nat
  nextTick : Nat

inductive KeepaliveAction where
  | next (moment : Nat) (message : PubsubMessage)
  | tick (ipfsVersion : String)

namespace KeepaliveTimer

/-- The dispatcher's message bus subscribes as soon as it is made. -/
def subscribed (maxPubsubPublishInterval maxIntervalWithoutKeepalive now : Nat) : KeepaliveTimer where
  keepalive := .make maxPubsubPublishInterval maxIntervalWithoutKeepalive (dateNow now)
  now := now
  nextTick := now + min maxPubsubPublishInterval maxIntervalWithoutKeepalive

/-- Time does not pass a tick that is due. -/
def step (version : String) (t : KeepaliveTimer) : KeepaliveAction → Option KeepaliveTimer
  | .next moment message =>
    if t.now ≤ moment ∧ moment ≤ t.nextTick then
      some { t with keepalive := t.keepalive.next (dateNow moment) message, now := moment }
    else none
  | .tick ipfsVersion => some {
      keepalive := t.keepalive.onInterval version (dateNow t.nextTick) ipfsVersion
      now := t.nextTick
      nextTick := t.nextTick + t.keepalive.interval }

end KeepaliveTimer

end Ceramic
