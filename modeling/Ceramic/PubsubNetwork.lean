import Ceramic.StreamNetwork
import Ceramic.TipDeduplication

/-! Nodes that tell each other about the tips of their streams over the pubsub topic: updates, queries and
the responses to them, of which any may be lost, repeated and overtaken by others. Seen from one stream the
topic does what `StreamNetwork` says. -/
namespace Ceramic

open StreamUtils Transition

/-- What a node has: the tips it has learned of, the queries it waits for responses to, and the state of each
stream that its repository holds. -/
structure PubsubNode (Queue : Type) where
  tips : TipHandling
  outstandingQueries : OutstandingQueries Queue
  held : StreamID → Option StreamState

namespace PubsubNode

variable {Queue : Type}

/-- The tip of a stream that is held is sent back under the id of the query. -/
def _handleQueryMessage (node : PubsubNode Queue) (id : String) (streamId : StreamID) : List PubsubMessage :=
  match node.held streamId with
  | some streamState => [.response id [(streamId.toString, tipFromState streamState)]]
  | none => []

/-- What is published in return, and the node after the message. -/
def handleMessage (node : PubsubNode Queue) (message : PubsubMessage) : List PubsubMessage × PubsubNode Queue :=
  match message with
  | .query id streamId => (node._handleQueryMessage id streamId, node)
  | message =>
    let (dispatcher, outcome) := node.tips.dispatcher.handleMessage node.outstandingQueries.queryMap message
    ([], { node with tips := node.tips.handled dispatcher outcome })

def hold (node : PubsubNode Queue) (streamId : StreamID) (state : StreamState) : PubsubNode Queue :=
  { node with held := Function.update node.held streamId (some state) }

def finish (node : PubsubNode Queue) (i : Nat) (update : NetworkUpdate) (succeeded : Bool) : PubsubNode Queue :=
  { node with tips := {
      node.tips with
      pending := node.tips.pending.eraseIdx i
      events := .finished update.streamId update.tip succeeded :: node.tips.events } }

/-- A stream that is neither held nor indexed is left alone. -/
def handleUpdateFromNetwork (env : Environment) (store : CommitStore) (node : PubsubNode Queue) (i : Nat)
    (update : NetworkUpdate) : PubsubNode Queue :=
  match node.held update.streamId with
  | none => node.finish i update true
  | some state =>
    match StreamUpdater.applyTipFromNetwork env store state update.tip with
    | .ok next => (node.hold update.streamId next).finish i update true
    | .error _ => node.finish i update false

/-- What a commit makes of the stream, where it is applied. -/
def afterCommit (node : PubsubNode Queue) (streamId : StreamID) (applied : Except JsError StreamState) :
    PubsubNode Queue :=
  match applied with
  | .ok next => node.hold streamId next
  | .error _ => node

def query (queue : PriorityQueue Queue Query) (node : PubsubNode Queue) (now : Nat) (streamId : StreamID)
    (id : String) : PubsubNode Queue :=
  { node with outstandingQueries := node.outstandingQueries.add queue now id ⟨now, streamId, id⟩ }

end PubsubNode

/-- The nodes, what each has published to the topic, and the messages each has been handed. -/
structure PubsubNetwork (Queue Node : Type) where
  nodes : Node → PubsubNode Queue
  topic : List (Node × PubsubMessage)
  received : Node → List PubsubMessage

namespace PubsubNetwork

inductive Action (Node : Type) where
  | publishTip (node : Node) (streamId : StreamID)
  | queryNetwork (node : Node) (streamId : StreamID) (now : Nat)
  /-- A node is handed the message at some place of the topic. -/
  | receive (node : Node) (place : Nat)
  /-- A node handles one of the tips that it has learned of. -/
  | handleTip (node : Node) (i : Nat)
  | applyCommit (node : Node) (streamId : StreamID) (commitCid : Cid)
  | handleAnchorCommit (node : Node) (streamId : StreamID) (anchorCommitCID : Cid)

variable {Queue Node : Type} [DecidableEq Node]

def publish (net : PubsubNetwork Queue Node) (node : Node) (messages : List PubsubMessage) :
    PubsubNetwork Queue Node :=
  { net with topic := net.topic ++ messages.map fun message => (node, message) }

def become (net : PubsubNetwork Queue Node) (node : Node) (next : PubsubNode Queue) : PubsubNetwork Queue Node :=
  { net with nodes := Function.update net.nodes node next }

def hand (net : PubsubNetwork Queue Node) (node : Node) (message : PubsubMessage) : PubsubNetwork Queue Node :=
  { net with received := Function.update net.received node (message :: net.received node) }

/-- A node does not handle what it has published itself. The hash of a query is taken from the package that
computes it. -/
def step (env : Environment) (store : CommitStore) (queue : PriorityQueue Queue Query)
    (messageHash : StreamID → String) (net : PubsubNetwork Queue Node) :
    Action Node → Option (PubsubNetwork Queue Node)
  | .publishTip node streamId => do
    let state ← (net.nodes node).held streamId
    some (net.publish node [.update streamId (tipFromState state) (ModelInstanceDocumentHandler.modelOf state)])
  | .queryNetwork node streamId now =>
    let id := messageHash streamId
    some ((net.become node ((net.nodes node).query queue now streamId id)).publish node [.query id streamId])
  | .receive node place => do
    let (sender, message) ← net.topic[place]?
    if sender = node then none
    else
      let (answers, next) := (net.nodes node).handleMessage message
      some (((net.become node next).publish node answers).hand node message)
  | .handleTip node i => do
    let update ← (net.nodes node).tips.pending[i]?
    some (net.become node ((net.nodes node).handleUpdateFromNetwork env store i update))
  | .applyCommit node streamId commitCid => do
    let state ← (net.nodes node).held streamId
    some (net.become node ((net.nodes node).afterCommit streamId
      (StreamUpdater.applyCommitFromUser env store state commitCid)))
  | .handleAnchorCommit node streamId anchorCommitCID => do
    let state ← (net.nodes node).held streamId
    some (net.become node ((net.nodes node).afterCommit streamId
      (StreamUpdater.applyTipFromNetwork env store state anchorCommitCID)))

/-- New commits of the stream are among those given. -/
def Among (streamId : StreamID) (tips : List Cid) (_ : PubsubNetwork Queue Node) : Action Node → Prop
  | .applyCommit _ other commitCid => other = streamId → commitCid ∈ tips
  | .handleAnchorCommit _ other anchorCommitCID => other = streamId → anchorCommitCID ∈ tips
  | _ => True

/-- Every node holds some streams as they were loaded from their geneses. -/
def start (queue : PriorityQueue Queue Query) (Node : Type) (loaded : StreamID → Option StreamState) :
    PubsubNetwork Queue Node where
  nodes _ := ⟨.start, .make queue, loaded⟩
  topic := []
  received _ := []

/-- The message tells of a tip of the stream. -/
def Carries (streamId : StreamID) (tip : Cid) : PubsubMessage → Prop
  | .update stream newTip _ => stream = streamId ∧ newTip = tip
  | .response _ tips => (streamId.toString, tip) ∈ tips
  | .query _ _ | .keepalive _ _ _ => False

/-- The tip has been handled, or will be. -/
def Accounted (tips : TipHandling) (streamId : StreamID) (tip : Cid) : Prop :=
  TipHandling.UnderWay tips.pending streamId tip ∨ .finished streamId tip true ∈ tips.events

/-- A node that holds the state of the stream, and has handled no other tips of it than those learned. -/
structure NodeRefines (streamId : StreamID) (published : List Cid) (node : PubsubNode Queue) (state : StreamState)
    (learned : List Cid) (received : List PubsubMessage) : Prop where
  syncing : node.tips.dispatcher.enableSync = true
  held : node.held streamId = some state
  learned : ∀ tip, .finished streamId tip true ∈ node.tips.events → tip ∈ learned
  pending : ∀ update ∈ node.tips.pending, update.streamId = streamId → update.tip ∈ published
  remembered : ∀ tip, node.tips.Remembers streamId tip → Accounted node.tips streamId tip
  delivered : ∀ tip model, .update streamId tip model ∈ received → Accounted node.tips streamId tip

/-- What the network looks like to those who follow one stream only. -/
structure Refines (streamId : StreamID) (net : PubsubNetwork Queue Node) (seen : StreamNetwork Node) : Prop where
  nodes : ∀ node, NodeRefines streamId seen.published (net.nodes node) (seen.held node) (seen.learned node)
    (net.received node)
  published : ∀ entry ∈ net.topic, ∀ tip, Carries streamId tip entry.2 → tip ∈ seen.published

section

variable {streamId : StreamID} {published : List Cid} {node : PubsubNode Queue} {state : StreamState}
  {learned : List Cid} {received : List PubsubMessage} {message : PubsubMessage} {tip : Cid}

omit [DecidableEq Node]

theorem carries_of_tells {queryMap : InsertionMap String Query}
    (tells : TipHandling.Tells queryMap streamId tip message) : Carries streamId tip message := by
  cases message with
  | update stream newTip model => exact tells
  | query id stream => exact tells
  | keepalive ts ver ipfsVer => exact tells
  | response id tips =>
    obtain ⟨query, _, rfl, told⟩ := tells
    obtain ⟨entry, found, rfl⟩ := Option.map_eq_some_iff.mp told
    have isKey : entry.1 = query.streamID.toString := by simpa using List.find?_some found
    rw [Carries, ← isKey]
    exact List.mem_of_find?_eq_some found

theorem NodeRefines.mono (refines : NodeRefines streamId published node state learned received) {more : List Cid}
    (grows : ∀ tip ∈ published, tip ∈ more) : NodeRefines streamId more node state learned received :=
  { refines with pending := fun update member ofStream => grows _ (refines.pending update member ofStream) }

theorem Accounted.after {tips after : TipHandling} (accounted : Accounted tips streamId tip)
    (pending : ∀ update ∈ tips.pending, update ∈ after.pending) (events : ∀ event ∈ tips.events, event ∈ after.events) :
    Accounted after streamId tip := by
  rcases accounted with ⟨update, member, same⟩ | finished
  · exact .inl ⟨update, pending update member, same⟩
  · exact .inr (events _ finished)

/-- After a message the tips of the stream that it tells of are handled, or will be. -/
theorem NodeRefines.handleMessage (refines : NodeRefines streamId published node state learned received)
    (told : ∀ tip, Carries streamId tip message → tip ∈ published) :
    NodeRefines streamId published (node.handleMessage message).2 state learned (message :: received) := by
  have known {tips : TipHandling} (kept : ∀ tip, Accounted node.tips streamId tip → Accounted tips streamId tip)
      (own : ∀ tip model, message = .update streamId tip model → Accounted tips streamId tip) :
      ∀ tip model, .update streamId tip model ∈ message :: received → Accounted tips streamId tip := by
    intro tip model member
    rcases List.mem_cons.mp member with same | earlier
    · exact own tip model same.symm
    · exact kept tip (refines.delivered tip model earlier)
  by_cases isQuery : ∃ id stream, message = .query id stream
  · obtain ⟨id, stream, rfl⟩ := isQuery
    refine { refines with delivered := known (fun _ accounted => accounted) fun tip model same => ?_ }
    cases same
  · obtain ⟨tips, stepped, result⟩ : ∃ tips,
        node.tips.step (.message node.outstandingQueries.queryMap message) = some tips ∧
          (node.handleMessage message).2 = { node with tips := tips } := by
      refine ⟨_, rfl, ?_⟩
      cases message with
      | query id stream => exact absurd ⟨id, stream, rfl⟩ isQuery
      | _ => rfl
    rw [result]
    rcases TipHandling.message_cases refines.syncing stepped with
      ⟨silent, rfl⟩ | ⟨stream, newTip, model, tells, only, ⟨hit, rfl⟩ | ⟨miss, rfl⟩⟩
    · refine { refines with delivered := known (fun _ accounted => accounted) fun tip model same => ?_ }
      subst same
      exact absurd ⟨rfl, rfl⟩ (silent streamId tip)
    · have kept (tip : Cid) (accounted : Accounted node.tips streamId tip) :
          Accounted (node.tips.drop stream newTip) streamId tip :=
        accounted.after (fun _ => id) fun _ => List.mem_cons_of_mem _
      refine ⟨refines.syncing, refines.held, fun tip finished => ?_, refines.pending, fun tip remembers => ?_,
        known kept fun tip model same => ?_⟩
      · rcases List.mem_cons.mp finished with same | earlier
        · cases same
        · exact refines.learned tip earlier
      · exact kept tip (refines.remembered tip (TipHandling.remembered_touch remembers))
      · subst same
        obtain ⟨rfl, rfl⟩ := only streamId tip ⟨rfl, rfl⟩
        exact kept tip (refines.remembered tip hit)
    · have kept (tip : Cid) (accounted : Accounted node.tips streamId tip) :
          Accounted (node.tips.process ⟨stream, newTip, model⟩) streamId tip :=
        accounted.after (fun _ => List.mem_append_left _) fun _ => List.mem_cons_of_mem _
      have started (same : stream = streamId) :
          Accounted (node.tips.process ⟨stream, newTip, model⟩) streamId newTip :=
        .inl ⟨⟨stream, newTip, model⟩, List.mem_append_right _ List.mem_cons_self, same, rfl⟩
      refine ⟨refines.syncing, refines.held, fun tip finished => ?_, fun update member ofStream => ?_,
        fun tip remembers => ?_, known kept fun tip model same => ?_⟩
      · rcases List.mem_cons.mp finished with same | earlier
        · cases same
        · exact refines.learned tip earlier
      · rcases List.mem_append.mp member with earlier | new
        · exact refines.pending update earlier ofStream
        · obtain rfl := List.mem_singleton.mp new
          obtain rfl : stream = streamId := ofStream
          exact told newTip (carries_of_tells tells)
      · rcases TipHandling.remembered_set remembers with ⟨rfl, rfl⟩ | earlier
        · exact started rfl
        · exact kept tip (refines.remembered tip earlier)
      · subst same
        obtain ⟨rfl, rfl⟩ := only streamId tip ⟨rfl, rfl⟩
        exact started rfl

/-- A tip of the stream has been handled, or a tip of another one. -/
theorem NodeRefines.finish (refines : NodeRefines streamId published node state learned received) {i : Nat}
    {update : NetworkUpdate} (here : node.tips.pending[i]? = some update) {succeeded : Bool} {next : StreamState}
    {after : List Cid} {held : StreamID → Option StreamState} (holds : held streamId = some next)
    (grows : ∀ tip ∈ learned, tip ∈ after)
    (own : update.streamId = streamId → succeeded = true ∧ update.tip ∈ after) :
    NodeRefines streamId published (PubsubNode.finish { node with held := held } i update succeeded) next after received := by
  have kept (tip : Cid) (accounted : Accounted node.tips streamId tip) :
      Accounted (PubsubNode.finish { node with held := held } i update succeeded).tips streamId tip := by
    by_cases same : update.streamId = streamId ∧ update.tip = tip
    · obtain ⟨rfl, rfl⟩ := same
      obtain ⟨rfl, _⟩ := own rfl
      exact .inr List.mem_cons_self
    · rcases accounted with underWay | finished
      · exact .inl (underWay.erase here same)
      · exact .inr (List.mem_cons_of_mem _ finished)
  refine ⟨refines.syncing, holds, fun tip finished => ?_, fun other member ofStream => ?_,
    fun tip remembers => kept tip (refines.remembered tip remembers),
    fun tip model member => kept tip (refines.delivered tip model member)⟩
  · rcases List.mem_cons.mp finished with same | earlier
    · injection same with sameStream sameTip
      exact sameTip ▸ (own sameStream.symm).2
    · exact grows tip (refines.learned tip earlier)
  · exact refines.pending other (List.mem_of_mem_eraseIdx member) ofStream

/-- What a node holds of the stream changes, and what it has learned. -/
theorem NodeRefines.hold (refines : NodeRefines streamId published node state learned received)
    {next : StreamState} {after : List Cid} (grows : ∀ tip ∈ learned, tip ∈ after) :
    NodeRefines streamId published (node.hold streamId next) next after received :=
  { refines with
    held := by simp [PubsubNode.hold]
    learned := fun tip finished => grows tip (refines.learned tip finished) }

theorem NodeRefines.hold_other (refines : NodeRefines streamId published node state learned received)
    {other : StreamID} (apart : streamId ≠ other) (next : StreamState) :
    NodeRefines streamId published (node.hold other next) state learned received :=
  { refines with held := by simpa [PubsubNode.hold, apart] using refines.held }

/-- What a node answers tells of nothing but the tip that it holds. -/
theorem NodeRefines.answers (refines : NodeRefines streamId published node state learned received)
    {answer : PubsubMessage} (member : answer ∈ (node.handleMessage message).1)
    (carries : Carries streamId tip answer) : tip = tipFromState state := by
  cases message with
  | query id stream =>
    simp only [PubsubNode.handleMessage, PubsubNode._handleQueryMessage] at member
    split at member
    next held isHeld =>
      obtain rfl := List.mem_singleton.mp member
      obtain ⟨sameStream, rfl⟩ := Prod.mk.inj (List.mem_singleton.mp carries)
      obtain rfl := StreamID.toString_injective sameStream
      rw [Option.some.inj (isHeld.symm.trans refines.held)]
    next => cases member
  | _ => cases member

end

section

variable {queue : PriorityQueue Queue Query} {messageHash : StreamID → String} {env : Environment} {store : CommitStore}
  {handler : StreamHandler} {g : CommitData} {genesis : StreamState} {tips : List Cid} {streamId : StreamID}
  {net next : PubsubNetwork Queue Node} {seen : StreamNetwork Node} {node : Node}

/-- One node moves, and the topic grows by what it publishes. -/
theorem Refines.moved (refines : Refines streamId net seen) (node : Node) {own : PubsubNode Queue} {state : StreamState}
    {learned published : List Cid} {received : List PubsubMessage} (messages : List PubsubMessage)
    (grows : ∀ tip ∈ seen.published, tip ∈ published)
    (ownRefines : NodeRefines streamId published own state learned received)
    (told : ∀ message ∈ messages, ∀ tip, Carries streamId tip message → tip ∈ published) :
    Refines streamId
      ⟨Function.update net.nodes node own, net.topic ++ messages.map (fun message => (node, message)),
        Function.update net.received node received⟩
      ⟨Function.update seen.held node state, Function.update seen.learned node learned, published⟩ where
  nodes other := by
    by_cases same : other = node
    · subst same
      simpa using ownRefines
    · simpa [same] using (refines.nodes other).mono grows
  published entry member tip carries := by
    rcases List.mem_append.mp member with earlier | new
    · exact grows tip (refines.published entry earlier tip carries)
    · obtain ⟨message, isMessage, rfl⟩ := List.mem_map.mp new
      exact told message isMessage tip carries

/-- A node that has not changed for those who follow the stream, and has published nothing new about it. -/
theorem Refines.stutter (env : Environment) (store : CommitStore) (tips : List Cid)
    (refines : Refines streamId net seen) {own : PubsubNode Queue} {received : List PubsubMessage}
    (messages : List PubsubMessage)
    (ownRefines : NodeRefines streamId seen.published own (seen.held node) (seen.learned node) received)
    (told : ∀ message ∈ messages, ∀ tip, Carries streamId tip message → tip = tipFromState (seen.held node)) :
    ∃ after, Reaches (StreamNetwork.step env store) (StreamNetwork.Among tips) seen after ∧
      Refines streamId
        ⟨Function.update net.nodes node own, net.topic ++ messages.map (fun message => (node, message)),
          Function.update net.received node received⟩ after := by
  have grows (tip : Cid) (member : tip ∈ seen.published) : tip ∈ tipFromState (seen.held node) :: seen.published :=
    List.mem_cons_of_mem _ member
  have moved := refines.moved node messages grows (ownRefines.mono grows) fun message member tip carries =>
    List.mem_cons.mpr (.inl (told message member tip carries))
  rw [Function.update_eq_self, Function.update_eq_self] at moved
  have published : Reaches (StreamNetwork.step env store) (StreamNetwork.Among tips) seen
      { seen with published := tipFromState (seen.held node) :: seen.published } :=
    Reaches.next .start (a := .publishTip node) trivial rfl
  exact ⟨_, published, moved⟩

/-- A node has changed its state of the stream. -/
theorem Refines.learn (refines : Refines streamId net seen) {own : PubsubNode Queue} {tip : Cid} {state : StreamState}
    (ownRefines : NodeRefines streamId seen.published own state (tip :: seen.learned node) (net.received node)) :
    Refines streamId (net.become node own) (seen.learn node tip state) := by
  have moved := refines.moved node [] (fun _ => id) ownRefines fun _ member => by cases member
  rwa [List.map_nil, List.append_nil, Function.update_eq_self] at moved

theorem Refines.unlearned (refines : Refines streamId net seen) {own : PubsubNode Queue}
    (ownRefines : NodeRefines streamId seen.published own (seen.held node) (seen.learned node) (net.received node)) :
    Refines streamId (net.become node own) seen := by
  have moved := refines.moved node [] (fun _ => id) ownRefines fun _ member => by cases member
  rwa [List.map_nil, List.append_nil, Function.update_eq_self, Function.update_eq_self, Function.update_eq_self] at moved

/-- What the handling of a tip of the stream comes to. -/
theorem matched_handleTip (tree : CommitTree env store handler g genesis tips) (refines : Refines streamId net seen)
    (holds : seen.HoldsBest env store handler g tips) {i : Nat} {update : NetworkUpdate}
    (here : (net.nodes node).tips.pending[i]? = some update) :
    ∃ after, Reaches (StreamNetwork.step env store) (StreamNetwork.Among tips) seen after ∧
      Refines streamId (net.become node ((net.nodes node).handleUpdateFromNetwork env store i update)) after := by
  have own := refines.nodes node
  unfold PubsubNode.handleUpdateFromNetwork
  by_cases ofStream : update.streamId = streamId
  · have published := own.pending update (List.mem_of_getElem? here) ofStream
    obtain ⟨_, first⟩ := holds.loaded node
    obtain ⟨_, _, second⟩ := tree.of_mem update.tip (holds.published update.tip published)
    have applied := first.apply_tip tree.registered second
    generalize (if keepsPlace store (tipFromState (seen.held node)) update.tip then seen.held node else _) = state
      at applied
    have handled : StreamNetwork.step env store seen (.handleUpdateFromNetwork node update.tip) =
        some (seen.learn node update.tip state) := by
      simp [StreamNetwork.step, published, applied, StreamNetwork.handled]
    have reached : Reaches (StreamNetwork.step env store) (StreamNetwork.Among tips) seen
        (seen.learn node update.tip state) :=
      Reaches.next .start (a := .handleUpdateFromNetwork node update.tip) trivial handled
    refine ⟨_, reached, ?_⟩
    rw [ofStream, own.held]
    dsimp only
    rw [applied]
    refine refines.learn (own.finish here (Function.update_self streamId _ _) (fun _ => List.mem_cons_of_mem _) ?_)
    exact fun _ => ⟨rfl, List.mem_cons_self⟩
  · refine ⟨seen, .start, ?_⟩
    have apart : streamId ≠ update.streamId := Ne.symm ofStream
    split
    · exact refines.unlearned (own.finish here own.held (fun _ => id) fun same => absurd same ofStream)
    · split
      next state _ next _ =>
        have held := (own.hold_other apart next).held
        exact refines.unlearned (own.finish here held (fun _ => id) fun same => absurd same ofStream)
      next =>
        exact refines.unlearned (own.finish here own.held (fun _ => id) fun same => absurd same ofStream)

/-- What a commit comes to that a user or the anchor service adds to the stream. -/
theorem matched_commit (refines : Refines streamId net seen) {other : StreamID} (tip : Cid)
    {applied : Except JsError StreamState} (action : StreamNetwork.Action Node)
    (among : other = streamId → StreamNetwork.Among tips seen action)
    (same : other = streamId → StreamNetwork.step env store seen action = some (seen.handled node tip applied)) :
    ∃ after, Reaches (StreamNetwork.step env store) (StreamNetwork.Among tips) seen after ∧
      Refines streamId (net.become node ((net.nodes node).afterCommit other applied)) after := by
  have own := refines.nodes node
  by_cases ofStream : other = streamId
  · refine ⟨_, .next .start (among ofStream) (same ofStream), ?_⟩
    subst ofStream
    cases applied with
    | error e => exact refines.unlearned own
    | ok next => exact refines.learn (own.hold fun _ => List.mem_cons_of_mem _)
  · refine ⟨seen, .start, refines.unlearned ?_⟩
    cases applied with
    | error e => exact own
    | ok next => exact own.hold_other (Ne.symm ofStream) next

/-- Every step of the pubsub network is one of the stream's network, or none. -/
theorem Refines.matched (tree : CommitTree env store handler g genesis tips) (refines : Refines streamId net seen)
    (holds : seen.HoldsBest env store handler g tips) {action : Action Node} (among : Among streamId tips net action)
    (stepped : step env store queue messageHash net action = some next) :
    ∃ after, Reaches (StreamNetwork.step env store) (StreamNetwork.Among tips) seen after ∧
      Refines streamId next after := by
  cases action with
  | publishTip node other =>
    obtain ⟨state, isHeld, published⟩ := Option.bind_eq_some_iff.mp stepped
    obtain rfl := Option.some.inj published
    have own := refines.nodes node
    have moved := refines.stutter env store tips
      [.update other (tipFromState state) (ModelInstanceDocumentHandler.modelOf state)] own ?_
    · rwa [Function.update_eq_self, Function.update_eq_self] at moved
    · rintro message member tip carries
      obtain rfl := List.mem_singleton.mp member
      obtain ⟨rfl, rfl⟩ := carries
      rw [Option.some.inj (isHeld.symm.trans own.held)]
  | queryNetwork node other now =>
    obtain rfl := Option.some.inj stepped
    have own : NodeRefines streamId seen.published ((net.nodes node).query queue now other (messageHash other))
        (seen.held node) (seen.learned node) (net.received node) := { refines.nodes node with }
    have moved := refines.stutter env store tips [.query (messageHash other) other] own ?_
    · rwa [Function.update_eq_self] at moved
    · rintro message member tip carries
      obtain rfl := List.mem_singleton.mp member
      exact carries.elim
  | receive node place =>
    obtain ⟨⟨sender, message⟩, onTopic, stepped⟩ := Option.bind_eq_some_iff.mp stepped
    dsimp only at stepped
    split at stepped
    · cases stepped
    · obtain rfl := Option.some.inj stepped
      have own := refines.nodes node
      have told := refines.published _ (List.mem_of_getElem? onTopic)
      exact refines.stutter env store tips _ (own.handleMessage told) fun answer member tip carries => own.answers member carries
  | handleTip node i =>
    obtain ⟨update, here, handled⟩ := Option.bind_eq_some_iff.mp stepped
    obtain rfl := Option.some.inj handled
    exact matched_handleTip tree refines holds here
  | applyCommit node other commitCid =>
    obtain ⟨state, isHeld, applied⟩ := Option.bind_eq_some_iff.mp stepped
    obtain rfl := Option.some.inj applied
    refine matched_commit refines commitCid (.applyCommit node commitCid) among ?_
    rintro rfl
    rw [Option.some.inj (isHeld.symm.trans (refines.nodes node).held)]
    rfl
  | handleAnchorCommit node other anchorCommitCID =>
    obtain ⟨state, isHeld, applied⟩ := Option.bind_eq_some_iff.mp stepped
    obtain rfl := Option.some.inj applied
    refine matched_commit refines anchorCommitCID (.handleAnchorCommit node anchorCommitCID) among ?_
    rintro rfl
    rw [Option.some.inj (isHeld.symm.trans (refines.nodes node).held)]
    rfl

omit [DecidableEq Node] in
theorem refines_start {loaded : StreamID → Option StreamState} (isLoaded : loaded streamId = some genesis) :
    Refines streamId (start queue Node loaded) (StreamNetwork.start Node genesis) where
  nodes _ :=
    { syncing := rfl
      held := isLoaded
      learned := fun _ finished => absurd finished List.not_mem_nil
      pending := fun _ member => absurd member List.not_mem_nil
      remembered := fun _ remembers => absurd remembers (Option.some_ne_none _).symm
      delivered := fun _ _ member => absurd member List.not_mem_nil }
  published _ member := absurd member List.not_mem_nil

theorem refines_of_reaches (tree : CommitTree env store handler g genesis tips)
    (apart : AnchoredApart store (g.cid :: tips)) {loaded : StreamID → Option StreamState}
    (isLoaded : loaded streamId = some genesis)
    (reaches : Reaches (step env store queue messageHash) (Among streamId tips) (start queue Node loaded) net) :
    ∃ seen, Refines streamId net seen ∧ StreamNetwork.HoldsBest env store handler g tips seen := by
  let Related (net : PubsubNetwork Queue Node) (seen : StreamNetwork Node) :=
    Refines streamId net seen ∧ StreamNetwork.HoldsBest env store handler g tips seen
  have matched : ∀ (net : PubsubNetwork Queue Node) action next (seen : StreamNetwork Node), Related net seen →
      Among streamId tips net action → step env store queue messageHash net action = some next →
      ∃ after, Reaches (StreamNetwork.step env store) (StreamNetwork.Among tips) seen after ∧ Related next after := by
    rintro net action next seen ⟨refines, holds⟩ among stepped
    obtain ⟨after, reached, refined⟩ := refines.matched tree holds among stepped
    have stillBest := reached.invariant holds fun _ _ _ holds among stepped => holds.step tree apart among stepped
    exact ⟨after, reached, refined, stillBest⟩
  obtain ⟨seen, _, related⟩ := reaches.simulated ⟨refines_start isLoaded, .of_start tree⟩ matched
  exact ⟨seen, related⟩

end

instance decidableAmong (streamId : StreamID) (tips : List Cid) (net : PubsubNetwork Queue Node) :
    (action : Action Node) → Decidable (Among streamId tips net action)
  | .applyCommit _ other commitCid => inferInstanceAs (Decidable (other = streamId → commitCid ∈ tips))
  | .handleAnchorCommit _ other anchorCommitCID =>
    inferInstanceAs (Decidable (other = streamId → anchorCommitCID ∈ tips))
  | .publishTip _ _ => isTrue trivial
  | .queryNetwork _ _ _ => isTrue trivial
  | .receive _ _ => isTrue trivial
  | .handleTip _ _ => isTrue trivial

def tile : StreamID := ⟨TILE_TYPE_ID, ⟨[1]⟩⟩

/-- Each node has one of the two updates anchored. The second one hears of the first anchor in the response to a query,
updates its own branch, and the first one is told of that, and tells what it holds then. -/
def anchoredApart : List (Action Bool) :=
  [.handleAnchorCommit true tile ⟨[5]⟩, .handleAnchorCommit false tile ⟨[4]⟩, .queryNetwork false tile 0,
    .receive true 0, .receive false 1, .handleTip false 0, .applyCommit false tile ⟨[6]⟩, .publishTip false tile,
    .receive true 2, .handleTip true 0, .publishTip true tile, .receive false 3, .handleTip false 0]

def loadedTile (streamId : StreamID) : Option StreamState :=
  if streamId = tile then some BlockStore.genesisOnly else none

/-- What the nodes hold in the end, what they were handed and what they have left to handle. -/
def told (net : PubsubNetwork Queue Bool) : List (Option Cid × List PubsubMessage × List NetworkUpdate) :=
  [true, false].map fun node =>
    (((net.nodes node).held tile).map tipFromState, net.received node, (net.nodes node).tips.pending)

end PubsubNetwork

end Ceramic
