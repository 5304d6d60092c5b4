import Ceramic.ReconFeed
import Ceramic.ReconRouting

/-! Whether the stored cursor of the Recon feed passes events that were not dealt with. The error
of an event is only logged, and the cursor of its response is stored all the same. -/
namespace Ceramic

/-- The update that an event is, going by the stream it belongs to. -/
def ReconNode.IsUpdateOf (node : ReconNode) (moment : Nat) (cid : Cid) (update : NetworkUpdate) : Prop :=
  ∃ stream model genesis c, Utils.getCommitData (node.dispatcher moment) cid = .ok c ∧
    Utils.getCommitData (node.dispatcher moment) stream.cid = .ok genesis ∧
    IsGenesisOf node.env stream model genesis ∧ IsEventOf stream genesis cid c ∧
    update = ⟨stream, cid, some model⟩

/-- At no moment could the update that the event is be handled without an error. -/
def ReconNode.PermanentlyInvalid (node : ReconNode) (cid : Cid) : Prop :=
  ∀ moment update, node.IsUpdateOf moment cid update →
    ∃ e, node.handleUpdateFromNetwork moment update = .error e

namespace ReconFeed

variable (node : ReconNode)

/-- The event was applied, or its stream was not tracked, or it can never be applied. -/
def Settled (feed : ReconFeed) (cid : Cid) : Prop :=
  (∃ result, (cid, .ok result) ∈ feed.handled) ∨ node.PermanentlyInvalid cid

/-- The events that were emitted and are not handled yet. -/
def waiting (session : ReconSession) : List Cid :=
  (session.batch.map (·.left)).getD [] ++ session.buffer.flatMap (·.events)

/-- No event before the stored cursor is left behind, and those after it are delivered again. -/
structure CursorSafe (feed : ReconFeed) : Prop where
  settled : ∀ cid ∈ feed.events.take feed.storedCursor, Settled node feed cid
  /-- A session gets the events after the cursor that was stored at its start, none left out. -/
  delivered : ∀ session ∈ feed.session,
    session.emitted = (feed.events.drop session.initialCursor).take (session.cursor - session.initialCursor)
  /-- Unless handling a response has thrown, the events are handled in their order. -/
  inOrder : ∀ session ∈ feed.session, session.ended = false →
    session.attempted ++ waiting session = session.emitted
  restarted : feed.session = none → ∃ session,
    step node feed .init = some { feed with session := some session } ∧
      session.initialCursor = feed.storedCursor ∧ session.emitted = []
  /-- The feed is polled on as long as there are more events. -/
  goes_on : ∀ session ∈ feed.session, session.cursor < feed.events.length →
    ∃ session', step node feed (.poll 1) = some { feed with session := some session' } ∧
      session.cursor < session'.cursor

/-- The cursor of a response is stored only if none of its events has failed for the time being. -/
def mayRun (feed : ReconFeed) : ReconAction → Prop
  | .put _ => ∀ session ∈ feed.session, ∀ batch ∈ session.batch, ∀ entry ∈ batch.outcomes,
      (∃ result, entry.2 = .ok result) ∨ node.PermanentlyInvalid entry.1
  | _ => True

end ReconFeed

/-- Responses one after the other, from one cursor to another. -/
inductive Tiles (events : List Cid) : Nat → List ReconEventFeedResponse → Nat → Prop where
  | nil (cursor : Nat) : Tiles events cursor [] cursor
  | cons {cursor last : Nat} {response : ReconEventFeedResponse} {rest : List ReconEventFeedResponse} :
      response.events = (events.drop cursor).take response.events.length →
      response.cursor = cursor + response.events.length →
      Tiles events response.cursor rest last → Tiles events cursor (response :: rest) last

theorem Tiles.le {events : List Cid} {first last : Nat} {responses : List ReconEventFeedResponse}
    (tiles : Tiles events first responses last) : first ≤ last := by
  induction tiles with
  | nil => exact le_refl _
  | cons _ cursor _ ih => omega

/-- A response behind the others. -/
theorem Tiles.snoc {events : List Cid} {first last : Nat} {responses : List ReconEventFeedResponse}
    {response : ReconEventFeedResponse} (tiles : Tiles events first responses last)
    (slice : response.events = (events.drop last).take response.events.length)
    (cursor : response.cursor = last + response.events.length) :
    Tiles events first (responses ++ [response]) response.cursor := by
  induction tiles with
  | nil => exact .cons slice cursor (.nil _)
  | cons slice' cursor' _ ih => exact .cons slice' cursor' (ih slice cursor)

/-- More events change nothing about those that were there. -/
theorem Tiles.publish {events : List Cid} {first last : Nat} {responses : List ReconEventFeedResponse}
    (tiles : Tiles events first responses last) (inside : last ≤ events.length) (more : List Cid) :
    Tiles (events ++ more) first responses last := by
  induction tiles with
  | nil => exact .nil _
  | cons slice cursor rest ih =>
    have le := rest.le
    refine .cons ?_ cursor (ih inside)
    rw [List.drop_append_of_le_length (by omega), List.take_append_of_le_length (by
      rw [List.length_drop]; omega)]
    exact slice

namespace ReconFeed

variable (node : ReconNode)

structure SoundSession (feed : ReconFeed) (session : ReconSession) : Prop where
  since : session.initialCursor ≤ session.cursor
  inside : session.cursor ≤ feed.events.length
  emitted : session.emitted =
    (feed.events.drop session.initialCursor).take (session.cursor - session.initialCursor)
  /-- What is in hand leads from the stored cursor to where the feed was polled. -/
  tiles : session.ended = false → Tiles feed.events feed.storedCursor
    ((session.batch.map (·.response)).toList ++ session.buffer) session.cursor
  ended : session.ended = true → session.batch = none ∧ session.buffer = []
  inOrder : session.ended = false → session.attempted ++ waiting session = session.emitted
  batch : ∀ batch ∈ session.batch, batch.response.events = batch.outcomes.map Prod.fst ++ batch.left ∧
    ∀ entry ∈ batch.outcomes, entry ∈ feed.handled

structure Sound (feed : ReconFeed) : Prop where
  inside : feed.storedCursor ≤ feed.events.length
  settled : ∀ cid ∈ feed.events.take feed.storedCursor, Settled node feed cid
  session : ∀ session ∈ feed.session, SoundSession feed session

variable {node} {feed : ReconFeed}

theorem Settled.handled {cid : Cid} (settled : Settled node feed cid) (feed' : ReconFeed)
    (grown : ∀ entry ∈ feed.handled, entry ∈ feed'.handled) : Settled node feed' cid :=
  settled.imp_left fun ⟨result, member⟩ => ⟨result, grown _ member⟩

/-- The answer of the feed is the next slice of the events. -/
theorem response_slice (feed : ReconFeed) (cursor count : Nat) :
    (feed.response cursor count).events =
      (feed.events.drop cursor).take (feed.response cursor count).events.length := by
  unfold response
  dsimp only
  rw [List.length_take]
  exact List.take_eq_take_min

theorem slice_append {events : List Cid} {first cursor more : Nat} (order : first ≤ cursor) :
    (events.drop first).take (cursor - first) ++ (events.drop cursor).take more =
      (events.drop first).take (cursor + more - first) := by
  rw [show cursor + more - first = (cursor - first) + more by omega, List.take_add, List.drop_drop,
    show first + (cursor - first) = cursor by omega]

theorem publish_sound (sound : Sound node feed) (cid : Cid) :
    Sound node { feed with events := feed.events ++ [cid] } := by
  refine ⟨?_, ?_, fun session is => ?_⟩
  · rw [List.length_append]
    exact Nat.le_trans sound.inside (Nat.le_add_right _ _)
  · intro other member
    rw [List.take_append_of_le_length sound.inside] at member
    exact sound.settled other member
  · obtain ⟨since, inside, emitted, tiles, ended, inOrder, batch⟩ := sound.session session is
    refine ⟨since, ?_, ?_, fun running => (tiles running).publish inside [cid], ended, inOrder, batch⟩
    · rw [List.length_append]
      exact Nat.le_trans inside (Nat.le_add_right _ _)
    · rw [emitted, List.drop_append_of_le_length (Nat.le_trans since inside),
        List.take_append_of_le_length (by rw [List.length_drop]; omega)]

theorem init_sound (sound : Sound node feed) :
    Sound node { feed with
      session := some { initialCursor := feed.storedCursor, cursor := feed.storedCursor } } := by
  refine ⟨sound.inside, sound.settled, fun session is => ?_⟩
  obtain rfl := Option.some.inj is
  exact ⟨le_refl _, sound.inside, by simp, fun _ => .nil _, nofun, fun _ => rfl, nofun⟩

theorem poll_sound {session : ReconSession} (sound : Sound node feed) (is : feed.session = some session)
    (count : Nat) :
    Sound node { feed with session := some (session.emit (feed.response session.cursor count)) } := by
  obtain ⟨since, inside, emitted, tiles, ended, inOrder, batch⟩ := sound.session session is
  have slice := feed.response_slice session.cursor count
  have cursor : (feed.response session.cursor count).cursor =
      session.cursor + (feed.response session.cursor count).events.length := rfl
  have short : (feed.response session.cursor count).events.length ≤ feed.events.length - session.cursor := by
    rw [slice, List.length_take, List.length_drop]
    exact Nat.min_le_right _ _
  generalize feed.response session.cursor count = response at slice cursor short
  have polled : session.emitted ++ response.events = (feed.events.drop session.initialCursor).take
      (response.cursor - session.initialCursor) := by
    rw [emitted, slice, cursor, slice_append since]
  refine ⟨sound.inside, sound.settled, fun session' is' => ?_⟩
  obtain rfl := Option.some.inj is'
  unfold ReconSession.emit
  split
  next filtered =>
    have nothing (running : session.ended = false) : response.events = [] := by
      simpa [running] using filtered
    refine ⟨by dsimp only; omega, by dsimp only; omega, polled, fun running => ?_, ended,
      fun running => ?_, batch⟩
    · have same : response.cursor = session.cursor := by rw [cursor, nothing running]; rfl
      dsimp only
      rw [same]
      exact tiles running
    · dsimp only
      rw [nothing running, List.append_nil]
      exact inOrder running
  next emits =>
    have opened : session.ended = false := by
      rw [Bool.or_eq_true, not_or] at emits
      exact Bool.eq_false_of_not_eq_true emits.2
    refine ⟨by dsimp only; omega, by dsimp only; omega, polled, fun running => ?_, fun done => ?_,
      fun running => ?_, batch⟩
    · have behind := (tiles running).snoc slice cursor
      rwa [List.append_assoc] at behind
    · cases opened.symm.trans done
    · dsimp only
      rw [← inOrder running]
      simp [waiting]

theorem next_sound {session : ReconSession} {response : ReconEventFeedResponse}
    {buffer : List ReconEventFeedResponse} (sound : Sound node feed) (is : feed.session = some session)
    (idle : session.batch = none) (behind : session.buffer = response :: buffer) :
    Sound node { feed with session := some { session with
      buffer, batch := some { response, left := response.events } } } := by
  obtain ⟨since, inside, emitted, tiles, ended, inOrder, _⟩ := sound.session session is
  refine ⟨sound.inside, sound.settled, fun session' is' => ?_⟩
  obtain rfl := Option.some.inj is'
  refine ⟨since, inside, emitted, fun running => ?_, fun done => ?_, fun running => ?_,
    fun batch isBatch => ?_⟩
  · have before := tiles running
    rwa [idle, behind] at before
  · rw [(ended done).2] at behind
    cases behind
  · have before := inOrder running
    rw [waiting, idle, behind] at before
    exact before
  · obtain rfl := Option.some.inj isBatch
    exact ⟨rfl, nofun⟩

theorem handle_sound {session : ReconSession} {batch : ReconBatch} {cid : Cid} {left : List Cid}
    {outcome : Except JsError Handled} (sound : Sound node feed) (is : feed.session = some session)
    (isBatch : session.batch = some batch) (more : batch.left = cid :: left) :
    Sound node { feed with
      handled := feed.handled ++ [(cid, outcome)]
      session := some { session with
        attempted := session.attempted ++ [cid]
        batch := some { batch with left, outcomes := batch.outcomes ++ [(cid, outcome)] } } } := by
  obtain ⟨since, inside, emitted, tiles, ended, inOrder, outcomes⟩ := sound.session session is
  obtain ⟨events, recorded⟩ := outcomes batch isBatch
  refine ⟨sound.inside, fun other member => ?_, fun session' is' => ?_⟩
  · exact (sound.settled other member).handled _ fun entry old => List.mem_append_left _ old
  · obtain rfl := Option.some.inj is'
    refine ⟨since, inside, emitted, fun running => ?_, fun done => ?_, fun running => ?_,
      fun batch' isBatch' => ?_⟩
    · have before := tiles running
      rwa [isBatch] at before
    · rw [(ended done).1] at isBatch
      cases isBatch
    · have before := inOrder running
      rw [waiting, isBatch] at before
      rw [← before]
      simp [waiting, more]
    · obtain rfl := Option.some.inj isBatch'
      refine ⟨?_, fun entry member => ?_⟩
      · rw [events, more, List.map_append, List.append_assoc]
        rfl
      · rcases List.mem_append.mp member with old | new
        · exact List.mem_append_left _ (recorded entry old)
        · exact List.mem_append_right _ new

/-- The events of a batch whose cursor is stored are settled, like those before it. -/
theorem put_sound {session : ReconSession} {batch : ReconBatch} (sound : Sound node feed)
    (is : feed.session = some session) (isBatch : session.batch = some batch) (empty : batch.left = [])
    (dealt : ∀ entry ∈ batch.outcomes,
      (∃ result, entry.2 = .ok result) ∨ node.PermanentlyInvalid entry.1) :
    Sound node { feed with
      storedCursor := batch.response.cursor
      session := some { session with batch := none } } := by
  obtain ⟨since, inside, emitted, tiles, ended, inOrder, outcomes⟩ := sound.session session is
  obtain ⟨events, recorded⟩ := outcomes batch isBatch
  have running : session.ended = false := by
    by_contra done
    rw [(ended (Bool.eq_true_of_not_eq_false done)).1] at isBatch
    cases isBatch
  have ahead := tiles running
  rw [isBatch] at ahead
  cases ahead with
  | cons slice cursor rest =>
    refine ⟨Nat.le_trans rest.le inside, fun cid member => ?_, fun session' is' => ?_⟩
    · have split : feed.events.take batch.response.cursor =
          feed.events.take feed.storedCursor ++ batch.response.events := by
        rw [cursor, List.take_add, ← slice]
      rw [split] at member
      rcases List.mem_append.mp member with old | new
      · exact sound.settled cid old
      · rw [events, empty, List.append_nil] at new
        obtain ⟨⟨_, outcome⟩, inBatch, rfl⟩ := List.mem_map.mp new
        rcases dealt _ inBatch with ⟨result, fine⟩ | invalid
        · obtain rfl : outcome = .ok result := fine
          exact .inl ⟨result, recorded _ inBatch⟩
        · exact .inr invalid
    · obtain rfl := Option.some.inj is'
      refine ⟨since, inside, emitted, fun _ => rest, fun done => ?_, fun _ => ?_, nofun⟩
      · cases running.symm.trans done
      · have before := inOrder running
        rw [waiting, isBatch] at before
        rw [← before]
        simp [waiting, empty]

theorem putFailed_sound {session : ReconSession} (sound : Sound node feed)
    (is : feed.session = some session) :
    Sound node { feed with session := some { session with batch := none, buffer := [], ended := true } } := by
  obtain ⟨since, inside, emitted, _⟩ := sound.session session is
  refine ⟨sound.inside, sound.settled, fun session' is' => ?_⟩
  obtain rfl := Option.some.inj is'
  exact ⟨since, inside, emitted, nofun, fun _ => ⟨rfl, rfl⟩, nofun, nofun⟩

theorem step_sound {action : ReconAction} {after : ReconFeed} (sound : Sound node feed)
    (may : mayRun node feed action) (stepped : step node feed action = some after) :
    Sound node after := by
  cases action with
  | publish cid =>
    obtain rfl := Option.some.inj stepped
    exact publish_sound sound cid
  | init =>
    unfold step at stepped
    dsimp only at stepped
    split at stepped
    next =>
      obtain rfl := Option.some.inj stepped
      exact init_sound sound
    next => cases stepped
  | poll count =>
    obtain ⟨session, is, stepped⟩ := Option.bind_eq_some_iff.mp stepped
    obtain rfl := Option.some.inj stepped
    exact poll_sound sound is count
  | pollFailed =>
    obtain rfl := Option.some.inj stepped
    exact sound
  | next =>
    obtain ⟨session, is, stepped⟩ := Option.bind_eq_some_iff.mp stepped
    split at stepped
    next response buffer idle behind =>
      obtain rfl := Option.some.inj stepped
      exact next_sound sound is idle behind
    next => cases stepped
  | handle moment =>
    obtain ⟨session, is, stepped⟩ := Option.bind_eq_some_iff.mp stepped
    obtain ⟨batch, isBatch, stepped⟩ := Option.bind_eq_some_iff.mp stepped
    split at stepped
    next cid left more =>
      obtain rfl := Option.some.inj stepped
      exact handle_sound sound is isBatch more
    next => cases stepped
  | put result =>
    obtain ⟨session, is, stepped⟩ := Option.bind_eq_some_iff.mp stepped
    obtain ⟨batch, isBatch, stepped⟩ := Option.bind_eq_some_iff.mp stepped
    cases empty : batch.left with
    | nil =>
      rw [empty] at stepped
      cases result with
      | ok _ =>
        obtain rfl := Option.some.inj stepped
        exact put_sound sound is isBatch empty (may session is batch isBatch)
      | error e =>
        obtain rfl := Option.some.inj stepped
        exact putFailed_sound sound is
    | cons cid left =>
      rw [empty] at stepped
      cases stepped
  | crash =>
    obtain rfl := Option.some.inj stepped
    exact ⟨sound.inside, sound.settled, nofun⟩

theorem safe_of_sound (sound : Sound node feed) : CursorSafe node feed where
  settled := sound.settled
  delivered := fun session is => (sound.session session is).emitted
  inOrder := fun session is => (sound.session session is).inOrder
  restarted := fun idle => ⟨_, by unfold step; dsimp only; rw [idle], rfl, rfl⟩
  goes_on := by
    intro session is more
    refine ⟨session.emit (feed.response session.cursor 1), ?_, ?_⟩
    · unfold step
      rw [Option.mem_def.mp is]
      rfl
    · have cursor : (session.emit (feed.response session.cursor 1)).cursor =
          session.cursor + (feed.response session.cursor 1).events.length := by
        unfold ReconSession.emit
        split <;> rfl
      have one : (feed.response session.cursor 1).events.length = 1 := by
        unfold response FEED_LIMIT
        rw [List.length_take, List.length_drop]
        omega
      omega

/-- As long as no cursor is stored after an event that failed for the time being, every event up to
the stored cursor is dealt with, and a restart gets all of the others again. -/
theorem recon_cursor_safe {reached : ReconFeed}
    (run : Transition.Reaches (step node) (mayRun node) {} reached) : CursorSafe node reached := by
  have initial : Sound node {} := ⟨le_refl _, nofun, nofun⟩
  exact safe_of_sound (run.invariant initial fun _ _ _ sound may stepped => step_sound sound may stepped)

end ReconFeed

namespace BlockStore

/-- At first no block can be loaded. -/
def flakyNode : ReconNode :=
  { postNode with
    dispatcher := fun moment =>
      if moment = 0 then
        { postNode.dispatcher 0 with retrieveCommit := fun _ => .error ⟨"Request timed out"⟩ }
      else postNode.dispatcher moment }

/-- The genesis of a document is delivered, and handled at this moment. -/
def deliverGenesis (moment : Nat) : List ReconAction :=
  [.publish ⟨[1]⟩, .init, .poll FEED_LIMIT, .next, .handle moment, .put (.ok ())]

def afterDelivery (moment : Nat) : ReconFeed :=
  (Transition.run (ReconFeed.step flakyNode) {} (deliverGenesis moment)).getD {}

theorem recon_cursor_safe_later :
    (afterDelivery 1).storedCursor = 1 ∧ ReconFeed.CursorSafe flakyNode (afterDelivery 1) := by
  have dealt : ∀ entry ∈ [((⟨[1]⟩ : Cid), (.ok .applied : Except JsError Handled))],
      (∃ result, entry.2 = .ok result) ∨ flakyNode.PermanentlyInvalid entry.1 := by
    intro entry member
    obtain rfl := List.mem_singleton.mp member
    exact .inl ⟨.applied, rfl⟩
  refine ⟨rfl, ReconFeed.recon_cursor_safe (Transition.reaches_of_run
    (rfl : Transition.run (ReconFeed.step flakyNode) {} (deliverGenesis 1) = some (afterDelivery 1))
    ⟨trivial, trivial, trivial, trivial, trivial, ?_, trivial⟩)⟩
  intro session is batch isBatch
  obtain rfl := Option.some.inj is
  obtain rfl := Option.some.inj isBatch
  exact dealt

/-- An event whose blocks could not be loaded is passed by the cursor. -/
theorem failed_event_passed : ¬∀ reached : ReconFeed,
    Transition.Reaches (ReconFeed.step flakyNode) (fun _ _ => True) {} reached →
      ReconFeed.CursorSafe flakyNode reached := by
  intro safe
  have ran : Transition.run (ReconFeed.step flakyNode) {} (deliverGenesis 0) =
      some (afterDelivery 0) := rfl
  have reached := safe _ (Transition.reaches_of_run ran
    ⟨trivial, trivial, trivial, trivial, trivial, trivial, trivial⟩)
  have handled : (afterDelivery 0).handled = [(⟨[1]⟩, .error ⟨"Request timed out"⟩)] := rfl
  rcases reached.settled ⟨[1]⟩ (by decide) with ⟨result, member⟩ | invalid
  · rw [handled] at member
    cases List.mem_singleton.mp member
  · obtain ⟨e, failed⟩ := invalid 1 ⟨unindexedPostId, ⟨[1]⟩, some ⟨MODEL_TYPE_ID, ⟨[]⟩⟩⟩
      ⟨unindexedPostId, ⟨MODEL_TYPE_ID, ⟨[]⟩⟩, postGenesis, postGenesis, rfl, rfl, postGenesis_isGenesis,
        .genesis rfl, rfl⟩
    cases failed

end BlockStore

end Ceramic
