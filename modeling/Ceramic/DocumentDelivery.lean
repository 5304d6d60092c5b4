import Ceramic.DocumentFeed

/-! What a consumer of the feed of documents has when it has caught up. Each change of a stream is
followed by an entry, and whoever looks an entry up finds at least that change. -/
namespace Ceramic

namespace Feed

variable {feed feed' : Feed} {action : FeedAction}

/-- Nothing is taken out of the store or from what was enqueued. -/
theorem step_grows (written : Written feed) (stepped : feed.step action = some feed') :
    feed.enqueued <+: feed'.enqueued ∧ ∀ entry ∈ feed.store.rows, entry ∈ feed'.store.rows := by
  rcases step_cases stepped with ⟨streamID, now, rfl, rfl⟩ | ⟨i, entry, rfl, here, rfl⟩ | ⟨i, entry, rfl, here, rfl⟩ |
    ⟨i, entry, rfl, here, rfl⟩ | ⟨desiredSize, rfl, ready, rfl⟩ | ⟨entries, rfl, finding, rfl⟩
  · exact ⟨List.prefix_refl _, fun _ => id⟩
  · have fresh := written.fresh _ (getElem?_saving here) rfl
    exact ⟨List.prefix_refl _, fun _ stored => (mem_rows_put fresh).mpr (.inl stored)⟩
  · exact ⟨List.prefix_refl _, fun _ => id⟩
  · exact ⟨List.prefix_refl _, fun _ => id⟩
  · exact ⟨List.prefix_refl _, fun _ => id⟩
  · unfold resolve
    split
    · exact ⟨List.prefix_refl _, fun _ => id⟩
    · exact ⟨List.prefix_append _ _, fun _ => id⟩

/-- Only a write that fails is forgotten. -/
theorem known_step (written : Written feed) (saves : ∀ i, action ≠ .fail i) (stepped : feed.step action = some feed')
    {entry : FeedEntry} (known : feed.Known entry) : feed'.Known entry := by
  rcases step_cases stepped with ⟨streamID, now, rfl, rfl⟩ | ⟨i, other, rfl, here, rfl⟩ | ⟨i, other, rfl, here, rfl⟩ |
    ⟨i, other, rfl, here, rfl⟩ | ⟨desiredSize, rfl, ready, rfl⟩ | ⟨entries, rfl, finding, rfl⟩
  · rcases known with stored | onTheWay
    · exact .inl stored
    · refine .inr ?_
      change entry ∈ (feed.puts ++ [_]).map fun put : FeedPut => put.entry
      rw [List.map_append]
      exact List.mem_append_left _ onTheWay
  · have fresh := written.fresh _ (getElem?_saving here) rfl
    rcases known with stored | onTheWay
    · exact .inl ((mem_rows_put fresh).mpr (.inl stored))
    · exact .inr ((map_land here).symm ▸ onTheWay)
  · exact absurd rfl (saves i)
  · rcases known with stored | onTheWay
    · exact .inl stored
    · obtain ⟨put, member, rfl⟩ := List.mem_map.mp onTheWay
      by_cases same : put = ⟨other, .saved⟩
      · exact .inl (written.stored put member (by rw [same]))
      · exact .inr (List.mem_map_of_mem (mem_eraseIdx_of_ne here member same))
  · exact known
  · unfold resolve
    split
    · exact known
    · exact known

end Feed

namespace DocumentFeed

open StreamUtils

/-- The entries that are done. -/
def delivered (node : DocumentFeed) : List FeedEntry := node.feed.enqueued.take node.transformed

/-- An entry of the stream is behind what the reader began with, and not among the first that it was given. -/
def Undelivered (node : DocumentFeed) (k : Nat) (id : StreamID) : Prop :=
  ∃ entry, node.feed.Known entry ∧ entry.streamID = id ∧ node.gt < entry.key ∧ entry ∉ node.feed.enqueued.take k

/-- There is still something to come of the stream. -/
def Pending (node : DocumentFeed) (k : Nat) (id : StreamID) : Prop :=
  id ∈ node.changed ∨ id ∈ node.pinned ∨ node.Undelivered k id

/-- The last document of a stream. -/
def latest (documents : List FeedDocument) (id : StreamID) : Option FeedDocument :=
  (documents.filter (·.streamId = id)).getLast?

/-- The last document that the consumer has of the stream is that of its state. -/
def UpToDate (node : DocumentFeed) (id : StreamID) : Prop :=
  ∃ document state, latest node.documents id = some document ∧ node.streamState id = some state ∧
    document = .fromStreamState document.resumeToken state

/-- The feed does what it should; a new key is behind where the reader is, and no stream leaves the memory
between its change and the state store. -/
def Allowed (node : DocumentFeed) : NodeAction → Prop
  | .put id now => node.feed.InOrder (.put id now) ∧ node.feed.token < (node.feed.keyGenerator.next now).1
  | .feed (.fail _) => False
  | .feed action => node.feed.InOrder action
  | .evict id => id ∉ node.changed
  | _ => True

theorem Allowed.feed {node : DocumentFeed} {action : FeedAction} (allowed : node.Allowed (.feed action)) :
    node.feed.InOrder action ∧ ∀ i, action ≠ .fail i := by
  cases action with
  | fail i => cases allowed
  | _ => exact ⟨allowed, fun _ => by rintro ⟨⟩⟩

/-- Nothing is under way, and the reader waits for a write. -/
structure CaughtUp (node : DocumentFeed) : Prop where
  changed : node.changed = []
  pinned : node.pinned = []
  puts : node.feed.puts = []
  waiting : node.feed.pull = .waiting
  transformed : node.transformed = node.feed.enqueued.length

structure Consuming (node : DocumentFeed) : Prop where
  sound : Feed.Sound node.gt node.feed
  within : node.transformed ≤ node.feed.enqueued.length
  own : ∀ id state, node.inmemory id = some state ∨ node.stateStore id = some state → streamIdFromState state = id
  agree : ∀ id, node.inmemory id = node.stateStore id ∨ node.inmemory id = none ∨ id ∈ node.changed
  started : node.after ≤ node.gt
  ordered : node.documents.Pairwise fun a b => a.resumeToken < b.resumeToken
  behind : ∀ document ∈ node.documents, node.after < document.resumeToken
  reached : ∀ document ∈ node.documents, document.resumeToken ≤ node.gt ∨
    ∃ entry ∈ node.delivered, entry.key = document.resumeToken
  stored : ∀ document ∈ node.documents, ∃ entry ∈ node.feed.store.rows,
    entry.key = document.resumeToken ∧ entry.streamID = document.streamId
  answered : ∀ found, node.stage = .loaded found → ∃ entry, node.nextEntry = some entry ∧
    (∀ state ∈ found, streamIdFromState state = entry.streamID) ∧
    (found = node.streamState entry.streamID ∨ node.Pending (node.transformed + 1) entry.streamID)

variable {node node' : DocumentFeed} {action : NodeAction} {id : StreamID} {k : Nat}

/-- What is found is a state of the stream. -/
theorem Consuming.own_streamState (consuming : Consuming node) {state : StreamState}
    (found : node.streamState id = some state) : streamIdFromState state = id := by
  rcases Option.or_eq_some_iff.mp found with held | ⟨_, stored⟩
  · exact consuming.own id state (.inl held)
  · exact consuming.own id state (.inr stored)

/-- Only a change of the stream changes what is found. -/
theorem streamState_step (consuming : Consuming node) (allowed : node.Allowed action)
    (stepped : node.step action = some node') (other : ∀ state, action = .next state → streamIdFromState state ≠ id) :
    node'.streamState id = node.streamState id := by
  rcases step_cases stepped with ⟨state, rfl, rfl⟩ | ⟨own, state, rfl, _, held, rfl⟩ | ⟨_, _, rfl, _, rfl⟩ |
    ⟨_, _, rfl, _, rfl⟩ | ⟨own, rfl, absent, rfl⟩ | ⟨own, rfl, rfl⟩ | ⟨_, _, rfl, _, _, rfl⟩ | ⟨rfl, rfl⟩ |
    ⟨_, rfl, _, rfl⟩ | ⟨_, _, rfl, _, _, rfl⟩ | ⟨_, rfl, rfl⟩
  · simp [streamState, Function.update_of_ne (other state rfl).symm]
  · by_cases same : id = own
    · subst same
      simp [streamState, held]
    · simp [streamState, Function.update_of_ne same]
  · rfl
  · rfl
  · by_cases same : id = own
    · subst same
      simp [streamState, absent]
    · simp [streamState, Function.update_of_ne same]
  · by_cases same : id = own
    · subst same
      rcases consuming.agree id with equal | none | changing
      · simp [streamState, equal]
      · simp [streamState, none]
      · exact absurd changing allowed
    · simp [streamState, Function.update_of_ne same]
  · rfl
  · rfl
  · rfl
  · rfl
  · rfl

/-- What is to come of a stream stays to come, whatever happens but that the consumer resumes. -/
theorem Pending.step (consuming : Consuming node) (allowed : node.Allowed action)
    (stepped : node.step action = some node') (inside : k ≤ node.feed.enqueued.length)
    (reads : ∀ received, action ≠ .resume received) (pending : node.Pending k id) : node'.Pending k id := by
  rcases step_cases stepped with ⟨state, rfl, rfl⟩ | ⟨own, state, rfl, _, _, rfl⟩ | ⟨own, now, rfl, _, rfl⟩ |
    ⟨act, feed, rfl, moved, rfl⟩ | ⟨own, rfl, _, rfl⟩ | ⟨own, rfl, rfl⟩ | ⟨_, _, rfl, _, _, rfl⟩ | ⟨rfl, rfl⟩ |
    ⟨_, rfl, _, rfl⟩ | ⟨_, _, rfl, _, _, rfl⟩ | ⟨received, rfl, _⟩
  · rcases pending with changing | stored | undelivered
    · exact .inl (List.mem_append_left _ changing)
    · exact .inr (.inl stored)
    · exact .inr (.inr undelivered)
  · rcases pending with changing | stored | undelivered
    · by_cases same : id = own
      · exact .inr (.inl (List.mem_append_right _ (List.mem_singleton.mpr same)))
      · exact .inl ((List.mem_erase_of_ne same).mpr changing)
    · exact .inr (.inl (List.mem_append_left _ stored))
    · exact .inr (.inr undelivered)
  · obtain ⟨inOrder, behind⟩ := allowed
    have new : ({ key := (node.feed.keyGenerator.next now).1, streamID := own } : FeedEntry) ∈
        (node.feed.put own now).puts.map (·.entry) := by
      simp [Feed.put]
    rcases pending with changing | stored | ⟨entry, known, named, later, notGiven⟩
    · exact .inl changing
    · by_cases same : id = own
      · refine .inr (.inr ⟨_, .inr new, same.symm, consuming.sound.reading.forward.trans_lt behind, fun given => ?_⟩)
        have reached := (consuming.sound.reading.given _ (List.mem_of_mem_take given)).2.1
        exact absurd (behind.trans_le reached) (lt_irrefl _)
      · exact .inr (.inl ((List.mem_erase_of_ne same).mpr stored))
    · have kept : (node.feed.put own now).Known entry :=
        @Feed.known_step node.feed _ (.put own now) consuming.sound.written (fun _ => by rintro ⟨⟩) rfl _ known
      exact .inr (.inr ⟨entry, kept, named, later, notGiven⟩)
  · obtain ⟨_, saves⟩ := allowed.feed
    rcases pending with changing | stored | ⟨entry, known, named, later, notGiven⟩
    · exact .inl changing
    · exact .inr (.inl stored)
    · obtain ⟨⟨more, grown⟩, _⟩ := Feed.step_grows consuming.sound.written moved
      refine .inr (.inr ⟨entry, Feed.known_step consuming.sound.written saves moved known, named, later, ?_⟩)
      rwa [← grown, List.take_append_of_le_length inside]
  · exact pending
  · exact pending
  · exact pending
  · exact pending
  · exact pending
  · exact pending
  · exact absurd rfl (reads received)

/-- No document of the consumer's is behind the place where it resumes. -/
theorem le_resumeToken {after : FeedKey} {documents : List FeedDocument}
    (ordered : documents.Pairwise fun a b => a.resumeToken < b.resumeToken) {document : FeedDocument}
    (member : document ∈ documents) : document.resumeToken ≤ resumeToken after documents := by
  cases isLast : documents.getLast? with
  | none =>
    obtain rfl := List.getLast?_eq_none_iff.mp isLast
    cases member
  | some last =>
    obtain ⟨front, rfl⟩ := List.getLast?_eq_some_iff.mp isLast
    simp only [resumeToken, isLast, Option.map_some, Option.getD_some]
    rcases List.mem_append.mp member with before | self
    · exact ((List.pairwise_append.mp ordered).2.2 document before last (List.mem_singleton_self _)).le
    · rw [List.mem_singleton.mp self]

theorem resumeToken_cases (after : FeedKey) (documents : List FeedDocument) :
    resumeToken after documents = after ∨ ∃ document ∈ documents, document.resumeToken = resumeToken after documents := by
  cases isLast : documents.getLast? with
  | none => exact .inl (by simp [resumeToken, isLast])
  | some last => exact .inr ⟨last, List.mem_of_getLast? isLast, by simp [resumeToken, isLast]⟩

/-- Something is still to come where the entry that is looked up next is of another stream. -/
theorem Undelivered.succ {entry : FeedEntry} (isNext : node.nextEntry = some entry) (other : entry.streamID ≠ id)
    (undelivered : node.Undelivered node.transformed id) : node.Undelivered (node.transformed + 1) id := by
  obtain ⟨pending, known, named, later, notGiven⟩ := undelivered
  refine ⟨pending, known, named, later, fun given => ?_⟩
  rw [List.take_add_one, show node.feed.enqueued[node.transformed]? = some entry from isNext] at given
  rcases List.mem_append.mp given with before | self
  · exact notGiven before
  · rw [Option.toList_some, List.mem_singleton] at self
    exact other (self ▸ named)

theorem within_of_nextEntry {entry : FeedEntry} (isNext : node.nextEntry = some entry) :
    node.transformed + 1 ≤ node.feed.enqueued.length := (List.getElem?_eq_some_iff.mp isNext).1

namespace Consuming

variable (consuming : Consuming node)

include consuming

/-- The node goes on and the documents stay as they are. -/
theorem frame (allowed : node.Allowed action) (stepped : node.step action = some node')
    (reads : ∀ received, action ≠ .resume received) (sound : Feed.Sound node.gt node'.feed)
    (grown : node.feed.enqueued <+: node'.feed.enqueued)
    (rows : ∀ entry ∈ node.feed.store.rows, entry ∈ node'.feed.store.rows)
    (own : ∀ id state, node'.inmemory id = some state ∨ node'.stateStore id = some state → streamIdFromState state = id)
    (agree : ∀ id, node'.inmemory id = node'.stateStore id ∨ node'.inmemory id = none ∨ id ∈ node'.changed)
    (sameAfter : node'.after = node.after) (sameGt : node'.gt = node.gt) (sameCount : node'.transformed = node.transformed)
    (sameStage : ∀ found, node'.stage = .loaded found → node.stage = .loaded found)
    (sameDocuments : node'.documents = node.documents) : Consuming node' := by
  obtain ⟨more, isGrown⟩ := grown
  have sameDelivered : node'.delivered = node.delivered := by
    rw [delivered, delivered, sameCount, ← isGrown, List.take_append_of_le_length consuming.within]
  refine ⟨sameGt ▸ sound, ?_, own, agree, ?_, ?_, ?_, ?_, ?_, ?_⟩
  · rw [sameCount, ← isGrown, List.length_append]
    exact Nat.le_add_right_of_le consuming.within
  · rw [sameAfter, sameGt]
    exact consuming.started
  · rw [sameDocuments]
    exact consuming.ordered
  · rw [sameDocuments, sameAfter]
    exact consuming.behind
  · rw [sameDocuments, sameGt, sameDelivered]
    exact consuming.reached
  · intro document member
    rw [sameDocuments] at member
    obtain ⟨entry, stored, isKey, named⟩ := consuming.stored document member
    exact ⟨entry, rows entry stored, isKey, named⟩
  · intro found isStage
    obtain ⟨entry, isNext, ofStream, answer⟩ := consuming.answered found (sameStage found isStage)
    have inside := within_of_nextEntry isNext
    have sameNext : node'.nextEntry = some entry := by
      rw [nextEntry, sameCount, ← isGrown, List.getElem?_append_left (by omega)]
      exact isNext
    refine ⟨entry, sameNext, ofStream, ?_⟩
    rw [sameCount]
    rcases answer with current | pending
    · by_cases changes : ∃ state, action = .next state ∧ streamIdFromState state = entry.streamID
      · obtain ⟨state, rfl, same⟩ := changes
        obtain rfl := Option.some.inj stepped
        exact .inr (.inl (List.mem_append_right _ (List.mem_singleton.mpr same.symm)))
      · have other : ∀ state, action = .next state → streamIdFromState state ≠ entry.streamID :=
          fun state isNext same => changes ⟨state, isNext, same⟩
        exact .inl (current.trans (streamState_step consuming allowed stepped other).symm)
    · exact .inr (pending.step consuming allowed stepped inside reads)

theorem enqueue {entry : FeedEntry} {found : Option StreamState} (isNext : node.nextEntry = some entry)
    (ofStream : ∀ state ∈ found, streamIdFromState state = entry.streamID) : Consuming (node.enqueue entry found) := by
  have atPlace : node.feed.enqueued[node.transformed]? = some entry := isNext
  have member := List.mem_of_getElem? atPlace
  obtain ⟨later, _, stored⟩ := consuming.sound.reading.given entry member
  have delivers : (node.enqueue entry found).delivered = node.delivered ++ [entry] := by
    simp [delivered, DocumentFeed.enqueue, List.take_add_one, atPlace]
  have beyond : ∀ document ∈ node.documents, document.resumeToken < entry.key := by
    intro document known
    rcases consuming.reached document known with old | ⟨given, before, isKey⟩
    · exact old.trans_lt later
    · have ordered := consuming.sound.reading.ordered
      rw [← List.take_append_drop node.transformed node.feed.enqueued] at ordered
      have behindPlace : entry ∈ node.feed.enqueued.drop node.transformed := by
        refine List.mem_of_getElem? (i := 0) ?_
        rw [List.getElem?_drop, Nat.add_zero]
        exact atPlace
      exact isKey ▸ (List.pairwise_append.mp ordered).2.2 given before entry behindPlace
  have new : ∀ document ∈ (node.enqueue entry found).documents, document ∈ node.documents ∨
      document.resumeToken = entry.key ∧ document.streamId = entry.streamID := by
    intro document inDocuments
    rcases List.mem_append.mp inDocuments with old | own
    · exact .inl old
    · obtain ⟨state, isFound, rfl⟩ := Option.map_eq_some_iff.mp (Option.mem_toList.mp own)
      exact .inr ⟨rfl, ofStream state isFound⟩
  refine ⟨consuming.sound, within_of_nextEntry isNext, consuming.own, consuming.agree, consuming.started, ?_, ?_, ?_, ?_, ?_⟩
  · refine List.pairwise_append.mpr ⟨consuming.ordered, ?_, fun a old b own => ?_⟩
    · cases found with
      | none => exact List.Pairwise.nil
      | some state => exact List.pairwise_singleton _ _
    · obtain ⟨state, _, rfl⟩ := Option.map_eq_some_iff.mp (Option.mem_toList.mp own)
      exact beyond a old
  · intro document inDocuments
    rcases new document inDocuments with old | ⟨isKey, _⟩
    · exact consuming.behind document old
    · exact isKey ▸ consuming.started.trans_lt later
  · intro document inDocuments
    rw [delivers]
    rcases new document inDocuments with old | ⟨isKey, _⟩
    · rcases consuming.reached document old with before | ⟨given, inDelivered, isKey⟩
      · exact .inl before
      · exact .inr ⟨given, List.mem_append_left _ inDelivered, isKey⟩
    · exact .inr ⟨entry, List.mem_append_right _ (List.mem_singleton_self _), isKey.symm⟩
  · intro document inDocuments
    rcases new document inDocuments with old | ⟨isKey, named⟩
    · exact consuming.stored document old
    · exact ⟨entry, stored, isKey.symm, named.symm⟩
  · rintro _ ⟨⟩

theorem resume (received : Nat) : Consuming (node.resume received) := by
  have earlier : ∀ document ∈ node.documents.take received, document ∈ node.documents := fun _ => List.mem_of_mem_take
  have ordered := consuming.ordered.sublist (List.take_sublist received node.documents)
  have written := consuming.sound.written
  refine ⟨⟨⟨written.generator, written.known, written.apart, written.fresh, written.stored⟩, ?_⟩, Nat.zero_le _,
    consuming.own, consuming.agree, ?_, ordered, ?_, ?_, ?_, ?_⟩
  · refine ⟨le_refl _, .inl rfl, List.Pairwise.nil, ?_, fun _ _ => .inr, ?_, ?_, ?_⟩
    · rintro entry ⟨⟩
    · rintro _ ⟨⟩
    · rintro _ ⟨⟩
    · rintro (⟨⟨⟩⟩ | ⟨⟨⟩⟩)
  · rcases resumeToken_cases node.after (node.documents.take received) with same | ⟨document, member, same⟩
    · exact same.ge
    · exact (consuming.behind document (earlier document member)).le.trans_eq same
  · exact fun document member => consuming.behind document (earlier document member)
  · exact fun document member => .inl (le_resumeToken ordered member)
  · exact fun document member => consuming.stored document (earlier document member)
  · rintro _ ⟨⟩

end Consuming

theorem Consuming.step (consuming : Consuming node) (allowed : node.Allowed action)
    (stepped : node.step action = some node') : Consuming node' := by
  have frame := consuming.frame allowed stepped
  rcases step_cases stepped with ⟨state, rfl, rfl⟩ | ⟨own, state, rfl, _, held, rfl⟩ | ⟨own, now, rfl, _, rfl⟩ |
    ⟨act, feed, rfl, moved, rfl⟩ | ⟨own, rfl, absent, rfl⟩ | ⟨own, rfl, rfl⟩ | ⟨entry, found, rfl, isNext, held, rfl⟩ |
    ⟨rfl, rfl⟩ | ⟨entry, rfl, isNext, rfl⟩ | ⟨entry, found, rfl, isNext, isStage, rfl⟩ | ⟨received, rfl, rfl⟩
  · refine frame (fun _ => by rintro ⟨⟩) consuming.sound (List.prefix_refl _) (fun _ => id) ?_ ?_ rfl rfl rfl
      (fun _ => id) rfl
    · intro id other given
      by_cases same : id = streamIdFromState state
      · rcases given with held | stored
        · simp only [same, Function.update_self, Option.some.injEq] at held
          rw [← held, same]
        · exact consuming.own id other (.inr stored)
      · exact consuming.own id other (by simpa [Function.update_of_ne same] using given)
    · intro id
      by_cases same : id = streamIdFromState state
      · exact .inr (.inr (List.mem_append_right _ (List.mem_singleton.mpr same)))
      · rcases consuming.agree id with equal | none | changing
        · exact .inl ((Function.update_of_ne same _ _).trans equal)
        · exact .inr (.inl ((Function.update_of_ne same _ _).trans none))
        · exact .inr (.inr (List.mem_append_left _ changing))
  · refine frame (fun _ => by rintro ⟨⟩) consuming.sound (List.prefix_refl _) (fun _ => id) ?_ ?_ rfl rfl rfl
      (fun _ => id) rfl
    · intro id other given
      by_cases same : id = own
      · subst same
        rcases given with held' | stored
        · exact consuming.own id other (.inl held')
        · exact consuming.own id other (.inl (held.trans (by simpa using stored)))
      · exact consuming.own id other (by simpa [Function.update_of_ne same] using given)
    · intro id
      by_cases same : id = own
      · subst same
        exact .inl (by simp [held])
      · rcases consuming.agree id with equal | none | changing
        · exact .inl (equal.trans (Function.update_of_ne same _ _).symm)
        · exact .inr (.inl none)
        · exact .inr (.inr ((List.mem_erase_of_ne same).mpr changing))
  · have sound := consuming.sound.step allowed.1 (rfl : node.feed.step (.put own now) = some _)
    exact frame (fun _ => by rintro ⟨⟩) sound (List.prefix_refl _) (fun _ => id) consuming.own consuming.agree
      rfl rfl rfl (fun _ => id) rfl
  · obtain ⟨grown, rows⟩ := Feed.step_grows consuming.sound.written moved
    exact frame (fun _ => by rintro ⟨⟩) (consuming.sound.step allowed.feed.1 moved) grown rows consuming.own consuming.agree
      rfl rfl rfl (fun _ => id) rfl
  · refine frame (fun _ => by rintro ⟨⟩) consuming.sound (List.prefix_refl _) (fun _ => id) ?_ ?_ rfl rfl rfl
      (fun _ => id) rfl
    · intro id other given
      by_cases same : id = own
      · subst same
        exact consuming.own id other (.inr (by simpa using given))
      · exact consuming.own id other (by simpa [Function.update_of_ne same] using given)
    · intro id
      by_cases same : id = own
      · subst same
        exact .inl (Function.update_self _ _ _)
      · dsimp only
        rw [Function.update_of_ne same]
        exact consuming.agree id
  · refine frame (fun _ => by rintro ⟨⟩) consuming.sound (List.prefix_refl _) (fun _ => id) ?_ ?_ rfl rfl rfl
      (fun _ => id) rfl
    · intro id other given
      by_cases same : id = own
      · subst same
        exact consuming.own id other (.inr (by simpa using given))
      · exact consuming.own id other (by simpa [Function.update_of_ne same] using given)
    · intro id
      by_cases same : id = own
      · subst same
        exact .inr (.inl (Function.update_self _ _ _))
      · dsimp only
        rw [Function.update_of_ne same]
        exact consuming.agree id
  · refine consuming.enqueue isNext fun state isFound => ?_
    obtain rfl := Option.some.inj isFound
    exact consuming.own _ _ (.inl held)
  · exact frame (fun _ => by rintro ⟨⟩) consuming.sound (List.prefix_refl _) (fun _ => id) consuming.own consuming.agree
      rfl rfl rfl (fun _ => by rintro ⟨⟩) rfl
  · refine ⟨consuming.sound, consuming.within, consuming.own, consuming.agree, consuming.started, consuming.ordered,
      consuming.behind, consuming.reached, consuming.stored, ?_⟩
    rintro _ ⟨⟩
    refine ⟨entry, isNext, fun state isFound => consuming.own _ _ (.inr isFound), ?_⟩
    rcases consuming.agree entry.streamID with equal | none | changing
    · exact .inl (by simp [streamState, equal])
    · exact .inl (by simp [streamState, none])
    · exact .inr (.inl changing)
  · obtain ⟨asked, sameNext, ofStream, _⟩ := consuming.answered found isStage
    obtain rfl := Option.some.inj (isNext.symm.trans sameNext)
    exact consuming.enqueue isNext ofStream
  · exact consuming.resume received

/-- The stream is found, and the consumer has its state or has something of it to come. -/
def Tracked (id : StreamID) (node : DocumentFeed) : Prop :=
  (node.streamState id).isSome ∧ (node.Pending node.transformed id ∨ node.UpToDate id)

theorem latest_append (documents : List FeedDocument) (document : FeedDocument) (id : StreamID) :
    latest (documents ++ [document]) id = if document.streamId = id then some document else latest documents id := by
  unfold latest
  by_cases same : document.streamId = id <;> simp [List.filter_append, same]

/-- An entry that is looked up leaves the state of its stream with the consumer. -/
theorem Tracked.enqueue (consuming : Consuming node) {entry : FeedEntry} {found : Option StreamState}
    (isNext : node.nextEntry = some entry) (ofStream : ∀ state ∈ found, streamIdFromState state = entry.streamID)
    (answer : found = node.streamState entry.streamID ∨ node.Pending (node.transformed + 1) entry.streamID)
    (tracked : Tracked id node) : Tracked id (node.enqueue entry found) := by
  obtain ⟨isThere, come⟩ := tracked
  refine ⟨isThere, ?_⟩
  by_cases same : entry.streamID = id
  · subst same
    rcases answer with rfl | pending
    · obtain ⟨state, isState⟩ := Option.isSome_iff_exists.mp isThere
      have own := consuming.own_streamState isState
      refine .inr ⟨.fromStreamState entry.key state, state, ?_, isState, rfl⟩
      simp [DocumentFeed.enqueue, isState, latest_append, own]
    · exact .inl pending
  · rcases come with (changing | stored | undelivered) | ⟨document, state, isLatest, isState, made⟩
    · exact .inl (.inl changing)
    · exact .inl (.inr (.inl stored))
    · exact .inl (.inr (.inr (undelivered.succ isNext same)))
    · refine .inr ⟨document, state, ?_, isState, made⟩
      cases found with
      | none => simpa [DocumentFeed.enqueue] using isLatest
      | some own =>
        have other : streamIdFromState own ≠ id := fun named => same ((ofStream own rfl).symm.trans named)
        simpa [DocumentFeed.enqueue, latest_append, other] using isLatest

/-- What was in flight when the consumer resumed is behind the document that it resumes from. -/
theorem Tracked.resume (consuming : Consuming node) (received : Nat) (tracked : Tracked id node) :
    Tracked id (node.resume received) := by
  obtain ⟨isThere, come⟩ := tracked
  refine ⟨isThere, ?_⟩
  rcases come with (changing | stored | ⟨entry, known, named, later, notGiven⟩) | ⟨document, state, isLatest, isState, made⟩
  · exact .inl (.inl changing)
  · exact .inl (.inr (.inl stored))
  · refine .inl (.inr (.inr ⟨entry, known, named, ?_, List.not_mem_nil⟩))
    rcases resumeToken_cases node.after (node.documents.take received) with same | ⟨last, member, same⟩
    · exact same.trans_lt (consuming.started.trans_lt later)
    · refine same.symm.trans_lt ?_
      rcases consuming.reached last (List.mem_of_mem_take member) with before | ⟨given, inDelivered, isKey⟩
      · exact before.trans_lt later
      · rw [← isKey]
        rcases consuming.sound.reading.notPassed entry known later with inEnqueued | ahead
        · have ordered := consuming.sound.reading.ordered
          rw [← List.take_append_drop node.transformed node.feed.enqueued] at ordered inEnqueued
          rcases List.mem_append.mp inEnqueued with before | behind
          · exact absurd before notGiven
          · exact (List.pairwise_append.mp ordered).2.2 given inDelivered entry behind
        · exact (consuming.sound.reading.given given (List.mem_of_mem_take inDelivered)).2.1.trans_lt ahead
  · have split : node.documents = node.documents.take received ++ node.documents.drop received :=
      (List.take_append_drop received node.documents).symm
    cases lost : (node.documents.drop received).filter (·.streamId = id) with
    | nil =>
      refine .inr ⟨document, state, ?_, isState, made⟩
      unfold latest at isLatest ⊢
      rw [split, List.filter_append, lost, List.append_nil] at isLatest
      exact isLatest
    | cons first rest =>
      have isLost : first ∈ (node.documents.drop received).filter (·.streamId = id) := by
        rw [lost]
        exact List.mem_cons_self
      obtain ⟨behind, ofStream⟩ := List.mem_filter.mp isLost
      have inDocuments := List.mem_of_mem_drop behind
      obtain ⟨entry, stored, isKey, named⟩ := consuming.stored first inDocuments
      refine .inl (.inr (.inr ⟨entry, .inl stored, named.trans (of_decide_eq_true ofStream), ?_, List.not_mem_nil⟩))
      rw [isKey]
      rcases resumeToken_cases node.after (node.documents.take received) with same | ⟨last, member, same⟩
      · exact same.trans_lt (consuming.behind first inDocuments)
      · have ordered := consuming.ordered
        rw [split] at ordered
        exact same.symm.trans_lt ((List.pairwise_append.mp ordered).2.2 last member first behind)

theorem Tracked.step (consuming : Consuming node) (allowed : node.Allowed action)
    (stepped : node.step action = some node') (tracked : Tracked id node) : Tracked id node' := by
  have found (other : ∀ state, action = .next state → streamIdFromState state ≠ id) :
      (node'.streamState id).isSome := by
    rw [streamState_step consuming allowed stepped other]
    exact tracked.1
  have come (other : ∀ state, action = .next state → streamIdFromState state ≠ id)
      (reads : ∀ received, action ≠ .resume received) (sameCount : node'.transformed = node.transformed)
      (sameDocuments : node'.documents = node.documents) :
      node'.Pending node'.transformed id ∨ node'.UpToDate id := by
    rcases tracked.2 with pending | ⟨document, state, isLatest, isState, made⟩
    · exact .inl (sameCount ▸ pending.step consuming allowed stepped consuming.within reads)
    · refine .inr ⟨document, state, sameDocuments ▸ isLatest, ?_, made⟩
      rw [streamState_step consuming allowed stepped other]
      exact isState
  rcases step_cases stepped with ⟨state, rfl, rfl⟩ | ⟨_, _, rfl, _, _, rfl⟩ | ⟨_, _, rfl, _, rfl⟩ | ⟨_, _, rfl, _, rfl⟩ |
    ⟨_, rfl, _, rfl⟩ | ⟨_, rfl, rfl⟩ | ⟨entry, held, rfl, isNext, isHeld, rfl⟩ | ⟨rfl, rfl⟩ | ⟨_, rfl, _, rfl⟩ |
    ⟨entry, answer, rfl, isNext, isStage, rfl⟩ | ⟨received, rfl, rfl⟩
  · by_cases same : streamIdFromState state = id
    · refine ⟨by simp [streamState, same], .inl (.inl ?_)⟩
      exact List.mem_append_right _ (List.mem_singleton.mpr same.symm)
    · have other : ∀ own, NodeAction.next state = .next own → streamIdFromState own ≠ id := by
        rintro _ ⟨⟩
        exact same
      exact ⟨found other, come other (fun _ => by rintro ⟨⟩) rfl rfl⟩
  · exact ⟨found (fun _ => by rintro ⟨⟩), come (fun _ => by rintro ⟨⟩) (fun _ => by rintro ⟨⟩) rfl rfl⟩
  · exact ⟨found (fun _ => by rintro ⟨⟩), come (fun _ => by rintro ⟨⟩) (fun _ => by rintro ⟨⟩) rfl rfl⟩
  · exact ⟨found (fun _ => by rintro ⟨⟩), come (fun _ => by rintro ⟨⟩) (fun _ => by rintro ⟨⟩) rfl rfl⟩
  · exact ⟨found (fun _ => by rintro ⟨⟩), come (fun _ => by rintro ⟨⟩) (fun _ => by rintro ⟨⟩) rfl rfl⟩
  · exact ⟨found (fun _ => by rintro ⟨⟩), come (fun _ => by rintro ⟨⟩) (fun _ => by rintro ⟨⟩) rfl rfl⟩
  · refine tracked.enqueue consuming isNext (fun state isState => ?_) (.inl ?_)
    · obtain rfl := Option.some.inj isState
      exact consuming.own _ _ (.inl isHeld)
    · simp [streamState, isHeld]
  · exact ⟨found (fun _ => by rintro ⟨⟩), come (fun _ => by rintro ⟨⟩) (fun _ => by rintro ⟨⟩) rfl rfl⟩
  · exact ⟨found (fun _ => by rintro ⟨⟩), come (fun _ => by rintro ⟨⟩) (fun _ => by rintro ⟨⟩) rfl rfl⟩
  · obtain ⟨_, sameNext, ofStream, isAnswer⟩ := consuming.answered answer isStage
    obtain rfl := Option.some.inj (isNext.symm.trans sameNext)
    exact tracked.enqueue consuming isNext ofStream isAnswer
  · exact tracked.resume consuming received

/-- Nothing is to come of any stream once the consumer has caught up. -/
theorem Consuming.not_pending (consuming : Consuming node) (caughtUp : node.CaughtUp) :
    ¬node.Pending node.transformed id := by
  rintro (changing | stored | ⟨entry, known, _, later, notGiven⟩)
  · rw [caughtUp.changed] at changing
    cases changing
  · rw [caughtUp.pinned] at stored
    cases stored
  · have inStore : entry ∈ node.feed.store.rows := by
      rcases known with stored | onTheWay
      · exact stored
      · rw [caughtUp.puts] at onTheWay
        cases onTheWay
    rcases consuming.sound.reading.notPassed entry known later with given | ahead
    · rw [caughtUp.transformed, List.take_length] at notGiven
      exact notGiven given
    · have toBeTold := consuming.sound.reading.told (.inl caughtUp.waiting) entry inStore ahead
      rw [Feed.ToBeTold, caughtUp.puts] at toBeTold
      cases toBeTold

/-- What a node has when its first consumer comes: its streams in the state store, those in memory as they
are there, and a feed whose entries are of a time that is not after the clock's. -/
structure Settled (keyGenerator : MonotonicKey) (store : FeedStore)
    (inmemory stateStore : StreamID → Option StreamState) : Prop where
  left : Feed.Left keyGenerator store
  own : ∀ id state, stateStore id = some state → streamIdFromState state = id
  inmemory : ∀ id, inmemory id = stateStore id ∨ inmemory id = none

theorem Settled.consuming {keyGenerator : MonotonicKey} {store : FeedStore}
    {inmemory stateStore : StreamID → Option StreamState} (settled : Settled keyGenerator store inmemory stateStore)
    (after : FeedKey) : Consuming (documentsAfter keyGenerator store inmemory stateStore after) where
  sound := settled.left.sound after
  within := Nat.zero_le _
  own id state given := by
    rcases given with held | stored
    · rcases settled.inmemory id with equal | none
      · exact settled.own id state (equal.symm.trans held)
      · exact absurd (held.symm.trans none) (by rintro ⟨⟩)
    · exact settled.own id state stored
  agree id := (settled.inmemory id).imp_right .inl
  started := le_refl after
  ordered := List.Pairwise.nil
  behind := by rintro document ⟨⟩
  reached := by rintro document ⟨⟩
  stored := by rintro document ⟨⟩
  answered := by rintro found ⟨⟩

namespace DocumentFixture

instance (node : DocumentFeed) : (action : NodeAction) → Decidable (node.Allowed action)
  | .put id now => inferInstanceAs (Decidable
      (node.feed.InOrder (.put id now) ∧ node.feed.token < (node.feed.keyGenerator.next now).1))
  | .feed (.fail _) => isFalse not_false
  | .feed (.put id now) => inferInstanceAs (Decidable (node.feed.InOrder (.put id now)))
  | .feed (.land i) => inferInstanceAs (Decidable (node.feed.InOrder (.land i)))
  | .feed (.notify i) => inferInstanceAs (Decidable (node.feed.InOrder (.notify i)))
  | .feed (.find size) => inferInstanceAs (Decidable (node.feed.InOrder (.find size)))
  | .feed .resolve => inferInstanceAs (Decidable (node.feed.InOrder .resolve))
  | .evict id => inferInstanceAs (Decidable (id ∉ node.changed))
  | .next _ | .pin _ | .register _ | .transform | .load | .loaded | .resume _ => isTrue trivial

def tile (content : Rat) : StreamState :=
  { type := TILE_TYPE_ID, content := .num content, metadata := [], signature := .SIGNED, anchorStatus := .NOT_REQUESTED
    log := .singleton { cid := ⟨[1]⟩, type := .INIT } }

def opened : DocumentFeed := documentsAfter (.make 1700000000000) .empty (fun _ => none) (fun _ => none) []

/-- The document gets lost with the connection, and the stream has left the memory by the time that it is sent again. -/
def afterChange : List NodeAction :=
  [.pin (Feed.changedStream 1), .put (Feed.changedStream 1) 1700000000000, .feed (.land 0), .feed (.find 2),
    .feed .resolve, .feed (.notify 0), .transform, .resume 0, .evict (Feed.changedStream 1), .feed (.find 2),
    .feed .resolve, .transform, .load, .loaded, .feed (.find 2), .feed .resolve]

def updated : DocumentFeed := (opened.step (.next (tile 1))).getD opened

def resumed : DocumentFeed := (Transition.run step updated afterChange).getD updated

end DocumentFixture

end DocumentFeed

end Ceramic
