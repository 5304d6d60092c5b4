import Ceramic.FeedAggregationStore

/-! What a reader of the feed is given. A write that lands late, under a key that the reader
has passed, is never found, and one that is told of while the reader's search is under way
does not wake the reader. -/
namespace Ceramic

namespace Feed

/-- An entry that is in the store or on its way to it. -/
def Known (feed : Feed) (entry : FeedEntry) : Prop :=
  entry ∈ feed.store.rows ∨ entry ∈ feed.puts.map (·.entry)

/-- A write of the entry has landed and is still to be told of. -/
def ToBeTold (feed : Feed) (entry : FeedEntry) : Prop := { entry, stage := .saved } ∈ feed.puts

/-- The reader is given what is put after its first key, each entry once and in key order: it
passes no entry that is in the store or on its way to it, and when it waits for a write, this
write is still to be told of if it has not been given all. -/
structure Complete (start : FeedKey) (feed : Feed) : Prop where
  ordered : feed.enqueued.Pairwise fun a b => a.key < b.key
  given : ∀ entry ∈ feed.enqueued, start < entry.key ∧ entry ∈ feed.store.rows
  notPassed : ∀ entry, feed.Known entry → start < entry.key →
    entry ∈ feed.enqueued ∨ feed.token < entry.key
  awaited : feed.pull = .waiting → ∀ entry ∈ feed.store.rows, start < entry.key →
    entry ∈ feed.enqueued ∨ feed.ToBeTold entry

/-- Keys are taken in the order of time, a search finds no entry with a key above that of one
still on its way, and no write is told of while a search that did not find it comes back empty. -/
def InOrder (feed : Feed) : FeedAction → Prop
  | .put _ now => feed.keyGenerator.Ticks now
  | .find desiredSize => ∀ put ∈ feed.puts, put.stage = .saving → feed.token < put.entry.key →
      ∀ entry ∈ feed.store.find desiredSize feed.token, entry.key < put.entry.key
  | .notify i => feed.pull = .finding [] → ∀ put ∈ feed.puts[i]?, ¬ feed.token < put.entry.key
  | _ => True

instance (generator : MonotonicKey) (now : Nat) : Decidable (generator.Ticks now) :=
  decidable_of_iff (generator.previous ≤ now ∧ now < 10 ^ 13 ∧
      (generator.previous = now → generator.counter < 10 ^ 6))
    ⟨fun ⟨forward, valid, room⟩ => ⟨forward, valid, room⟩,
      fun ticks => ⟨ticks.forward, ticks.valid, ticks.room⟩⟩

instance (feed : Feed) : (action : FeedAction) → Decidable (feed.InOrder action)
  | .put _ now => inferInstanceAs (Decidable (feed.keyGenerator.Ticks now))
  | .find desiredSize => inferInstanceAs (Decidable (∀ put ∈ feed.puts, put.stage = .saving →
      feed.token < put.entry.key →
      ∀ entry ∈ feed.store.find desiredSize feed.token, entry.key < put.entry.key))
  | .notify i => inferInstanceAs (Decidable (feed.pull = .finding [] →
      ∀ put ∈ feed.puts[i]?, ¬ feed.token < put.entry.key))
  | .land _ => isTrue trivial
  | .fail _ => isTrue trivial
  | .resolve => isTrue trivial

/-- What the writers keep: keys of their time, none of them twice. -/
structure Written (feed : Feed) : Prop where
  generator : feed.keyGenerator.Valid
  known : ∀ entry, feed.Known entry →
    TimeKey entry.key ∧ ofDigits 10 entry.key < feed.keyGenerator.bound
  apart : (feed.puts.map (·.entry.key)).Nodup
  fresh : ∀ put ∈ feed.puts, put.stage = .saving → ∀ entry ∈ feed.store.rows, entry.key ≠ put.entry.key
  stored : ∀ put ∈ feed.puts, put.stage = .saved → put.entry ∈ feed.store.rows

theorem mem_rows_put {store : FeedStore} {entry other : FeedEntry}
    (fresh : ∀ old ∈ store.rows, old.key ≠ entry.key) :
    other ∈ (store.put entry).rows ↔ other ∈ store.rows ∨ other = entry := by
  have kept : (store.delete entry.key).rows = store.rows :=
    List.filter_eq_self.mpr fun old member => decide_eq_true (fresh old member)
  unfold KeyedTable.put
  rw [List.mem_append, List.mem_singleton, kept]

theorem getElem?_saving {feed : Feed} {i : Nat} {entry : FeedEntry} {stage : PutStage}
    (here : feed.puts[i]? = some ⟨entry, stage⟩) : (⟨entry, stage⟩ : FeedPut) ∈ feed.puts :=
  List.mem_of_getElem? here

/-- A put that lands is on the same list of entries. -/
theorem map_land {feed : Feed} {i : Nat} {entry : FeedEntry}
    (here : feed.puts[i]? = some ⟨entry, .saving⟩) :
    (feed.puts.set i ⟨entry, .saved⟩).map (·.entry) = feed.puts.map (·.entry) := by
  have same : (feed.puts.map (·.entry))[i]? = some entry := by
    rw [List.getElem?_map, here]
    rfl
  obtain ⟨inside, rfl⟩ := List.getElem?_eq_some_iff.mp same
  rw [List.map_set]
  exact List.set_getElem_self inside

theorem map_key_eq (puts : List FeedPut) :
    puts.map (·.entry.key) = (puts.map (·.entry)).map (·.key) := by
  rw [List.map_map]
  rfl

/-- The other puts stay when one of them lands. -/
theorem mem_set_of_ne {puts : List FeedPut} {i : Nat} {put other new : FeedPut}
    (here : puts[i]? = some put) (member : other ∈ puts) (ne : other ≠ put) : other ∈ puts.set i new := by
  obtain ⟨j, there⟩ := List.mem_iff_getElem?.mp member
  have apart : i ≠ j := by
    rintro rfl
    exact ne (Option.some.inj (there.symm.trans here))
  exact List.mem_iff_getElem?.mpr ⟨j, by rw [List.getElem?_set_ne apart, there]⟩

/-- The other puts stay when one of them is done. -/
theorem mem_eraseIdx_of_ne {puts : List FeedPut} {i : Nat} {put other : FeedPut}
    (here : puts[i]? = some put) (member : other ∈ puts) (ne : other ≠ put) : other ∈ puts.eraseIdx i := by
  obtain ⟨j, there⟩ := List.mem_iff_getElem?.mp member
  refine List.mem_eraseIdx_iff_getElem?.mpr ⟨j, ?_, there⟩
  rintro rfl
  exact ne (Option.some.inj (there.symm.trans here))

namespace Written

variable {feed : Feed} (written : Written feed)

include written

theorem put {now : Nat} (ticks : feed.keyGenerator.Ticks now) (streamID : StreamID) :
    Written (feed.put streamID now) ∧
      ∀ entry, feed.Known entry → entry.key < (feed.keyGenerator.next now).1 := by
  obtain ⟨key, low, high, valid⟩ := MonotonicKey.next_spec written.generator ticks
  have below : ∀ entry, feed.Known entry → entry.key < (feed.keyGenerator.next now).1 := by
    intro entry known
    obtain ⟨entryKey, bound⟩ := written.known entry known
    exact (entryKey.lt_iff key).mpr (by omega)
  refine ⟨⟨valid, ?_, ?_, ?_, ?_⟩, below⟩
  · intro entry known
    have cases : feed.Known entry ∨ entry.key = (feed.keyGenerator.next now).1 := by
      rcases known with stored | onTheWay
      · exact .inl (.inl stored)
      · rcases List.mem_append.mp (List.map_append ▸ onTheWay : entry ∈ feed.puts.map (·.entry) ++ _) with old | new
        · exact .inl (.inr old)
        · rw [List.map_singleton, List.mem_singleton] at new
          exact .inr (congrArg FeedEntry.key new)
    rcases cases with old | new
    · obtain ⟨entryKey, bound⟩ := written.known entry old
      exact ⟨entryKey, lt_of_lt_of_le bound (low.trans high.le)⟩
    · rw [new]
      exact ⟨key, high⟩
  · change ((feed.puts ++ [_]).map fun put : FeedPut => put.entry.key).Nodup
    rw [List.map_append, List.nodup_append]
    refine ⟨written.apart, List.nodup_singleton _, ?_⟩
    rintro a inPuts b inNew rfl
    obtain ⟨put, member, rfl⟩ := List.mem_map.mp inPuts
    have less := below put.entry (.inr (List.mem_map_of_mem member))
    rw [List.map_singleton, List.mem_singleton] at inNew
    exact absurd (inNew ▸ less) (lt_irrefl _)
  · intro put member stage entry stored
    rcases List.mem_append.mp member with old | new
    · exact written.fresh put old stage entry stored
    · rw [List.mem_singleton.mp new]
      exact (below entry (.inl stored)).ne
  · intro put member stage
    rcases List.mem_append.mp member with old | new
    · exact written.stored put old stage
    · rw [List.mem_singleton.mp new] at stage
      cases stage

theorem land {i : Nat} {entry : FeedEntry} (here : feed.puts[i]? = some ⟨entry, .saving⟩) :
    Written { feed with store := feed.store.put entry, puts := feed.puts.set i ⟨entry, .saved⟩ } := by
  have fresh := written.fresh _ (getElem?_saving here) rfl
  have entries := map_land here
  refine ⟨written.generator, ?_, ?_, ?_, ?_⟩
  · intro other known
    refine written.known other ?_
    rcases known with stored | onTheWay
    · rcases (mem_rows_put fresh).mp stored with old | rfl
      · exact .inl old
      · exact .inr (List.mem_map_of_mem (getElem?_saving here))
    · exact .inr (entries ▸ onTheWay)
  · change ((feed.puts.set i _).map fun put : FeedPut => put.entry.key).Nodup
    rw [map_key_eq, entries, ← map_key_eq]
    exact written.apart
  · intro put member stage other stored
    rcases List.mem_or_eq_of_mem_set member with old | rfl
    · rcases (mem_rows_put fresh).mp stored with before | rfl
      · exact written.fresh put old stage other before
      · -- two puts with the key of the one that landed would be one put
        intro same
        obtain ⟨inside, _⟩ := List.getElem?_eq_some_iff.mp here
        obtain ⟨j, there⟩ := List.mem_iff_getElem?.mp member
        by_cases index : i = j
        · subst index
          rw [List.getElem?_set_self inside] at there
          rw [← Option.some.inj there] at stage
          cases stage
        · rw [List.getElem?_set_ne index] at there
          refine index ((List.getElem?_inj (by simpa using inside) written.apart).mp ?_)
          rw [List.getElem?_map, List.getElem?_map, here, there]
          exact congrArg some same
    · cases stage
  · intro put member stage
    rcases List.mem_or_eq_of_mem_set member with old | rfl
    · exact (mem_rows_put fresh).mpr (.inl (written.stored put old stage))
    · exact (mem_rows_put fresh).mpr (.inr rfl)

theorem erase (i : Nat) (pull : PullStage) :
    Written { feed with puts := feed.puts.eraseIdx i, pull := pull } := by
  have less : (feed.puts.eraseIdx i).Sublist feed.puts := List.eraseIdx_sublist _ i
  refine ⟨written.generator, ?_, written.apart.sublist (less.map _), ?_, ?_⟩
  · intro entry known
    refine written.known entry ?_
    rcases known with stored | onTheWay
    · exact .inl stored
    · exact .inr ((less.map _).subset onTheWay)
  · exact fun put member => written.fresh put (less.subset member)
  · exact fun put member => written.stored put (less.subset member)

end Written

/-- The reader has been told that there is nothing for it. -/
def EmptyHanded (pull : PullStage) : Prop := pull = .waiting ∨ pull = .finding []

/-- What the reader keeps. -/
structure Reading (start : FeedKey) (feed : Feed) : Prop where
  forward : start ≤ feed.token
  came : feed.token = start ∨ ∃ entry ∈ feed.store.rows, entry.key = feed.token
  ordered : feed.enqueued.Pairwise fun a b => a.key < b.key
  given : ∀ entry ∈ feed.enqueued,
    start < entry.key ∧ entry.key ≤ feed.token ∧ entry ∈ feed.store.rows
  notPassed : ∀ entry, feed.Known entry → start < entry.key →
    entry ∈ feed.enqueued ∨ feed.token < entry.key
  found : ∀ entries, feed.pull = .finding entries →
    entries.Pairwise (fun a b => a.key < b.key) ∧
      ∀ first ∈ entries, feed.token < first.key ∧ first ∈ feed.store.rows
  covered : ∀ entries, feed.pull = .finding entries → entries ≠ [] →
    ∀ entry, feed.Known entry → feed.token < entry.key →
      entry ∈ entries ∨ ∀ first ∈ entries, first.key < entry.key
  told : EmptyHanded feed.pull → ∀ entry ∈ feed.store.rows, feed.token < entry.key →
    feed.ToBeTold entry

namespace Reading

variable {start : FeedKey} {feed feed' : Feed} (reading : Reading start feed)

include reading

/-- What the writers do to the reader. The entries that are new to the feed are behind all
that were there, and a reader without entries is told of those that are new to the store. -/
theorem frame (token : feed'.token = feed.token) (enqueued : feed'.enqueued = feed.enqueued)
    (pull : feed'.pull = feed.pull ∨ feed'.pull = .idle)
    (rows : ∀ entry ∈ feed.store.rows, entry ∈ feed'.store.rows)
    (known : ∀ entry, feed'.Known entry → feed.Known entry ∨
      ∀ old, feed.Known old → old.key < entry.key)
    (told : EmptyHanded feed'.pull → ∀ entry ∈ feed'.store.rows, feed.token < entry.key →
      feed'.ToBeTold entry) : Reading start feed' := by
  have searching : ∀ entries, feed'.pull = .finding entries → feed.pull = .finding entries := by
    intro entries finding
    rcases pull with same | idle
    · rw [← same, finding]
    · rw [idle] at finding
      cases finding
  refine ⟨token ▸ reading.forward, ?_, enqueued ▸ reading.ordered, ?_, ?_, ?_, ?_, ?_⟩
  · rw [token]
    rcases reading.came with none | ⟨entry, stored, last⟩
    · exact .inl none
    · exact .inr ⟨entry, rows entry stored, last⟩
  · intro entry member
    rw [enqueued] at member
    obtain ⟨behind, reached, stored⟩ := reading.given entry member
    exact ⟨behind, token ▸ reached, rows entry stored⟩
  · intro entry here behind
    rw [enqueued, token]
    rcases known entry here with old | above
    · exact reading.notPassed entry old behind
    · rcases reading.came with none | ⟨last, stored, reached⟩
      · exact .inr (none ▸ behind)
      · exact .inr (reached ▸ above last (.inl stored))
  · intro entries finding
    obtain ⟨ordered, behind⟩ := reading.found entries (searching entries finding)
    exact ⟨ordered, fun first member =>
      ⟨token ▸ (behind first member).1, rows first (behind first member).2⟩⟩
  · intro entries finding some entry here behind
    rcases known entry here with old | above
    · exact reading.covered entries (searching entries finding) some entry old (token ▸ behind)
    · exact .inr fun first member => above first
        (.inl ((reading.found entries (searching entries finding)).2 first member).2)
  · intro empty entry stored behind
    exact told empty entry stored (token ▸ behind)

theorem put (written : Written feed) {now : Nat} (ticks : feed.keyGenerator.Ticks now)
    (streamID : StreamID) : Reading start (feed.put streamID now) := by
  have below := (written.put ticks streamID).2
  refine reading.frame rfl rfl (.inl rfl) (fun _ => id) ?_ ?_
  · intro entry known
    rcases known with stored | onTheWay
    · exact .inl (.inl stored)
    · obtain ⟨put, member, rfl⟩ := List.mem_map.mp onTheWay
      rcases List.mem_append.mp member with old | new
      · exact .inl (.inr (List.mem_map_of_mem old))
      · rw [List.mem_singleton.mp new]
        exact .inr below
  · intro empty entry stored behind
    exact List.mem_append_left _ (reading.told empty entry stored behind)

theorem land (written : Written feed) {i : Nat} {entry : FeedEntry}
    (here : feed.puts[i]? = some ⟨entry, .saving⟩) : Reading start
      { feed with store := feed.store.put entry, puts := feed.puts.set i ⟨entry, .saved⟩ } := by
  have fresh := written.fresh _ (getElem?_saving here) rfl
  obtain ⟨inside, _⟩ := List.getElem?_eq_some_iff.mp here
  refine reading.frame rfl rfl (.inl rfl) (fun _ old => (mem_rows_put fresh).mpr (.inl old)) ?_ ?_
  · intro other known
    refine .inl ?_
    rcases known with stored | onTheWay
    · rcases (mem_rows_put fresh).mp stored with old | rfl
      · exact .inl old
      · exact .inr (List.mem_map_of_mem (getElem?_saving here))
    · exact .inr (map_land here ▸ onTheWay)
  · intro empty other stored behind
    rcases (mem_rows_put fresh).mp stored with old | rfl
    · exact mem_set_of_ne here (reading.told empty other old behind) (by simp)
    · exact List.mem_iff_getElem?.mpr ⟨i, List.getElem?_set_self inside⟩

/-- A put is done, and a reader without entries was not waiting for it. -/
theorem erase {i : Nat} {put : FeedPut} {pull : PullStage} (here : feed.puts[i]? = some put)
    (stage : pull = feed.pull ∨ pull = .idle)
    (unneeded : EmptyHanded pull → put.stage = .saving ∨ ¬ feed.token < put.entry.key) :
    Reading start { feed with puts := feed.puts.eraseIdx i, pull := pull } := by
  have less : (feed.puts.eraseIdx i).Sublist feed.puts := List.eraseIdx_sublist _ i
  refine reading.frame rfl rfl stage (fun _ => id) ?_ ?_
  · intro entry known
    refine .inl ?_
    rcases known with stored | onTheWay
    · exact .inl stored
    · exact .inr ((less.map _).subset onTheWay)
  · intro empty entry stored behind
    have same : pull = feed.pull := by
      rcases stage with same | idle
      · exact same
      · rcases empty with waiting | finding
        · cases idle.symm.trans waiting
        · cases idle.symm.trans finding
    refine mem_eraseIdx_of_ne here (reading.told (same ▸ empty) entry stored behind) ?_
    rintro rfl
    rcases unneeded empty with saving | passed
    · cases saving
    · exact passed behind

theorem find {desiredSize : Nat} (written : Written feed) (positive : 0 < desiredSize)
    (inOrder : feed.InOrder (.find desiredSize)) :
    Reading start { feed with pull := .finding (feed.store.find desiredSize feed.token) } := by
  refine ⟨reading.forward, reading.came, reading.ordered, reading.given, reading.notPassed, ?_, ?_, ?_⟩
  · rintro _ ⟨⟩
    exact ⟨FeedStore.find_ordered, fun first member =>
      ⟨(FeedStore.mem_find member).2, (FeedStore.mem_find member).1⟩⟩
  · rintro _ ⟨⟩ - entry known behind
    rcases known with stored | onTheWay
    · exact FeedStore.find_covers stored behind
    · obtain ⟨⟨entry, stage⟩, member, rfl⟩ := List.mem_map.mp onTheWay
      cases stage with
      | saving => exact .inr (inOrder _ member rfl behind)
      | saved => exact FeedStore.find_covers (written.stored _ member rfl) behind
  · rintro (waiting | finding) entry stored behind
    · cases waiting
    · exact absurd behind (FeedStore.eq_nil_of_find positive (PullStage.finding.inj finding) entry stored)

theorem resolve {entries : List FeedEntry} (finding : feed.pull = .finding entries) :
    Reading start (feed.resolve entries) := by
  obtain ⟨ordered, behind⟩ := reading.found entries finding
  unfold Feed.resolve
  split
  next none =>
    obtain rfl := List.getLast?_eq_none_iff.mp none
    refine ⟨reading.forward, reading.came, reading.ordered, reading.given, reading.notPassed, ?_, ?_,
      fun _ => reading.told (.inr finding)⟩
    · rintro _ ⟨⟩
    · rintro _ ⟨⟩
  next last isLast =>
    have inEntries := List.mem_of_getLast? isLast
    have above : ∀ entry ∈ entries, entry.key ≤ last.key := by
      obtain ⟨front, rfl⟩ := List.getLast?_eq_some_iff.mp isLast
      intro entry member
      rcases List.mem_append.mp member with before | self
      · exact ((List.pairwise_append.mp ordered).2.2 entry before last (List.mem_singleton_self _)).le
      · rw [List.mem_singleton.mp self]
    have passed : feed.token < last.key := (behind last inEntries).1
    refine ⟨reading.forward.trans passed.le, .inr ⟨last, (behind last inEntries).2, rfl⟩, ?_, ?_, ?_, ?_, ?_, ?_⟩
    · refine List.pairwise_append.mpr ⟨reading.ordered, ordered, fun a before b found => ?_⟩
      exact lt_of_le_of_lt (reading.given a before).2.1 (behind b found).1
    · intro entry member
      rcases List.mem_append.mp member with before | found
      · obtain ⟨later, reached, stored⟩ := reading.given entry before
        exact ⟨later, reached.trans passed.le, stored⟩
      · exact ⟨lt_of_le_of_lt reading.forward (behind entry found).1, above entry found,
          (behind entry found).2⟩
    · intro entry known later
      rcases reading.notPassed entry known later with before | ahead
      · exact .inl (List.mem_append_left _ before)
      · rcases reading.covered entries finding (List.ne_nil_of_mem inEntries) entry known ahead with
          found | beyond
        · exact .inl (List.mem_append_right _ found)
        · exact .inr (beyond last inEntries)
    · rintro _ ⟨⟩
    · rintro _ ⟨⟩
    · rintro (⟨⟨⟩⟩ | ⟨⟨⟩⟩)

theorem complete : Complete start feed where
  ordered := reading.ordered
  given entry member := ⟨(reading.given entry member).1, (reading.given entry member).2.2⟩
  notPassed := reading.notPassed
  awaited waiting entry stored later := by
    rcases reading.notPassed entry (.inl stored) later with given | ahead
    · exact .inl given
    · exact .inr (reading.told (.inl waiting) entry stored ahead)

end Reading

/-- The writers' keys are in order, and so is what the reader is given. -/
structure Sound (start : FeedKey) (feed : Feed) : Prop where
  written : Written feed
  reading : Reading start feed

theorem Sound.step {start : FeedKey} {feed feed' : Feed} {action : FeedAction}
    (sound : Sound start feed) (inOrder : feed.InOrder action) (stepped : feed.step action = some feed') :
    Sound start feed' := by
  obtain ⟨written, reading⟩ := sound
  rcases Feed.step_cases stepped with ⟨streamID, now, rfl, rfl⟩ | ⟨i, entry, rfl, here, rfl⟩ | ⟨i, entry, rfl, here, rfl⟩ |
    ⟨i, entry, rfl, here, rfl⟩ | ⟨desiredSize, rfl, ready, rfl⟩ | ⟨entries, rfl, finding, rfl⟩
  · exact ⟨(written.put inOrder streamID).1, reading.put written inOrder streamID⟩
  · exact ⟨written.land here, reading.land written here⟩
  · exact ⟨written.erase i feed.pull, reading.erase here (.inl rfl) fun _ => .inl rfl⟩
  · refine ⟨written.erase i _, reading.erase here ?_ fun empty => .inr ?_⟩
    · cases stage : feed.pull with
      | idle | finding | waiting => simp [onWrite]
    · refine inOrder ?_ _ here
      cases stage : feed.pull with
      | idle | finding | waiting => simp_all [onWrite, EmptyHanded]
  · exact ⟨⟨written.generator, written.known, written.apart, written.fresh, written.stored⟩,
      reading.find written ready.2 inOrder⟩
  · refine ⟨?_, reading.resolve finding⟩
    unfold Feed.resolve
    split
    · exact ⟨written.generator, written.known, written.apart, written.fresh, written.stored⟩
    · exact ⟨written.generator, written.known, written.apart, written.fresh, written.stored⟩

/-- What an earlier run of the node has left: entries of a time that is not after the clock's. -/
structure Left (keyGenerator : MonotonicKey) (store : FeedStore) : Prop where
  generator : keyGenerator.Valid
  entries : ∀ entry ∈ store.rows,
    TimeKey entry.key ∧ ofDigits 10 entry.key < keyGenerator.bound

theorem Left.sound {keyGenerator : MonotonicKey} {store : FeedStore} (left : Left keyGenerator store)
    (start : FeedKey) : Sound start (streamIDs keyGenerator store start) where
  written := by
    refine ⟨left.generator, fun entry known => ?_, List.nodup_nil, ?_, ?_⟩
    · rcases known with stored | onTheWay
      · exact left.entries entry stored
      · cases onTheWay
    · rintro put ⟨⟩
    · rintro put ⟨⟩
  reading := by
    refine ⟨le_refl start, .inl rfl, List.Pairwise.nil, ?_, fun _ _ => .inr, ?_, ?_, ?_⟩
    · rintro entry ⟨⟩
    · rintro _ ⟨⟩
    · rintro _ ⟨⟩
    · rintro (⟨⟨⟩⟩ | ⟨⟨⟩⟩)

/-- In a run in order the reader is given every write. -/
theorem complete_of_inOrder {keyGenerator : MonotonicKey} {store : FeedStore} {start : FeedKey}
    {feed : Feed} (left : Left keyGenerator store)
    (reaches : Transition.Reaches step InOrder (streamIDs keyGenerator store start) feed) :
    Complete start feed :=
  (reaches.invariant (left.sound start)
    fun _ _ _ sound inOrder stepped => sound.step inOrder stepped).reading.complete

/-- The streams that change. -/
def changedStream (n : UInt8) : StreamID := ⟨TILE_TYPE_ID, ⟨[n]⟩⟩

def emptyFeed : Feed := streamIDs (.make 1700000000000) .empty []

/-- The first change lands before the reader looks, the second after that. -/
def changesInOrder : List FeedAction :=
  [.put (changedStream 1) 1700000000000, .land 0, .put (changedStream 2) 1700000000000, .find 2,
    .resolve, .notify 0, .land 0, .find 2, .resolve, .find 2, .resolve, .notify 0]

/-- The second change lands first, and the first once the reader has found the second. -/
def changesOutOfOrder : List FeedAction :=
  [.put (changedStream 1) 1700000000000, .put (changedStream 2) 1700000000000, .land 1, .find 2,
    .resolve, .land 0]

def afterChanges (actions : List FeedAction) : Feed :=
  (Transition.run step emptyFeed actions).getD emptyFeed

theorem left_empty : Left (.make 1700000000000) .empty where
  generator := ⟨⟨by decide, by decide⟩, by decide⟩
  entries := by rintro entry ⟨⟩

theorem complete_changesInOrder : Complete [] (afterChanges changesInOrder) :=
  complete_of_inOrder left_empty (Transition.reaches_of_run
    (rfl : Transition.run step emptyFeed changesInOrder = some (afterChanges changesInOrder)) (by decide))

/-- The reader has come past the key of the write that lands last. -/
theorem late_write_lost : ¬∀ (keyGenerator : MonotonicKey) (store : FeedStore) (start : FeedKey)
    (feed : Feed), Left keyGenerator store →
    Transition.Reaches step (fun _ _ => True) (streamIDs keyGenerator store start) feed →
      Complete start feed := by
  intro always
  have ran : Transition.run step emptyFeed changesOutOfOrder =
      some (afterChanges changesOutOfOrder) := rfl
  have complete := always _ _ _ _ left_empty (Transition.reaches_of_run ran (by decide))
  have lost : ∃ entry ∈ (afterChanges changesOutOfOrder).store.rows, [] < entry.key ∧
      ¬(entry ∈ (afterChanges changesOutOfOrder).enqueued ∨
        (afterChanges changesOutOfOrder).token < entry.key) := by decide
  obtain ⟨entry, stored, behind, neither⟩ := lost
  exact neither (complete.notPassed entry (.inl stored) behind)

end Feed

namespace FeedStore

/-- The millisecond in which a key was made. -/
def millisecondsOf (key : FeedKey) : Nat := ofDigits 10 key / 10 ^ 6

/-- Against a text that is shorter, it is the front of a key that counts. -/
theorem lt_iff_take_lt {α : Type} [LinearOrder α] {key text : List α} (shorter : text.length ≤ key.length) :
    key < text ↔ key.take text.length < text := by
  induction text generalizing key with
  | nil => simp
  | cons d text ih =>
    obtain ⟨c, key, rfl⟩ := List.exists_cons_of_length_pos (Nat.lt_of_lt_of_le (Nat.succ_pos _) shorter)
    rw [List.length_cons, List.take_succ_cons, List.cons_lt_cons_iff, List.cons_lt_cons_iff]
    rw [ih (by simpa using shorter)]

theorem ofDigits_take {key : FeedKey} (digits : ∀ d ∈ key, d < 10) (n : Nat) :
    ofDigits 10 (key.take n) = ofDigits 10 key / 10 ^ (key.length - n) := by
  have small : ofDigits 10 (key.drop n) < 10 ^ (key.drop n).length :=
    ofDigits_lt fun d member => digits d (List.mem_of_mem_drop member)
  have whole : ofDigits 10 key = ofDigits 10 (key.take n) * 10 ^ (key.drop n).length + ofDigits 10 (key.drop n) := by
    conv => lhs; rw [← List.take_append_drop n key, ofDigits_append]
  rw [List.length_drop] at small whole
  rw [whole, Nat.mul_comm, Nat.mul_add_div (Nat.pow_pos (by decide)), Nat.div_eq_of_lt small, Nat.add_zero]

theorem length_decimalDigits_thousand {ms : Nat} (valid : ValidTime ms) : (decimalDigits (ms * 1000)).length = 16 := by
  obtain ⟨low, high⟩ := valid
  unfold decimalDigits
  rw [if_neg (by omega)]
  exact length_digits (k := 15) (by decide) (le_refl _) (by omega) (by omega)

theorem stale_iff {key : FeedKey} (isKey : TimeKey key) {ms : Nat} (valid : ValidTime ms) :
    key < decimalDigits (ms * 1000) ↔ millisecondsOf key < ms := by
  have length := length_decimalDigits_thousand valid
  have sixteen : (key.take 16).length = (decimalDigits (ms * 1000)).length := by
    rw [length, List.length_take, isKey.length]
    rfl
  rw [lt_iff_take_lt (by rw [length, isKey.length]; decide), length,
    lt_iff_ofDigits_lt sixteen (fun d member => isKey.digits d (List.mem_of_mem_take member)) (decimalDigits_lt _),
    ofDigits_decimalDigits, ofDigits_take isKey.digits, isKey.length, millisecondsOf]
  omega

theorem rows_deleteAll (store : FeedStore) (keys : List FeedKey) :
    (keys.foldl (fun store key => store.delete key) store).rows = store.rows.filter fun entry => entry.key ∉ keys := by
  induction keys generalizing store with
  | nil => simp
  | cons key keys ih =>
    rw [List.foldl_cons, ih]
    simp [KeyedTable.delete, List.filter_filter, not_or, Bool.and_comm]

theorem rows_deleteStale (store : FeedStore) (keys : ∀ entry ∈ store.rows, TimeKey entry.key) {ms : Nat}
    (valid : ValidTime ms) :
    (store.deleteStale ms).1.rows = store.rows.filter fun entry => ms ≤ millisecondsOf entry.key := by
  unfold deleteStale
  rw [rows_deleteAll]
  refine List.filter_congr fun entry stored => ?_
  have same : entry.key ∈ (store.rows.filter fun other => other.key < decimalDigits (ms * 1000)).map (·.key) ↔
      millisecondsOf entry.key < ms := by
    rw [← stale_iff (keys entry stored) valid, List.mem_map]
    constructor
    · rintro ⟨other, member, isKey⟩
      exact isKey ▸ of_decide_eq_true (List.mem_filter.mp member).2
    · exact fun stale => ⟨entry, List.mem_filter.mpr ⟨stored, decide_eq_true stale⟩, rfl⟩
  rw [decide_eq_decide, same, not_lt]

/-- The clean-up compares a text of sixteen digits to keys of nineteen, and still deletes just the entries that
were put before the time it is given. A reader that has come to that time is not affected. -/
theorem deleteStale_exact (store : FeedStore) (keys : ∀ entry ∈ store.rows, TimeKey entry.key) {ms : Nat}
    (valid : ValidTime ms) :
    (store.deleteStale ms).1.rows = (store.rows.filter fun entry => ms ≤ millisecondsOf entry.key) ∧
      (store.deleteStale ms).2 = (store.rows.filter fun entry => millisecondsOf entry.key < ms).length ∧
      ∀ gt, TimeKey gt → ms ≤ millisecondsOf gt → ∀ limit, (store.deleteStale ms).1.find limit gt = store.find limit gt := by
  have rows := rows_deleteStale store keys valid
  refine ⟨rows, ?_, fun gt isKey come limit => ?_⟩
  · unfold deleteStale
    dsimp only
    rw [List.length_map]
    refine congrArg List.length (List.filter_congr fun entry stored => ?_)
    rw [decide_eq_decide]
    exact stale_iff (keys entry stored) valid
  · have same : ((store.deleteStale ms).1.rows.filter fun entry => gt < entry.key) =
        store.rows.filter fun entry => gt < entry.key := by
      rw [rows, List.filter_filter]
      refine List.filter_congr fun entry stored => ?_
      rw [Bool.and_eq_left_iff_imp, decide_eq_true_eq, decide_eq_true_eq]
      intro behind
      have later := (isKey.lt_iff (keys entry stored)).mp behind
      exact come.trans (Nat.div_le_div_right later.le)
    unfold find
    rw [same]

/-- A stream that changed twice, the second time a week later. -/
def weekOld : FeedStore :=
  ⟨[⟨[1,7,0,0,0,0,0,0,0,0,0,0,0,0,0,0,0,0,0], Feed.changedStream 1⟩,
    ⟨[1,7,0,0,6,0,4,8,0,0,0,0,0,0,0,0,0,0,0], Feed.changedStream 1⟩], by decide⟩

theorem deleteStale_exact_weekOld :
    (weekOld.deleteStale 1700604800000).1.rows =
        (weekOld.rows.filter fun entry => 1700604800000 ≤ millisecondsOf entry.key) ∧
      (weekOld.deleteStale 1700604800000).2 =
        (weekOld.rows.filter fun entry => millisecondsOf entry.key < 1700604800000).length ∧
      ∀ gt, TimeKey gt → 1700604800000 ≤ millisecondsOf gt → ∀ limit,
        (weekOld.deleteStale 1700604800000).1.find limit gt = weekOld.find limit gt := by
  refine deleteStale_exact weekOld ?_ ⟨by decide, by decide⟩
  simp only [weekOld, List.forall_mem_cons, List.not_mem_nil, false_implies, implies_true, and_true]
  exact ⟨⟨by decide, by decide⟩, ⟨by decide, by decide⟩⟩

end FeedStore

end Ceramic
