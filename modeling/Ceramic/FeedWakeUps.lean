import Ceramic.FeedCompleteness

/-! Whether a reader that waits for a write is woken. `onWrite` does not replay, and a reader subscribes
to it only after its search has come back. -/
namespace Ceramic

namespace Feed

/-- A new reader of the feed. -/
def reader (feed : Feed) (gt : FeedKey) : Feed := { feed with token := gt, pull := .idle, enqueued := [] }

/-- The store holds an entry behind the reader's token. -/
def Unread (feed : Feed) : Prop := ∃ entry ∈ feed.store.rows, feed.token < entry.key

/-- The reader waits although there is an entry for it, and no put is under way that could wake it. -/
def Asleep (feed : Feed) : Prop := feed.pull = .waiting ∧ feed.Unread ∧ feed.puts = []

/-- A search that comes back empty-handed while there is an entry for the reader has a put to wait for,
and the last put that such a reader waits for does not fail. -/
def Woken (feed : Feed) : FeedAction → Prop
  | .resolve => feed.pull = .finding [] → feed.Unread → feed.puts ≠ []
  | .fail _ => feed.pull = .waiting → feed.Unread → feed.puts.length ≠ 1
  | _ => True

instance (feed : Feed) : Decidable feed.Unread :=
  inferInstanceAs (Decidable (∃ entry ∈ feed.store.rows, feed.token < entry.key))

instance (feed : Feed) : Decidable feed.Asleep :=
  inferInstanceAs (Decidable (feed.pull = .waiting ∧ feed.Unread ∧ feed.puts = []))

instance (feed : Feed) : (action : FeedAction) → Decidable (feed.Woken action)
  | .resolve => inferInstanceAs (Decidable (feed.pull = .finding [] → feed.Unread → feed.puts ≠ []))
  | .fail _ => inferInstanceAs (Decidable (feed.pull = .waiting → feed.Unread → feed.puts.length ≠ 1))
  | .put _ _ | .land _ | .notify _ | .find _ => isTrue trivial

variable {feed feed' : Feed}

theorem onWrite_ne_waiting (pull : PullStage) : onWrite pull ≠ .waiting := by
  cases pull <;> simp [onWrite]

theorem awake_of_puts (underWay : feed.puts ≠ []) : ¬feed.Asleep := fun ⟨_, _, noPut⟩ => underWay noPut

theorem awake_of_pull (awake : feed.pull ≠ .waiting) : ¬feed.Asleep := fun ⟨waiting, _, _⟩ => awake waiting

/-- The reader is asleep after a search that found nothing exactly if no put is left to wake it. -/
theorem awake_resolve {entries : List FeedEntry} (finding : feed.pull = .finding entries) :
    ¬(feed.resolve entries).Asleep ↔ feed.Woken .resolve := by
  unfold Feed.resolve
  split
  next isEmpty =>
    obtain rfl := List.getLast?_eq_none_iff.mp isEmpty
    constructor
    · intro awake _ unread noPut
      exact awake ⟨rfl, unread, noPut⟩
    · rintro woken ⟨-, unread, noPut⟩
      exact woken finding unread noPut
  next last isLast =>
    refine iff_of_true (awake_of_pull (by simp)) fun empty => ?_
    obtain rfl := PullStage.finding.inj (finding.symm.trans empty)
    cases isLast

/-- A failing put leaves the reader asleep exactly if it was the last one. -/
theorem awake_fail {i : Nat} {put : FeedPut} (here : feed.puts[i]? = some put) :
    ¬({ feed with puts := feed.puts.eraseIdx i } : Feed).Asleep ↔ feed.Woken (.fail i) := by
  obtain ⟨inside, -⟩ := List.getElem?_eq_some_iff.mp here
  have last : feed.puts.eraseIdx i = [] ↔ feed.puts.length = 1 := by
    rw [← List.length_eq_zero_iff, List.length_eraseIdx_of_lt inside]
    omega
  constructor
  · intro awake waiting unread single
    exact awake ⟨waiting, unread, last.mpr single⟩
  · rintro woken ⟨waiting, unread, noPut⟩
    exact woken waiting unread (last.mp noPut)

/-- A step leaves the reader awake exactly if it meets the condition. -/
theorem awake_step {action : FeedAction} (stepped : feed.step action = some feed') :
    ¬feed'.Asleep ↔ feed.Woken action := by
  rcases step_cases stepped with ⟨streamID, now, rfl, rfl⟩ | ⟨i, entry, rfl, here, rfl⟩ | ⟨i, entry, rfl, here, rfl⟩ |
    ⟨i, entry, rfl, here, rfl⟩ | ⟨desiredSize, rfl, -, rfl⟩ | ⟨entries, rfl, finding, rfl⟩
  · exact iff_of_true (awake_of_puts (by simp [Feed.put])) trivial
  · have underWay : feed.puts ≠ [] := List.ne_nil_of_mem (List.mem_of_getElem? here)
    exact iff_of_true (awake_of_puts (by simpa using underWay)) trivial
  · exact awake_fail here
  · exact iff_of_true (awake_of_pull (onWrite_ne_waiting _)) trivial
  · exact iff_of_true (awake_of_pull (by simp)) trivial
  · exact awake_resolve finding

/-- A write wakes a reader that waits for it. -/
def wakingWrite : List FeedAction :=
  [.find 1, .resolve, .put (changedStream 1) 1700000000000, .land 0, .notify 0, .find 1, .resolve]

/-- A write that is told of after the search has been answered and before the reader subscribes. -/
def writeBetween : List FeedAction :=
  [.put (changedStream 1) 1700000000000, .find 1, .land 0, .notify 0, .resolve]

end Feed

end Ceramic
