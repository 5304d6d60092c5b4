import Ceramic.MonotonicKey
import Ceramic.StreamId
import Ceramic.Library.KeyedTable
import Ceramic.Library.Transition
import Mathlib.Data.List.Sort

/-! The feed: writers put the streams that changed under keys of their time, and a reader is
given what is put after the key it has come to. A write lands some time after its key was
taken, and is told of some time after it landed. -/
namespace Ceramic

structure FeedEntry where
  key : FeedKey
  streamID : StreamID
  deriving DecidableEq, Repr

abbrev FeedStore := KeyedTable FeedEntry FeedEntry.key

/-- `store.find({ limit, gt })`: the first entries in key order. -/
def FeedStore.find (store : FeedStore) (limit : Nat) (gt : FeedKey) : List FeedEntry :=
  ((store.rows.filter fun entry => gt < entry.key).insertionSort
    fun a b => a.key ≤ b.key).take limit

/-- `deleteStale(lessThanMs)`, with the number of entries it deletes. Keys are compared as texts. -/
def FeedStore.deleteStale (store : FeedStore) (lessThanMs : Nat) : FeedStore × Nat :=
  let keys := (store.rows.filter fun entry => entry.key < decimalDigits (lessThanMs * 1000)).map (·.key)
  (keys.foldl (fun store key => store.delete key) store, keys.length)

inductive PutStage where
  /-- The entry is on its way to the store. -/
  | saving
  /-- It is in the store, and `onWrite` has not been told. -/
  | saved
  deriving DecidableEq, Repr

structure FeedPut where
  entry : FeedEntry
  stage : PutStage
  deriving DecidableEq, Repr

inductive PullStage where
  /-- Between two searches. -/
  | idle
  /-- The search has been answered by the store. -/
  | finding (entries : List FeedEntry)
  /-- Subscribed to `onWrite`. -/
  | waiting
  deriving DecidableEq, Repr

/-- The store with the calls of `put` under way, and the source of one reader. -/
structure Feed where
  keyGenerator : MonotonicKey
  store : FeedStore
  puts : List FeedPut
  token : FeedKey
  pull : PullStage
  enqueued : List FeedEntry

inductive FeedAction where
  | put (streamID : StreamID) (now : Nat)
  | land (i : Nat)
  | fail (i : Nat)
  | notify (i : Nat)
  | find (desiredSize : Nat)
  | resolve
  deriving DecidableEq, Repr

namespace Feed

/-- `streamIDs(gt)`. -/
def streamIDs (keyGenerator : MonotonicKey) (store : FeedStore) (gt : FeedKey) : Feed :=
  { keyGenerator, store, puts := [], token := gt, pull := .idle, enqueued := [] }

def put (feed : Feed) (streamID : StreamID) (now : Nat) : Feed :=
  let (key, keyGenerator) := feed.keyGenerator.next now
  { feed with keyGenerator, puts := feed.puts ++ [{ entry := { key, streamID }, stage := .saving }] }

/-- `onWrite.next()`. -/
def onWrite : PullStage → PullStage
  | .waiting => .idle
  | stage => stage

/-- What `pull` does with the entries: without any it waits for a write. -/
def resolve (feed : Feed) (entries : List FeedEntry) : Feed :=
  match entries.getLast? with
  | none => { feed with pull := .waiting }
  | some last => { feed with
      enqueued := feed.enqueued ++ entries, token := last.key, pull := .idle }

def step (feed : Feed) : FeedAction → Option Feed
  | .put streamID now => some (feed.put streamID now)
  | .land i =>
    match feed.puts[i]? with
    | some ⟨entry, .saving⟩ => some { feed with
        store := feed.store.put entry, puts := feed.puts.set i ⟨entry, .saved⟩ }
    | _ => none
  | .fail i =>
    match feed.puts[i]? with
    | some ⟨_, .saving⟩ => some { feed with puts := feed.puts.eraseIdx i }
    | _ => none
  | .notify i =>
    match feed.puts[i]? with
    | some ⟨_, .saved⟩ => some { feed with puts := feed.puts.eraseIdx i, pull := onWrite feed.pull }
    | _ => none
  | .find desiredSize =>
    if feed.pull = .idle ∧ 0 < desiredSize then
      some { feed with pull := .finding (feed.store.find desiredSize feed.token) }
    else none
  | .resolve =>
    match feed.pull with
    | .finding entries => some (feed.resolve entries)
    | _ => none

/-- What a step does, and where it can be taken. -/
theorem step_cases {feed feed' : Feed} {action : FeedAction} (stepped : feed.step action = some feed') :
    (∃ streamID now, action = .put streamID now ∧ feed' = feed.put streamID now) ∨
    (∃ i entry, action = .land i ∧ feed.puts[i]? = some ⟨entry, .saving⟩ ∧
      feed' = { feed with store := feed.store.put entry, puts := feed.puts.set i ⟨entry, .saved⟩ }) ∨
    (∃ i entry, action = .fail i ∧ feed.puts[i]? = some ⟨entry, .saving⟩ ∧
      feed' = { feed with puts := feed.puts.eraseIdx i }) ∨
    (∃ i entry, action = .notify i ∧ feed.puts[i]? = some ⟨entry, .saved⟩ ∧
      feed' = { feed with puts := feed.puts.eraseIdx i, pull := onWrite feed.pull }) ∨
    (∃ desiredSize, action = .find desiredSize ∧ (feed.pull = .idle ∧ 0 < desiredSize) ∧
      feed' = { feed with pull := .finding (feed.store.find desiredSize feed.token) }) ∨
    (∃ entries, action = .resolve ∧ feed.pull = .finding entries ∧ feed' = feed.resolve entries) := by
  unfold step at stepped
  cases action with
  | put streamID now => exact .inl ⟨streamID, now, rfl, (Option.some.inj stepped).symm⟩
  | land i =>
    dsimp only at stepped
    split at stepped
    next entry here => exact .inr (.inl ⟨i, entry, rfl, here, (Option.some.inj stepped).symm⟩)
    next => cases stepped
  | fail i =>
    dsimp only at stepped
    split at stepped
    next entry here => exact .inr (.inr (.inl ⟨i, entry, rfl, here, (Option.some.inj stepped).symm⟩))
    next => cases stepped
  | notify i =>
    dsimp only at stepped
    split at stepped
    next entry here => exact .inr (.inr (.inr (.inl ⟨i, entry, rfl, here, (Option.some.inj stepped).symm⟩)))
    next => cases stepped
  | find desiredSize =>
    obtain ⟨ready, isFound⟩ := Option.ite_some_none_eq_some.mp stepped
    exact .inr (.inr (.inr (.inr (.inl ⟨desiredSize, rfl, ready, isFound.symm⟩))))
  | resolve =>
    dsimp only at stepped
    split at stepped
    next entries finding =>
      exact .inr (.inr (.inr (.inr (.inr ⟨entries, rfl, finding, (Option.some.inj stepped).symm⟩))))
    next => cases stepped

end Feed

namespace FeedStore

variable {store : FeedStore} {limit : Nat} {gt : FeedKey}

theorem mem_find {entry : FeedEntry} (found : entry ∈ store.find limit gt) :
    entry ∈ store.rows ∧ gt < entry.key := by
  have member := (List.mem_insertionSort _).mp (List.mem_of_mem_take found)
  exact ⟨List.mem_of_mem_filter member, of_decide_eq_true (List.mem_filter.mp member).2⟩

/-- All entries behind a key, in order. -/
theorem sorted_behind (store : FeedStore) (gt : FeedKey) :
    ((store.rows.filter fun entry => gt < entry.key).insertionSort fun a b => a.key ≤ b.key).Pairwise
      fun a b => a.key < b.key := by
  have total : Std.Total fun a b : FeedEntry => a.key ≤ b.key := ⟨fun a b => le_total a.key b.key⟩
  have trans : IsTrans FeedEntry fun a b => a.key ≤ b.key := ⟨fun _ _ _ => le_trans⟩
  have ordered := List.pairwise_insertionSort (fun a b : FeedEntry => a.key ≤ b.key)
    (store.rows.filter fun entry => gt < entry.key)
  have apart : ((store.rows.filter fun entry => gt < entry.key).insertionSort
      fun a b => a.key ≤ b.key).Pairwise fun a b => a.key ≠ b.key := by
    rw [← List.pairwise_map]
    exact (List.Perm.map _ (List.perm_insertionSort _ _)).nodup_iff.mpr
      (store.unique.sublist (List.filter_sublist.map _))
  exact (ordered.and apart).imp fun ⟨le, ne⟩ => lt_of_le_of_ne le ne

theorem find_ordered : (store.find limit gt).Pairwise fun a b => a.key < b.key :=
  (sorted_behind store gt).sublist (List.take_sublist _ _)

/-- What is behind the key and not among the first is behind them. -/
theorem find_covers {entry : FeedEntry} (member : entry ∈ store.rows) (behind : gt < entry.key) :
    entry ∈ store.find limit gt ∨ ∀ first ∈ store.find limit gt, first.key < entry.key := by
  have listed : entry ∈ (store.rows.filter fun entry => gt < entry.key).insertionSort
      fun a b => a.key ≤ b.key :=
    (List.mem_insertionSort _).mpr (List.mem_filter.mpr ⟨member, decide_eq_true behind⟩)
  have sorted := sorted_behind store gt
  rw [← List.take_append_drop limit ((store.rows.filter _).insertionSort _)] at listed sorted
  rcases List.mem_append.mp listed with front | back
  · exact .inl front
  · exact .inr fun first inFront => (List.pairwise_append.mp sorted).2.2 first inFront entry back

/-- A search that is not empty-handed by its limit finds the entries there are. -/
theorem eq_nil_of_find (positive : 0 < limit) (none : store.find limit gt = []) :
    ∀ entry ∈ store.rows, ¬ gt < entry.key := by
  intro entry member behind
  have listed : entry ∈ (store.rows.filter fun entry => gt < entry.key).insertionSort
      fun a b => a.key ≤ b.key :=
    (List.mem_insertionSort _).mpr (List.mem_filter.mpr ⟨member, decide_eq_true behind⟩)
  rcases List.take_eq_nil_iff.mp none with zero | empty
  · omega
  · rw [empty] at listed
    cases listed

end FeedStore

end Ceramic
