import Mathlib.Data.Rat.Defs
import Ceramic.PrefixReplay
import Ceramic.RepositoryTurns

/-! Loading a stream as it was at a time, from the anchors in its log. -/
namespace Ceramic

open StateManipulator StreamUtils AnchorTimestampExtractor SignatureUtils

/-- The operator `<=` with a number on the right: `null` counts as zero and `undefined` compares false. -/
def Timestamp.atMost (a : Timestamp) (t : Rat) : Bool :=
  match a.toNumber with
  | some n => decide ((n : Rat) ≤ t)
  | none => false

/-- The operator `<=` of two timestamps. -/
def Timestamp.le (a b : Timestamp) : Bool :=
  match b.toNumber with
  | some n => a.atMost n
  | none => false

theorem Timestamp.atMost_later {a : Timestamp} {t₁ t₂ : Rat} (before : a.atMost t₁ = true) (later : t₁ ≤ t₂) :
    a.atMost t₂ = true := by
  unfold Timestamp.atMost at before ⊢
  cases number : a.toNumber with
  | none => simp [number] at before
  | some n =>
    simp only [number, decide_eq_true_eq] at before ⊢
    exact Rat.le_trans before later

theorem Timestamp.atMost_of_le {a b : Timestamp} {t : Rat} (le : a.le b = true) (before : b.atMost t = true) :
    a.atMost t = true := by
  unfold Timestamp.le at le
  unfold Timestamp.atMost at before
  cases number : b.toNumber with
  | none => simp [number] at le
  | some n =>
    simp only [number, decide_eq_true_eq] at le before
    exact Timestamp.atMost_later le before

namespace Repository

/-- The loop of `commitAtTime`, with the CID that is chosen so far. -/
def lastAnchorBefore (timestamp : Rat) : Cid → List LogEntry → Cid
  | commitCid, [] => commitCid
  | commitCid, entry :: log =>
    if entry.type = .TIME then
      if entry.timestamp.atMost timestamp then lastAnchorBefore timestamp entry.cid log else commitCid
    else lastAnchorBefore timestamp commitCid log

def commitAtTime (state : StreamState) (timestamp : Rat) : CommitID :=
  let streamId := streamIdFromState state
  CommitID.make streamId.type streamId.cid
    (some (lastAnchorBefore timestamp state.log.first.cid state.log.toList))

/-- `stateAtCommit` of `loadAtCommit`: the existing state is reset if there is one. -/
def stateAtCommit (env : Environment) (store : CommitStore) (commitId : CommitID) :
    Except JsError StreamState → Except JsError StreamState
  | .ok existing => StreamLoader.resetStateToCommit env store existing commitId
  | .error _ => do
    match ← StreamLoader.stateAtCommit env store commitId with
    | some state => return state
    | none => throw ⟨"Cannot read properties of null (reading 'log')"⟩

/-- The state that is returned; `load` is how loading the current state ends. What is written on the way is in
`Node.advance`. -/
def loadAtCommit (env : Environment) (store : CommitStore) (load : Except JsError StreamState)
    (commitId : CommitID) : Except JsError StreamState := do
  let stateAtCommit ← stateAtCommit env store commitId load
  checkForCacaoExpiration env stateAtCommit
  return stateAtCommit

/-- `load` is how loading the current state ends, with the check of expired CACAOs and without it. -/
def loadAtTime (env : Environment) (store : CommitStore) (load : Bool → Except JsError StreamState)
    (atTime : Rat) : Except JsError StreamState := do
  let base ← load true
  loadAtCommit env store (load false) (commitAtTime base atTime)

end Repository

/-- An anchor that is not later than a time. -/
def AnchorBefore (t : Rat) (entry : LogEntry) : Prop :=
  entry.type = .TIME ∧ entry.timestamp.atMost t = true

/-- An anchor that is not known to be at or before a time. -/
def LaterAnchor (t : Rat) (entry : LogEntry) : Prop :=
  entry.type = .TIME ∧ entry.timestamp.atMost t = false

/-- At each anchor, or before it, there is one that is later. -/
def StopsAt (t : Rat) (log : List LogEntry) : Prop :=
  ∀ (k : Nat) (entry : LogEntry), log[k]? = some entry → entry.type = .TIME →
    ∃ m later, m ≤ k ∧ log[m]? = some later ∧ LaterAnchor t later

theorem StopsAt.later {t : Rat} {entry : LogEntry} (later : LaterAnchor t entry) (log : List LogEntry) :
    StopsAt t (entry :: log) :=
  fun k _ _ _ => ⟨0, entry, Nat.zero_le k, rfl, later⟩

theorem StopsAt.cons {t : Rat} {entry : LogEntry} {log : List LogEntry} (other : entry.type ≠ .TIME)
    (stops : StopsAt t log) : StopsAt t (entry :: log) := by
  intro k anchor at_ isAnchor
  cases k with
  | zero =>
    obtain rfl := Option.some.inj at_
    exact absurd isAnchor other
  | succ k =>
    obtain ⟨m, later, before, here, isLater⟩ := stops k anchor at_ isAnchor
    exact ⟨m + 1, later, Nat.succ_le_succ before, here, isLater⟩

/-- The position that the loop comes to: an anchor not later than the time, as are all anchors up to it; the next
anchor is later. -/
structure LastPassed (t : Rat) (log : List LogEntry) (i : Nat) : Prop where
  passed : ∃ entry, log[i]? = some entry ∧ AnchorBefore t entry
  before : ∀ (k : Nat) (entry : LogEntry), k ≤ i → log[k]? = some entry → entry.type = .TIME → AnchorBefore t entry
  stops : StopsAt t (log.drop (i + 1))

theorem LastPassed.cons {t : Rat} {entry : LogEntry} {log : List LogEntry} {i : Nat}
    (first : entry.type = .TIME → AnchorBefore t entry) (last : LastPassed t log i) :
    LastPassed t (entry :: log) (i + 1) := by
  obtain ⟨chosen, at_, isBefore⟩ := last.passed
  refine ⟨⟨chosen, at_, isBefore⟩, fun k anchor upTo here isAnchor => ?_, last.stops⟩
  cases k with
  | zero =>
    obtain rfl := Option.some.inj here
    exact first isAnchor
  | succ k => exact last.before k anchor (Nat.le_of_succ_le_succ upTo) here isAnchor

theorem LastPassed.head {t : Rat} {entry : LogEntry} {log : List LogEntry} (first : AnchorBefore t entry)
    (stops : StopsAt t log) : LastPassed t (entry :: log) 0 := by
  refine ⟨⟨entry, rfl, first⟩, fun k anchor upTo here _ => ?_, stops⟩
  obtain rfl := Nat.le_zero.mp upTo
  obtain rfl := Option.some.inj here
  exact first

namespace Repository

/-- The loop keeps what it had chosen before, or chooses the last anchor that it passes. -/
theorem lastAnchorBefore_spec (t : Rat) (commitCid : Cid) (log : List LogEntry) :
    (lastAnchorBefore t commitCid log = commitCid ∧ StopsAt t log) ∨
      ∃ i, LastPassed t log i ∧ (log[i]?).map (·.cid) = some (lastAnchorBefore t commitCid log) := by
  induction log generalizing commitCid with
  | nil => exact .inl ⟨rfl, fun k entry at_ => by simp at at_⟩
  | cons entry log ih =>
    by_cases anchor : entry.type = .TIME
    · cases passed : entry.timestamp.atMost t with
      | false =>
        refine .inl ⟨?_, .later ⟨anchor, passed⟩ log⟩
        simp [lastAnchorBefore, anchor, passed]
      | true =>
        have goesOn : lastAnchorBefore t commitCid (entry :: log) = lastAnchorBefore t entry.cid log := by
          simp [lastAnchorBefore, anchor, passed]
        rw [goesOn]
        have first : AnchorBefore t entry := ⟨anchor, passed⟩
        rcases ih entry.cid with ⟨kept, stops⟩ | ⟨i, last, chosen⟩
        · exact .inr ⟨0, .head first stops, by simp [kept]⟩
        · exact .inr ⟨i + 1, last.cons fun _ => first, by simpa using chosen⟩
    · have goesOn : lastAnchorBefore t commitCid (entry :: log) = lastAnchorBefore t commitCid log := by
        simp [lastAnchorBefore, anchor]
      rw [goesOn]
      rcases ih commitCid with ⟨kept, stops⟩ | ⟨i, last, chosen⟩
      · exact .inl ⟨kept, .cons anchor stops⟩
      · exact .inr ⟨i + 1, last.cons fun isAnchor => absurd isAnchor anchor, by simpa using chosen⟩

/-- A position in a log that loading at a time comes to: the start of the log, or the last anchor passed. -/
def ChosenAt (t : Rat) (log : List LogEntry) (i : Nat) : Prop :=
  (i = 0 ∧ StopsAt t log) ∨ LastPassed t log i

theorem commitAtTime_chosen (state : StreamState) (t : Rat) : ∃ i entry, state.log.toList[i]? = some entry ∧
    entry.cid = (commitAtTime state t).commitCid ∧ ChosenAt t state.log.toList i := by
  have commit : (commitAtTime state t).commitCid =
      lastAnchorBefore t state.log.first.cid state.log.toList := by
    unfold commitAtTime CommitID.make CommitID.commitCid streamIdFromState
    by_cases isGenesis : lastAnchorBefore t state.log.first.cid state.log.toList = state.log.first.cid <;>
      simp [isGenesis]
  rcases lastAnchorBefore_spec t state.log.first.cid state.log.toList with ⟨kept, stops⟩ | ⟨i, last, chosen⟩
  · have head := NonEmptyArray.head?_toList state.log
    rw [List.head?_eq_getElem?] at head
    exact ⟨0, state.log.first, head, (commit.trans kept).symm, .inl ⟨rfl, stops⟩⟩
  · obtain ⟨entry, at_, same⟩ := Option.map_eq_some_iff.mp chosen
    exact ⟨i, entry, at_, same.trans commit.symm, .inr last⟩

theorem commitAtTime_baseID (state : StreamState) (t : Rat) :
    (commitAtTime state t).baseID = streamIdFromState state := rfl

/-- An anchor behind the position is later, or there is a later one before it. -/
theorem ChosenAt.stopped {t : Rat} {log : List LogEntry} {i k : Nat} {entry : LogEntry} (chosen : ChosenAt t log i)
    (behind : i < k) (at_ : log[k]? = some entry) (anchor : entry.type = .TIME) :
    ∃ m later, m ≤ k ∧ log[m]? = some later ∧ LaterAnchor t later := by
  rcases chosen with ⟨rfl, stops⟩ | last
  · exact stops k entry at_ anchor
  · have dropped : (log.drop (i + 1))[k - (i + 1)]? = some entry := by
      rw [List.getElem?_drop, show i + 1 + (k - (i + 1)) = k by omega]
      exact at_
    obtain ⟨m, later, upTo, here, isLater⟩ := last.stops _ entry dropped anchor
    rw [List.getElem?_drop] at here
    exact ⟨i + 1 + m, later, by omega, here, isLater⟩

/-- A later time chooses no earlier position. -/
theorem ChosenAt.mono {t₁ t₂ : Rat} {log : List LogEntry} {i j : Nat} (earlier : t₁ ≤ t₂) (first : ChosenAt t₁ log i)
    (second : ChosenAt t₂ log j) : i ≤ j := by
  by_contra before
  have before : j < i := by omega
  rcases first with ⟨atStart, _⟩ | first
  · omega
  obtain ⟨chosen, at_, isAnchor, _⟩ := first.passed
  -- all anchors up to the first position are passed at the later time too, so the second is not the last
  obtain ⟨m, later, upTo, here, isLater⟩ := second.stopped before at_ isAnchor
  have passed := Timestamp.atMost_later (first.before m later upTo here isLater.1).2 earlier
  exact absurd (passed.symm.trans isLater.2) Bool.noConfusion

/-- The times of the anchors do not decrease along the log. -/
def AnchorsOrdered (log : List LogEntry) : Prop :=
  ∀ (m k : Nat) (anchor later : LogEntry), m < k → log[m]? = some anchor → log[k]? = some later →
    anchor.type = .TIME → later.type = .TIME → anchor.timestamp.le later.timestamp = true

/-- Then no anchor behind the chosen position is at or before the time. -/
theorem ChosenAt.last {t : Rat} {log : List LogEntry} {i : Nat} (chosen : ChosenAt t log i)
    (ordered : AnchorsOrdered log) {k : Nat} {entry : LogEntry} (at_ : log[k]? = some entry)
    (isBefore : AnchorBefore t entry) : k ≤ i := by
  by_contra behind
  obtain ⟨m, later, upTo, here, isLater⟩ := chosen.stopped (by omega) at_ isBefore.1
  have passed : later.timestamp.atMost t = true := by
    rcases Nat.lt_or_eq_of_le upTo with before | rfl
    · exact Timestamp.atMost_of_le (ordered m k later entry before here at_ isLater.1 isBefore.1) isBefore.2
    · obtain rfl := Option.some.inj (here.symm.trans at_)
      exact isBefore.2
  exact absurd (passed.symm.trans isLater.2) Bool.noConfusion

end Repository

/-- Each entry with an anchor at or after it has the time of the first one. -/
def AnchoredTimes (log : List LogEntry) : Prop :=
  ∀ before entry after, log = before ++ entry :: after → .TIME ∈ (entry :: after).map (·.type) →
    entry.timestamp = firstAnchorTimestamp (entry :: after)

theorem anchoredTimes_append {log : List LogEntry} (timed : AnchoredTimes log) {last : LogEntry}
    (other : last.type ≠ .TIME) : AnchoredTimes (log ++ [last]) := by
  intro before entry after split anchored
  rcases List.eq_nil_or_concat after with rfl | ⟨front, newest, rfl⟩
  · obtain ⟨_, same⟩ := List.append_inj' split rfl
    obtain rfl := List.singleton_inj.mp same
    exact absurd (List.mem_singleton.mp anchored).symm other
  · rw [List.concat_eq_append, ← List.cons_append, ← List.append_assoc] at split
    obtain ⟨old, same⟩ := List.append_inj' split rfl
    obtain rfl := List.singleton_inj.mp same
    rw [List.concat_eq_append, ← List.cons_append] at anchored ⊢
    rw [firstAnchorTimestamp_append_other _ other]
    exact timed before entry front old (by simpa [Ne.symm other] using anchored)

/-- An anchor stamps the log again; other entries come behind what is there. -/
theorem anchoredTimes_nextLog (env : Environment) (streamType : Nat) {log : List LogEntry} (timed : AnchoredTimes log)
    (c : CommitData) : AnchoredTimes (nextLog env streamType log c) := by
  unfold nextLog
  by_cases anchor : isAnchorCommitData c = true
  · rw [if_pos anchor]
    exact fun before entry after split _ => provenance_restamped _ before entry after split
  · rw [if_neg anchor]
    exact anchoredTimes_append timed (by simp)

/-- So every log has this that handlers built. -/
theorem anchoredTimes_applied {env : Environment} {handler : StreamHandler} (lawful : handler.Lawful env)
    {throwing : Bool} {g : CommitData} {cs : List CommitData} {s : StreamState}
    (h : applyLog handler none (g :: cs) throwing = .ok s) : AnchoredTimes s.log.toList := by
  rw [(applyLog_log lawful h).2]
  have start : AnchoredTimes [logEntryOf env handler.type g .INIT] :=
    @anchoredTimes_append [] (fun before entry after split => by simp at split) _ (by simp)
  generalize [logEntryOf env handler.type g .INIT] = log at start
  induction cs.take (enteredBehindGenesis handler (g :: cs)) generalizing log with
  | nil => exact start
  | cons c cs ih => exact ih _ (anchoredTimes_nextLog env handler.type start c)

theorem firstAnchorTimestamp_front {log : List LogEntry} (anchored : .TIME ∈ log.map (·.type)) (later : List LogEntry) :
    firstAnchorTimestamp (log ++ later) = firstAnchorTimestamp log := by
  induction log with
  | nil => exact absurd anchored List.not_mem_nil
  | cons entry log ih =>
    rw [List.cons_append, firstAnchorTimestamp_cons, firstAnchorTimestamp_cons]
    by_cases anchor : entry.type = .TIME
    · rw [if_pos anchor, if_pos anchor]
    · rw [if_neg anchor, if_neg anchor]
      exact ih (by simpa [Ne.symm anchor] using anchored)

section

variable {dispatcher : Dispatcher} {recorded later : List LogEntry} {cs : List CommitData}

theorem anchored_suffix {last : LogEntry} (isLast : recorded.getLast? = some last) (anchor : last.type = .TIME)
    {before after : List LogEntry} {entry : LogEntry} (split : recorded = before ++ entry :: after) :
    .TIME ∈ (entry :: after).map (·.type) := by
  rw [split, List.getLast?_append_of_ne_nil _ (List.cons_ne_nil _ _)] at isLast
  exact anchor ▸ List.mem_map_of_mem (List.mem_of_getLast? isLast)

/-- A part of the log that ends in an anchor has these times by itself. -/
theorem provenance_to_anchor (timed : AnchoredTimes (recorded ++ later)) {last : LogEntry}
    (isLast : recorded.getLast? = some last) (anchor : last.type = .TIME) : TimestampProvenance recorded := by
  intro before entry after split
  have anchored := anchored_suffix isLast anchor split
  have time := timed before entry (after ++ later) (by simp [split]) (by
    rw [← List.cons_append, List.map_append]
    exact List.mem_append_left _ anchored)
  rw [time, ← List.cons_append, firstAnchorTimestamp_front anchored]

theorem firstAnchorTimestamp_anchored (records : List.Forall₂ (Records dispatcher) recorded cs)
    (anchored : .TIME ∈ recorded.map (·.type)) : firstAnchorTimestamp recorded = carriedTime dispatcher cs := by
  induction records with
  | nil => exact absurd anchored List.not_mem_nil
  | @cons entry c recorded cs first _ ih =>
    rw [firstAnchorTimestamp_cons, carriedTime]
    by_cases anchor : c.type = .TIME
    · obtain ⟨t, verified, time⟩ := first.time anchor
      rw [if_pos (first.anchor.mpr anchor), if_pos anchor, verified, time]
    · have other := mt first.anchor.mp anchor
      rw [if_neg other, if_neg anchor]
      exact ih (by simpa [Ne.symm other] using anchored)

/-- Up to an anchor, the times of the entries are those that the commits are loaded with. -/
theorem sameButExpiration_to_anchor (records : List.Forall₂ (Records dispatcher) recorded cs)
    (own : TimestampProvenance recorded) (anchored : ∀ before entry after, recorded = before ++ entry :: after →
      .TIME ∈ (entry :: after).map (·.type)) :
    List.Forall₂ SameButExpiration (verifyAnchorAndApplyTimestamps dispatcher cs) (List.zipWith timedBy recorded cs) := by
  induction records with
  | nil => exact .nil
  | @cons entry c recorded cs first rest ih =>
    rw [extracted_cons]
    obtain ⟨ownTime, ownBehind⟩ := (provenance_cons _ _).mp own
    refine .cons ?_ (ih ownBehind fun before e after split => anchored (entry :: before) e after (by rw [split]; rfl))
    have time : (timedBy entry c).timestamp = (stamped dispatcher c cs).timestamp :=
      ownTime.trans (firstAnchorTimestamp_anchored (.cons first rest) (anchored [] entry recorded rfl))
    exact (retimed_stamped first cs).eq.trans (by rw [time])

end

/-- What a snapshot shows of a stream: its content, its metadata and the commits in its log. -/
structure SameSnapshot (s s' : StreamState) : Prop where
  content : s'.content = s.content
  metadata : s'.metadata = s.metadata
  commits : s'.log.toList.map (fun entry => (entry.cid, entry.type)) =
    s.log.toList.map fun entry => (entry.cid, entry.type)

theorem SameButTimes.snapshot {s s' : StreamState} (same : SameButTimes s s') : SameSnapshot s s' := by
  refine ⟨?_, ?_, ?_⟩
  · rw [same.fields]
  · rw [same.fields]
  · exact (same.map (fun entry => (entry.cid, entry.type)) (by simp)).symm

section

variable {env : Environment} {store : CommitStore} {s r : StreamState} {shared removed : List CommitData}
  {c : CommitData} {handler : StreamHandler} {recorded later : List LogEntry}

/-- The log up to an anchor, or the genesis alone, with the times of its entries: a load of it gives the same state. -/
theorem replayed_load (registered : HandlersMap.get env s.type = .ok handler) {g : CommitData} {cs : List CommitData}
    (cut : g :: cs = shared ++ [c]) (kinds : ∀ d ∈ cs, isAnchorCommitData d = true → d.type = .TIME)
    (records : List.Forall₂ (Records store.toDispatcher) recorded (g :: cs))
    (timed : AnchoredTimes (recorded ++ later)) (start : shared = [] ∨ c.type = .TIME)
    (replayed : applyLog handler none (List.zipWith timedBy recorded (g :: cs)) true = .ok r) {throwing : Bool}
    {p : StreamState}
    (loaded : applyLog handler none (verifyAnchorAndApplyTimestamps store.toDispatcher (g :: cs)) throwing = .ok p) :
    SameButTimes p r := by
  rcases start with rfl | anchor
  · -- the genesis is refused in either mode of loading
    obtain ⟨rfl, rfl⟩ := List.cons_eq_cons.mp cut
    cases records with
    | @cons entry _ recorded _ first rest =>
      obtain rfl := List.forall₂_nil_right_iff.mp rest
      rw [extracted_cons] at loaded
      exact sameButTimes_of_applied registered (retimed_stamped first []) .nil loaded replayed
  · obtain ⟨entry, last, same⟩ := last_recorded (cut ▸ records)
    have isAnchor := same.anchor.mpr anchor
    have sameTimes := sameButExpiration_to_anchor records (provenance_to_anchor timed last isAnchor)
      fun before e after split => anchored_suffix last isAnchor split
    rw [applyLog_expirationTime registered sameTimes true] at replayed
    rw [extracted_cons] at replayed loaded
    obtain rfl := Except.ok.inj (loaded.symm.trans (applyLog_throwing replayed throwing))
    exact .refl p

/-- A reset applies the log up to the commit, each commit with the time of its entry. -/
theorem reset_timed (of : RecordedLog store s ((shared ++ [c]) ++ removed))
    (reset : resetStateToCommit env store s c.cid true = .ok r) :
    ∃ handler recorded later, HandlersMap.get env s.type = .ok handler ∧ s.log.toList = recorded ++ later ∧
      List.Forall₂ (Records store.toDispatcher) recorded (shared ++ [c]) ∧
      applyLog handler none (List.zipWith timedBy recorded (shared ++ [c])) true = .ok r := by
  obtain ⟨handler, _, _, _, _, _, registered, _⟩ := resetStateToCommit_ok reset
  obtain ⟨recorded, later, log, records, _⟩ := of.parts
  have copies : copyTrustedTimestamps s.log.toList (shared ++ [c]) true =
      .ok (List.zipWith timedBy recorded (shared ++ [c])) := by
    rw [log]
    exact copyTrustedTimestamps_all records later
  rw [of.reset_eq registered rfl copies] at reset
  exact ⟨handler, recorded, later, registered, log, records, reset⟩

/-- A state that is reset to a commit of its log, next to what the log up to the commit gives. -/
theorem reset_sameButTimes (of : RecordedLog store s ((shared ++ [c]) ++ removed))
    (reset : resetStateToCommit env store s c.cid true = .ok r) (allowSyncErrors throwing : Bool) :
    (∀ p, StreamLoader.loadStateFromTip env store (streamIdFromState s) c.cid allowSyncErrors true = .ok (some p) →
      SameButTimes p r) ∧
    (∃ p, StreamLoader.loadStateFromTip env.accepting store (streamIdFromState s) c.cid allowSyncErrors
      throwing = .ok (some p) ∧ SameButTimes p r) ∧
    (AnchoredTimes s.log.toList → shared = [] ∨ c.type = .TIME → ∀ p,
      StreamLoader.loadStateFromTip env store (streamIdFromState s) c.cid allowSyncErrors throwing = .ok (some p) →
        SameButTimes p r) := by
  obtain ⟨handler, recorded, later, registered, log, records, applied⟩ := reset_timed of reset
  clear reset
  obtain ⟨g, cs, cut⟩ : ∃ g cs, g :: cs = shared ++ [c] := by
    cases shared with
    | nil => exact ⟨c, [], rfl⟩
    | cons g shared => exact ⟨g, shared ++ [c], rfl⟩
  rw [← cut] at of records applied
  have kinds : ∀ d ∈ cs, isAnchorCommitData d = true → d.type = .TIME := fun d member =>
    (of.kinds d (List.mem_append_left _ member)).mpr
  cases records with
  | @cons entry _ recorded _ first rest =>
    have genesis := retimed_stamped first cs
    have behind := retimedLog_extracted kinds rest
    refine ⟨fun p loaded => ?_, ?_, fun timed start p loaded => ?_⟩
    · rw [of.load_eq registered cut] at loaded
      obtain ⟨p', replayed, same⟩ := map_eq_ok.mp loaded
      obtain rfl := Option.some.inj same
      rw [extracted_cons] at replayed
      exact sameButTimes_of_applied registered genesis behind replayed applied
    · obtain ⟨accepting, p, found, accepted, same⟩ := applyLog_accepting registered genesis.symm behind.symm applied
      refine ⟨p, ?_, same.symm⟩
      rw [of.load_eq found cut, extracted_cons, applyLog_throwing accepted throwing]
      rfl
    · rw [of.load_eq registered cut] at loaded
      obtain ⟨p', replayed, same⟩ := map_eq_ok.mp loaded
      obtain rfl := Option.some.inj same
      exact replayed_load registered cut kinds (.cons first rest) (log ▸ timed) start applied replayed

/-- The state is that of the log up to a commit: it has these commits, and it shows what a load of them gives. A load
that ends where a commit is refused gives it too, if the log has the times of its anchors. Where a load refuses a
commit whose CACAO has expired by now, the load at a moment when the signatures verified gives it. -/
structure ReplaysPrefix (env : Environment) (store : CommitStore) (s : StreamState) (front : List CommitData)
    (tip : Cid) (r : StreamState) : Prop where
  fetched : LogSyncer.syncFullLog store (streamIdFromState s) (some tip) = .ok front
  commits : cids r = commitCids front
  loads : ∀ allowSyncErrors p, StreamLoader.loadStateFromTip env store (streamIdFromState s) tip allowSyncErrors true =
    .ok (some p) → SameSnapshot p r
  lenient : AnchoredTimes s.log.toList → ∀ allowSyncErrors throwing p,
    StreamLoader.loadStateFromTip env store (streamIdFromState s) tip allowSyncErrors throwing = .ok (some p) →
      SameSnapshot p r
  accepted : ∀ allowSyncErrors throwing, ∃ p, StreamLoader.loadStateFromTip env.accepting store (streamIdFromState s)
    tip allowSyncErrors throwing = .ok (some p) ∧ SameSnapshot p r

theorem reset_replays (of : RecordedLog store s ((shared ++ [c]) ++ removed)) (start : shared = [] ∨ c.type = .TIME)
    (reset : resetStateToCommit env store s c.cid true = .ok r) :
    ReplaysPrefix env store s (shared ++ [c]) c.cid r := by
  have fetched := of.fetched rfl
  obtain ⟨dest, _, found, commits, _⟩ := reset_fetched reset
  obtain rfl := Except.ok.inj (fetched.symm.trans found)
  refine ⟨fetched, commits, fun allow p loaded => ?_, fun timed allow throwing p loaded => ?_, fun allow throwing => ?_⟩
  · exact ((reset_sameButTimes of reset allow true).1 p loaded).snapshot
  · exact ((reset_sameButTimes of reset allow throwing).2.2 timed start p loaded).snapshot
  · obtain ⟨p, loaded, same⟩ := (reset_sameButTimes of reset allow throwing).2.1
    exact ⟨p, loaded, same.snapshot⟩

theorem load_replays (of : RecordedLog store s ((shared ++ [c]) ++ removed)) (allowSyncErrors : Bool)
    (loaded : StreamLoader.loadStateFromTip env store (streamIdFromState s) c.cid allowSyncErrors true = .ok (some r)) :
    ReplaysPrefix env store s (shared ++ [c]) c.cid r := by
  have fetched := of.fetched rfl
  obtain ⟨g, cs, cut⟩ : ∃ g cs, g :: cs = shared ++ [c] := by
    cases shared with
    | nil => exact ⟨c, [], rfl⟩
    | cons g shared => exact ⟨g, shared ++ [c], rfl⟩
  rw [← cut] at of fetched ⊢
  unfold StreamLoader.loadStateFromTip at loaded
  rw [fetched] at loaded
  obtain ⟨r', applied, returned⟩ := map_eq_ok.mp loaded
  obtain rfl := Option.some.inj returned
  rw [extracted_cons] at applied
  obtain ⟨handler, registered, applied⟩ := bind_eq_ok.mp applied
  have registered : HandlersMap.get env s.type = .ok handler := registered
  have again (p : StreamState) (allow throwing : Bool) (loaded : StreamLoader.loadStateFromTip env store
      (streamIdFromState s) c.cid allow throwing = .ok (some p)) : SameSnapshot p r' := by
    rw [of.load_eq registered cut, extracted_cons, applyLog_throwing applied throwing] at loaded
    obtain rfl := Option.some.inj (Except.ok.inj loaded)
    exact (SameButTimes.refl r').snapshot
  refine ⟨fetched, ?_, fun allow p => again p allow true, fun _ allow throwing p => again p allow throwing,
    fun allow throwing => ?_⟩
  · obtain ⟨lawful, _⟩ := HandlersMap.get_lawful registered
    have sameCids : commitCids (verifyAnchorAndApplyTimestamps store.toDispatcher (g :: cs)) = commitCids (g :: cs) :=
      extracted_map _ _ (fun _ _ _ => rfl) _
    rw [← sameCids, extracted_cons]
    exact applyLog_cids lawful applied
  · obtain ⟨accepting, p, found, ran, same⟩ := applyLog_accepting registered (.refl _) (.refl _) applied
    refine ⟨p, ?_, same.symm.snapshot⟩
    rw [of.load_eq found cut, extracted_cons, applyLog_throwing ran throwing]
    rfl

end

namespace Repository

/-- A tip that is in the log already leaves the state as it is. -/
theorem applyTip_known {env : Environment} {store : CommitStore} {s base : StreamState} {tip : Cid}
    {opts : ApplyLogToStateOpts} (known : tip ∈ s.log.toList.map (·.cid))
    (h : applyTipToState env store s tip opts = .ok base) : base = s := by
  have nothing : LogSyncer.syncLogUntilMatch store tip (s.log.toList.map (·.cid)) = .ok [] :=
    LogSyncer.syncLogUntilMatch_complete known rfl (fun c member => absurd member List.not_mem_nil)
      fun c member => absurd member List.not_mem_nil
  obtain ⟨fetched, found, applied⟩ := bind_eq_ok.mp h
  obtain rfl := Except.ok.inj (nothing.symm.trans found)
  obtain ⟨_, returned, applied⟩ := bind_eq_ok.mp applied
  obtain rfl := Except.ok.inj returned
  obtain ⟨_, _, applied⟩ := bind_eq_ok.mp applied
  exact (Except.ok.inj applied).symm

/-- Where the state stays as it is, it is reset to the commit, or there is none and the commit is loaded. -/
theorem loadAtCommit_cases {env : Environment} {store : CommitStore} {s r : StreamState}
    {shared removed : List CommitData} {c : CommitData} {load : Except JsError StreamState} {commitId : CommitID}
    (of : RecordedLog store s ((shared ++ [c]) ++ removed)) (unchanged : ∀ found, load = .ok found → found = s)
    (sameStream : commitId.baseID = streamIdFromState s) (commit : commitId.commitCid = c.cid)
    (loaded : loadAtCommit env store load commitId = .ok r) :
    resetStateToCommit env store s c.cid true = .ok r ∨
      StreamLoader.loadStateFromTip env store (streamIdFromState s) c.cid false true = .ok (some r) := by
  obtain ⟨stateAtCommit, found, checked⟩ := bind_eq_ok.mp loaded
  obtain ⟨_, _, returned⟩ := bind_eq_ok.mp checked
  obtain rfl : stateAtCommit = r := Except.ok.inj returned
  cases load with
  | ok existing =>
    obtain rfl := unchanged existing rfl
    obtain ⟨base, applied, reset⟩ := bind_eq_ok.mp found
    rw [commit] at applied reset
    obtain rfl := applyTip_known (of.contained rfl) applied
    exact .inl reset
  | error e =>
    obtain ⟨state, fromTip, returned⟩ := bind_eq_ok.mp found
    cases state with
    | none => cases returned
    | some state =>
      obtain rfl : state = stateAtCommit := Except.ok.inj returned
      unfold StreamLoader.stateAtCommit at fromTip
      rw [sameStream, commit] at fromTip
      exact .inr fromTip

/-- What is loaded at a commit of the log that is its genesis or an anchor, while the state stays as it is. -/
theorem loadAtCommit_replays {env : Environment} {store : CommitStore} {s r : StreamState}
    {shared removed : List CommitData} {c : CommitData} {load : Except JsError StreamState} {commitId : CommitID}
    (of : RecordedLog store s ((shared ++ [c]) ++ removed)) (start : shared = [] ∨ c.type = .TIME)
    (unchanged : ∀ found, load = .ok found → found = s) (sameStream : commitId.baseID = streamIdFromState s)
    (commit : commitId.commitCid = c.cid) (loaded : loadAtCommit env store load commitId = .ok r) :
    ReplaysPrefix env store s (shared ++ [c]) c.cid r := by
  obtain reset | fromTip := loadAtCommit_cases of unchanged sameStream commit loaded
  · exact reset_replays of start reset
  · exact load_replays of false fromTip

/-- The turn of `loadAtCommit` in a node writes the state that is returned, if it writes one. -/
theorem advance_resetting {stream : StreamID} {node : Node stream} {repository : Repository} {operation : Operation}
    {commitId : CommitID} {sync : SyncOptions} {existing : Option (Nat × StreamState)} {moment : Nat}
    {tips : List TipResponse} {turn : Turn} (call : operation.call = .loadAtCommit commitId sync)
    (stage : operation.stage = .resetting existing) (e : JsError)
    (advances : node.advance repository operation moment tips = some turn) :
    ∃ r, loadAtCommit (node.net.env moment) (node.net.store moment)
        (existing.elim (.error e) fun found => .ok found.2) commitId = .ok r ∧
      (turn.write = .nothing ∨ (∃ state, turn.write = .next state r) ∨ turn.write = .register (.make r false)) := by
  unfold Node.advance at advances
  cases existing with
  | some found =>
    obtain ⟨state, snapshot⟩ := found
    simp only [stage, call] at advances
    cases reset : StreamLoader.resetStateToCommit (node.net.env moment) (node.net.store moment) snapshot commitId with
    | error _ => simp [reset] at advances
    | ok r =>
      simp only [reset] at advances
      obtain ⟨unexpired, advances⟩ := guard_bind_eq_some.mp advances
      obtain ⟨current, _, advances⟩ := Option.bind_eq_some_iff.mp advances
      refine ⟨r, bind_eq_ok.mpr ⟨r, reset, bind_eq_ok.mpr ⟨(), unexpired, rfl⟩⟩, ?_⟩
      by_cases superset : isStateSupersetOf r current.value = true
      · rw [if_pos superset] at advances
        obtain rfl := Option.some.inj advances
        exact .inr (.inl ⟨state, rfl⟩)
      · rw [if_neg superset] at advances
        obtain rfl := Option.some.inj advances
        exact .inl rfl
  | none =>
    simp only [stage, call] at advances
    cases loaded : StreamLoader.stateAtCommit (node.net.env moment) (node.net.store moment) commitId with
    | error _ => simp [loaded] at advances
    | ok found =>
      cases found with
      | none => simp [loaded] at advances
      | some r =>
        simp only [loaded] at advances
        obtain ⟨unexpired, advances⟩ := guard_bind_eq_some.mp advances
        obtain rfl := Option.some.inj advances
        have fromTip : stateAtCommit (node.net.env moment) (node.net.store moment) commitId (.error e) = .ok r :=
          bind_eq_ok.mpr ⟨some r, loaded, rfl⟩
        exact ⟨r, bind_eq_ok.mpr ⟨r, fromTip, bind_eq_ok.mpr ⟨(), unexpired, rfl⟩⟩, .inr (.inr rfl)⟩

/-- Loading at a time. A later time chooses no earlier commit of the log; what is chosen is the genesis or an anchor
that is not later than the time, the last one if the times of the anchors do not decrease. If the log is that of
validated commits and no update comes in between, the state that is returned is that of the log up to there. -/
theorem loadAtTime_replays (s : StreamState) {t₁ t₂ : Rat} (earlier : t₁ ≤ t₂) :
    ∃ i j entry later, i ≤ j ∧ s.log.toList[i]? = some entry ∧ s.log.toList[j]? = some later ∧
      entry.cid = (commitAtTime s t₁).commitCid ∧ later.cid = (commitAtTime s t₂).commitCid ∧
      (i = 0 ∨ AnchorBefore t₁ entry) ∧
      (AnchorsOrdered s.log.toList → ∀ k anchor, s.log.toList[k]? = some anchor → AnchorBefore t₁ anchor → k ≤ i) ∧
      ∀ env store log load r, RecordedLog store s log → load true = .ok s →
        (∀ found, load false = .ok found → found = s) → loadAtTime env store load t₁ = .ok r →
        ReplaysPrefix env store s (log.take (i + 1)) entry.cid r := by
  obtain ⟨i, entry, at_, chosen, isChosen⟩ := commitAtTime_chosen s t₁
  obtain ⟨j, later, atLater, chosenLater, isChosenLater⟩ := commitAtTime_chosen s t₂
  refine ⟨i, j, entry, later, isChosen.mono earlier isChosenLater, at_, atLater, chosen, chosenLater, ?_,
    fun ordered k anchor here isBefore => isChosen.last ordered here isBefore, ?_⟩
  · rcases isChosen with ⟨rfl, _⟩ | last
    · exact .inl rfl
    · obtain ⟨passed, here, isBefore⟩ := last.passed
      obtain rfl := Option.some.inj (at_.symm.trans here)
      exact .inr isBefore
  · intro env store log load r of base unchanged loaded
    obtain ⟨found, isBase, loaded⟩ := bind_eq_ok.mp loaded
    obtain rfl := Except.ok.inj (base.symm.trans isBase)
    obtain ⟨c, here, records⟩ := of.getElem? at_
    have cut : log.take (i + 1) = log.take i ++ [c] := by
      rw [List.take_add_one, here]
      rfl
    have split : RecordedLog store s ((log.take i ++ [c]) ++ log.drop (i + 1)) := by
      rw [← cut, List.take_append_drop]
      exact of
    rw [cut, records.cid]
    refine loadAtCommit_replays split ?_ unchanged (commitAtTime_baseID s t₁) (chosen.symm.trans records.cid) loaded
    rcases isChosen with ⟨rfl, _⟩ | last
    · exact .inl rfl
    · obtain ⟨passed, here, isBefore⟩ := last.passed
      obtain rfl := Option.some.inj (at_.symm.trans here)
      exact .inr (records.anchor.mp isBefore.1)

end Repository

namespace BlockStore

theorem updatedState_recorded :
    RecordedLog updatesStore updatedState (readCommits [⟨[1]⟩, ⟨[2]⟩, ⟨[3]⟩, ⟨[4]⟩]) := by
  refine ⟨?_, ⟨⟨[4]⟩, rfl, rfl, rfl, rfl, rfl⟩, ?_⟩
  · unfold Stored
    decide
  · have other {entry : LogEntry} {c : CommitData} (cid : entry.cid = c.cid) (isEntry : entry.type ≠ .TIME)
        (isCommit : c.type ≠ .TIME) : Records updatesStore.toDispatcher entry c :=
      ⟨cid, iff_of_false isEntry isCommit, fun anchor => absurd anchor isCommit⟩
    exact .cons (other rfl (by decide) (by decide)) (.cons (other rfl (by decide) (by decide))
      (.cons ⟨rfl, by decide, fun _ => ⟨100, by decide, rfl⟩⟩ (.cons (other rfl (by decide) (by decide)) .nil)))

theorem loadAtTime_replays_updates : ∃ i j entry later r, i ≤ j ∧ updatedState.log.toList[i]? = some entry ∧
    updatedState.log.toList[j]? = some later ∧ entry.cid = (Repository.commitAtTime updatedState 100).commitCid ∧
    later.cid = (Repository.commitAtTime updatedState 200).commitCid ∧
    Repository.loadAtTime .permissive updatesStore (fun _ => .ok updatedState) 100 = .ok r ∧
    ReplaysPrefix .permissive updatesStore updatedState
      ((readCommits [⟨[1]⟩, ⟨[2]⟩, ⟨[3]⟩, ⟨[4]⟩]).take (i + 1)) entry.cid r := by
  obtain ⟨i, j, entry, later, before, at_, atLater, chosen, chosenLater, _, _, replays⟩ :=
    @Repository.loadAtTime_replays updatedState 100 200 (by decide +kernel)
  have returns : (Repository.loadAtTime .permissive updatesStore (fun _ => .ok updatedState) 100).toBool = true := by
    decide +kernel
  cases loaded : Repository.loadAtTime .permissive updatesStore (fun _ => .ok updatedState) 100 with
  | error e => simp [loaded, Except.toBool] at returns
  | ok r =>
    refine ⟨i, j, entry, later, r, before, at_, atLater, chosen, chosenLater, rfl, ?_⟩
    exact replays .permissive updatesStore _ _ r updatedState_recorded rfl (fun _ found => (Except.ok.inj found).symm)
      loaded

end BlockStore

end Ceramic
