import Ceramic.IncrementalSync

/-! The commits of a stream as a tree: every tip has one log, two logs share what is
before their divergence point, and the comparison of logs only looks at CIDs, at the
times of anchors and at which entries are anchors. -/
namespace Ceramic

open StateManipulator StreamUtils AnchorTimestampExtractor

/-- A commit has one path from the genesis. -/
theorem path_unique {store : CommitStore} {xs ys : List CommitData} {tip : Cid}
    (pathX : Path none xs (some tip)) (storedX : Stored store xs)
    (pathY : Path none ys (some tip)) (storedY : Stored store ys) : xs = ys := by
  have walkX := LogSyncer.walk_complete none (store.height tip + 1) tip xs [] (by omega)
    pathX storedX rfl
  have walkY := LogSyncer.walk_complete none (store.height tip + 1) tip ys [] (by omega)
    pathY storedY rfl
  simpa using Except.ok.inj (walkX.symm.trans walkY)

/-- The path to a commit inside a path. -/
theorem path_front {start tip : Option Cid} {xs ys : List CommitData} {c : CommitData}
    (path : Path start (xs ++ c :: ys) tip) : Path start (xs ++ [c]) (some c.cid) := by
  obtain ⟨middle, front, link, _⟩ := (path_append start tip xs (c :: ys)).mp path
  rw [path_snoc, link]
  exact ⟨front, rfl⟩

theorem path_heights {store : CommitStore} {start tip : Option Cid} {cs : List CommitData}
    (path : Path start cs tip) (stored : Stored store cs) :
    cs.Pairwise fun c d => store.height c.cid < store.height d.cid := by
  have above {prev : Cid} {tip : Option Cid} {cs : List CommitData} (path : Path (some prev) cs tip)
      (stored : Stored store cs) : ∀ c ∈ cs, store.height prev < store.height c.cid := by
    induction cs generalizing prev with
    | nil => simp
    | cons d cs ih =>
      have first := store.acyclic d.cid d prev (stored d (by simp)) path.1
      intro c member
      rcases List.mem_cons.mp member with rfl | behind
      · exact first
      · have := ih path.2 (fun e inside => stored e (List.mem_cons_of_mem _ inside)) c behind
        omega
  induction cs generalizing start with
  | nil => exact .nil
  | cons c cs ih =>
    have rest : Stored store cs := fun d member => stored d (List.mem_cons_of_mem _ member)
    exact .cons (above path.2 rest) (ih path.2 rest)

theorem path_nodup {store : CommitStore} {start tip : Option Cid} {cs : List CommitData}
    (path : Path start cs tip) (stored : Stored store cs) : (cs.map (·.cid)).Nodup := by
  rw [List.nodup_iff_pairwise_ne, List.pairwise_map]
  refine (path_heights path stored).imp fun less same => ?_
  rw [same] at less
  omega

/-- The two logs without what they share at their beginning. -/
def behindDivergence : List CommitData → List CommitData → List CommitData × List CommitData
  | x :: xs, y :: ys => if x.cid = y.cid then behindDivergence xs ys else (x :: xs, y :: ys)
  | xs, ys => (xs, ys)

theorem behindDivergence_swap (xs ys : List CommitData) :
    behindDivergence ys xs = (behindDivergence xs ys).swap := by
  induction xs generalizing ys with
  | nil => cases ys <;> rfl
  | cons x xs ih =>
    cases ys with
    | nil => rfl
    | cons y ys =>
      by_cases same : x.cid = y.cid
      · simp [behindDivergence, same, ih]
      · simp [behindDivergence, same, Ne.symm same]

theorem behindDivergence_self (xs : List CommitData) : behindDivergence xs xs = ([], []) := by
  induction xs with
  | nil => rfl
  | cons x xs ih => simp [behindDivergence, ih]

theorem behindDivergence_split {store : CommitStore} {xs ys : List CommitData}
    (storedX : Stored store xs) (storedY : Stored store ys) :
    ∃ shared, xs = shared ++ (behindDivergence xs ys).1 ∧ ys = shared ++ (behindDivergence xs ys).2 ∧
      ∀ x y, (behindDivergence xs ys).1.head? = some x → (behindDivergence xs ys).2.head? = some y →
        x ≠ y := by
  induction xs generalizing ys with
  | nil => exact ⟨[], by simp [behindDivergence], by simp [behindDivergence], by simp [behindDivergence]⟩
  | cons x xs ih =>
    cases ys with
    | nil => exact ⟨[], by simp [behindDivergence], by simp [behindDivergence], by simp [behindDivergence]⟩
    | cons y ys =>
      by_cases same : x.cid = y.cid
      · obtain rfl : x = y :=
          Except.ok.inj ((storedX x (by simp)).symm.trans (same ▸ storedY y (by simp)))
        obtain ⟨shared, eqX, eqY, apart⟩ := ih
          (fun c member => storedX c (List.mem_cons_of_mem _ member))
          (fun c member => storedY c (List.mem_cons_of_mem _ member))
        refine ⟨x :: shared, ?_, ?_, ?_⟩
        · simpa [behindDivergence] using eqX
        · simpa [behindDivergence] using eqY
        · simpa [behindDivergence] using apart
      · refine ⟨[], by simp [behindDivergence, same], by simp [behindDivergence, same], ?_⟩
        rintro a b first second rfl
        simp only [behindDivergence, same, if_false, List.head?_cons] at first second
        obtain rfl := Option.some.inj first
        exact same (congrArg CommitData.cid (Option.some.inj second)).symm

/-- Behind the divergence point the logs have nothing in common. -/
theorem behindDivergence_unknown {store : CommitStore} (shared : List CommitData)
    {a b : List CommitData} {tipA tipB : Cid}
    (pathA : Path none (shared ++ a) (some tipA)) (storedA : Stored store (shared ++ a))
    (pathB : Path none (shared ++ b) (some tipB)) (storedB : Stored store (shared ++ b))
    (apart : ∀ x y, a.head? = some x → b.head? = some y → x ≠ y) :
    ∀ c ∈ b, c.cid ∉ (shared ++ a).map (·.cid) := by
  intro c member known
  obtain ⟨c', inside, same⟩ := List.mem_map.mp known
  obtain rfl : c' = c := Except.ok.inj ((storedA c' inside).symm.trans
    (same ▸ storedB c (List.mem_append_right _ member)))
  obtain ⟨u, v, eqA⟩ := List.append_of_mem inside
  obtain ⟨u', v', eqB⟩ := List.append_of_mem member
  have frontA := path_front (eqA ▸ pathA)
  have frontB : Path none ((shared ++ u') ++ [c']) (some c'.cid) := by
    have whole : Path none ((shared ++ u') ++ c' :: v') (some tipB) := by
      rw [List.append_assoc, ← eqB]
      exact pathB
    exact path_front whole
  have frontStoredA : Stored store (u ++ [c']) := fun d inFront => storedA d (by
    rw [eqA]
    rcases List.mem_append.mp inFront with front | last
    · exact List.mem_append_left _ front
    · simp [List.mem_singleton.mp last])
  have frontStoredB : Stored store ((shared ++ u') ++ [c']) := fun d inFront => storedB d (by
    rw [eqB]
    rcases List.mem_append.mp inFront with front | last
    · rcases List.mem_append.mp front with old | new
      · exact List.mem_append_left _ old
      · simp [new]
    · simp [List.mem_singleton.mp last])
  have sameFront := path_unique frontA frontStoredA frontB frontStoredB
  obtain rfl : u = shared ++ u' := (List.append_inj' sameFront rfl).1
  have eq : a = u' ++ c' :: v := by simpa [List.append_assoc] using eqA
  obtain ⟨x, head⟩ : ∃ x, (u' ++ [c']).head? = some x := ⟨_, List.head?_eq_some_head (by simp)⟩
  have headOf (rest : List CommitData) : (u' ++ c' :: rest).head? = some x := by
    rw [← head]
    cases u' <;> rfl
  exact apart x x (eq ▸ headOf v) (eqB ▸ headOf v') rfl

/-- What the comparison of logs sees of an entry. -/
def LogEntry.key (entry : LogEntry) : Cid × Option Timestamp :=
  (entry.cid, if entry.type = .TIME then some entry.timestamp else none)

theorem key_anchor {entry entry' : LogEntry} (same : entry.key = entry'.key) :
    entry.type = .TIME ↔ entry'.type = .TIME := by
  obtain ⟨_, times⟩ := Prod.mk.inj same
  by_cases anchor : entry.type = .TIME <;> by_cases anchor' : entry'.type = .TIME <;>
    simp_all

theorem key_timestamp {entry entry' : LogEntry} (same : entry.key = entry'.key)
    (anchor : entry.type = .TIME) : entry.timestamp = entry'.timestamp := by
  have anchor' := (key_anchor same).mp anchor
  obtain ⟨_, times⟩ := Prod.mk.inj same
  simpa [anchor, anchor'] using times

theorem untimed_key (entry : LogEntry) : entry.untimed.key = entry.key := by
  by_cases anchor : entry.type = .TIME <;> simp [LogEntry.key, LogEntry.untimed, anchor]

theorem firstAnchor_congr {log log' : List LogEntry} (same : log.map (·.key) = log'.map (·.key)) :
    (firstAnchor log).map (·.timestamp) = (firstAnchor log').map (·.timestamp) ∧
      relevantLength log = relevantLength log' := by
  induction log generalizing log' with
  | nil =>
    obtain rfl : log' = [] := by simpa using same.symm
    exact ⟨rfl, rfl⟩
  | cons entry log ih =>
    cases log' with
    | nil => simp at same
    | cons entry' log' =>
      obtain ⟨sameKey, sameRest⟩ := List.cons_eq_cons.mp (by simpa using same)
      obtain ⟨anchors, lengths⟩ := ih sameRest
      by_cases anchor : entry.type = .TIME
      · have anchor' := (key_anchor sameKey).mp anchor
        simp [firstAnchor_cons, relevantLength_cons, anchor, anchor', key_timestamp sameKey anchor]
      · have anchor' := mt (key_anchor sameKey).mpr anchor
        simp [firstAnchor_cons, relevantLength_cons, anchor, anchor', anchors, lengths]

theorem pickByCid_eq (log1 log2 : List LogEntry) :
    pickByCid log1 log2 = match (log1.map (·.cid)).getLast?, (log2.map (·.cid)).getLast? with
      | some cid1, some cid2 => if cid1.bytesLt cid2 then .log1 else .log2
      | _, _ => .log2 := by
  unfold pickByCid
  rw [List.getLast?_map, List.getLast?_map]
  cases log1.getLast? <;> cases log2.getLast? <;> rfl

/-- Only the keys of the entries decide. -/
theorem pickLogToAccept_congr {log1 log1' log2 log2' : List LogEntry}
    (same1 : log1.map (·.key) = log1'.map (·.key)) (same2 : log2.map (·.key) = log2'.map (·.key)) :
    pickLogToAccept log1 log2 = pickLogToAccept log1' log2' := by
  obtain ⟨anchors1, lengths1⟩ := firstAnchor_congr same1
  obtain ⟨anchors2, lengths2⟩ := firstAnchor_congr same2
  have cids1 : log1.map (·.cid) = log1'.map (·.cid) := by
    simpa [List.map_map, Function.comp_def, LogEntry.key] using congrArg (List.map Prod.fst) same1
  have cids2 : log2.map (·.cid) = log2'.map (·.cid) := by
    simpa [List.map_map, Function.comp_def, LogEntry.key] using congrArg (List.map Prod.fst) same2
  have byLength : pickByLength log1 log2 = pickByLength log1' log2' := by
    simp only [pickByLength, pickByCid_eq, lengths1, lengths2, cids1, cids2]
  rw [pickLogToAccept_eq, pickLogToAccept_eq, byLength]
  cases a1 : firstAnchor log1 <;> cases a1' : firstAnchor log1' <;>
    cases a2 : firstAnchor log2 <;> cases a2' : firstAnchor log2' <;> simp_all

/-- The loser of a comparison loses it the other way round too. -/
theorem pickLogToAccept_antisymm {log1 log2 : List LogEntry}
    (first : pickLogToAccept log1 log2 = .log1) : pickLogToAccept log2 log1 = .log2 := by
  have byLength (first : pickByLength log1 log2 = .log1) : pickByLength log2 log1 = .log2 := by
    unfold pickByLength at first ⊢
    split at first
    next longer =>
      have : ¬relevantLength log2 > relevantLength log1 := by omega
      simp [this, longer]
    next =>
      split at first
      · cases first
      next =>
        have equal : ¬relevantLength log2 > relevantLength log1 ∧
            ¬relevantLength log2 < relevantLength log1 := by omega
        rw [if_neg equal.1, if_neg equal.2]
        unfold pickByCid at first ⊢
        cases last1 : log1.getLast? <;> cases last2 : log2.getLast? <;>
          simp only [last1, last2] at first ⊢
        split at first
        next lower => simp [Cid.bytesLt_asymm lower]
        next => cases first
  rw [pickLogToAccept_eq] at first ⊢
  cases anchor1 : firstAnchor log1 <;> cases anchor2 : firstAnchor log2 <;>
    simp only [anchor1, anchor2] at first ⊢
  · exact byLength first
  · cases first
  · split at first
    next earlier => simp [Timestamp.lt_asymm earlier, earlier]
    next =>
      split at first
      · cases first
      next notEarlier notLater =>
        rw [if_neg notLater, if_neg notEarlier]
        exact byLength first

/-- The entries behind a commit of the log. -/
theorem localConflictingLog_eq {s : StreamState} {front behind : List LogEntry} {last : LogEntry}
    (log : s.log.toList = front ++ last :: behind)
    (distinct : (s.log.toList.map (·.cid)).Nodup) : localConflictingLog s last.cid = behind := by
  have earlier : ∀ entry ∈ front, entry.cid ≠ last.cid := by
    intro entry member
    rw [log, List.map_append, List.nodup_append] at distinct
    exact distinct.2.2 entry.cid (List.mem_map_of_mem member) last.cid (by simp)
  have index : s.log.toList.findIdx? (fun entry => entry.cid = last.cid) = some front.length := by
    rw [List.findIdx?_eq_some_iff_getElem, log]
    refine ⟨by simp, by simp, fun j less => ?_⟩
    have within : j < (front ++ last :: behind).length := by
      simp only [List.length_append, List.length_cons]
      omega
    have inFront : (front ++ last :: behind)[j] ∈ front := by
      rw [List.getElem_append_left less]
      exact List.getElem_mem less
    simpa using earlier _ inFront
  unfold localConflictingLog
  rw [index, log]
  simp

end Ceramic
