import Ceramic.StateProvenance
import Ceramic.TimestampSimulation

/-! Loading a log at once or in two parts gives the same state, provided all of it is
valid and its signatures hold at whatever time they are checked. -/
namespace Ceramic

open StateManipulator StreamUtils AnchorTimestampExtractor

/-- Commit by commit the same logs; an anchor keeps its time. -/
def RetimedLog (cs cs' : List CommitData) : Prop :=
  List.Forall₂ (fun c c' => Retimed c c' ∧ (isAnchorCommitData c = true → c'.timestamp = c.timestamp)) cs cs'

theorem RetimedLog.refl (cs : List CommitData) : RetimedLog cs cs := by
  induction cs with
  | nil => exact .nil
  | cons c cs ih => exact .cons ⟨⟨rfl⟩, fun _ => rfl⟩ ih

/-- What relates the states of two handlers at every commit relates them at the end of the log. -/
theorem applyLogFrom_lift {handler handler' : StreamHandler} {rel : StreamState → StreamState → Prop}
    {Fits : CommitData → CommitData → Prop}
    (step : ∀ {c c' s s' next}, Fits c c' → rel s s' → handler.applyCommit c (some s) = .applied next →
      ∃ next', handler'.applyCommit c' (some s') = .applied next' ∧ rel next next')
    {cs cs' : List CommitData} {s s' next : StreamState} (fits : List.Forall₂ Fits cs cs') (related : rel s s')
    (h : applyLogFrom handler true s cs = .ok next) :
    ∃ next', applyLogFrom handler' true s' cs' = .ok next' ∧ rel next next' := by
  induction fits generalizing s s' with
  | nil =>
    obtain rfl : s = next := Except.ok.inj h
    exact ⟨s', rfl, related⟩
  | @cons c c' cs cs' first _ ih =>
    cases outcome : handler.applyCommit c (some s) with
    | threw e left => simp [applyLogFrom, outcome] at h
    | applied middle =>
      simp only [applyLogFrom, outcome] at h
      obtain ⟨middle', outcome', related'⟩ := step first related outcome
      simp only [applyLogFrom, outcome']
      exact ih related' h

theorem applyLogFrom_simulates {env : Environment} {handler : StreamHandler}
    {rel : StreamState → StreamState → Prop} (simulates : handler.Simulates env rel)
    {cs cs' : List CommitData} {s s' next : StreamState} (retimed : RetimedLog cs cs')
    (timeless : ∀ c ∈ cs, TimelessSignature env c) (related : rel s s')
    (h : applyLogFrom handler true s cs = .ok next) :
    ∃ next', applyLogFrom handler true s' cs' = .ok next' ∧ rel next next' := by
  have fits : List.Forall₂ (fun c c' => TimelessSignature env c ∧ Retimed c c' ∧
      (isAnchorCommitData c = true → c'.timestamp = c.timestamp)) cs cs' := by
    rw [List.forall₂_and_left]
    exact ⟨timeless, retimed⟩
  exact applyLogFrom_lift (fun fit => simulates.step fit.1 fit.2.1 fit.2.2) fits related h

/-- Every anchor of the log has a time. -/
def AnchorsValid (dispatcher : Dispatcher) (cs : List CommitData) : Prop :=
  ∀ c ∈ cs, c.type = .TIME → ∃ timestamp, verifyAnchorCommit dispatcher c = .ok timestamp

theorem TimelessSignature.stamped {env : Environment} {c : CommitData}
    (timeless : TimelessSignature env c) (dispatcher : Dispatcher) (behind : List CommitData) :
    TimelessSignature env (stamped dispatcher c behind) :=
  ⟨timeless.verified, timeless.unexpired⟩

/-- The first part of a log, extracted with and without the second. -/
theorem extracted_append {dispatcher : Dispatcher} {cs : List CommitData} (ds : List CommitData)
    (valid : AnchorsValid dispatcher cs)
    (kinds : ∀ c ∈ cs, isAnchorCommitData c = true → c.type = .TIME) :
    ∃ front, verifyAnchorAndApplyTimestamps dispatcher (cs ++ ds) =
      front ++ verifyAnchorAndApplyTimestamps dispatcher ds ∧
      RetimedLog front (verifyAnchorAndApplyTimestamps dispatcher cs) := by
  induction cs with
  | nil => exact ⟨[], rfl, .nil⟩
  | cons c cs ih =>
    obtain ⟨front, split, retimed⟩ := ih (fun d member => valid d (List.mem_cons_of_mem _ member))
      (fun d member => kinds d (List.mem_cons_of_mem _ member))
    refine ⟨stamped dispatcher c (cs ++ ds) :: front, by simp [split], ?_⟩
    rw [extracted_cons]
    refine .cons ⟨⟨rfl⟩, fun anchor => ?_⟩ retimed
    have time : c.type = .TIME := kinds c (by simp) anchor
    obtain ⟨timestamp, verified⟩ := valid c (by simp) time
    simp [stamped, carriedTime, time, verified]

/-- An entry's capability is its commit's, where its stream type keeps it. -/
theorem expirationTime_of_log {env : Environment} {handler : StreamHandler}
    (lawful : handler.Lawful env) {throwing : Bool} {g : CommitData} {cs : List CommitData}
    {s : StreamState} (h : applyLog handler none (g :: cs) throwing = .ok s) :
    ∀ entry ∈ s.log.toList, entry.expirationTime = none ∨
      ∃ c ∈ g :: cs, entry.expirationTime = capabilityExpiration env c := by
  have ofLogEntry (c : CommitData) (type : EventType) :
      (logEntryOf env handler.type c type).expirationTime = none ∨
      (logEntryOf env handler.type c type).expirationTime = capabilityExpiration env c := by
    unfold logEntryOf
    split
    · exact .inl rfl
    · exact .inr rfl
  intro entry member
  have image := List.mem_map_of_mem (f := (·.untimed)) member
  rw [(applyLog_log lawful h).2, foldl_nextLog_untimed] at image
  rw [← untimed_expirationTime]
  rcases List.mem_append.mp image with first | rest
  · obtain eq : entry.untimed = _ := by simpa using first
    rw [eq, untimed_expirationTime]
    rcases ofLogEntry g .INIT with none | same
    · exact .inl none
    · exact .inr ⟨g, by simp, same⟩
  · obtain ⟨c, taken, eq⟩ := List.mem_map.mp rest
    have inLog : c ∈ g :: cs := List.mem_cons_of_mem _ (List.mem_of_mem_take taken)
    rw [← eq, untimed_expirationTime]
    unfold entryOf
    split
    · exact .inl rfl
    · rcases ofLogEntry c .DATA with none | same
      · exact .inl none
      · exact .inr ⟨c, inLog, same⟩

theorem unexpired_of_timeless {env : Environment} {handler : StreamHandler}
    (lawful : handler.Lawful env) {throwing : Bool} {g : CommitData} {cs : List CommitData}
    {s : StreamState} (h : applyLog handler none (g :: cs) throwing = .ok s)
    (timeless : ∀ c ∈ g :: cs, TimelessSignature env c) :
    SignatureUtils.checkForCacaoExpiration env s = .ok () := by
  unfold SignatureUtils.checkForCacaoExpiration
  have unexpired : s.log.toList.find? (SignatureUtils.cacaoExpired env) = none := by
    rw [List.find?_eq_none]
    intro entry member expired
    rcases expirationTime_of_log lawful h entry member with none | ⟨c, inLog, same⟩
    · simp [SignatureUtils.cacaoExpired, none] at expired
    · have never := (timeless c inLog).unexpired entry.timestamp
      simp only [SignatureUtils.cacaoExpired, commitDataToLogEntry] at never
      simp [SignatureUtils.cacaoExpired, same, never] at expired
  rw [unexpired]

theorem forall_extracted {dispatcher : Dispatcher} {P : CommitData → Prop} {cs : List CommitData}
    (keeps : ∀ c behind, P c → P (stamped dispatcher c behind)) (all : ∀ c ∈ cs, P c) :
    ∀ c ∈ verifyAnchorAndApplyTimestamps dispatcher cs, P c := by
  induction cs with
  | nil => simp
  | cons c cs ih =>
    intro d member
    rw [extracted_cons] at member
    rcases List.mem_cons.mp member with rfl | behind
    · exact keeps c cs (all c (by simp))
    · exact ih (fun e inside => all e (List.mem_cons_of_mem _ inside)) d behind

theorem applyFullLog_extracted {env : Environment} {dispatcher : Dispatcher} {streamType : Nat}
    {g : CommitData} {cs : List CommitData} {throwing : Bool} {s : StreamState} :
    applyFullLog env streamType (verifyAnchorAndApplyTimestamps dispatcher (g :: cs)) throwing =
        .ok s ↔
      ∃ handler, HandlersMap.get env streamType = .ok handler ∧
        applyLog handler none (verifyAnchorAndApplyTimestamps dispatcher (g :: cs)) throwing = .ok s := by
  rw [extracted_cons]
  exact bind_eq_ok

/-- A state whose timestamps are its own keeps that when a whole extracted log is applied. -/
theorem provenance_extended {env : Environment} {handler : StreamHandler}
    (lawful : handler.Lawful env) {dispatcher : Dispatcher} {s s' : StreamState}
    {log : List CommitData} (own : TimestampProvenance s.log.toList)
    (kinds : ∀ c ∈ verifyAnchorAndApplyTimestamps dispatcher log,
      c.type = .TIME ↔ isAnchorCommitData c = true)
    (h : applyLogFrom handler true s (verifyAnchorAndApplyTimestamps dispatcher log) = .ok s') :
    TimestampProvenance s'.log.toList := by
  rw [(applyLogFrom_log lawful h).2, entered_all h, List.take_length]
  have carried := carried_extracted dispatcher log
  rw [provenance_run env handler.type s.log.toList none _ [] kinds (by simpa using carried)
    (iff_of_true own (by simp))]
  intro c last
  by_cases anchor : c.type = .TIME
  · exact .inl anchor
  · have time := carried.last (by simpa using last) anchor
    exact .inr (.inr (by simp [time, Timestamp.truthy]))

/-- The same for a log loaded from its genesis. -/
theorem provenance_extracted {env : Environment} {handler : StreamHandler}
    (lawful : handler.Lawful env) {dispatcher : Dispatcher} {s : StreamState} {g : CommitData}
    {cs : List CommitData} (genesis : g.type ≠ .TIME)
    (kinds : ∀ c ∈ verifyAnchorAndApplyTimestamps dispatcher cs,
      c.type = .TIME ↔ isAnchorCommitData c = true)
    (h : applyLog handler none (verifyAnchorAndApplyTimestamps dispatcher (g :: cs)) true = .ok s) :
    TimestampProvenance s.log.toList := by
  have carried := carried_extracted dispatcher (g :: cs)
  rw [extracted_cons] at h carried
  refine provenance_all_applied lawful h (.inl genesis) kinds carried fun empty => ?_
  have none : cs = [] := by simpa using congrArg List.length empty
  simp [stamped, none, carriedTime, genesis]

theorem link_of_applied {env : Environment} {handler : StreamHandler} (lawful : handler.Lawful env)
    {s s' : StreamState} {c : CommitData} {cs : List CommitData}
    (h : applyLogFrom handler true s (c :: cs) = .ok s') :
    c.commit.prev = some (tipFromState s) := by
  cases outcome : handler.applyCommit c (some s) with
  | applied next => exact ((links_iff s c.commit).mp (lawful.links outcome)).2
  | threw e left => simp [applyLogFrom, outcome] at h

/-- A log the store holds from a genesis on, whose anchors are valid and whose
signatures hold at whatever time they are checked. -/
structure ValidLog (env : Environment) (store : CommitStore) (log : List CommitData) : Prop where
  stored : Stored store log
  path : ∃ tip, Path none log (some tip)
  anchors : AnchorsValid store.toDispatcher log
  timeless : ∀ c ∈ log, TimelessSignature env c

namespace ValidLog

variable {env : Environment} {store : CommitStore} {g : CommitData} {cs ds : List CommitData}

theorem front (valid : ValidLog env store (g :: (cs ++ ds))) : ValidLog env store (g :: cs) := by
  have inside : ∀ c ∈ g :: cs, c ∈ g :: (cs ++ ds) := by
    intro c member
    rcases List.mem_cons.mp member with rfl | behind
    · simp
    · simp [behind]
  refine ⟨fun c member => valid.stored c (inside c member), ?_,
    fun c member => valid.anchors c (inside c member),
    fun c member => valid.timeless c (inside c member)⟩
  obtain ⟨tip, path⟩ := valid.path
  obtain ⟨middle, front, _⟩ := path_split path
  exact ⟨middle, front⟩

theorem genesis (valid : ValidLog env store (g :: cs)) : g.type ≠ .TIME := by
  obtain ⟨tip, path⟩ := valid.path
  have init := (valid.stored.fresh g (by simp)).genesis path.1
  simp [init]

theorem kinds (valid : ValidLog env store (g :: cs)) :
    ∀ c ∈ cs, c.type = .TIME ↔ isAnchorCommitData c = true := by
  obtain ⟨tip, path⟩ := valid.path
  exact fun c member => (valid.stored.fresh c (List.mem_cons_of_mem _ member)).anchor
    (path_linked path.2 c member)

theorem extractedKinds (valid : ValidLog env store (g :: (cs ++ ds))) :
    (∀ c ∈ verifyAnchorAndApplyTimestamps store.toDispatcher cs,
      c.type = .TIME ↔ isAnchorCommitData c = true) ∧
    ∀ c ∈ verifyAnchorAndApplyTimestamps store.toDispatcher ds,
      c.type = .TIME ↔ isAnchorCommitData c = true := by
  have stampedKind (c behind) (kind : c.type = .TIME ↔ isAnchorCommitData c = true) :
      (stamped store.toDispatcher c behind).type = .TIME ↔
        isAnchorCommitData (stamped store.toDispatcher c behind) = true := kind
  constructor
  · exact forall_extracted stampedKind fun c member => valid.kinds c (List.mem_append_left _ member)
  · exact forall_extracted stampedKind fun c member => valid.kinds c (List.mem_append_right _ member)

theorem extractedTimeless (valid : ValidLog env store cs) :
    ∀ c ∈ verifyAnchorAndApplyTimestamps store.toDispatcher cs, TimelessSignature env c :=
  forall_extracted (fun _ behind timeless => timeless.stamped store.toDispatcher behind)
    valid.timeless

theorem provenance (valid : ValidLog env store (g :: cs)) {handler : StreamHandler}
    (lawful : handler.Lawful env) {s : StreamState}
    (applied : applyLog handler none
      (verifyAnchorAndApplyTimestamps store.toDispatcher (g :: cs)) true = .ok s) :
    TimestampProvenance s.log.toList := by
  have all : ValidLog env store (g :: (cs ++ [])) := by simpa using valid
  exact provenance_extracted lawful valid.genesis all.extractedKinds.1 applied

/-- What is applied as a whole can be applied in two parts, with the times each part
has by itself, and ends in the same state. -/
theorem in_parts (valid : ValidLog env store (g :: (cs ++ ds))) {streamType : Nat}
    {handler : StreamHandler} {full : StreamState}
    (registered : HandlersMap.get env streamType = .ok handler)
    (applied : applyLog handler none
      (verifyAnchorAndApplyTimestamps store.toDispatcher (g :: (cs ++ ds))) true = .ok full) :
    ∃ middle, applyLog handler none
        (verifyAnchorAndApplyTimestamps store.toDispatcher (g :: cs)) true = .ok middle ∧
      applyLogFrom handler true middle (verifyAnchorAndApplyTimestamps store.toDispatcher ds) =
        .ok full := by
  obtain ⟨lawful, _⟩ := HandlersMap.get_lawful registered
  obtain ⟨rel, simulates⟩ := HandlersMap.get_simulates registered
  obtain ⟨front, split, retimed⟩ := extracted_append ds
    (fun c member => valid.anchors c (by simp [member]))
    (fun c member => (valid.kinds c (List.mem_append_left _ member)).mpr)
  have ownFull := valid.provenance lawful applied
  have timeless := valid.extractedTimeless
  rw [extracted_cons] at applied timeless
  obtain ⟨first, built, behind⟩ := applyLog_genesis applied
  rw [split] at behind timeless
  obtain ⟨middle, applied1, applied2⟩ := applyLogFrom_split behind
  -- the same commits with the times the first part has by itself
  obtain ⟨first', built', related⟩ := simulates.genesis (timeless _ (by simp))
    (⟨rfl⟩ : Retimed _ (stamped store.toDispatcher g cs)) built
  obtain ⟨middle', applied1', related⟩ := applyLogFrom_simulates simulates retimed
    (fun c member => timeless c (by simp [member])) related applied1
  obtain ⟨full', applied2', related⟩ := applyLogFrom_simulates simulates (.refl _)
    (fun c member => timeless c (by simp [member])) related applied2
  have loaded : applyLog handler none
      (verifyAnchorAndApplyTimestamps store.toDispatcher (g :: cs)) true = .ok middle' := by
    simpa [applyLog, built'] using applied1'
  have ownFull' := provenance_extended lawful (valid.front.provenance lawful loaded)
    valid.extractedKinds.2 applied2'
  have same := simulates.same related
  have sameLog : full'.log = full.log :=
    NonEmptyArray.ext (eq_of_provenance ownFull' ownFull same.log.symm)
  have sameState : full' = full := by rw [same.fields, sameLog]
  exact ⟨middle', loaded, sameState ▸ applied2'⟩

theorem unexpired (valid : ValidLog env store (g :: cs)) {handler : StreamHandler}
    (lawful : handler.Lawful env) {s : StreamState}
    (applied : applyLog handler none
      (verifyAnchorAndApplyTimestamps store.toDispatcher (g :: cs)) true = .ok s) :
    SignatureUtils.checkForCacaoExpiration env s = .ok () := by
  have timeless := valid.extractedTimeless
  rw [extracted_cons] at applied timeless
  exact unexpired_of_timeless lawful applied timeless

end ValidLog

/-- Applying the second part of a valid log to the state loaded from the first gives
the state loaded from the whole log. -/
theorem incremental_sync_eq_full_load {env : Environment} {store : CommitStore} {streamType : Nat}
    {log1 log2 : List CommitData} {tip : Cid} {full : StreamState}
    (nonempty : log1 ≠ []) (stored : Stored store (log1 ++ log2))
    (path : Path none (log1 ++ log2) (some tip))
    (anchors : AnchorsValid store.toDispatcher (log1 ++ log2))
    (timeless : ∀ c ∈ log1 ++ log2, TimelessSignature env c)
    (loaded : applyFullLog env streamType
      (verifyAnchorAndApplyTimestamps store.toDispatcher (log1 ++ log2)) true = .ok full)
    (throwing : Bool) (opts : ApplyLogToStateOpts) :
    ∃ s, applyFullLog env streamType
        (verifyAnchorAndApplyTimestamps store.toDispatcher log1) throwing = .ok s ∧
      applyLogToState env store s (verifyAnchorAndApplyTimestamps store.toDispatcher log2) opts =
        .ok full := by
  obtain ⟨g, cs, rfl⟩ := List.exists_cons_of_ne_nil nonempty
  have valid : ValidLog env store (g :: (cs ++ log2)) := ⟨stored, ⟨tip, path⟩, anchors, timeless⟩
  obtain ⟨handler, registered, applied⟩ := applyFullLog_extracted.mp loaded
  obtain ⟨lawful, sameType⟩ := HandlersMap.get_lawful registered
  obtain ⟨s, applied1, applied2⟩ := valid.in_parts registered applied
  have unexpired := valid.unexpired lawful applied
  refine ⟨s, applyFullLog_extracted.mpr ⟨handler, registered, ?_⟩, ?_⟩
  · rw [extracted_cons] at applied1 ⊢
    obtain ⟨first, built, behind⟩ := applyLog_genesis applied1
    simpa [applyLog, built] using applyLogFrom_throwing behind throwing
  · cases log2 with
    | nil =>
      obtain rfl : s = full := Except.ok.inj applied2
      exact bind_eq_ok.mpr ⟨s, rfl, bind_eq_ok.mpr ⟨(), unexpired, rfl⟩⟩
    | cons c rest =>
      rw [extracted_cons] at applied1 applied2 ⊢
      have type := (applyLog_log lawful applied1).1.trans sameType
      exact applyLogToState_appended (type.symm ▸ registered) (link_of_applied lawful applied2)
        (applyLogFrom_throwing applied2 _) unexpired

namespace BlockStore

theorem timeless_permissive {c : CommitData} (uncapped : c.capability = none) :
    TimelessSignature .permissive c := by
  refine ⟨fun _ _ _ => rfl, fun timestamp => ?_⟩
  simp [SignatureUtils.cacaoExpired, commitDataToLogEntry, capabilityExpiration, uncapped]

/-- A Tile log: a genesis, an update, its anchor and another update. -/
def anchoredUpdates : List Block :=
  [⟨⟨[1]⟩, .plain { header := some [("controllers", .arr [.str "did:key:z6Mk"])] }⟩,
   ⟨⟨[2]⟩, .signed ⟨⟨[2, 0]⟩, "", ""⟩⟩,
   ⟨⟨[2, 0]⟩, .plain { id := some ⟨[1]⟩, prev := some ⟨[1]⟩, header := some [] }⟩,
   ⟨⟨[3]⟩, .plain { id := some ⟨[1]⟩, prev := some ⟨[2]⟩, proof := some ⟨[9]⟩ }⟩,
   ⟨⟨[4]⟩, .signed ⟨⟨[4, 0]⟩, "", ""⟩⟩,
   ⟨⟨[4, 0]⟩, .plain { id := some ⟨[1]⟩, prev := some ⟨[3]⟩, header := some [] }⟩]

def updatesStore : CommitStore :=
  store anchoredUpdates (fun _ => some ⟨"eip155:1", ⟨[8]⟩, ⟨[2]⟩, none⟩) (fun _ => some 100) (by decide)

def readCommits (cids : List Cid) : List CommitData :=
  cids.filterMap fun cid => (Utils.getCommitData updatesStore.toDispatcher cid).toOption

def updatedState : StreamState where
  type := TILE_TYPE_ID
  content := .obj []
  next := some { content := some (.obj [])
                 metadata := some [("controllers", .arr [.str "did:key:z6Mk"])] }
  metadata := [("controllers", .arr [.str "did:key:z6Mk"])]
  signature := .SIGNED
  anchorStatus := .NOT_REQUESTED
  anchorProof := some ⟨"eip155:1", ⟨[8]⟩, ⟨[2]⟩, none⟩
  log := ⟨[⟨⟨[1]⟩, .INIT, .seconds 100, none⟩, ⟨⟨[2]⟩, .DATA, .seconds 100, none⟩,
    ⟨⟨[3]⟩, .TIME, .seconds 100, none⟩, ⟨⟨[4]⟩, .DATA, .undefined, none⟩], by decide⟩

theorem incremental_sync_eq_full_load_updates :
    ∃ s, applyFullLog .permissive TILE_TYPE_ID (verifyAnchorAndApplyTimestamps
        updatesStore.toDispatcher (readCommits [⟨[1]⟩, ⟨[2]⟩])) true = .ok s ∧
      applyLogToState .permissive updatesStore s (verifyAnchorAndApplyTimestamps
        updatesStore.toDispatcher (readCommits [⟨[3]⟩, ⟨[4]⟩])) StreamUpdater.networkOpts =
        .ok updatedState := by
  have stored : Stored updatesStore (readCommits [⟨[1]⟩, ⟨[2]⟩] ++ readCommits [⟨[3]⟩, ⟨[4]⟩]) := by
    unfold Stored
    decide
  have path : Path none (readCommits [⟨[1]⟩, ⟨[2]⟩] ++ readCommits [⟨[3]⟩, ⟨[4]⟩]) (some ⟨[4]⟩) :=
    ⟨rfl, rfl, rfl, rfl, rfl⟩
  have anchors : ∀ c ∈ readCommits [⟨[1]⟩, ⟨[2]⟩] ++ readCommits [⟨[3]⟩, ⟨[4]⟩], c.type = .TIME →
      verifyAnchorCommit updatesStore.toDispatcher c = .ok 100 := by
    decide
  have uncapped : ∀ c ∈ readCommits [⟨[1]⟩, ⟨[2]⟩] ++ readCommits [⟨[3]⟩, ⟨[4]⟩],
      c.capability = none := by
    decide
  exact incremental_sync_eq_full_load (by decide) stored path
    (fun c member time => ⟨100, anchors c member time⟩)
    (fun c member => timeless_permissive (uncapped c member)) (by decide) true
    StreamUpdater.networkOpts

end BlockStore

end Ceramic
