import Ceramic.FetchedLog

/-! What syncing returns for every store, tip and list of known commits: the chain behind a tip
ends at a known commit, at a genesis or at a commit that cannot be loaded. -/
namespace Ceramic

variable {store : CommitStore} {tip : Cid} {existing : List Cid} {log : List CommitData}

/-- The commits behind a known one, up to the tip; none of them is known. -/
structure MeetsAt (store : CommitStore) (existing : List Cid) (tip prev : Cid) (log : List CommitData) : Prop where
  path : Path (some prev) log (some tip)
  stored : Stored store log
  known : prev ∈ existing
  nearest : ∀ c ∈ log, c.cid ∉ existing

/-- The whole chain of a tip, with its genesis first. -/
structure WholeChain (store : CommitStore) (tip : Cid) (log : List CommitData) : Prop where
  path : Path none log (some tip)
  stored : Stored store log

/-- Behind the tip a commit cannot be loaded. -/
def BreaksAt (store : CommitStore) (tip missing : Cid) (e : JsError) : Prop :=
  ∃ log, Path (some missing) log (some tip) ∧ Stored store log ∧
    Utils.getCommitData store.toDispatcher missing = .error e

theorem WholeChain.cons (whole : WholeChain store tip log) : ∃ genesis rest, log = genesis :: rest ∧
    genesis.commit.prev = none ∧ Path (some genesis.cid) rest (some tip) := by
  cases log with
  | nil => exact nomatch (show some tip = none from whole.path)
  | cons genesis rest => exact ⟨genesis, rest, rfl, whole.path.1, whole.path.2⟩

namespace LogSyncer

/-- The walk goes on behind commits that are not known. -/
theorem walk_behind {known : Option (List Cid)} {fuel : Nat} {start cid : Cid} {synced : List CommitData}
    (enough : store.height cid < fuel) (path : Path (some start) log (some cid)) (stored : Stored store log)
    (unknown : ∀ c ∈ log, logIncludes c.cid known = false) :
    ∃ left, store.height start < left ∧
      walk store known fuel cid synced = walk store known left start (log ++ synced) := by
  induction log using List.reverseRecOn generalizing fuel cid synced with
  | nil =>
    obtain rfl := Option.some.inj path
    exact ⟨fuel, enough, rfl⟩
  | append_singleton log c ih =>
    obtain ⟨pathInit, isTip⟩ := (path_snoc _ _ _ _).mp path
    obtain rfl := Option.some.inj isTip
    obtain ⟨fuel, rfl⟩ := Nat.exists_eq_add_one_of_ne_zero (n := fuel) (by omega)
    obtain ⟨storedInit, storedLast⟩ := stored_append.mp stored
    have fetched := storedLast c List.mem_cons_self
    have step (prev : Cid) (isPrev : c.commit.prev = some prev) :
        walk store known (fuel + 1) c.cid synced = walk store known fuel prev (c :: synced) := by
      have new := unknown c (List.mem_append_right _ List.mem_cons_self)
      simp only [walk, new, Bool.false_eq_true, if_false, fetched, isPrev, bind, Except.bind]
    obtain ⟨prev, isPrev⟩ : ∃ prev, c.commit.prev = some prev := by
      cases isPrev : c.commit.prev with
      | some prev => exact ⟨prev, rfl⟩
      | none => exact absurd isPrev (path_linked path c (List.mem_append_right _ List.mem_cons_self))
    have lower := store.acyclic c.cid c prev fetched isPrev
    rw [isPrev] at pathInit
    have below : store.height prev < fuel := by omega
    obtain ⟨left, isEnough, walked⟩ := @ih fuel prev (c :: synced) below pathInit storedInit
      fun d member => unknown d (List.mem_append_left _ member)
    exact ⟨left, isEnough, by rw [step prev isPrev, walked, List.append_assoc]; rfl⟩

theorem logIncludes_eq (cid : Cid) (known : List Cid) : logIncludes cid (some known) = decide (cid ∈ known) :=
  List.elem_eq_mem _ _

/-- The chain behind a tip comes to a known commit, to a genesis or to a commit that cannot be loaded. -/
theorem chain_ends (store : CommitStore) (existing : List Cid) (tip : Cid) :
    ∃ stop log, Path (some stop) log (some tip) ∧ Stored store log ∧ (∀ c ∈ log, c.cid ∉ existing) ∧
      (stop ∈ existing ∨ (stop ∉ existing ∧ ((∃ e, Utils.getCommitData store.toDispatcher stop = .error e) ∨
        ∃ genesis, Utils.getCommitData store.toDispatcher stop = .ok genesis ∧ genesis.commit.prev = none))) := by
  induction height : store.height tip using Nat.strongRecOn generalizing tip with
  | ind _ ih =>
    have here : Path (some tip) [] (some tip) := rfl
    have noneStored : Stored store [] := fun c member => nomatch member
    by_cases known : tip ∈ existing
    · exact ⟨tip, [], here, noneStored, fun c member => (nomatch member), .inl known⟩
    cases fetched : Utils.getCommitData store.toDispatcher tip with
    | error e => exact ⟨tip, [], here, noneStored, fun c member => (nomatch member), .inr ⟨known, .inl ⟨e, fetched⟩⟩⟩
    | ok c =>
      obtain ⟨rfl, _⟩ := getCommitData_ok fetched
      cases isPrev : c.commit.prev with
      | none =>
        exact ⟨c.cid, [], here, noneStored, fun c member => (nomatch member), .inr ⟨known, .inr ⟨c, fetched, isPrev⟩⟩⟩
      | some prev =>
        have lower := store.acyclic c.cid c prev fetched isPrev
        obtain ⟨stop, log, path, stored, unknown, ends⟩ := ih _ (height ▸ lower) prev rfl
        refine ⟨stop, log ++ [c], ?_, ?_, ?_, ends⟩
        · rw [path_snoc, isPrev]
          exact ⟨path, rfl⟩
        · exact stored_append.mpr ⟨stored, fun d member => List.mem_singleton.mp member ▸ fetched⟩
        · intro d member
          rcases List.mem_append.mp member with behind | last
          · exact unknown d behind
          · exact List.mem_singleton.mp last ▸ known

/-- A chain that never meets a known commit gives an empty log. -/
theorem syncLogUntilMatch_apart (whole : WholeChain store tip log) (apart : ∀ c ∈ log, c.cid ∉ existing) :
    syncLogUntilMatch store tip existing = .ok [] := by
  obtain ⟨genesis, rest, rfl, isGenesis, path⟩ := whole.cons
  have fetched := whole.stored genesis List.mem_cons_self
  have unknown : ∀ c ∈ genesis :: rest, logIncludes c.cid (some existing) = false := by
    intro c member
    rw [logIncludes_eq]
    exact decide_eq_false (apart c member)
  obtain ⟨left, enough, walked⟩ := @walk_behind store rest (some existing) (store.height tip + 1) genesis.cid tip []
    (Nat.lt_succ_self _) path (fun c member => whole.stored c (List.mem_cons_of_mem _ member))
    fun c member => unknown c (List.mem_cons_of_mem _ member)
  obtain ⟨left, rfl⟩ := Nat.exists_eq_add_one_of_ne_zero (n := left) (by omega)
  unfold syncLogUntilMatch syncLogHelper
  rw [walked]
  have new := unknown genesis List.mem_cons_self
  simp only [walk, new, Bool.false_eq_true, if_false, fetched, isGenesis, bind, Except.bind]
  rfl

/-- A walk fails where a commit cannot be loaded, if it comes there. -/
theorem walk_breaks {known : Option (List Cid)} {fuel : Nat} {stop : Cid} {e : JsError}
    (enough : store.height tip < fuel) (path : Path (some stop) log (some tip)) (stored : Stored store log)
    (unknown : ∀ c ∈ log, logIncludes c.cid known = false) (stopUnknown : logIncludes stop known = false)
    (missing : Utils.getCommitData store.toDispatcher stop = .error e) : walk store known fuel tip [] = .error e := by
  obtain ⟨left, isEnough, walked⟩ := @walk_behind store log known fuel stop tip [] enough path stored unknown
  obtain ⟨left, rfl⟩ := Nat.exists_eq_add_one_of_ne_zero (n := left) (by omega)
  rw [walked, walk, stopUnknown, if_neg Bool.false_ne_true, missing]
  rfl

theorem syncLogUntilMatch_breaks {stop : Cid} {e : JsError} (path : Path (some stop) log (some tip))
    (stored : Stored store log) (unknown : ∀ c ∈ log, c.cid ∉ existing) (stopUnknown : stop ∉ existing)
    (missing : Utils.getCommitData store.toDispatcher stop = .error e) :
    syncLogUntilMatch store tip existing = .error e :=
  walk_breaks (Nat.lt_succ_self _) path stored
    (fun c member => (logIncludes_eq _ _).trans (decide_eq_false (unknown c member)))
    ((logIncludes_eq _ _).trans (decide_eq_false stopUnknown)) missing

/-- What is synced up to a known commit: the commits behind the nearest one, or nothing if there is none. -/
theorem syncLogUntilMatch_iff (store : CommitStore) (tip : Cid) (existing : List Cid) (log : List CommitData) :
    syncLogUntilMatch store tip existing = .ok log ↔
      (∃ prev, MeetsAt store existing tip prev log) ∨
        (log = [] ∧ ∃ whole, WholeChain store tip whole ∧ ∀ c ∈ whole, c.cid ∉ existing) := by
  constructor
  · intro synced
    obtain ⟨stop, behind, path, stored, unknown, ends⟩ := chain_ends store existing tip
    rcases ends with known | ⟨stopUnknown, ⟨e, missing⟩ | ⟨genesis, fetched, isGenesis⟩⟩
    · have same := syncLogUntilMatch_complete known path stored unknown
      obtain rfl := Except.ok.inj (same.symm.trans synced)
      exact .inl ⟨stop, path, stored, known, unknown⟩
    · have failed := syncLogUntilMatch_breaks path stored unknown stopUnknown missing
      exact nomatch failed.symm.trans synced
    · obtain ⟨rfl, _⟩ := getCommitData_ok fetched
      have whole : WholeChain store tip (genesis :: behind) :=
        ⟨⟨isGenesis, path⟩, List.forall_mem_cons.mpr ⟨fetched, stored⟩⟩
      have apart : ∀ c ∈ genesis :: behind, c.cid ∉ existing := List.forall_mem_cons.mpr ⟨stopUnknown, unknown⟩
      obtain rfl := Except.ok.inj ((syncLogUntilMatch_apart whole apart).symm.trans synced)
      exact .inr ⟨rfl, _, whole, apart⟩
  · rintro (⟨prev, meets⟩ | ⟨rfl, whole, isWhole, apart⟩)
    · exact syncLogUntilMatch_complete meets.known meets.path meets.stored meets.nearest
    · exact syncLogUntilMatch_apart isWhole apart

/-- Syncing up to a known commit only fails where a commit cannot be loaded. -/
theorem syncLogUntilMatch_error {e : JsError} (failed : syncLogUntilMatch store tip existing = .error e) :
    ∃ missing, BreaksAt store tip missing e := by
  obtain ⟨stop, behind, path, stored, unknown, ends⟩ := chain_ends store existing tip
  rcases ends with known | ⟨stopUnknown, ⟨other, missing⟩ | ⟨genesis, fetched, isGenesis⟩⟩
  · exact nomatch failed.symm.trans (syncLogUntilMatch_complete known path stored unknown)
  · obtain rfl := Except.error.inj
      (failed.symm.trans (syncLogUntilMatch_breaks path stored unknown stopUnknown missing))
    exact ⟨stop, behind, path, stored, missing⟩
  · obtain ⟨rfl, _⟩ := getCommitData_ok fetched
    have whole : WholeChain store tip (genesis :: behind) :=
      ⟨⟨isGenesis, path⟩, List.forall_mem_cons.mpr ⟨fetched, stored⟩⟩
    exact nomatch failed.symm.trans
      (syncLogUntilMatch_apart whole (List.forall_mem_cons.mpr ⟨stopUnknown, unknown⟩))

/-- The full log of a tip, whatever stream it belongs to. -/
theorem syncLogHelper_whole_iff (store : CommitStore) (tip : Cid) (log : List CommitData) :
    syncLogHelper store tip none = .ok log ↔ WholeChain store tip log := by
  constructor
  · intro walked
    rcases walk_ok _ tip [] log (Nat.lt_succ_self _) walked with ⟨_, known⟩ | ⟨start, cs, rfl, path, stored, starts⟩
    · cases known
    · obtain rfl : start = none := starts
      rw [List.append_nil]
      exact ⟨path, stored⟩
  · intro whole
    have walked := walk_complete none (store.height tip + 1) tip log [] (Nat.lt_succ_self _) whole.path whole.stored rfl
    rwa [List.append_nil] at walked

/-- What a full sync returns: the chain of the tip if it begins with the stream's genesis, else the genesis alone. -/
theorem syncFullLog_iff (store : CommitStore) (streamID : StreamID) (tip : Cid) (log : List CommitData) :
    syncFullLog store streamID (some tip) = .ok log ↔ ∃ genesis rest, WholeChain store tip (genesis :: rest) ∧
      ((genesis.cid = streamID.cid ∧ log = genesis :: rest) ∨
        (genesis.cid ≠ streamID.cid ∧ syncGenesisLog store streamID = .ok log)) := by
  have returned (genesis : CommitData) (rest : List CommitData) :
      (if genesis.cid = streamID.cid then (.ok (genesis :: rest) : Except JsError _)
        else syncGenesisLog store streamID) = .ok log ↔
      (genesis.cid = streamID.cid ∧ log = genesis :: rest) ∨
        (genesis.cid ≠ streamID.cid ∧ syncGenesisLog store streamID = .ok log) := by
    split
    next same => simp [same, eq_comm]
    next other => simp [other]
  constructor
  · intro synced
    obtain ⟨walked, found, after⟩ := bind_eq_ok.mp synced
    have whole := (syncLogHelper_whole_iff store tip walked).mp found
    obtain ⟨genesis, rest, rfl, _⟩ := whole.cons
    exact ⟨genesis, rest, whole, (returned genesis rest).mp after⟩
  · rintro ⟨genesis, rest, whole, isLog⟩
    exact bind_eq_ok.mpr ⟨_, (syncLogHelper_whole_iff store tip _).mpr whole, (returned genesis rest).mpr isLog⟩

/-- A full sync only fails where a commit of the tip's chain, or the stream's genesis, cannot be loaded. -/
theorem syncFullLog_error {streamID : StreamID} {e : JsError}
    (failed : syncFullLog store streamID (some tip) = .error e) :
    (∃ missing, BreaksAt store tip missing e) ∨ Utils.getCommitData store.toDispatcher streamID.cid = .error e := by
  have genesisFails : syncGenesisLog store streamID = .error e →
      Utils.getCommitData store.toDispatcher streamID.cid = .error e := by
    intro failed
    unfold syncGenesisLog at failed
    cases fetched : Utils.getCommitData store.toDispatcher streamID.cid with
    | error other =>
      rw [fetched] at failed
      exact congrArg Except.error (Except.error.inj failed)
    | ok c => rw [fetched] at failed; cases failed
  cases walked : syncLogHelper store tip none with
  | error other =>
    unfold syncFullLog at failed
    simp only [walked] at failed
    obtain rfl := Except.error.inj failed
    obtain ⟨stop, behind, path, stored, unknown, ends⟩ := chain_ends store [] tip
    have noneIncluded (cid : Cid) : logIncludes cid none = false := rfl
    rcases ends with known | ⟨_, ⟨e, missing⟩ | ⟨genesis, fetched, isGenesis⟩⟩
    · cases known
    · have breaks := walk_breaks (Nat.lt_succ_self _) path stored (fun c _ => noneIncluded c.cid)
        (noneIncluded stop) missing
      obtain rfl := Except.error.inj (walked.symm.trans breaks)
      exact .inl ⟨stop, behind, path, stored, missing⟩
    · obtain ⟨rfl, _⟩ := getCommitData_ok fetched
      have whole : WholeChain store tip (genesis :: behind) :=
        ⟨⟨isGenesis, path⟩, List.forall_mem_cons.mpr ⟨fetched, stored⟩⟩
      exact nomatch walked.symm.trans ((syncLogHelper_whole_iff store tip _).mpr whole)
  | ok log =>
    obtain ⟨genesis, rest, rfl, _⟩ := ((syncLogHelper_whole_iff store tip log).mp walked).cons
    unfold syncFullLog at failed
    simp only [walked] at failed
    change (if genesis.cid = streamID.cid then (.ok (genesis :: rest) : Except JsError _)
      else syncGenesisLog store streamID) = .error e at failed
    split at failed
    · cases failed
    · exact .inr (genesisFails failed)

/-- What the two ways of syncing return, for every store, list of known commits, stream and tip. -/
theorem synced_logs (store : CommitStore) (existing : List Cid) (streamID : StreamID) (tip : Cid) :
    (∀ log, syncLogUntilMatch store tip existing = .ok log ↔
      (∃ prev, MeetsAt store existing tip prev log) ∨
        (log = [] ∧ ∃ whole, WholeChain store tip whole ∧ ∀ c ∈ whole, c.cid ∉ existing)) ∧
    (∀ e, syncLogUntilMatch store tip existing = .error e → ∃ missing, BreaksAt store tip missing e) ∧
    (∀ log, syncFullLog store streamID (some tip) = .ok log ↔ ∃ genesis rest,
      WholeChain store tip (genesis :: rest) ∧ ((genesis.cid = streamID.cid ∧ log = genesis :: rest) ∨
        (genesis.cid ≠ streamID.cid ∧ syncGenesisLog store streamID = .ok log))) ∧
    (∀ e, syncFullLog store streamID (some tip) = .error e → (∃ missing, BreaksAt store tip missing e) ∨
      Utils.getCommitData store.toDispatcher streamID.cid = .error e) ∧
    syncFullLog store streamID none = syncGenesisLog store streamID :=
  ⟨syncLogUntilMatch_iff store tip existing, fun _ => syncLogUntilMatch_error, syncFullLog_iff store streamID tip,
    fun _ => syncFullLog_error, rfl⟩

end LogSyncer

end Ceramic
