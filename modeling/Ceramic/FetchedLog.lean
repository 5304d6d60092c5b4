import Ceramic.AnchorTimestampExtractor
import Mathlib.Data.List.Induction

/-! What a fetched log looks like: its commits follow each other from a known commit,
or from a genesis, to the tip, and the extractor has only added timestamps and
validation errors to them. -/
namespace Ceramic

open StreamUtils AnchorTimestampExtractor

/-- A commit as it is read from the store. -/
structure CommitData.Fresh (c : CommitData) : Prop where
  timestamp : c.timestamp = .undefined
  expirationTime : c.expirationTime = none
  error : c.anchorValidationError = none
  genesis : c.commit.prev = none → c.type = .INIT
  anchor : c.commit.prev ≠ none → (c.type = .TIME ↔ isAnchorCommitData c = true)

/-- The commit without what was added to it after it had been read. -/
def CommitData.asStored (c : CommitData) : CommitData :=
  { c with timestamp := .undefined, expirationTime := none, anchorValidationError := none }

theorem CommitData.Fresh.asStored {c : CommitData} (fresh : c.Fresh) : c.asStored = c := by
  cases c
  obtain ⟨rfl, rfl, rfl, _, _⟩ := fresh
  rfl

theorem getCommitData_ok {dispatcher : Dispatcher} {cid : Cid} {c : CommitData}
    (h : Utils.getCommitData dispatcher cid = .ok c) : c.cid = cid ∧ c.Fresh := by
  obtain ⟨stored, _, h⟩ := bind_eq_ok.mp h
  cases stored with
  | none => cases h
  | some stored =>
    cases stored with
    | signed envelope =>
      obtain ⟨linked, _, h⟩ := bind_eq_ok.mp h
      cases linked with
      | none => cases h
      | some linkedCommit =>
        obtain ⟨capability, _, h⟩ := bind_eq_ok.mp h
        cases h
        refine ⟨rfl, rfl, rfl, rfl, fun none => ?_, fun some => ?_⟩
        · simp only at none
          simp [Utils.initType, none]
        · simp only at some
          simp [Utils.initType, Option.isNone_iff_eq_none, some, isAnchorCommitData]
    | plain commit =>
      cases proof : commit.proof with
      | none =>
        simp only [proof] at h
        cases h
        refine ⟨rfl, rfl, rfl, rfl, fun none => ?_, fun some => ?_⟩
        · simp only at none
          simp [Utils.initType, none]
        · simp only at some
          simp [Utils.initType, Option.isNone_iff_eq_none, some, isAnchorCommitData]
      | some proofCid =>
        simp only [proof] at h
        obtain ⟨anchorProof, _, h⟩ := bind_eq_ok.mp h
        cases h
        refine ⟨rfl, rfl, rfl, rfl, fun none => ?_, fun some => ?_⟩
        · simp only at none
          simp [Utils.initType, none]
        · simp only at some
          simp [Utils.initType, Option.isNone_iff_eq_none, some, isAnchorCommitData]

/-- The commits follow each other from `start`, the CID before the first, to `tip`. -/
def Path (start : Option Cid) : List CommitData → Option Cid → Prop
  | [], tip => tip = start
  | c :: cs, tip => c.commit.prev = start ∧ Path (some c.cid) cs tip

theorem path_append (start tip : Option Cid) (cs ds : List CommitData) :
    Path start (cs ++ ds) tip ↔ ∃ middle, Path start cs middle ∧ Path middle ds tip := by
  induction cs generalizing start with
  | nil => simp [Path]
  | cons c cs ih => simp [Path, ih, and_assoc]

theorem path_snoc (start tip : Option Cid) (cs : List CommitData) (c : CommitData) :
    Path start (cs ++ [c]) tip ↔ Path start cs c.commit.prev ∧ tip = some c.cid := by
  rw [path_append]
  constructor
  · rintro ⟨middle, path, rfl, rfl⟩
    exact ⟨path, rfl⟩
  · rintro ⟨path, rfl⟩
    exact ⟨_, path, rfl, rfl⟩

theorem path_tip {start tip : Option Cid} {cs : List CommitData} {c : CommitData}
    (path : Path start cs tip) (last : cs.getLast? = some c) : tip = some c.cid := by
  obtain ⟨init, rfl⟩ := List.getLast?_eq_some_iff.mp last
  exact ((path_snoc start tip init c).mp path).2

theorem path_split {start tip : Option Cid} {c : CommitData} {cs ds : List CommitData}
    (path : Path start (c :: (cs ++ ds)) tip) :
    ∃ middle : Cid, Path start (c :: cs) (some middle) ∧ Path (some middle) ds tip := by
  induction cs generalizing start c with
  | nil => exact ⟨c.cid, ⟨path.1, rfl⟩, path.2⟩
  | cons d cs ih =>
    obtain ⟨middle, front, rest⟩ := ih path.2
    exact ⟨middle, ⟨path.1, front⟩, rest⟩

theorem path_end {start tip tip' : Option Cid} {cs : List CommitData} (path : Path start cs tip)
    (path' : Path start cs tip') : tip = tip' := by
  induction cs generalizing start with
  | nil => exact Eq.trans path (Eq.symm path')
  | cons c cs ih => exact ih path.2 path'.2

/-- All commits are in the store. -/
def Stored (store : CommitStore) (cs : List CommitData) : Prop :=
  ∀ c ∈ cs, Utils.getCommitData store.toDispatcher c.cid = .ok c

theorem stored_append {store : CommitStore} {cs ds : List CommitData} :
    Stored store (cs ++ ds) ↔ Stored store cs ∧ Stored store ds := by
  simp [Stored, or_imp, forall_and]

/-- Behind a commit there is no genesis. -/
theorem path_linked {prev : Cid} {tip : Option Cid} {cs : List CommitData}
    (path : Path (some prev) cs tip) : ∀ c ∈ cs, c.commit.prev ≠ none := by
  induction cs generalizing prev with
  | nil => simp
  | cons c cs ih =>
    intro d member
    rcases List.mem_cons.mp member with rfl | behind
    · simp [path.1]
    · exact ih path.2 d behind

theorem Stored.fresh {store : CommitStore} {cs : List CommitData} (stored : Stored store cs) :
    ∀ c ∈ cs, c.Fresh := fun c member => (getCommitData_ok (stored c member)).2

namespace LogSyncer

/-- Where a walk may stop: at a genesis, or behind the known commits. -/
def StartsAt (existingCommits : Option (List Cid)) (start : Option Cid) (cs : List CommitData) : Prop :=
  match existingCommits with
  | none => start = none
  | some existing => (∃ prev ∈ existing, start = some prev) ∧ ∀ c ∈ cs, c.cid ∉ existing

theorem walk_ok {store : CommitStore} {existingCommits : Option (List Cid)} (fuel : Nat) (cid : Cid)
    (synced log : List CommitData) (enough : store.height cid < fuel)
    (h : walk store existingCommits fuel cid synced = .ok log) :
    (log = [] ∧ existingCommits.isSome) ∨ ∃ start cs, log = cs ++ synced ∧
      Path start cs (some cid) ∧ Stored store cs ∧ StartsAt existingCommits start cs := by
  induction fuel generalizing cid synced with
  | zero => omega
  | succ fuel ih =>
    unfold walk at h
    split at h
    next known =>
      cases h
      cases existingCommits with
      | none => simp [logIncludes] at known
      | some existing =>
        exact .inr ⟨some cid, [], rfl, rfl, by simp [Stored], ⟨cid, by simpa [logIncludes] using known, rfl⟩,
          by simp⟩
    next unknown =>
      obtain ⟨c, fetched, found⟩ := bind_eq_ok.mp h
      obtain ⟨rfl, _⟩ := getCommitData_ok fetched
      have fresh : ∀ existing, existingCommits = some existing → c.cid ∉ existing := by
        rintro existing rfl
        simpa [logIncludes] using unknown
      cases prev : c.commit.prev with
      | none =>
        rw [prev] at found
        cases existingCommits with
        | none =>
          cases found
          exact .inr ⟨none, [c], rfl, ⟨prev, rfl⟩, by simpa [Stored] using fetched, rfl⟩
        | some existing =>
          cases found
          exact .inl ⟨rfl, rfl⟩
      | some prevCid =>
        rw [prev] at found
        have lower := store.acyclic c.cid c prevCid fetched prev
        rcases ih prevCid (c :: synced) (by omega) found with empty | ⟨start, cs, rfl, path, stored, starts⟩
        · exact .inl empty
        · refine .inr ⟨start, cs ++ [c], by simp, ?_, ?_, ?_⟩
          · rw [path_snoc, prev]
            exact ⟨path, rfl⟩
          · exact stored_append.mpr ⟨stored, by simpa [Stored] using fetched⟩
          · cases existingCommits with
            | none => exact starts
            | some existing =>
              refine ⟨starts.1, fun d member => ?_⟩
              rcases List.mem_append.mp member with old | new
              · exact starts.2 d old
              · obtain rfl := List.mem_singleton.mp new
                exact fresh existing rfl

/-- A walk over stored commits returns them. -/
theorem walk_complete {store : CommitStore} (existingCommits : Option (List Cid))
    {start : Option Cid} (fuel : Nat) (cid : Cid) (cs synced : List CommitData)
    (enough : store.height cid < fuel) (path : Path start cs (some cid)) (stored : Stored store cs)
    (starts : StartsAt existingCommits start cs) :
    walk store existingCommits fuel cid synced = .ok (cs ++ synced) := by
  induction cs using List.reverseRecOn generalizing fuel cid synced with
  | nil =>
    obtain ⟨fuel, rfl⟩ := Nat.exists_eq_add_one_of_ne_zero (n := fuel) (by omega)
    obtain rfl : some cid = start := path
    cases existingCommits with
    | none => cases starts
    | some existing =>
      obtain ⟨⟨prev, member, same⟩, _⟩ := starts
      obtain rfl := Option.some.inj same
      simp [walk, logIncludes, member]
  | append_singleton cs c ih =>
    obtain ⟨fuel, rfl⟩ := Nat.exists_eq_add_one_of_ne_zero (n := fuel) (by omega)
    obtain ⟨pathInit, tip⟩ := (path_snoc _ _ _ _).mp path
    obtain rfl := Option.some.inj tip
    have fetched := stored c (by simp)
    have unknown : logIncludes c.cid existingCommits = false := by
      cases existingCommits with
      | none => rfl
      | some existing => simpa [logIncludes] using starts.2 c (by simp)
    simp only [walk, unknown, Bool.false_eq_true, if_false, fetched, bind, Except.bind]
    cases prev : c.commit.prev with
    | none =>
      rw [prev] at pathInit
      cases existingCommits with
      | none =>
        have empty : cs = [] := by
          cases cs using List.reverseRecOn with
          | nil => rfl
          | append_singleton ds d => cases ((path_snoc _ _ _ _).mp pathInit).2
        simp [empty, pure, Except.pure]
      | some existing =>
        obtain ⟨⟨known, _, rfl⟩, _⟩ := starts
        cases cs using List.reverseRecOn with
        | nil => cases pathInit
        | append_singleton ds d => cases ((path_snoc _ _ _ _).mp pathInit).2
    | some prevCid =>
      rw [prev] at pathInit
      have lower := store.acyclic c.cid c prevCid fetched prev
      have tail : StartsAt existingCommits start cs := by
        cases existingCommits with
        | none => exact starts
        | some existing => exact ⟨starts.1, fun d member => starts.2 d (by simp [member])⟩
      have rest := ih fuel prevCid (c :: synced) (by omega) pathInit
        (stored_append.mp stored).1 tail
      simpa using rest

theorem syncLogUntilMatch_ok {store : CommitStore} {tip : Cid} {existing : List Cid}
    {log : List CommitData} (h : syncLogUntilMatch store tip existing = .ok log) :
    log = [] ∨ ∃ prev ∈ existing, Path (some prev) log (some tip) ∧ Stored store log ∧
      ∀ c ∈ log, c.cid ∉ existing := by
  rcases walk_ok _ tip [] log (by omega) h with ⟨empty, _⟩ |
    ⟨start, cs, rfl, path, stored, ⟨prev, member, rfl⟩, unknown⟩
  · exact .inl empty
  · rw [List.append_nil]
    exact .inr ⟨prev, member, path, stored, unknown⟩

theorem syncLogUntilMatch_complete {store : CommitStore} {tip prev : Cid} {existing : List Cid}
    {log : List CommitData} (member : prev ∈ existing) (path : Path (some prev) log (some tip))
    (stored : Stored store log) (unknown : ∀ c ∈ log, c.cid ∉ existing) :
    syncLogUntilMatch store tip existing = .ok log := by
  have := walk_complete (some existing) (store.height tip + 1) tip log []
    (by omega) path stored ⟨⟨prev, member, rfl⟩, unknown⟩
  simpa [syncLogUntilMatch, syncLogHelper] using this

/-- A full log leads from a genesis to the tip; if that is another stream's genesis,
only the stream's own is returned. -/
theorem syncFullLog_ok {store : CommitStore} {streamID : StreamID} {tip : Cid}
    {log : List CommitData} (h : syncFullLog store streamID (some tip) = .ok log) :
    ∃ first rest, log = first :: rest ∧ Stored store log ∧ first.cid = streamID.cid ∧
      (Path none log (some tip) ∨ rest = []) := by
  obtain ⟨walked, found, h⟩ := bind_eq_ok.mp h
  have genesis : syncGenesisLog store streamID = .ok log →
      ∃ first rest, log = first :: rest ∧ Stored store log ∧ first.cid = streamID.cid ∧
        (Path none log (some tip) ∨ rest = []) := by
    intro h
    obtain ⟨c, fetched, h⟩ := bind_eq_ok.mp h
    cases h
    obtain ⟨same, _⟩ := getCommitData_ok fetched
    exact ⟨c, [], rfl, by simpa [Stored, same] using fetched, same, .inr rfl⟩
  rcases walk_ok _ tip [] walked (by omega) found with ⟨_, known⟩ |
    ⟨start, cs, rfl, path, stored, starts⟩
  · cases known
  · cases cs with
    | nil => exact genesis h
    | cons first rest =>
      simp only [List.append_nil, List.head?_cons] at h
      split at h
      next same =>
        cases h
        obtain rfl : start = none := starts
        exact ⟨first, rest, rfl, stored, same, .inl path⟩
      · exact genesis h

theorem syncFullLog_complete {store : CommitStore} {streamID : StreamID} {tip : Cid}
    {first : CommitData} {rest : List CommitData} (path : Path none (first :: rest) (some tip))
    (stored : Stored store (first :: rest)) (same : first.cid = streamID.cid) :
    syncFullLog store streamID (some tip) = .ok (first :: rest) := by
  have walked := walk_complete none (store.height tip + 1) tip (first :: rest) []
    (by omega) path stored rfl
  simp [syncFullLog, syncLogHelper, walked, bind, Except.bind, same, pure, Except.pure]

end LogSyncer

namespace AnchorTimestampExtractor

/-- The time of the first valid anchor of a fetched log. -/
def carriedTime (dispatcher : Dispatcher) : List CommitData → Timestamp
  | [] => .null
  | c :: cs =>
    if c.type = .TIME then
      match verifyAnchorCommit dispatcher c with
      | .ok timestamp => .seconds timestamp
      | .error _ => carriedTime dispatcher cs
    else carriedTime dispatcher cs

theorem carriedTime_eq (dispatcher : Dispatcher) (cs : List CommitData) :
    (cs.foldr (stamp dispatcher) ([], .null)).2 = carriedTime dispatcher cs := by
  induction cs with
  | nil => rfl
  | cons c cs ih =>
    simp only [List.foldr_cons, stamp, carriedTime]
    split
    · split <;> simp_all
    · exact ih

/-- A commit as the extractor leaves it in front of the given ones. -/
def stamped (dispatcher : Dispatcher) (c : CommitData) (behind : List CommitData) : CommitData :=
  { c with
    timestamp := carriedTime dispatcher (c :: behind)
    anchorValidationError :=
      if c.type = .TIME then
        match verifyAnchorCommit dispatcher c with
        | .ok _ => c.anchorValidationError
        | .error e => some e
      else c.anchorValidationError }

@[simp] theorem extracted_nil (dispatcher : Dispatcher) :
    verifyAnchorAndApplyTimestamps dispatcher [] = [] := rfl

@[simp] theorem extracted_cons (dispatcher : Dispatcher) (c : CommitData) (cs : List CommitData) :
    verifyAnchorAndApplyTimestamps dispatcher (c :: cs) =
      stamped dispatcher c cs :: verifyAnchorAndApplyTimestamps dispatcher cs := by
  simp only [verifyAnchorAndApplyTimestamps, List.foldr_cons, stamp, stamped, carriedTime]
  split
  · split <;> simp_all [carriedTime_eq]
  · simp_all [carriedTime_eq]

theorem extracted_map {β : Type} (dispatcher : Dispatcher) (f : CommitData → β)
    (untouched : ∀ (c : CommitData) t e, f { c with timestamp := t, anchorValidationError := e } = f c)
    (cs : List CommitData) : (verifyAnchorAndApplyTimestamps dispatcher cs).map f = cs.map f := by
  induction cs with
  | nil => rfl
  | cons c cs ih => simp [ih, stamped, untouched]

@[simp] theorem extracted_length (dispatcher : Dispatcher) (cs : List CommitData) :
    (verifyAnchorAndApplyTimestamps dispatcher cs).length = cs.length := by
  simpa using congrArg List.length (extracted_map dispatcher (·.cid) (fun _ _ _ => rfl) cs)

/-- A log extracted in two parts: the first part also sees the anchors of the second. -/
theorem extracted_getElem? (dispatcher : Dispatcher) (cs : List CommitData) (i : Nat) :
    (verifyAnchorAndApplyTimestamps dispatcher cs)[i]? =
      cs[i]?.map fun c => stamped dispatcher c (cs.drop (i + 1)) := by
  induction cs generalizing i with
  | nil => simp
  | cons c cs ih =>
    cases i with
    | zero => simp
    | succ i => simp [ih]

theorem extracted_drop (dispatcher : Dispatcher) (cs : List CommitData) (k : Nat) :
    (verifyAnchorAndApplyTimestamps dispatcher cs).drop k =
      verifyAnchorAndApplyTimestamps dispatcher (cs.drop k) := by
  induction cs generalizing k with
  | nil => simp
  | cons c cs ih =>
    cases k with
    | zero => rfl
    | succ k => simp [ih]

theorem extracted_asStored (dispatcher : Dispatcher) {cs : List CommitData}
    (fresh : ∀ c ∈ cs, c.Fresh) :
    (verifyAnchorAndApplyTimestamps dispatcher cs).map (·.asStored) = cs := by
  rw [extracted_map dispatcher _ (fun _ _ _ => rfl)]
  conv_rhs => rw [← List.map_id cs]
  exact List.map_congr_left fun c member => (fresh c member).asStored

theorem extracted_path {dispatcher : Dispatcher} {start tip : Option Cid} {cs : List CommitData}
    (path : Path start cs tip) : Path start (verifyAnchorAndApplyTimestamps dispatcher cs) tip := by
  induction cs generalizing start with
  | nil => exact path
  | cons c cs ih =>
    rw [extracted_cons]
    exact ⟨path.1, ih path.2⟩

end AnchorTimestampExtractor

end Ceramic
