import Ceramic.PinStore
import Ceramic.Library.Fetch

/-! What loading a log reads from IPFS, and that it is what the pin store pins for the log. -/
namespace Ceramic

abbrev BlockFetch := Fetch Cid JsValue JsError

/-- `CommitData` over the records as they are stored. -/
structure LoadedCommit where
  cid : Cid
  type : EventType
  commit : JsValue
  envelope : JsValue := .undefined
  capability : JsValue := .undefined
  proof : JsValue := .undefined

namespace Replay

open PinStore

/-- As `Ipfs.resolveFrom`. -/
def resolveFrom (lastCid : Cid) (value : JsValue) : List String → BlockFetch Cid
  | [] => .done (.ok lastCid)
  | key :: rest =>
    match Ipfs.ownProperty value key with
    | none => .done (.error ⟨"no link named \"" ++ key ++ "\" under " ++ lastCid.toString⟩)
    | some (.cid link) =>
      if rest = [] then .done (.ok link)
      else do
        let next ← Fetch.get link
        resolveFrom link next rest
    | some inner => resolveFrom lastCid inner rest

def resolve (cid : Cid) (path : List String) : BlockFetch Cid :=
  if path = [] then .done (.ok cid)
  else do
    let value ← Fetch.get cid
    resolveFrom cid value path

/-- `retrieveFromIPFS` with a path. -/
def retrieve (cid : Cid) (path : String) : BlockFetch JsValue := do
  let blockCid ← resolve cid (Ipfs.segments path)
  Fetch.get blockCid

variable (store : PinStore)

def extractCapability (commit : JsValue) : BlockFetch JsValue := do
  let signatures ← .done (commit.prop "signatures")
  if !signatures.truthy then return .undefined
  else if signatures.prop "length" = .ok (.num 0) then return .undefined
  else match ← .done (store.getCacaoCidFromCommit commit) with
    | none => return .undefined
    | some capCID => match ← (Fetch.get capCID).attempt with
      | .ok cacao => return cacao
      | .error e => .done (.error ⟨"Error while loading capability from IPFS with CID " ++ capCID.toString ++
          ": " ++ e.message⟩)

def initType (type : EventType) (commit : JsValue) : Except JsError EventType := do
  return if (← commit.prop "prev").truthy then type else .INIT

def getCommitData (cid : Cid) : BlockFetch LoadedCommit := do
  let commit ← Fetch.get cid
  if !commit.truthy then .done (.error ⟨"No commit found for CID " ++ cid.toString⟩)
  else if isSignedCommit commit then do
    let link ← .done (linkOf commit "link")
    let linkedCommit ← Fetch.get link
    if !linkedCommit.truthy then .done (.error ⟨"No commit found for CID " ++ link.toString⟩)
    else do
      let capability ← extractCapability store commit
      let type ← .done (initType .DATA linkedCommit)
      return { cid, type, commit := linkedCommit, envelope := commit, capability }
  else if isAnchorCommit commit then do
    let proofCid ← .done (linkOf commit "proof")
    let proof ← Fetch.get proofCid
    let type ← .done (initType .TIME commit)
    return { cid, type, commit, proof }
  else do
    let type ← .done (initType .DATA commit)
    return { cid, type, commit }

/-- `value.toString()`. -/
def textOf (value : JsValue) : Except JsError String :=
  if value.isNullish then .error ⟨"Cannot read properties of undefined (reading 'toString')"⟩
  else .ok (store.stringOf value)

/-- The CID that the Merkle tree has under the path of the anchor commit. -/
def prevCIDViaMerkleTree (commitData : LoadedCommit) : BlockFetch JsValue := do
  match ← .done (commitData.commit.prop "path") with
  | .str commitPath =>
    if commitPath = "" then .done (commitData.proof.prop "root")
    else do
      let (parent, last) := AnchorTimestampExtractor.splitPath commitPath
      let proofCid ← .done (linkOf commitData.commit "proof")
      let merkleTreeParentCommit ← retrieve proofCid ("/root/" ++ parent)
      return (Ipfs.ownProperty merkleTreeParentCommit last).getD .undefined
  | _ => .done (.error ⟨"commitPath.lastIndexOf is not a function"⟩)

def verifyAnchorCommit (validateChainInclusion : JsValue → Except JsError Nat) (commitData : LoadedCommit) :
    BlockFetch Nat := do
  match ← (prevCIDViaMerkleTree commitData).attempt with
  | .error e => .done (.error ⟨"The anchor commit couldn't be verified. Reason " ++ e.message⟩)
  | .ok viaTree => .done do
    let prev ← textOf store (← commitData.commit.prop "prev")
    if prev ≠ (← textOf store viaTree) then
      throw ⟨"The anchor commit proof [object Object] points to invalid 'prev' commit"⟩
    else validateChainInclusion commitData.proof

/-- A log is fetched, and then its anchors are verified. -/
def replay (validateChainInclusion : JsValue → Except JsError Nat) (log : List Cid) :
    BlockFetch (List (LoadedCommit × Except JsError Nat)) := do
  let commits ← Fetch.each (getCommitData store) log
  Fetch.each (fun commitData => do
    if commitData.type = .TIME then
      let verified ← (verifyAnchorCommit store validateChainInclusion commitData).attempt
      return (commitData, verified)
    else return (commitData, .error ⟨"no anchor commit"⟩)) commits

variable {stored : IpfsRecords} {key : Cid}

/-- A name that is no link leads further into the same block. -/
theorem ipfs_resolveFrom_inner {lastCid : Cid} {value inner : JsValue} {name : String}
    (isInner : Ipfs.ownProperty value name = some inner) (noLink : ∀ link, inner ≠ .cid link) (rest : List String) :
    Ipfs.resolveFrom stored lastCid value (name :: rest) = Ipfs.resolveFrom stored lastCid inner rest := by
  rw [Ipfs.resolveFrom, isInner]
  cases inner with
  | cid link => exact absurd rfl (noLink link)
  | _ => rfl

theorem resolveFrom_inner {lastCid : Cid} {value inner : JsValue} {name : String}
    (isInner : Ipfs.ownProperty value name = some inner) (noLink : ∀ link, inner ≠ .cid link) (rest : List String) :
    resolveFrom lastCid value (name :: rest) = resolveFrom lastCid inner rest := by
  rw [resolveFrom, isInner]
  cases inner with
  | cid link => exact absurd rfl (noLink link)
  | _ => rfl

theorem run_resolveFrom (stored : IpfsRecords) (lastCid : Cid) (value : JsValue) (path : List String) :
    (resolveFrom lastCid value path).run (Ipfs.load stored) = Ipfs.resolveFrom stored lastCid value path := by
  induction path generalizing lastCid value with
  | nil => rfl
  | cons name rest ih =>
    cases found : Ipfs.ownProperty value name with
    | none =>
      rw [resolveFrom, Ipfs.resolveFrom, found]
      rfl
    | some inner =>
      by_cases isLink : ∃ link, inner = .cid link
      · obtain ⟨link, rfl⟩ := isLink
        rw [resolveFrom, Ipfs.resolveFrom, found]
        dsimp only
        split
        · rfl
        · rw [Fetch.run_bind, Fetch.run_get]
          cases Ipfs.load stored link with
          | ok next => exact ih ..
          | error e => rfl
      · push Not at isLink
        rw [resolveFrom_inner found isLink, ipfs_resolveFrom_inner found isLink]
        exact ih ..

theorem run_resolve (stored : IpfsRecords) (cid : Cid) (path : List String) :
    (resolve cid path).run (Ipfs.load stored) = Ipfs.resolve stored cid path := by
  unfold resolve Ipfs.resolve
  split
  · rfl
  · rw [Fetch.run_bind, Fetch.run_get]
    exact congrArg _ (funext fun value => run_resolveFrom ..)

/-- What is read on the way is what shorter paths resolve to. -/
theorem mem_reads_resolveFrom {lastCid : Cid} {value : JsValue} {path : List String}
    (member : key ∈ (resolveFrom lastCid value path).reads (Ipfs.load stored)) :
    ∃ n, n < path.length ∧ Ipfs.resolveFrom stored lastCid value (path.take (n + 1)) = .ok key := by
  induction path generalizing lastCid value with
  | nil => cases member
  | cons name rest ih =>
    cases found : Ipfs.ownProperty value name with
    | none =>
      rw [resolveFrom, found] at member
      cases member
    | some inner =>
      by_cases isLink : ∃ link, inner = .cid link
      · obtain ⟨link, rfl⟩ := isLink
        rw [resolveFrom, found] at member
        dsimp only at member
        split at member
        · cases member
        next more =>
          rcases (Fetch.mem_reads_bind _).mp member with here | ⟨next, loaded, behind⟩
          · obtain rfl := List.mem_singleton.mp here
            refine ⟨0, Nat.succ_pos _, ?_⟩
            rw [List.take_succ_cons, List.take_zero, Ipfs.resolveFrom, found]
            rfl
          · obtain ⟨n, short, resolved⟩ := ih behind
            refine ⟨n + 1, Nat.succ_lt_succ short, ?_⟩
            have longer : rest.take (n + 1) ≠ [] := by simpa using more
            rw [Fetch.run_get] at loaded
            rw [List.take_succ_cons, Ipfs.resolveFrom, found]
            dsimp only
            rw [if_neg longer, loaded]
            exact resolved
      · push Not at isLink
        rw [resolveFrom_inner found isLink] at member
        obtain ⟨n, short, resolved⟩ := ih member
        refine ⟨n + 1, Nat.succ_lt_succ short, ?_⟩
        rw [List.take_succ_cons, ipfs_resolveFrom_inner found isLink]
        exact resolved

theorem mem_reads_retrieve {cid : Cid} {path : String}
    (member : key ∈ (retrieve cid path).reads (Ipfs.load stored)) :
    ∃ n, n ≤ (Ipfs.segments path).length ∧ Ipfs.resolve stored cid ((Ipfs.segments path).take n) = .ok key := by
  have atRoot : Ipfs.resolve stored cid ((Ipfs.segments path).take 0) = .ok cid := rfl
  rcases (Fetch.mem_reads_bind _).mp member with onTheWay | ⟨blockCid, resolved, last⟩
  · unfold resolve at onTheWay
    split at onTheWay
    · cases onTheWay
    next nonempty =>
      rcases (Fetch.mem_reads_bind _).mp onTheWay with here | ⟨value, loaded, behind⟩
      · obtain rfl := List.mem_singleton.mp here
        exact ⟨0, Nat.zero_le _, atRoot⟩
      · obtain ⟨n, short, found⟩ := mem_reads_resolveFrom behind
        refine ⟨n + 1, short, ?_⟩
        have longer : (Ipfs.segments path).take (n + 1) ≠ [] := by simpa using nonempty
        rw [Fetch.run_get] at loaded
        rw [Ipfs.resolve, if_neg longer, loaded]
        exact found
  · obtain rfl := List.mem_singleton.mp last
    refine ⟨_, Nat.le_refl _, ?_⟩
    rw [List.take_length, ← run_resolve]
    exact resolved

/-- A path that names are added to. -/
def extended (path : String) (names : List String) : String := names.foldl (fun path name => path ++ "/" ++ name) path

theorem segments_append (path rest : String) :
    Ipfs.segments (path ++ "/" ++ rest) = Ipfs.segments path ++ Ipfs.segments rest := by
  have slash : "/".toList = ['/'] := by decide
  have split : (path ++ "/" ++ rest).toList.splitOn '/' = path.toList.splitOn '/' ++ rest.toList.splitOn '/' := by
    rw [String.toList_append, String.toList_append, slash, List.append_assoc]
    exact List.splitOn_append_cons_self ..
  unfold Ipfs.segments
  rw [split, List.filter_append, List.map_append]

theorem not_mem_of_mem_splitOn {separator : Char} {text part : List Char} (member : part ∈ text.splitOn separator) :
    separator ∉ part := by
  by_cases inside : separator ∈ text
  · -- What is before the first separator has none in it, and the rest is shorter.
    obtain ⟨front, back, rfl, absent⟩ := List.eq_append_cons_of_mem inside
    rw [List.splitOn_append_cons_self, List.splitOn_eq_singleton absent] at member
    rcases List.mem_append.mp member with here | behind
    · obtain rfl := List.mem_singleton.mp here
      exact absent
    · exact not_mem_of_mem_splitOn behind
  · rw [List.splitOn_eq_singleton inside] at member
    obtain rfl := List.mem_singleton.mp member
    exact inside
termination_by text.length
decreasing_by
  subst_vars
  rw [List.length_append, List.length_cons]
  omega

theorem segments_of_mem {path name : String} (member : name ∈ Ipfs.segments path) : Ipfs.segments name = [name] := by
  obtain ⟨part, isPart, rfl⟩ := List.mem_map.mp member
  obtain ⟨isPart, nonempty⟩ := List.mem_filter.mp isPart
  unfold Ipfs.segments
  rw [String.toList_ofList, List.splitOn_eq_singleton (not_mem_of_mem_splitOn isPart)]
  exact congrArg (List.map String.ofList) (List.filter_cons_of_pos nonempty)

theorem segments_extended (path : String) {names : List String} (clean : ∀ name ∈ names, Ipfs.segments name = [name]) :
    Ipfs.segments (extended path names) = Ipfs.segments path ++ names := by
  unfold extended
  induction names generalizing path with
  | nil => exact (List.append_nil _).symm
  | cons name names ih =>
    rw [List.foldl_cons, ih _ fun other member => clean other (List.mem_cons_of_mem _ member), segments_append,
      clean name List.mem_cons_self, List.append_assoc]
    rfl

theorem splitPath_noSlash {path : String} (noSlash : '/' ∉ path.toList) :
    AnchorTimestampExtractor.splitPath path = ("", path) := by
  have all : ∀ c ∈ path.toList.reverse, (c != '/') = true := by
    intro c member
    exact bne_iff_ne.mpr fun same => noSlash (same ▸ List.mem_reverse.mp member)
  unfold AnchorTimestampExtractor.splitPath
  dsimp only
  rw [List.takeWhile_eq_self_iff.mpr all, List.dropWhile_eq_nil_iff.mpr all, List.reverse_reverse,
    String.ofList_toList]
  rfl

theorem splitPath_slash {path : String} (slash : '/' ∈ path.toList) :
    path = (AnchorTimestampExtractor.splitPath path).1 ++ "/" ++ (AnchorTimestampExtractor.splitPath path).2 := by
  -- Read from the end, the path is its last name, the slash before it, and the rest.
  have halves := List.takeWhile_append_dropWhile (p := (· != '/')) (l := path.toList.reverse)
  cases rest : path.toList.reverse.dropWhile (· != '/') with
  | nil =>
    have all := List.dropWhile_eq_nil_iff.mp rest _ (List.mem_reverse.mpr slash)
    simp at all
  | cons c parent =>
    have isSlash : c = '/' := by
      have stops := List.head_dropWhile_not (· != '/') (l := path.toList.reverse) (by rw [rest]; simp)
      simpa [rest] using stops
    rw [rest, isSlash] at halves
    apply String.toList_inj.mp
    unfold AnchorTimestampExtractor.splitPath
    dsimp only
    rw [rest, String.toList_append, String.toList_append, String.toList_ofList, String.toList_ofList,
      String.toList_ofList]
    have reversed := congrArg List.reverse halves
    rw [List.reverse_reverse, List.reverse_append, List.reverse_cons] at reversed
    exact reversed.symm

/-- The nodes above the last one are on the way to it. -/
theorem segments_splitPath (path : String) :
    Ipfs.segments path = Ipfs.segments (AnchorTimestampExtractor.splitPath path).1 ++
      Ipfs.segments (AnchorTimestampExtractor.splitPath path).2 := by
  by_cases slash : '/' ∈ path.toList
  · rw [← segments_append, ← splitPath_slash slash]
  · rw [splitPath_noSlash slash]
    rfl

/-- A pin store that reads these records. -/
def onRecords (store : PinStore) (stored : IpfsRecords) : PinStore :=
  { store with
    retrieve := fun cid => (Ipfs.load stored cid).map fun record => if record.truthy then record else .undefined
    resolve := fun cid path => Ipfs.resolve stored cid (Ipfs.segments path) }

theorem onRecords_resolve (store : PinStore) (stored : IpfsRecords) (cid : Cid) (path : String) :
    (onRecords store stored).resolve cid path = Ipfs.resolve stored cid (Ipfs.segments path) := rfl

theorem resolveSubPaths_ok {proof : Cid} {currentPath : String} {subPaths : List String} {points : List Cid}
    (pinned : store.resolveSubPaths proof currentPath subPaths = .ok points) {n : Nat} (inside : n < subPaths.length) :
    ∃ point ∈ points, store.resolve proof (extended currentPath (subPaths.take (n + 1))) = .ok point := by
  induction subPaths generalizing currentPath points n with
  | nil => cases inside
  | cons subPath subPaths ih =>
    obtain ⟨point, resolved, rest⟩ := bind_eq_ok.mp pinned
    obtain ⟨points, behind, same⟩ := bind_eq_ok.mp rest
    obtain rfl := Except.ok.inj same
    cases n with
    | zero => exact ⟨point, List.mem_cons_self, resolved⟩
    | succ n =>
      obtain ⟨found, member, resolved⟩ := ih behind (Nat.lt_of_succ_lt_succ inside)
      exact ⟨found, List.mem_cons_of_mem _ member, resolved⟩

/-- What is pinned for a path below a proof is all that the path's nodes resolve to. -/
theorem pinned_of_resolve {proof : Cid} {path : String} {points : List Cid}
    (pinned : (onRecords store stored).resolveSubPaths proof "" (Ipfs.segments path) = .ok points) {n : Nat}
    (resolved : Ipfs.resolve stored proof ((Ipfs.segments path).take n) = .ok key)
    (inside : n ≤ (Ipfs.segments path).length) : key ∈ proof :: points := by
  cases n with
  | zero =>
    rw [List.take_zero, Ipfs.resolve, if_pos rfl] at resolved
    obtain rfl := Except.ok.inj resolved
    exact List.mem_cons_self
  | succ n =>
    obtain ⟨point, member, found⟩ := resolveSubPaths_ok (onRecords store stored) pinned inside
    have clean : ∀ name ∈ (Ipfs.segments path).take (n + 1), Ipfs.segments name = [name] :=
      fun name member => segments_of_mem (List.mem_of_mem_take member)
    rw [onRecords_resolve, segments_extended "" clean, show Ipfs.segments "" = [] from rfl, List.nil_append] at found
    obtain rfl := Except.ok.inj (resolved.symm.trans found)
    exact List.mem_cons_of_mem _ member

/-- What is pinned for one commit. -/
structure Pinned (store : PinStore) (commit : JsValue) (own : List Cid) : Prop where
  anchor : isAnchorCommit commit = true → ∃ proof points, linkOf commit "proof" = .ok proof ∧
    (∀ path, commit.prop "path" = .ok path →
      store.resolveSubPaths proof "" (Ipfs.segments (store.pathOf path)) = .ok points) ∧
    ∀ point ∈ proof :: points, point ∈ own
  signed : isSignedCommit commit = true → ∃ capCID link, store.getCacaoCidFromCommit commit = .ok capCID ∧
    linkOf commit "link" = .ok link ∧ link ∈ own ∧ ∀ cap ∈ capCID, cap ∈ own

theorem pinned_of_ok {cid : Cid} {own : List Cid} (found : store.getComponentCIDsOfCommit cid true = .ok own) :
    ∃ commit, store.retrieve cid = .ok commit ∧ cid ∈ own ∧ Pinned store commit own := by
  obtain ⟨commit, retrieved, rest⟩ := bind_eq_ok.mp found
  obtain ⟨anchored, anchor, rest⟩ := bind_eq_ok.mp rest
  obtain ⟨signedBy, signed, same⟩ := bind_eq_ok.mp rest
  obtain rfl := Except.ok.inj same
  refine ⟨commit, retrieved, List.mem_cons_self, fun isAnchor => ?_, fun isSigned => ?_⟩
  · unfold anchorPoints at anchor
    rw [isAnchor] at anchor
    obtain ⟨proof, isProof, rest⟩ := bind_eq_ok.mp anchor
    obtain ⟨path, isPath, rest⟩ := bind_eq_ok.mp rest
    obtain ⟨points, resolved, same⟩ := bind_eq_ok.mp rest
    obtain rfl := Except.ok.inj same
    refine ⟨proof, points, isProof, fun other isOther => ?_, fun point member => ?_⟩
    · obtain rfl := Except.ok.inj (isPath.symm.trans isOther)
      exact resolved
    · exact List.mem_cons_of_mem _ (List.mem_append_left _ member)
  · unfold signedPoints at signed
    rw [if_pos isSigned] at signed
    obtain ⟨capCID, isCap, rest⟩ := bind_eq_ok.mp signed
    obtain ⟨link, isLink, same⟩ := bind_eq_ok.mp rest
    obtain rfl := Except.ok.inj same
    refine ⟨capCID, link, isCap, isLink, ?_, fun cap member => ?_⟩
    · simp
    · simp [Option.mem_def.mp member]

/-- The points of a log are those of its commits. -/
theorem component_of_mem {log points : List Cid} (found : store.getComponentCIDsOfCommits log true = .ok points)
    {cid : Cid} (member : cid ∈ log) :
    ∃ own, store.getComponentCIDsOfCommit cid true = .ok own ∧ ∀ point ∈ own, point ∈ points := by
  obtain ⟨parts, mapped, rfl⟩ := map_eq_ok.mp found
  obtain ⟨own, inParts, isOwn⟩ := exists_of_forall₂ (mapM_ok mapped) member
  exact ⟨own, isOwn, fun point inOwn => List.mem_flatten.mpr ⟨own, inParts, inOwn⟩⟩

theorem over_retrieve {cid : Cid} {commit record : JsValue} (truthy : record.truthy = true)
    (loaded : Ipfs.load stored cid = .ok record) (retrieved : (onRecords store stored).retrieve cid = .ok commit) :
    commit = record := by
  obtain ⟨found, isFound, same⟩ := map_eq_ok.mp retrieved
  obtain rfl := Except.ok.inj (loaded.symm.trans isFound)
  rw [if_pos truthy] at same
  exact same.symm

theorem mem_reads_extractCapability {commit : JsValue} (member : key ∈ (extractCapability store commit).reads
    (Ipfs.load stored)) : store.getCacaoCidFromCommit commit = .ok (some key) := by
  rcases (Fetch.mem_reads_bind _).mp member with none | ⟨signatures, -, behind⟩
  · cases none
  · split at behind
    · cases behind
    · split at behind
      · cases behind
      · rcases (Fetch.mem_reads_bind _).mp behind with none | ⟨capCID, isCap, behind⟩
        · cases none
        · cases capCID with
          | none => cases behind
          | some cap =>
            rcases (Fetch.mem_reads_bind _).mp behind with here | ⟨cacao, -, none⟩
            · rw [Fetch.reads_attempt] at here
              obtain rfl := List.mem_singleton.mp here
              exact isCap
            · cases cacao <;> cases none

variable {store} {cid : Cid} {own : List Cid}

theorem mem_reads_getCommitData (found : (onRecords store stored).getComponentCIDsOfCommit cid true = .ok own)
    (member : key ∈ (getCommitData store cid).reads (Ipfs.load stored)) : key ∈ own := by
  obtain ⟨commit, retrieved, inOwn, pinned⟩ := pinned_of_ok _ found
  rcases (Fetch.mem_reads_bind _).mp member with here | ⟨record, loaded, behind⟩
  · obtain rfl := List.mem_singleton.mp here
    exact inOwn
  split at behind
  · cases behind
  next truthy =>
  obtain rfl := over_retrieve store (by simpa using truthy) loaded retrieved
  split at behind
  next isSigned =>
    obtain ⟨capCID, link, isCap, isLink, linkInOwn, capInOwn⟩ := pinned.signed isSigned
    rcases (Fetch.mem_reads_bind _).mp behind with none | ⟨found, isFound, behind⟩
    · cases none
    obtain rfl := Except.ok.inj (isLink.symm.trans isFound)
    rcases (Fetch.mem_reads_bind _).mp behind with here | ⟨linkedCommit, -, behind⟩
    · obtain rfl := List.mem_singleton.mp here
      exact linkInOwn
    split at behind
    · cases behind
    rcases (Fetch.mem_reads_bind _).mp behind with capability | ⟨_, -, behind⟩
    · obtain rfl := Except.ok.inj (isCap.symm.trans (mem_reads_extractCapability store capability))
      exact capInOwn _ rfl
    · rcases (Fetch.mem_reads_bind _).mp behind with none | ⟨_, -, none⟩ <;> cases none
  next =>
    split at behind
    next isAnchor =>
      obtain ⟨proof, points, isProof, -, inOwn⟩ := pinned.anchor isAnchor
      rcases (Fetch.mem_reads_bind _).mp behind with none | ⟨found, isFound, behind⟩
      · cases none
      obtain rfl := Except.ok.inj (isProof.symm.trans isFound)
      rcases (Fetch.mem_reads_bind _).mp behind with here | ⟨_, -, behind⟩
      · obtain rfl := List.mem_singleton.mp here
        exact inOwn _ List.mem_cons_self
      · rcases (Fetch.mem_reads_bind _).mp behind with none | ⟨_, -, none⟩ <;> cases none
    next => rcases (Fetch.mem_reads_bind _).mp behind with none | ⟨_, -, none⟩ <;> cases none

theorem initType_ne_time {type : EventType} {commit : JsValue} (data : initType .DATA commit = .ok type) :
    type ≠ .TIME := by
  obtain ⟨prev, -, same⟩ := bind_eq_ok.mp data
  obtain rfl := Except.ok.inj same
  split <;> decide

/-- Only an anchor commit is verified as one. -/
theorem anchor_of_time {c : LoadedCommit} (ran : (getCommitData store cid).run (Ipfs.load stored) = .ok c)
    (time : c.type = .TIME) :
    Ipfs.load stored cid = .ok c.commit ∧ c.commit.truthy = true ∧ isAnchorCommit c.commit = true := by
  unfold getCommitData at ran
  rw [Fetch.run_bind] at ran
  obtain ⟨record, loaded, rest⟩ := bind_eq_ok.mp ran
  rw [Fetch.run_get] at loaded
  split at rest
  · cases rest
  next truthy =>
  split at rest
  · rw [Fetch.run_bind] at rest
    obtain ⟨link, -, rest⟩ := bind_eq_ok.mp rest
    rw [Fetch.run_bind] at rest
    obtain ⟨linkedCommit, -, rest⟩ := bind_eq_ok.mp rest
    split at rest
    · cases rest
    rw [Fetch.run_bind] at rest
    obtain ⟨capability, -, rest⟩ := bind_eq_ok.mp rest
    rw [Fetch.run_bind] at rest
    obtain ⟨type, isType, same⟩ := bind_eq_ok.mp rest
    obtain rfl := Except.ok.inj same
    exact absurd time (initType_ne_time isType)
  · split at rest
    next isAnchor =>
      rw [Fetch.run_bind] at rest
      obtain ⟨proofCid, -, rest⟩ := bind_eq_ok.mp rest
      rw [Fetch.run_bind] at rest
      obtain ⟨proof, -, rest⟩ := bind_eq_ok.mp rest
      rw [Fetch.run_bind] at rest
      obtain ⟨type, -, same⟩ := bind_eq_ok.mp rest
      obtain rfl := Except.ok.inj same
      exact ⟨loaded, by simpa using truthy, isAnchor⟩
    next =>
      rw [Fetch.run_bind] at rest
      obtain ⟨type, isType, same⟩ := bind_eq_ok.mp rest
      obtain rfl := Except.ok.inj same
      exact absurd time (initType_ne_time isType)

/-- The names that are pinned go on after those that the check reads. -/
theorem take_pathOf (store : PinStore) {path : String} (nonempty : path ≠ "") {n : Nat}
    (inside : n ≤ (Ipfs.segments ("/root/" ++ (AnchorTimestampExtractor.splitPath path).1)).length) :
    (Ipfs.segments ("/root/" ++ (AnchorTimestampExtractor.splitPath path).1)).take n =
        (Ipfs.segments (store.pathOf (.str path))).take n ∧
      n ≤ (Ipfs.segments (store.pathOf (.str path))).length := by
  have read : Ipfs.segments ("/root/" ++ (AnchorTimestampExtractor.splitPath path).1) =
      ["root"] ++ Ipfs.segments (AnchorTimestampExtractor.splitPath path).1 := by
    rw [show "/root/" = "/root" ++ "/" by decide, segments_append, show Ipfs.segments "/root" = ["root"] by decide]
  have resolved : Ipfs.segments (store.pathOf (.str path)) =
      ["root"] ++ Ipfs.segments (AnchorTimestampExtractor.splitPath path).1 ++
        Ipfs.segments (AnchorTimestampExtractor.splitPath path).2 := by
    unfold pathOf
    rw [if_pos (by simpa [JsValue.truthy] using nonempty), show "root/" = "root" ++ "/" by decide, segments_append,
      segments_splitPath path, show Ipfs.segments "root" = ["root"] by decide, List.append_assoc]
  rw [read] at inside
  rw [read, resolved]
  exact ⟨(List.take_append_of_le_length inside).symm, inside.trans (by simp)⟩

theorem mem_reads_verifyAnchorCommit {validateChainInclusion : JsValue → Except JsError Nat} {c : LoadedCommit}
    (found : (onRecords store stored).getComponentCIDsOfCommit cid true = .ok own)
    (loaded : Ipfs.load stored cid = .ok c.commit) (truthy : c.commit.truthy = true)
    (isAnchor : isAnchorCommit c.commit = true)
    (member : key ∈ (verifyAnchorCommit store validateChainInclusion c).reads (Ipfs.load stored)) : key ∈ own := by
  obtain ⟨commit, retrieved, -, pinned⟩ := pinned_of_ok _ found
  obtain rfl := over_retrieve store truthy loaded retrieved
  obtain ⟨proof, points, isProof, resolved, inOwn⟩ := pinned.anchor isAnchor
  have read : key ∈ (prevCIDViaMerkleTree c).reads (Ipfs.load stored) := by
    rcases (Fetch.mem_reads_bind _).mp member with tree | ⟨outcome, -, none⟩
    · rwa [Fetch.reads_attempt] at tree
    · cases outcome <;> cases none
  rcases (Fetch.mem_reads_bind _).mp read with none | ⟨path, isPath, behind⟩
  · cases none
  split at behind
  next path =>
    split at behind
    · cases behind
    next nonempty =>
      rcases (Fetch.mem_reads_bind _).mp behind with none | ⟨proofCid, isLink, behind⟩
      · cases none
      obtain rfl := Except.ok.inj (isProof.symm.trans isLink)
      rcases (Fetch.mem_reads_bind _).mp behind with tree | ⟨_, -, none⟩
      · change key ∈ (retrieve proof ("/root/" ++ (AnchorTimestampExtractor.splitPath path).1)).reads _ at tree
        obtain ⟨n, inside, leads⟩ := mem_reads_retrieve tree
        obtain ⟨same, inside⟩ := take_pathOf store nonempty inside
        rw [same] at leads
        exact inOwn _ (pinned_of_resolve store (resolved _ isPath) leads inside)
      · cases none
  next => cases behind

/-- Whatever a replay of the log reads is pinned for the log. -/
theorem mem_points_of_replay {validateChainInclusion : JsValue → Except JsError Nat} {log points : List Cid}
    (found : (onRecords store stored).getComponentCIDsOfCommits log true = .ok points)
    (member : key ∈ (replay store validateChainInclusion log).reads (Ipfs.load stored)) : key ∈ points := by
  rcases (Fetch.mem_reads_bind _).mp member with fetched | ⟨commits, loaded, behind⟩
  · obtain ⟨cid, inLog, read⟩ := Fetch.exists_of_mem_reads_each fetched
    obtain ⟨own, isOwn, inPoints⟩ := component_of_mem _ found inLog
    exact inPoints _ (mem_reads_getCommitData isOwn read)
  · obtain ⟨c, isCommit, read⟩ := Fetch.exists_of_mem_reads_each behind
    obtain ⟨cid, inLog, ran⟩ := exists_of_forall₂ (Fetch.run_each loaded).flip isCommit
    obtain ⟨own, isOwn, inPoints⟩ := component_of_mem _ found inLog
    split at read
    next time =>
      obtain ⟨isRecord, truthy, isAnchor⟩ := anchor_of_time ran time
      rcases (Fetch.mem_reads_bind _).mp read with verified | ⟨_, -, none⟩
      · rw [Fetch.reads_attempt] at verified
        exact inPoints _ (mem_reads_verifyAnchorCommit isOwn isRecord truthy isAnchor verified)
      · cases none
    · cases read

/-- From block to block, each name is that of a link. -/
inductive LinkPath (stored : IpfsRecords) : Cid → List String → Prop where
  | nil (cid : Cid) : LinkPath stored cid []
  | cons {cid next : Cid} {record : JsValue} {name : String} {names : List String}
      (loaded : Ipfs.load stored cid = .ok record) (isLink : Ipfs.ownProperty record name = some (.cid next))
      (rest : LinkPath stored next names) : LinkPath stored cid (name :: names)

/-- The kinds of commits: an anchor commit has a path through its Merkle tree. -/
inductive CommitShape (store : PinStore) (stored : IpfsRecords) (commit : JsValue) : Prop where
  | unsigned (noLink : isSignedCommit commit = false) (noProof : isAnchorCommit commit = false)
  | signed (noProof : isAnchorCommit commit = false) (link : Cid) (isLink : commit.prop "link" = .ok (.cid link))
      (capability : Option Cid) (isCapability : store.getCacaoCidFromCommit commit = .ok capability)
  | anchor (noLink : isSignedCommit commit = false) (proof : Cid) (isProof : commit.prop "proof" = .ok (.cid proof))
      (path : String) (isPath : commit.prop "path" = .ok (.str path))
      (tree : LinkPath stored proof ("root" :: Ipfs.segments path))

theorem LinkPath.resolve {names : List String} (path : LinkPath stored cid names) (n : Nat) :
    ∃ point, Ipfs.resolve stored cid (names.take n) = .ok point := by
  induction path generalizing n with
  | nil cid => exact ⟨cid, by rw [List.take_nil, Ipfs.resolve, if_pos rfl]⟩
  | @cons cid next record name names loaded isLink rest ih =>
    cases n with
    | zero => exact ⟨cid, by rw [List.take_zero, Ipfs.resolve, if_pos rfl]⟩
    | succ n =>
      obtain ⟨point, found⟩ := ih n
      exact ⟨point, by rw [List.take_succ_cons, Ipfs.resolve_link loaded isLink, found]⟩

theorem resolveSubPaths_of_resolve {proof : Cid} {currentPath : String} {subPaths : List String}
    (resolves : ∀ n, ∃ point, store.resolve proof (extended currentPath (subPaths.take (n + 1))) = .ok point) :
    ∃ points, store.resolveSubPaths proof currentPath subPaths = .ok points := by
  induction subPaths generalizing currentPath with
  | nil => exact ⟨[], rfl⟩
  | cons subPath subPaths ih =>
    obtain ⟨point, first⟩ := resolves 0
    obtain ⟨points, behind⟩ := ih fun n => resolves (n + 1)
    exact ⟨point :: points, bind_eq_ok.mpr ⟨point, first, bind_eq_ok.mpr ⟨points, behind, rfl⟩⟩⟩

theorem segments_pathOf (store : PinStore) (path : String) :
    Ipfs.segments (store.pathOf (.str path)) = "root" :: Ipfs.segments path := by
  have root : Ipfs.segments "root" = ["root"] := by decide
  unfold pathOf
  by_cases empty : path = ""
  · subst empty
    rw [if_neg (by decide), root]
    rfl
  · rw [if_pos (by simpa [JsValue.truthy] using empty), show "root/" = "root" ++ "/" by decide, segments_append, root]
    rfl

theorem linkOf_of_prop {commit : JsValue} {name : String} {link : Cid} (isLink : commit.prop name = .ok (.cid link)) :
    linkOf commit name = .ok link := bind_eq_ok.mpr ⟨_, isLink, rfl⟩

/-- A commit of one of these kinds can be pinned. -/
theorem component_of_shape {commit : JsValue} (loaded : Ipfs.load stored cid = .ok commit)
    (shape : CommitShape store stored commit) :
    ∃ own, (onRecords store stored).getComponentCIDsOfCommit cid true = .ok own := by
  have retrieved : (onRecords store stored).retrieve cid = .ok (if commit.truthy then commit else .undefined) :=
    map_eq_ok.mpr ⟨commit, loaded, rfl⟩
  have nothing (key : String) : has .undefined key = false := rfl
  suffices parts : ∃ anchored signed,
      (onRecords store stored).anchorPoints (if commit.truthy then commit else .undefined) true = .ok anchored ∧
      (onRecords store stored).signedPoints (if commit.truthy then commit else .undefined) true = .ok signed by
    obtain ⟨anchored, signed, isAnchored, isSigned⟩ := parts
    exact ⟨_, bind_eq_ok.mpr ⟨_, retrieved, bind_eq_ok.mpr ⟨_, isAnchored, bind_eq_ok.mpr ⟨_, isSigned, rfl⟩⟩⟩⟩
  by_cases truthy : commit.truthy
  · rw [if_pos truthy]
    cases shape with
    | unsigned noLink noProof =>
      refine ⟨[], [], ?_, ?_⟩
      · rw [anchorPoints, noProof]
        rfl
      · rw [signedPoints, noLink]
        rfl
    | signed noProof link isLink capability isCapability =>
      have isSigned : isSignedCommit commit = true := by
        rw [isSignedCommit, has, truthy, isLink]
        rfl
      refine ⟨[], capability.toList ++ [link], ?_, ?_⟩
      · rw [anchorPoints, noProof]
        rfl
      · rw [signedPoints, if_pos isSigned]
        exact bind_eq_ok.mpr ⟨capability, isCapability, bind_eq_ok.mpr ⟨link, linkOf_of_prop isLink, rfl⟩⟩
    | anchor noLink proof isProof path isPath tree =>
      have isAnchor : isAnchorCommit commit = true := by
        rw [isAnchorCommit, has, truthy, isProof]
        rfl
      have resolves (n : Nat) : ∃ point, (onRecords store stored).resolve proof
          (extended "" (("root" :: Ipfs.segments path).take (n + 1))) = .ok point := by
        have clean : ∀ name ∈ ("root" :: Ipfs.segments path).take (n + 1), Ipfs.segments name = [name] := by
          rw [← segments_pathOf store path]
          exact fun name member => segments_of_mem (List.mem_of_mem_take member)
        rw [onRecords_resolve, segments_extended "" clean, show Ipfs.segments "" = [] from rfl, List.nil_append]
        exact tree.resolve (n + 1)
      obtain ⟨points, resolved⟩ := resolveSubPaths_of_resolve resolves
      rw [← segments_pathOf (onRecords store stored) path] at resolved
      refine ⟨proof :: points, [], ?_, ?_⟩
      · rw [anchorPoints, isAnchor]
        exact bind_eq_ok.mpr ⟨proof, linkOf_of_prop isProof, bind_eq_ok.mpr ⟨_, isPath,
          bind_eq_ok.mpr ⟨points, resolved, rfl⟩⟩⟩
      · rw [signedPoints, noLink]
        rfl
  · rw [if_neg truthy]
    exact ⟨[], [], rfl, rfl⟩

/-- Whatever is read when a log is fetched and its anchors are verified is among the CIDs that are pinned for
the log, so that a store which keeps these is enough to replay it; and a log can be pinned if each of its
commits is unsigned, signed with or without a capability, or an anchor commit with a path through its tree. -/
theorem pins_cover_replay (store : PinStore) (stored : IpfsRecords) (validateChainInclusion : JsValue → Except JsError Nat)
    (log : List Cid) :
    (∀ points, (onRecords store stored).getComponentCIDsOfCommits log true = .ok points →
      (∀ key ∈ (replay store validateChainInclusion log).reads (Ipfs.load stored), key ∈ points) ∧
      ∀ kept : IpfsRecords, (∀ key ∈ points, Ipfs.load kept key = Ipfs.load stored key) →
        (replay store validateChainInclusion log).run (Ipfs.load kept) =
          (replay store validateChainInclusion log).run (Ipfs.load stored)) ∧
    ((∀ cid ∈ log, ∃ commit, Ipfs.load stored cid = .ok commit ∧ CommitShape store stored commit) →
      ∃ points, (onRecords store stored).getComponentCIDsOfCommits log true = .ok points) := by
  constructor
  · intro points found
    have covered : ∀ key ∈ (replay store validateChainInclusion log).reads (Ipfs.load stored), key ∈ points :=
      fun key member => mem_points_of_replay found member
    exact ⟨covered, fun kept same => Fetch.run_congr fun key member => same key (covered key member)⟩
  · intro shapes
    obtain ⟨parts, mapped⟩ := @mapM_exists _ _ (fun cid => (onRecords store stored).getComponentCIDsOfCommit cid true) log
      fun cid member => by
        obtain ⟨commit, loaded, shape⟩ := shapes cid member
        exact component_of_shape loaded shape
    exact ⟨parts.flatten, map_eq_ok.mpr ⟨parts, mapped, rfl⟩⟩

/-- A signed genesis with a capability, and its anchor below the root of a tree. -/
def anchoredRecords : IpfsRecords :=
  [(⟨[1]⟩, .obj [("link", .cid ⟨[2]⟩), ("signatures", .arr [.obj [("protected", .str "cap")]])]),
    (⟨[2]⟩, .obj [("data", .obj [])]),
    (⟨[3]⟩, .obj [("resources", .arr [])]),
    (⟨[4]⟩, .obj [("prev", .cid ⟨[1]⟩), ("proof", .cid ⟨[5]⟩), ("path", .str "0")]),
    (⟨[5]⟩, .obj [("root", .cid ⟨[6]⟩)]),
    (⟨[6]⟩, .arr [.cid ⟨[1]⟩, .null])]

def capabilityStore : PinStore where
  retrieve := fun _ => .error ⟨"not supported"⟩
  resolve := fun _ _ => .error ⟨"not supported"⟩
  pin := fun _ => .ok ()
  base64urlToJSON := fun header => .ok (.obj [(header, .str "ipfs://c")])
  parse := fun text => if text = "c" then .ok ⟨[3]⟩ else .error ⟨"not supported"⟩
  stringOf := fun _ => ""

theorem pins_cover_replay_anchored :
    ∃ points, (onRecords capabilityStore anchoredRecords).getComponentCIDsOfCommits [⟨[1]⟩, ⟨[4]⟩] true = .ok points ∧
      ∀ key ∈ (replay capabilityStore (fun _ => .ok 1) [⟨[1]⟩, ⟨[4]⟩]).reads (Ipfs.load anchoredRecords),
        key ∈ points := by
  have covers := pins_cover_replay capabilityStore anchoredRecords (fun _ => .ok 1) [⟨[1]⟩, ⟨[4]⟩]
  obtain ⟨points, found⟩ := covers.2 fun cid member => by
    rcases List.mem_cons.mp member with rfl | member
    · exact ⟨_, rfl, .signed (by decide) ⟨[2]⟩ rfl (some ⟨[3]⟩) (by decide)⟩
    · obtain rfl := List.mem_singleton.mp member
      refine ⟨_, rfl, .anchor (by decide) ⟨[5]⟩ rfl "0" rfl ?_⟩
      rw [show Ipfs.segments "0" = ["0"] by decide]
      exact .cons rfl rfl (.cons rfl rfl (.nil ⟨[1]⟩))
  exact ⟨points, found, (covers.1 points found).1⟩

end Replay

end Ceramic
