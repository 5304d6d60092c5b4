import Ceramic.MerkleTreeLoader
import Mathlib.Algebra.Order.BigOperators.Group.List

/-! What the worker rebuilds, however its tasks interleave: one anchor commit for each stream of the tree that can be
loaded and has one of the models, unless the proof has no type and is not stored. -/
namespace Ceramic

namespace RebuildAnchorWorker

open MerkleTreeLoader

/-- The stream can be loaded, and its genesis names one of the models. -/
def Wanted (records : IpfsRecords) (models : List String) (streamId model : StreamID) : Prop :=
  getModelForStream records streamId = .ok (some model) ∧ ∃ text, model.toText = .ok text ∧ text ∈ models

/-- A record that is no genesis and no signed commit, as those are that the worker stores. -/
structure OwnRecord (record : JsValue) : Prop where
  link : (record.fieldOf "link").truthy = false
  header : record.fieldOf "header" = .undefined

theorem own_proof (proof : AnchorProof) : OwnRecord proof.value :=
  ⟨by simp [AnchorProof.value, AnchorProof.fields, JsValue.fieldOf, JsObject.get, JsObject.get?, JsValue.truthy],
    by simp [AnchorProof.value, AnchorProof.fields, JsValue.fieldOf, JsObject.get, JsObject.get?]⟩

theorem own_anchorCommit (id : Cid) (prev : JsValue) (proof : Cid) (path : List PathDirection) :
    OwnRecord (anchorCommit id prev proof path) :=
  ⟨by simp [anchorCommit, JsValue.fieldOf, JsObject.get, JsObject.get?, JsValue.truthy],
    by simp [anchorCommit, JsValue.fieldOf, JsObject.get, JsObject.get?]⟩

theorem OwnRecord.noModel {record : JsValue} (own : OwnRecord record) : modelOf record = .ok none := by
  rw [modelOf, own.header]
  rfl

theorem OwnRecord.genesis {record : JsValue} (own : OwnRecord record) (stored : IpfsRecords) :
    genesisOf stored record = .ok record := if_neg (by simp [own.link])

section

variable {put : JsValue → Except JsError Cid} {base records later : IpfsRecords}

/-- The records are the ones there were and those of the worker. -/
structure Extends (put : JsValue → Except JsError Cid) (base records : IpfsRecords) : Prop where
  addressed : Ipfs.Addressed put records
  stays : ∀ entry ∈ base, entry ∈ records
  own : ∀ entry ∈ records, entry ∈ base ∨ OwnRecord entry.2

theorem Extends.before (extended : Extends put base records) : Ipfs.Addressed put base :=
  fun entry member => extended.addressed entry (extended.stays entry member)

theorem Extends.store (extended : Extends put base records) {record : JsValue} (own : OwnRecord record) {cid : Cid}
    (given : put record = .ok cid) : Extends put base ((cid, record) :: records) where
  addressed := by
    intro entry member
    rcases List.mem_cons.mp member with rfl | old
    · exact given
    · exact extended.addressed entry old
  stays := fun entry member => List.mem_cons_of_mem _ (extended.stays entry member)
  own := by
    intro entry member
    rcases List.mem_cons.mp member with rfl | old
    · exact .inr own
    · exact extended.own entry old

/-- What is loaded was there, unless the worker has made it. -/
theorem Extends.load (injective : Ipfs.Injective put) (extended : Extends put base records) {cid : Cid}
    {record : JsValue} (loaded : Ipfs.load records cid = .ok record) :
    Ipfs.load base cid = .ok record ∨ OwnRecord record := by
  rcases extended.own _ (Ipfs.mem_of_load loaded) with there | own
  · exact .inl (Ipfs.load_of_mem injective extended.before there)
  · exact .inr own

/-- The worker's own records do not change which model a stream has. -/
theorem getModelForStream_iff (injective : Ipfs.Injective put) (extended : Extends put base records)
    {streamId model : StreamID} : getModelForStream records streamId = .ok (some model) ↔
      getModelForStream base streamId = .ok (some model) := by
  constructor
  · intro found
    obtain ⟨signedCommit, loaded, found⟩ := bind_eq_ok.mp found
    obtain ⟨genesisCommit, isGenesis, isModel⟩ := bind_eq_ok.mp found
    rcases extended.load injective loaded with there | own
    · refine bind_eq_ok.mpr ⟨signedCommit, there, bind_eq_ok.mpr ⟨genesisCommit, ?_, isModel⟩⟩
      unfold genesisOf at isGenesis ⊢
      split at isGenesis
      next linked =>
        rw [if_pos linked]
        obtain ⟨link, isLink, payload⟩ := bind_eq_ok.mp isGenesis
        rcases extended.load injective payload with there | own
        · exact bind_eq_ok.mpr ⟨link, isLink, there⟩
        · rw [own.noModel] at isModel
          cases isModel
      next unlinked =>
        rw [if_neg unlinked]
        exact isGenesis
    · rw [own.genesis] at isGenesis
      obtain rfl := Except.ok.inj isGenesis
      rw [own.noModel] at isModel
      cases isModel
  · intro found
    obtain ⟨signedCommit, loaded, found⟩ := bind_eq_ok.mp found
    obtain ⟨genesisCommit, isGenesis, isModel⟩ := bind_eq_ok.mp found
    refine bind_eq_ok.mpr ⟨signedCommit, Ipfs.load_later injective extended.addressed extended.stays loaded,
      bind_eq_ok.mpr ⟨genesisCommit, ?_, isModel⟩⟩
    unfold genesisOf at isGenesis ⊢
    split at isGenesis
    next linked =>
      rw [if_pos linked]
      obtain ⟨link, isLink, payload⟩ := bind_eq_ok.mp isGenesis
      exact bind_eq_ok.mpr ⟨link, isLink, Ipfs.load_later injective extended.addressed extended.stays payload⟩
    next unlinked =>
      rw [if_neg unlinked]
      exact isGenesis

theorem shouldIndex_iff {models : List String} {model : StreamID} :
    shouldIndex models (some model) = .ok true ↔ ∃ text, model.toText = .ok text ∧ text ∈ models := by
  unfold shouldIndex
  dsimp only
  by_cases none : models = []
  · simp [none]
  · rw [if_neg none]
    constructor
    · intro indexes
      obtain ⟨text, isText, returned⟩ := bind_eq_ok.mp indexes
      exact ⟨text, isText, by simpa using Except.ok.inj returned⟩
    · rintro ⟨text, isText, member⟩
      exact bind_eq_ok.mpr ⟨text, isText, congrArg Except.ok (by simpa using member)⟩

/-- A stream goes on to its leaf exactly if it is wanted. -/
theorem indexedStage_cases {models : List String} {streamId : StreamID} {model : Option StreamID} {stage : Stage}
    (reached : indexedStage models streamId model = .ok stage) :
    (∃ wanted, model = some wanted ∧ stage = .indexed streamId wanted ∧
      ∃ text, wanted.toText = .ok text ∧ text ∈ models) ∨
    (stage = .settled ∧
      ∀ wanted, model = some wanted → ¬∃ text, wanted.toText = .ok text ∧ text ∈ models) := by
  obtain ⟨index, indexes, returned⟩ := bind_eq_ok.mp reached
  obtain rfl := Except.ok.inj returned
  cases model with
  | none => exact .inr ⟨rfl, nofun⟩
  | some model =>
    cases index with
    | true => exact .inl ⟨model, rfl, rfl, shouldIndex_iff.mp indexes⟩
    | false =>
      refine .inr ⟨rfl, ?_⟩
      rintro wanted same named
      obtain rfl := Option.some.inj same
      cases indexes.symm.trans (shouldIndex_iff.mpr named)

/-- What a job that was started has to work with. -/
structure Ready (put : JsValue → Except JsError Cid) (base : IpfsRecords) (proof : AnchorProof)
    (metadata : TreeMetadata) (candidates : List ICandidate) (tree : RebuiltTree) (stored : IpfsRecords) : Prop where
  injective : Ipfs.Injective put
  served : ServesTree put base tree.root metadata candidates
  isMetadata : tree.metadata = metadata.record
  isStreams : tree.streamIds = metadata.streamIds.map .str
  names : ∀ (i : Nat) (candidate : ICandidate), candidates[i]? = some candidate →
    ∃ text, metadata.streamIds[i]? = some text ∧ readStreamID text = .ok candidate.streamId
  storable : ∀ (i : Nat) (candidate : ICandidate) path, candidates[i]? = some candidate →
    MerkleTree.pathByIndex i candidates.length = .ok path →
    ∃ cid, put (anchorCommit candidate.streamId.cid (.cid candidate.cid) tree.proof path) = .ok cid
  extended : Extends put base stored
  proves : (tree.proof, proof.value) ∈ stored

section

variable (base : IpfsRecords) (models : List String) (candidates : List ICandidate) (proofCid : Cid)

/-- The anchor commit that is made for a wanted stream. -/
def Located (i : Nat) (streamId model : StreamID) (event : JsValue) : Prop :=
  ∃ candidate path, candidates[i]? = some candidate ∧ candidate.streamId = streamId ∧
    Wanted base models streamId model ∧ MerkleTree.pathByIndex i candidates.length = .ok path ∧
    event = anchorCommit streamId.cid (.cid candidate.cid) proofCid path

/-- The stream of a task is that of the leaf at its position, where there is one. -/
def NamesLeaf (i : Nat) (streamId : StreamID) : Prop :=
  ∀ candidate, candidates[i]? = some candidate → candidate.streamId = streamId

/-- What is known of a task at each of its awaits. -/
def StageHolds (i : Nat) (records : IpfsRecords) : Stage → Prop
  | .waiting | .settled => True
  | .retrieved streamId signedCommit =>
    NamesLeaf candidates i streamId ∧ Ipfs.load records streamId.cid = .ok signedCommit
  | .indexed streamId model => NamesLeaf candidates i streamId ∧ Wanted base models streamId model
  | .located streamId model event => Located base models candidates proofCid i streamId model event
  | .stored streamId model cid =>
    ∃ event, Located base models candidates proofCid i streamId model event ∧ (cid, event) ∈ records

/-- There is nothing to handle for the leaf at a position. -/
def Passed (i : Nat) : Prop :=
  ∀ candidate, candidates[i]? = some candidate → ∀ model, ¬Wanted base models candidate.streamId model

end

variable {proof : AnchorProof} {metadata : TreeMetadata} {candidates : List ICandidate} {tree : RebuiltTree}
  {stored : IpfsRecords} {job : RebuildAnchorJobData} {i : Nat} {stream : JsValue}

theorem StageHolds.mono {models : List String} {proofCid : Cid} (injective : Ipfs.Injective put)
    (addressed : Ipfs.Addressed put later) (stays : ∀ entry ∈ records, entry ∈ later) {stage : Stage}
    (holds : StageHolds base models candidates proofCid i records stage) :
    StageHolds base models candidates proofCid i later stage := by
  cases stage with
  | retrieved streamId signedCommit => exact ⟨holds.1, Ipfs.load_later injective addressed stays holds.2⟩
  | stored streamId model cid =>
    obtain ⟨event, located, member⟩ := holds
    exact ⟨event, located, stays _ member⟩
  | _ => exact holds

/-- What going on once comes to: at most a record of the worker is new, the next stage is as it should be, and a task
is only over without a call where there is nothing to handle. -/
structure Advanced (put : JsValue → Except JsError Cid) (base : IpfsRecords) (models : List String)
    (candidates : List ICandidate) (proofCid : Cid) (i : Nat) (records : IpfsRecords) (stage : Stage)
    (result : Except JsError (Stage × IpfsRecords)) : Prop where
  ok : ∀ next after, result = .ok (next, after) → Extends put base after ∧ (∀ entry ∈ records, entry ∈ after) ∧
    StageHolds base models candidates proofCid i after next ∧
    (next = .settled → handled i stage = [] → Passed base models candidates i)
  error : ∀ e, result = .error e → handled i stage = [] ∧ Passed base models candidates i

variable (ready : Ready put base proof metadata candidates tree stored)
include ready

/-- The text at the position of a leaf is read as the identifier of its stream. -/
theorem streamIdOf_leaf (isStream : tree.streamIds[i]? = some stream) {candidate : ICandidate}
    (isCandidate : candidates[i]? = some candidate) : streamIdOf stream = .ok candidate.streamId := by
  obtain ⟨text, isText, read⟩ := ready.names i candidate isCandidate
  obtain rfl : stream = .str text := by
    rw [ready.isStreams, List.getElem?_map, isText] at isStream
    exact (Option.some.inj isStream).symm
  exact read

variable (extended : Extends put base records)
include extended

/-- A stream that is not loaded is not wanted. -/
theorem passed_of_load (isStream : tree.streamIds[i]? = some stream)
    (failed : ∀ streamId, streamIdOf stream = .ok streamId → ∀ c, Ipfs.load records streamId.cid ≠ .ok c) :
    Passed base job.models candidates i := by
  intro candidate isCandidate model wanted
  have read := streamIdOf_leaf ready isStream isCandidate
  obtain ⟨signedCommit, loaded, _⟩ := bind_eq_ok.mp wanted.1
  exact failed _ read _ (Ipfs.load_later ready.injective extended.addressed extended.stays loaded)

theorem advance_waiting (isStream : tree.streamIds[i]? = some stream) :
    Advanced put base job.models candidates tree.proof i records .waiting
      (advance put job tree i stream records .waiting) where
  ok := by
    intro next after advanced
    obtain ⟨streamId, isId, advanced⟩ := bind_eq_ok.mp advanced
    obtain ⟨signedCommit, loaded, returned⟩ := bind_eq_ok.mp advanced
    obtain ⟨rfl, rfl⟩ := Prod.mk.inj (Except.ok.inj returned)
    have names : NamesLeaf candidates i streamId := fun candidate isCandidate =>
      Except.ok.inj ((streamIdOf_leaf ready isStream isCandidate).symm.trans isId)
    exact ⟨extended, fun _ member => member, ⟨names, loaded⟩, nofun⟩
  error := by
    intro e failed
    refine ⟨rfl, passed_of_load ready extended isStream fun streamId isId c loaded => ?_⟩
    have advanced : advance put job tree i stream records .waiting = .ok (.retrieved streamId c, records) :=
      bind_eq_ok.mpr ⟨streamId, isId, bind_eq_ok.mpr ⟨c, loaded, rfl⟩⟩
    cases advanced.symm.trans failed

/-- A model that is found is that of the stream, also among the worker's own records. -/
theorem passed_of_model {streamId : StreamID} (names : NamesLeaf candidates i streamId)
    (other : ∀ model, getModelForStream records streamId = .ok (some model) →
      ¬∃ text, model.toText = .ok text ∧ text ∈ job.models) : Passed base job.models candidates i := by
  intro candidate isCandidate model wanted
  obtain rfl := names candidate isCandidate
  exact other model ((getModelForStream_iff ready.injective extended).mpr wanted.1) wanted.2

theorem advance_retrieved {streamId : StreamID} {signedCommit : JsValue}
    (holds : StageHolds base job.models candidates tree.proof i records (.retrieved streamId signedCommit)) :
    Advanced put base job.models candidates tree.proof i records (.retrieved streamId signedCommit)
      (advance put job tree i stream records (.retrieved streamId signedCommit)) := by
  obtain ⟨names, loaded⟩ := holds
  have found {genesisCommit : JsValue} (isGenesis : genesisOf records signedCommit = .ok genesisCommit)
      (model : Option StreamID) :
      getModelForStream records streamId = .ok model ↔ modelOf genesisCommit = .ok model := by
    rw [getModelForStream, loaded]
    simp only [bind, Except.bind]
    rw [isGenesis]
  constructor
  case ok =>
    intro next after advanced
    obtain ⟨genesisCommit, isGenesis, advanced⟩ := bind_eq_ok.mp advanced
    obtain ⟨model, isModel, advanced⟩ := bind_eq_ok.mp advanced
    obtain ⟨stage, reached, returned⟩ := bind_eq_ok.mp advanced
    obtain ⟨rfl, rfl⟩ := Prod.mk.inj (Except.ok.inj returned)
    have sameModel := (found isGenesis model).mpr isModel
    rcases indexedStage_cases reached with ⟨wanted, rfl, rfl, named⟩ | ⟨rfl, other⟩
    · have isWanted := (getModelForStream_iff ready.injective extended).mp sameModel
      exact ⟨extended, fun _ member => member, ⟨names, isWanted, named⟩, nofun⟩
    · refine ⟨extended, fun _ member => member, trivial, fun _ _ => passed_of_model ready extended names ?_⟩
      intro wanted isWanted
      exact other wanted (Except.ok.inj (sameModel.symm.trans isWanted))
  case error =>
    intro e failed
    refine ⟨rfl, passed_of_model ready extended names fun model isModel named => ?_⟩
    obtain ⟨c, loadedAgain, isModel⟩ := bind_eq_ok.mp isModel
    obtain rfl := Except.ok.inj (loaded.symm.trans loadedAgain)
    obtain ⟨genesisCommit, isGenesis, isModel⟩ := bind_eq_ok.mp isModel
    have reached : indexedStage job.models streamId (some model) = .ok (.indexed streamId model) :=
      bind_eq_ok.mpr ⟨true, shouldIndex_iff.mpr named, rfl⟩
    have advanced : advance put job tree i stream records (.retrieved streamId signedCommit) =
        .ok (.indexed streamId model, records) :=
      bind_eq_ok.mpr ⟨genesisCommit, isGenesis, bind_eq_ok.mpr ⟨some model, isModel,
        bind_eq_ok.mpr ⟨_, reached, rfl⟩⟩⟩
    cases advanced.symm.trans failed

theorem advance_indexed {streamId model : StreamID}
    (holds : StageHolds base job.models candidates tree.proof i records (.indexed streamId model)) :
    Advanced put base job.models candidates tree.proof i records (.indexed streamId model)
      (advance put job tree i stream records (.indexed streamId model)) := by
  obtain ⟨names, wanted⟩ := holds
  cases isCandidate : candidates[i]? with
  | none =>
    obtain ⟨e, refused⟩ := ready.served.others i (List.getElem?_eq_none_iff.mp isCandidate) records
    have failed : advance put job tree i stream records (.indexed streamId model) = .error e := by
      rw [advance, ready.isMetadata, refused]
      rfl
    have passed : Passed base job.models candidates i := by
      intro candidate there
      rw [isCandidate] at there
      cases there
    constructor
    case ok =>
      intro next after advanced
      cases failed.symm.trans advanced
    case error => exact fun _ _ => ⟨rfl, passed⟩
  | some candidate =>
    obtain ⟨path, isPath, reads⟩ := ready.served.leaf i candidate isCandidate
    obtain ⟨isLeaf, _⟩ := reads records extended.addressed extended.stays
    obtain rfl := names candidate isCandidate
    have advances : advance put job tree i stream records (.indexed candidate.streamId model) =
        .ok (.located candidate.streamId model
          (anchorCommit candidate.streamId.cid (.cid candidate.cid) tree.proof path), records) := by
      rw [advance, ready.isMetadata, isLeaf]
      rfl
    constructor
    case ok =>
      intro next after advanced
      obtain ⟨rfl, rfl⟩ := Prod.mk.inj (Except.ok.inj (advances.symm.trans advanced))
      exact ⟨extended, fun _ member => member, ⟨candidate, path, isCandidate, rfl, wanted, isPath, rfl⟩, nofun⟩
    case error =>
      intro e failed
      cases advances.symm.trans failed

theorem advance_located {streamId model : StreamID} {event : JsValue}
    (holds : StageHolds base job.models candidates tree.proof i records (.located streamId model event)) :
    Advanced put base job.models candidates tree.proof i records (.located streamId model event)
      (advance put job tree i stream records (.located streamId model event)) := by
  obtain ⟨candidate, path, isCandidate, rfl, wanted, isPath, rfl⟩ := holds
  obtain ⟨cid, given⟩ := ready.storable i candidate path isCandidate isPath
  let event := anchorCommit candidate.streamId.cid (.cid candidate.cid) tree.proof path
  have advances : advance put job tree i stream records (.located candidate.streamId model event) =
      .ok (.stored candidate.streamId model cid, (cid, event) :: records) :=
    bind_eq_ok.mpr ⟨(cid, (cid, event) :: records), bind_eq_ok.mpr ⟨cid, given, rfl⟩, rfl⟩
  constructor
  case ok =>
    intro next after advanced
    obtain ⟨rfl, rfl⟩ := Prod.mk.inj (Except.ok.inj (advances.symm.trans advanced))
    exact ⟨extended.store (own_anchorCommit _ _ _ _) given, fun _ member => List.mem_cons_of_mem _ member,
      ⟨event, ⟨candidate, path, isCandidate, rfl, wanted, isPath, rfl⟩, List.mem_cons_self⟩, nofun⟩
  case error =>
    intro e failed
    cases advances.symm.trans failed

theorem advanced_of_stage (isStream : tree.streamIds[i]? = some stream) {stage : Stage} (going : stage ≠ .settled)
    (holds : StageHolds base job.models candidates tree.proof i records stage) :
    Advanced put base job.models candidates tree.proof i records stage
      (advance put job tree i stream records stage) := by
  cases stage with
  | waiting => exact advance_waiting ready extended isStream
  | retrieved streamId signedCommit => exact advance_retrieved ready extended holds
  | indexed streamId model => exact advance_indexed ready extended holds
  | located streamId model event => exact advance_located ready extended holds
  | stored streamId model cid =>
    constructor
    case ok =>
      intro next after advanced
      obtain ⟨rfl, rfl⟩ := Prod.mk.inj (Except.ok.inj advanced)
      exact ⟨extended, fun _ member => member, trivial, fun _ none => nomatch none⟩
    case error =>
      intro e failed
      cases failed
  | settled => exact absurd rfl going

omit ready extended

/-- What a step is. -/
theorem step_cases {run next : Run} (stepped : step put job tree run i = some next) :
    ∃ stream, tree.streamIds[i]? = some stream ∧ run.stage i ≠ .settled ∧
      ((∃ stage records, advance put job tree i stream run.records (run.stage i) = .ok (stage, records) ∧
        next = ⟨records, Function.update run.stage i stage, run.calls ++ handled i (run.stage i)⟩) ∨
      ∃ e, advance put job tree i stream run.records (run.stage i) = .error e ∧
        next = { run with stage := Function.update run.stage i .settled }) := by
  unfold step at stepped
  cases isStream : tree.streamIds[i]? with
  | none =>
    rw [isStream] at stepped
    cases stepped
  | some stream =>
    rw [isStream] at stepped
    dsimp only at stepped
    refine ⟨stream, rfl, ?_⟩
    split at stepped
    · cases stepped
    next going =>
      refine ⟨going, ?_⟩
      cases advanced : advance put job tree i stream run.records (run.stage i) with
      | ok result =>
        rw [advanced] at stepped
        exact .inl ⟨result.1, result.2, rfl, (Option.some.inj stepped).symm⟩
      | error e =>
        rw [advanced] at stepped
        exact .inr ⟨e, rfl, (Option.some.inj stepped).symm⟩

theorem handled_cases (i : Nat) (stage : Stage) : handled i stage = [] ∨
    ∃ streamId model cid,
      stage = .stored streamId model cid ∧ handled i stage = [(i, ⟨streamId, cid, model⟩)] := by
  cases stage with
  | stored streamId model cid => exact .inr ⟨streamId, model, cid, rfl, rfl⟩
  | _ => exact .inl rfl

/-- What holds of the tasks while they go on. -/
structure Inv (put : JsValue → Except JsError Cid) (base : IpfsRecords) (models : List String)
    (candidates : List ICandidate) (tree : RebuiltTree) (stored : IpfsRecords) (run : Run) : Prop where
  extended : Extends put base run.records
  kept : ∀ entry ∈ stored, entry ∈ run.records
  stages : ∀ i, StageHolds base models candidates tree.proof i run.records (run.stage i)
  once : (run.calls.map Prod.fst).Nodup
  called : ∀ i call, (i, call) ∈ run.calls → run.stage i = .settled ∧ ∃ event,
    Located base models candidates tree.proof i call.streamId call.model event ∧ (call.cid, event) ∈ run.records
  passed : ∀ i, run.stage i = .settled → i ∈ run.calls.map Prod.fst ∨ Passed base models candidates i

theorem Inv.initial {models : List String} (extended : Extends put base stored) :
    Inv put base models candidates tree stored (.initial stored) :=
  ⟨extended, fun _ member => member, fun _ => trivial, List.nodup_nil, nofun, nofun⟩

theorem Inv.next (ready : Ready put base proof metadata candidates tree stored) {run after : Run}
    (inv : Inv put base job.models candidates tree stored run)
    (stepped : step put job tree run i = some after) : Inv put base job.models candidates tree stored after := by
  obtain ⟨stream, isStream, going, made⟩ := step_cases stepped
  have advanced : Advanced put base job.models candidates tree.proof i run.records (run.stage i)
      (advance put job tree i stream run.records (run.stage i)) :=
    advanced_of_stage ready inv.extended isStream going (inv.stages i)
  have apart {j : Nat} (settled : run.stage j = .settled) : j ≠ i := by
    rintro rfl
    exact going settled
  rcases made with ⟨stage, records, isStage, rfl⟩ | ⟨e, failed, rfl⟩
  · obtain ⟨extended, stays, holds, settles⟩ := advanced.ok stage records isStage
    constructor
    case extended => exact extended
    case kept => exact fun entry member => stays entry (inv.kept entry member)
    case stages =>
      intro j
      dsimp only
      by_cases here : j = i
      · subst here
        rw [Function.update_self]
        exact holds
      · rw [Function.update_of_ne here]
        exact (inv.stages j).mono ready.injective extended.addressed stays
    case once =>
      rw [List.map_append]
      rcases handled_cases i (run.stage i) with none | ⟨streamId, model, cid, _, one⟩
      · rw [none, List.map_nil, List.append_nil]
        exact inv.once
      · rw [one]
        refine List.nodup_append.mpr ⟨inv.once, List.nodup_singleton _, ?_⟩
        rintro j member _ here rfl
        obtain rfl := List.mem_singleton.mp here
        obtain ⟨⟨_, call⟩, isCall, rfl⟩ := List.mem_map.mp member
        exact going (inv.called _ call isCall).1
    case called =>
      intro j call isCall
      rcases List.mem_append.mp isCall with before | new
      · obtain ⟨settled, event, located, member⟩ := inv.called j call before
        refine ⟨?_, event, located, stays _ member⟩
        dsimp only
        rw [Function.update_of_ne (apart settled), settled]
      · rcases handled_cases i (run.stage i) with none | ⟨streamId, model, cid, isStored, one⟩
        · rw [none] at new
          cases new
        · rw [one] at new
          obtain ⟨rfl, rfl⟩ := Prod.mk.inj (List.mem_singleton.mp new)
          have stageHolds := inv.stages j
          rw [isStored] at stageHolds isStage
          obtain ⟨event, located, member⟩ := stageHolds
          obtain ⟨rfl, _⟩ := Prod.mk.inj (Except.ok.inj isStage)
          exact ⟨Function.update_self _ _ _, event, located, stays _ member⟩
    case passed =>
      intro j settled
      by_cases here : j = i
      · subst here
        dsimp only at settled
        rw [Function.update_self] at settled
        rcases handled_cases j (run.stage j) with none | ⟨streamId, model, cid, _, one⟩
        · exact .inr (settles settled none)
        · refine .inl (List.mem_map.mpr ⟨_, List.mem_append_right _ (one ▸ List.mem_cons_self), rfl⟩)
      · dsimp only at settled
        rw [Function.update_of_ne here] at settled
        refine (inv.passed j settled).imp_left fun member => ?_
        rw [List.map_append]
        exact List.mem_append_left _ member
  · obtain ⟨_, passed⟩ := advanced.error e failed
    constructor
    case extended => exact inv.extended
    case kept => exact inv.kept
    case stages =>
      intro j
      dsimp only
      by_cases here : j = i
      · subst here
        rw [Function.update_self]
        trivial
      · rw [Function.update_of_ne here]
        exact inv.stages j
    case once => exact inv.once
    case called =>
      intro j call isCall
      obtain ⟨settled, rest⟩ := inv.called j call isCall
      refine ⟨?_, rest⟩
      dsimp only
      rw [Function.update_of_ne (apart settled), settled]
    case passed =>
      intro j settled
      by_cases here : j = i
      · subst here
        exact .inr passed
      · dsimp only at settled
        rw [Function.update_of_ne here] at settled
        exact inv.passed j settled

theorem Inv.reached (ready : Ready put base proof metadata candidates tree stored) {run : Run}
    (reaches : Transition.Reaches (step put job tree) (fun _ _ => True) (.initial stored) run) :
    Inv put base job.models candidates tree stored run :=
  reaches.invariant (.initial ready.extended) fun _ _ _ inv _ stepped => inv.next ready stepped

/-- How many awaits a task can still come to. -/
def Stage.rank : Stage → Nat
  | .waiting => 5
  | .retrieved _ _ => 4
  | .indexed _ _ => 3
  | .located _ _ _ => 2
  | .stored _ _ _ => 1
  | .settled => 0

theorem advance_rank {stage next : Stage} {after : IpfsRecords} (going : stage ≠ .settled)
    (advanced : advance put job tree i stream records stage = .ok (next, after)) : next.rank < stage.rank := by
  cases stage with
  | waiting =>
    obtain ⟨streamId, _, advanced⟩ := bind_eq_ok.mp advanced
    obtain ⟨signedCommit, _, returned⟩ := bind_eq_ok.mp advanced
    obtain ⟨rfl, rfl⟩ := Prod.mk.inj (Except.ok.inj returned)
    simp [Stage.rank]
  | retrieved streamId signedCommit =>
    obtain ⟨genesisCommit, _, advanced⟩ := bind_eq_ok.mp advanced
    obtain ⟨model, _, advanced⟩ := bind_eq_ok.mp advanced
    obtain ⟨reached, isReached, returned⟩ := bind_eq_ok.mp advanced
    obtain ⟨rfl, rfl⟩ := Prod.mk.inj (Except.ok.inj returned)
    rcases indexedStage_cases isReached with ⟨wanted, _, rfl, _⟩ | ⟨rfl, _⟩ <;> simp [Stage.rank]
  | indexed streamId model =>
    obtain ⟨⟨cid, path⟩, _, returned⟩ := bind_eq_ok.mp advanced
    obtain ⟨rfl, rfl⟩ := Prod.mk.inj (Except.ok.inj returned)
    simp [Stage.rank]
  | located streamId model event =>
    obtain ⟨⟨cid, after⟩, _, returned⟩ := bind_eq_ok.mp advanced
    obtain ⟨rfl, rfl⟩ := Prod.mk.inj (Except.ok.inj returned)
    simp [Stage.rank]
  | stored streamId model cid =>
    obtain ⟨rfl, rfl⟩ := Prod.mk.inj (Except.ok.inj advanced)
    simp [Stage.rank]
  | settled => exact absurd rfl going

/-- What the tasks of a run have still before them. -/
def Run.potential (count : Nat) (run : Run) : Nat := ((List.range count).map fun i => (run.stage i).rank).sum

theorem potential_lt {count : Nat} {run next : Run} (inside : i < count)
    (same : ∀ j, j ≠ i → next.stage j = run.stage j) (less : (next.stage i).rank < (run.stage i).rank) :
    next.potential count < run.potential count := by
  refine List.sum_lt_sum _ _ (fun j _ => ?_) ⟨i, List.mem_range.mpr inside, less⟩
  by_cases here : j = i
  · exact here ▸ less.le
  · rw [same j here]

theorem step_potential {run next : Run} (stepped : step put job tree run i = some next) :
    next.potential tree.streamIds.length < run.potential tree.streamIds.length := by
  obtain ⟨stream, isStream, going, made⟩ := step_cases stepped
  have inside := (List.getElem?_eq_some_iff.mp isStream).1
  rcases made with ⟨stage, records, isStage, rfl⟩ | ⟨e, _, rfl⟩
  · refine potential_lt inside (fun j apart => Function.update_of_ne apart _ _) ?_
    dsimp only
    rw [Function.update_self]
    exact advance_rank going isStage
  · refine potential_lt inside (fun j apart => Function.update_of_ne apart _ _) ?_
    dsimp only
    rw [Function.update_self]
    cases stage : run.stage i with
    | settled => exact absurd stage going
    | _ => simp [Stage.rank]

/-- A task that is not over can go on. -/
theorem step_of_going {run : Run} (inside : i < tree.streamIds.length) (going : run.stage i ≠ .settled) :
    ∃ next, step put job tree run i = some next := by
  unfold step
  rw [List.getElem?_eq_getElem inside]
  dsimp only
  split
  next settled => exact absurd settled going
  next =>
    cases advance put job tree i tree.streamIds[i] run.records (run.stage i) with
    | ok result => exact ⟨_, rfl⟩
    | error e => exact ⟨_, rfl⟩

/-- However far the tasks are, they can all be finished. -/
theorem finishes (run : Run) : ∃ last, Transition.Reaches (step put job tree) (fun _ _ => True) run last ∧
    ∀ index < tree.streamIds.length, last.stage index = .settled := by
  induction size : run.potential tree.streamIds.length using Nat.strong_induction_on generalizing run with
  | _ count ih =>
  by_cases settled : ∀ index < tree.streamIds.length, run.stage index = .settled
  · exact ⟨run, .start, settled⟩
  · push Not at settled
    obtain ⟨index, inside, going⟩ := settled
    obtain ⟨next, stepped⟩ := @step_of_going put tree job index run inside going
    obtain ⟨last, reaches, finished⟩ := ih _ (size ▸ step_potential stepped) next rfl
    exact ⟨last, .trans (.next .start trivial stepped) reaches, finished⟩

/-- The anchor commit that a call hands over, as it is read. -/
def anchorData (cid proofCid : Cid) (proof : AnchorProof) (candidate : ICandidate) (path : List PathDirection) :
    CommitData :=
  { cid, type := .TIME, proof := some proof
    commit := { id := some candidate.streamId.cid, prev := some candidate.cid, proof := some proofCid
                path := pathString path } }

/-- The commit that a call hands over is stored, anchors the tip of the candidate's stream under the proof, and passes
the check of its path. -/
def Anchors (records : IpfsRecords) (proof : AnchorProof) (candidate : ICandidate) (call : HandledCommit) : Prop :=
  ∃ proofCid path, Ipfs.load records proofCid = .ok proof.value ∧
    Ipfs.load records call.cid =
      .ok (anchorCommit candidate.streamId.cid (.cid candidate.cid) proofCid path) ∧
    ∀ base, AnchorTimestampExtractor.verifyAnchorCommit (Ipfs.reader base records)
      (anchorData call.cid proofCid proof candidate path) = base.validateChainInclusion proof

/-- Each wanted stream is handled once, with an anchor commit of its own, and no other stream is. -/
structure Rebuilt (base : IpfsRecords) (models : List String) (proof : AnchorProof) (candidates : List ICandidate)
    (records : IpfsRecords) (calls : List (Nat × HandledCommit)) : Prop where
  once : (calls.map Prod.fst).Nodup
  complete : ∀ i, i ∈ calls.map Prod.fst ↔
    ∃ candidate model, candidates[i]? = some candidate ∧ Wanted base models candidate.streamId model
  anchored : ∀ i call, (i, call) ∈ calls → ∃ candidate, candidates[i]? = some candidate ∧
    call.streamId = candidate.streamId ∧ Wanted base models candidate.streamId call.model ∧
    Anchors records proof candidate call
  streams : (candidates.map (·.streamId)).Nodup → (calls.map fun call => call.2.streamId).Nodup

theorem rebuilt_of_inv (ready : Ready put base proof metadata candidates tree stored)
    (sameRoot : proof.root = tree.root) {run : Run} (inv : Inv put base job.models candidates tree stored run)
    (finished : ∀ index < tree.streamIds.length, run.stage index = .settled) :
    Rebuilt base job.models proof candidates run.records run.calls := by
  have anchored : ∀ i call, (i, call) ∈ run.calls → ∃ candidate, candidates[i]? = some candidate ∧
      call.streamId = candidate.streamId ∧ Wanted base job.models candidate.streamId call.model ∧
      Anchors run.records proof candidate call := by
    intro i call isCall
    obtain ⟨_, event, ⟨candidate, path, isCandidate, same, wanted, isPath, rfl⟩, member⟩ := inv.called i call isCall
    refine ⟨candidate, isCandidate, same.symm, same ▸ wanted, tree.proof, path, ?_, ?_, ?_⟩
    · exact Ipfs.load_of_mem ready.injective inv.extended.addressed (inv.kept _ ready.proves)
    · rw [same]
      exact Ipfs.load_of_mem ready.injective inv.extended.addressed member
    · obtain ⟨_, isPath', reads⟩ := ready.served.leaf i candidate isCandidate
      obtain rfl := Except.ok.inj (isPath.symm.trans isPath')
      obtain ⟨_, verified⟩ := reads run.records inv.extended.addressed inv.extended.stays
      have links : Ipfs.ownProperty proof.value "root" = some (.cid tree.root) := by
        rw [← sameRoot]
        simp [AnchorProof.value, AnchorProof.fields, Ipfs.ownProperty, JsObject.get?]
      exact fun dispatcher => verified dispatcher _ proof
        ⟨rfl, sameRoot, rfl, tree.proof, _, rfl, inv.kept _ ready.proves, links⟩ rfl
  refine ⟨inv.once, fun i => ⟨?_, ?_⟩, anchored, fun distinct => ?_⟩
  · intro member
    obtain ⟨⟨_, call⟩, isCall, rfl⟩ := List.mem_map.mp member
    obtain ⟨candidate, isCandidate, _, wanted, _⟩ := anchored _ call isCall
    exact ⟨candidate, call.model, isCandidate, wanted⟩
  · rintro ⟨candidate, model, isCandidate, wanted⟩
    obtain ⟨text, isText, _⟩ := ready.names i candidate isCandidate
    have inside : i < tree.streamIds.length := by
      rw [ready.isStreams, List.length_map]
      exact (List.getElem?_eq_some_iff.mp isText).1
    exact (inv.passed i (finished i inside)).resolve_right fun passed => passed candidate isCandidate model wanted
  · rw [List.Nodup, List.pairwise_map]
    refine (List.pairwise_map.mp inv.once).imp_of_mem ?_
    rintro ⟨i, call⟩ ⟨j, other⟩ isCall isOther apart same
    obtain ⟨candidate, isCandidate, sameId, _⟩ := anchored i call isCall
    obtain ⟨second, isSecond, otherId, _⟩ := anchored j other isOther
    have inside : i < (candidates.map (·.streamId)).length := by
      rw [List.length_map]
      exact (List.getElem?_eq_some_iff.mp isCandidate).1
    refine apart ((List.getElem?_inj inside distinct).mp ?_)
    rw [List.getElem?_map, List.getElem?_map, isCandidate, isSecond]
    exact congrArg some (sameId.symm.trans (same.trans otherId))

/-- How records are encoded: no two get one CID, CIDs are read back from their texts, and nothing that holds
`undefined` is encoded. -/
structure EncodesRecords (put : JsValue → Except JsError Cid) : Prop where
  injective : Ipfs.Injective put
  readable : ∀ record cid, put record = .ok cid → cid.WellFormed
  refuses : ∀ fields key, (key, JsValue.undefined) ∈ fields → ∃ e, put (.obj fields) = .error e

/-- The proof and the anchor commits that it gives can be stored. -/
structure StoresAnchors (put : JsValue → Except JsError Cid) (proof : AnchorProof) (candidates : List ICandidate) :
    Prop where
  proves : proof.txType.isSome → ∃ cid, put proof.value = .ok cid
  commits : ∀ (proofCid : Cid) (i : Nat) (candidate : ICandidate) (path : List PathDirection),
    put proof.value = .ok proofCid → candidates[i]? = some candidate →
    MerkleTree.pathByIndex i candidates.length = .ok path →
    ∃ cid, put (anchorCommit candidate.streamId.cid (.cid candidate.cid) proofCid path) = .ok cid

/-- A tree that was built of candidates, with metadata that give their number and their streams. -/
structure BuiltTree (put : JsValue → Except JsError Cid) (compareFn : Option (ICandidate → ICandidate → Int))
    (metadataFn : Option (List ICandidate → Except JsError TreeMetadata)) (depthLimit : Option Nat)
    (leaves : List ICandidate) (records : IpfsRecords) (root : Cid) (metadata : TreeMetadata) : Prop where
  built : ∃ stored tree node, Ipfs.Addressed put stored ∧ (IpfsMerge.factory put IpfsMerge.ofCandidate compareFn
    metadataFn depthLimit).build leaves stored = .ok (tree, records) ∧ tree.metadata = some metadata ∧
    tree.nodes[tree.root]? = some node ∧ node.data.cid = root
  counts : metadata.numEntries = leaves.length
  names : ∀ (i : Nat) (candidate : ICandidate),
    (IpfsMerge.candidates put compareFn metadataFn depthLimit leaves)[i]? = some candidate →
    ∃ text, metadata.streamIds[i]? = some text ∧ candidate.streamId.toText = .ok text
  readable : ∀ candidate ∈ leaves, candidate.streamId.Readable

section

variable {compareFn : Option (ICandidate → ICandidate → Int)}
  {metadataFn : Option (List ICandidate → Except JsError TreeMetadata)} {depthLimit : Option Nat}
  {leaves : List ICandidate} {root : Cid}

theorem BuiltTree.serves (injective : Ipfs.Injective put)
    (built : BuiltTree put compareFn metadataFn depthLimit leaves records root metadata) :
    ServesTree put records root metadata (IpfsMerge.candidates put compareFn metadataFn depthLimit leaves) ∧
      Ipfs.Addressed put records ∧ ∃ record, (root, record) ∈ records := by
  obtain ⟨stored, tree, node, addressed, made, given, isRoot, rfl⟩ := built.built
  obtain ⟨found, isFound, serves⟩ := IpfsMerge.servesTree injective addressed made given built.counts
  obtain rfl := Option.some.inj (isRoot.symm.trans isFound)
  obtain ⟨same, metadataCid, left, right, isSame, _, member⟩ := IpfsMerge.metadata_recorded made given
  obtain rfl := Option.some.inj (isRoot.symm.trans isSame)
  exact ⟨serves, (IpfsMerge.recorded_of_build addressed (MerkleTreeFactory.build_ok made)).2.addressed, _, member⟩

theorem ServesTree.mono {candidates : List ICandidate} (serves : ServesTree put records root metadata candidates)
    (stays : ∀ entry ∈ records, entry ∈ base) : ServesTree put base root metadata candidates where
  described := fun later addressed kept => serves.described later addressed fun _ member => kept _ (stays _ member)
  leaf := by
    intro i candidate isCandidate
    obtain ⟨path, isPath, reads⟩ := serves.leaf i candidate isCandidate
    exact ⟨path, isPath, fun later addressed kept => reads later addressed fun _ member => kept _ (stays _ member)⟩
  others := serves.others

/-- A job is started once its proof is stored. -/
theorem start_of_put {models : List String} {proofCid : Cid}
    (serves : ServesTree put base proof.root metadata candidates)
    (addressed : Ipfs.Addressed put base) (root : proof.root.WellFormed) (txHash : proof.txHash.WellFormed)
    (given : put proof.value = .ok proofCid) :
    start put (createRebuildAnchorJob proof models) base =
      .ok (some (⟨proofCid, proof.root, metadata.record, metadata.streamIds.map .str⟩,
        (proofCid, proof.value) :: base)) := by
  have extended : Extends put base ((proofCid, proof.value) :: base) :=
    Extends.store ⟨addressed, fun _ member => member, fun _ member => .inl member⟩ (own_proof proof) given
  have described := serves.described _ extended.addressed extended.stays
  refine bind_eq_ok.mpr ⟨_, Cid.parse_toString txHash, bind_eq_ok.mpr ⟨_, Cid.parse_toString root, ?_⟩⟩
  refine bind_eq_ok.mpr ⟨_, bind_eq_ok.mpr ⟨proofCid, given, rfl⟩, ?_⟩
  refine bind_eq_ok.mpr ⟨_, described, ?_⟩
  rw [MerkleTreeLoader.streamIds_record]
  rfl

theorem not_started {models : List String} (root : proof.root.WellFormed) (txHash : proof.txHash.WellFormed)
    {e : JsError} (refused : put proof.value = .error e) (tree : RebuiltTree) (stored : IpfsRecords) :
    start put (createRebuildAnchorJob proof models) base ≠ .ok (some (tree, stored)) := by
  intro started
  obtain ⟨txHash', isTxHash, started⟩ := bind_eq_ok.mp started
  obtain ⟨root', isRoot, started⟩ := bind_eq_ok.mp started
  obtain ⟨_, put', _⟩ := bind_eq_ok.mp started
  obtain ⟨cid, given, _⟩ := bind_eq_ok.mp put'
  obtain rfl := Except.ok.inj ((Cid.parse_toString txHash).symm.trans isTxHash)
  obtain rfl := Except.ok.inj ((Cid.parse_toString root).symm.trans isRoot)
  cases refused.symm.trans given

/-- A job comes to an end, and whatever end it comes to, it has rebuilt the anchors of the streams that are wanted. -/
def RebuildsAnchors (put : JsValue → Except JsError Cid) (base : IpfsRecords) (models : List String)
    (proof : AnchorProof) (candidates : List ICandidate) : Prop :=
  (∃ records calls, Handles put (createRebuildAnchorJob proof models) base records calls) ∧
    ∀ records calls, Handles put (createRebuildAnchorJob proof models) base records calls →
      Rebuilt base models proof candidates records calls

theorem rebuilds_of_started {models : List String} {start : RebuiltTree × IpfsRecords}
    (started : RebuildAnchorWorker.start put (createRebuildAnchorJob proof models) base = .ok (some start))
    (ready : Ready put base proof metadata candidates start.1 start.2) (sameRoot : proof.root = start.1.root) :
    RebuildsAnchors put base models proof candidates := by
  obtain ⟨last, reaches, finished⟩ :=
    @finishes put start.1 (createRebuildAnchorJob proof models) (.initial start.2)
  refine ⟨⟨_, _, .finished started reaches finished⟩, ?_⟩
  intro records calls handles
  cases handles with
  | unstarted none => exact absurd started (none start.1 start.2)
  | finished startedAs reached allFinished =>
    obtain rfl := Option.some.inj (Except.ok.inj (started.symm.trans startedAs))
    exact rebuilt_of_inv ready sameRoot (Inv.reached ready reached) allFinished

/-- Without its proof a job rebuilds nothing. -/
theorem rebuilds_of_refused {models : List String} (root : proof.root.WellFormed) (txHash : proof.txHash.WellFormed)
    {e : JsError} (refused : put proof.value = .error e) : RebuildsAnchors put base models proof candidates ↔
      ∀ i, Passed base models candidates i := by
  have unstarted := @not_started put base proof models root txHash e refused
  constructor
  · intro rebuilds i candidate isCandidate model wanted
    have rebuilt := rebuilds.2 _ _ (.unstarted unstarted)
    cases (rebuilt.complete i).mpr ⟨candidate, model, isCandidate, wanted⟩
  · intro none
    refine ⟨⟨_, _, .unstarted unstarted⟩, ?_⟩
    intro records calls handles
    cases handles with
    | finished startedAs => exact absurd startedAs (unstarted _ _)
    | unstarted =>
      refine ⟨List.nodup_nil, fun i => ⟨nofun, ?_⟩, nofun, fun _ => List.nodup_nil⟩
      rintro ⟨candidate, model, isCandidate, wanted⟩
      exact absurd wanted (none i candidate isCandidate model)

/-- From a proof that is stored the anchors of its tree are rebuilt. -/
theorem rebuilds_of_stored (encodes : EncodesRecords put)
    (built : BuiltTree put compareFn metadataFn depthLimit leaves records proof.root metadata)
    (addressed : Ipfs.Addressed put base) (stays : ∀ entry ∈ records, entry ∈ base) (txHash : proof.txHash.WellFormed)
    (stores : StoresAnchors put proof (IpfsMerge.candidates put compareFn metadataFn depthLimit leaves))
    (models : List String) {proofCid : Cid} (given : put proof.value = .ok proofCid) :
    RebuildsAnchors put base models proof (IpfsMerge.candidates put compareFn metadataFn depthLimit leaves) := by
  obtain ⟨serves, addressedTree, record, isRoot⟩ := built.serves encodes.injective
  have root := encodes.readable _ _ (addressedTree _ isRoot)
  have servesBase := ServesTree.mono serves stays
  have started := @start_of_put _ _ _ _ _ models _ servesBase addressed root txHash given
  have extended : Extends put base ((proofCid, proof.value) :: base) :=
    Extends.store ⟨addressed, fun _ member => member, fun _ member => .inl member⟩ (own_proof proof) given
  have names : ∀ (i : Nat) (candidate : ICandidate),
      (IpfsMerge.candidates put compareFn metadataFn depthLimit leaves)[i]? = some candidate →
      ∃ text, metadata.streamIds[i]? = some text ∧ readStreamID text = .ok candidate.streamId := by
    intro i candidate isCandidate
    obtain ⟨text, isText, hasText⟩ := built.names i candidate isCandidate
    have member : candidate ∈ leaves :=
      (IpfsMerge.candidates_perm put compareFn metadataFn depthLimit leaves).mem_iff.mp
        (List.mem_of_getElem? isCandidate)
    obtain rfl := StreamID.text_unique hasText
    exact ⟨_, isText, (built.readable candidate member).read⟩
  have ready : Ready put base proof metadata _ ⟨proofCid, proof.root, metadata.record,
      metadata.streamIds.map .str⟩ ((proofCid, proof.value) :: base) :=
    ⟨encodes.injective, servesBase, rfl, rfl, names,
      fun i candidate path => stores.commits proofCid i candidate path given, extended, List.mem_cons_self⟩
  exact rebuilds_of_started started ready rfl

/-- The anchors of a tree are rebuilt exactly if the proof has the type of its transaction, without which it is not
stored, or no stream is wanted. -/
theorem rebuilds_iff (encodes : EncodesRecords put)
    (built : BuiltTree put compareFn metadataFn depthLimit leaves records proof.root metadata)
    (addressed : Ipfs.Addressed put base) (stays : ∀ entry ∈ records, entry ∈ base) (txHash : proof.txHash.WellFormed)
    (stores : StoresAnchors put proof (IpfsMerge.candidates put compareFn metadataFn depthLimit leaves))
    (models : List String) :
    RebuildsAnchors put base models proof (IpfsMerge.candidates put compareFn metadataFn depthLimit leaves) ↔
      proof.txType.isSome ∨
        ∀ i, Passed base models (IpfsMerge.candidates put compareFn metadataFn depthLimit leaves) i := by
  cases hasType : proof.txType with
  | none =>
    obtain ⟨_, addressedTree, record, isRoot⟩ := built.serves encodes.injective
    have root := encodes.readable _ _ (addressedTree _ isRoot)
    have holds : ("txType", JsValue.undefined) ∈ proof.fields (.cid proof.txHash) (.cid proof.root) := by
      simp [AnchorProof.fields, hasType, StreamCommit.property]
    obtain ⟨e, refused⟩ := encodes.refuses _ _ holds
    rw [rebuilds_of_refused root txHash refused]
    simp
  | some txType =>
    obtain ⟨proofCid, given⟩ := stores.proves (hasType ▸ rfl)
    exact iff_of_true (rebuilds_of_stored encodes built addressed stays txHash stores models given) (.inl rfl)

end

end

namespace RebuildFixture

/-- The CID of the n-th record. -/
def blockCid (n : UInt8) : Cid := .v1 0x71 (createMultihash 0x12 [n])

theorem blockCid_wellFormed (n : UInt8) : (blockCid n).WellFormed :=
  .v1 0x71 0x12 [n] (by decide) (by decide) (show 1 ≤ MAX_SAFE_INTEGER by decide)

def model : StreamID := ⟨MODEL_TYPE_ID, blockCid 9⟩

/-- A stream and its tip. -/
def candidate : ICandidate := ⟨blockCid 1, ⟨MODEL_INSTANCE_TYPE_ID, blockCid 2⟩, ⟨["did:key:a"], some model⟩⟩

def metadata : TreeMetadata := ⟨1, ⟨"jsnpm_bloom-filters", .null⟩, [candidate.streamId.toString]⟩

def proof (txType : Option String) : AnchorProof :=
  { chainId := "eip155:1", txHash := blockCid 8, root := blockCid 4, txType }

def genesis : JsValue := .obj [("header", .obj [("model", .bytes model.bytes)])]

def root : JsValue := .arr [.cid (blockCid 1), .null, .cid (blockCid 3)]

/-- The records there are, and those that are made. -/
def table : IpfsRecords :=
  [(blockCid 2, genesis), (blockCid 3, metadata.record), (blockCid 4, root),
    (blockCid 5, (proof (some "f(bytes32)")).value),
    (blockCid 6, anchorCommit (blockCid 2) (.cid (blockCid 1)) (blockCid 5) [.L])]

def put (record : JsValue) : Except JsError Cid :=
  match table.find? fun entry => entry.2 = record with
  | some entry => .ok entry.1
  | none => .error ⟨"offline"⟩

def records : IpfsRecords := [(blockCid 4, root), (blockCid 3, metadata.record)]

def base : IpfsRecords := (blockCid 2, genesis) :: records

theorem put_mem {record : JsValue} {cid : Cid} (given : put record = .ok cid) : (cid, record) ∈ table := by
  unfold put at given
  split at given
  next entry found =>
    obtain rfl := Except.ok.inj given
    have same : entry.2 = record := by simpa using List.find?_some found
    exact same ▸ List.mem_of_find?_eq_some found
  next => cases given

theorem encodes : EncodesRecords put where
  injective := by
    intro record other cid given otherGiven
    have distinct : (table.map Prod.fst).Nodup := by decide
    exact congrArg Prod.snd (List.inj_on_of_nodup_map distinct (put_mem given) (put_mem otherGiven) rfl)
  readable := by
    intro record cid given
    have all : ∀ entry ∈ table, ∃ n, entry.1 = blockCid n := by
      intro entry member
      simp only [table, List.mem_cons, List.not_mem_nil, or_false] at member
      rcases member with rfl | rfl | rfl | rfl | rfl <;> exact ⟨_, rfl⟩
    obtain ⟨n, rfl⟩ := all _ (put_mem given)
    exact blockCid_wellFormed n
  refuses := by
    intro fields key holds
    cases given : put (.obj fields) with
    | error e => exact ⟨e, rfl⟩
    | ok cid =>
      have member := put_mem given
      have defined : ∀ entry ∈ table, ∀ fields, entry.2 = .obj fields →
          ∀ key, (key, JsValue.undefined) ∉ fields := by
        intro entry member fields same key
        simp only [table, List.mem_cons, List.not_mem_nil, or_false] at member
        rcases member with rfl | rfl | rfl | rfl | rfl
        case inr.inr.inl => cases same
        all_goals
          obtain rfl := JsValue.obj.inj same
          simp [AnchorProof.fields, StreamCommit.property, proof]
      exact absurd holds (defined _ member fields rfl key)

theorem only_leaf {i : Nat} {other : ICandidate}
    (isCandidate : (IpfsMerge.candidates put none (some fun _ => .ok metadata) none [candidate])[i]? = some other) :
    i = 0 ∧ candidate = other := by
  cases i with
  | zero => exact ⟨rfl, Option.some.inj isCandidate⟩
  | succ i => cases isCandidate

theorem built : BuiltTree put none (some fun _ => .ok metadata) none [candidate] records (blockCid 4) metadata where
  built := by
    have empty : Ipfs.Addressed put [] := fun entry member => nomatch member
    have made : (IpfsMerge.factory put IpfsMerge.ofCandidate none (some fun _ => .ok metadata) none).build
        [candidate] [] =
        .ok (⟨[{ data := ⟨blockCid 1⟩, parent := some 1 }, { data := ⟨blockCid 4⟩, left := some 0 }], 1, [0],
          some metadata⟩, records) := by
      have level : (IpfsMerge.factory put IpfsMerge.ofCandidate none (some fun _ => .ok metadata) none).buildLevel [0] 0
          (some metadata) ⟨[{ data := ⟨blockCid 1⟩ }], []⟩ =
          .ok (1, ⟨[{ data := ⟨blockCid 1⟩, parent := some 1 }, { data := ⟨blockCid 4⟩, left := some 0 }],
            records⟩) := by
        rw [MerkleTreeFactory.buildLevel, if_pos rfl]
        have described : put metadata.record = .ok (blockCid 3) := rfl
        have merged : put root = .ok (blockCid 4) := rfl
        simp only [MerkleTreeFactory.merge, IpfsMerge.factory, IpfsMerge.merge, IpfsMerge.storeMetadata,
          Ipfs.storeRecord, described]
        rfl
      exact bind_eq_ok.mpr ⟨(), rfl, bind_eq_ok.mpr ⟨some metadata, rfl, bind_eq_ok.mpr ⟨_, level, rfl⟩⟩⟩
    exact ⟨[], _, _, empty, made, rfl, rfl, rfl⟩
  counts := rfl
  names := by
    intro i other isCandidate
    obtain ⟨rfl, rfl⟩ := only_leaf isCandidate
    exact ⟨_, rfl, StreamID.toText_of_safe (by decide)⟩
  readable := by
    intro _ member
    obtain rfl := List.mem_singleton.mp member
    exact ⟨by decide, blockCid_wellFormed 2, by decide⟩

theorem wanted : Wanted base [model.toString] candidate.streamId model := by
  have back : (model.encode >>= StreamID.fromBytes) = .ok model :=
    ((@StreamID.roundTrips_iff (fun _ => none) model (blockCid_wellFormed 9)).mpr ⟨by decide, by decide⟩).1
  have read : StreamID.fromBytes model.bytes = .ok model := by
    obtain ⟨bytes, isBytes, read⟩ := bind_eq_ok.mp back
    have encoded : model.encode = .ok model.bytes := @encodeRef_safe model.type (by decide) model.bytes
    obtain rfl := Except.ok.inj (encoded.symm.trans isBytes)
    exact read
  refine ⟨?_, model.toString, StreamID.toText_of_safe (by decide), List.mem_cons_self⟩
  have loaded : Ipfs.load base candidate.streamId.cid = .ok genesis := by decide +kernel
  refine bind_eq_ok.mpr ⟨genesis, loaded, bind_eq_ok.mpr ⟨genesis, rfl, ?_⟩⟩
  exact map_eq_ok.mpr ⟨model, read, rfl⟩

theorem addressed : Ipfs.Addressed put base := by
  intro entry member
  simp only [base, records, List.mem_cons, List.not_mem_nil, or_false] at member
  rcases member with rfl | rfl | rfl <;> rfl

theorem stays : ∀ entry ∈ records, entry ∈ base := fun _ member => List.mem_cons_of_mem _ member

theorem stores : StoresAnchors put (proof (some "f(bytes32)"))
    (IpfsMerge.candidates put none (some fun _ => .ok metadata) none [candidate]) where
  proves := fun _ => ⟨blockCid 5, rfl⟩
  commits := by
    intro proofCid i other path given isCandidate isPath
    obtain ⟨rfl, rfl⟩ := only_leaf isCandidate
    have isProof : put (proof (some "f(bytes32)")).value = .ok (blockCid 5) := rfl
    obtain rfl := Except.ok.inj (isProof.symm.trans given)
    have only : MerkleTree.pathByIndex 0 1 = .ok [.L] := rfl
    obtain rfl := Except.ok.inj (only.symm.trans isPath)
    exact ⟨blockCid 6, rfl⟩

theorem refused : put (proof none).value = .error ⟨"offline"⟩ := rfl

theorem stores_nothing : StoresAnchors put (proof none)
    (IpfsMerge.candidates put none (some fun _ => .ok metadata) none [candidate]) where
  proves := nofun
  commits := fun _ _ _ _ given => nomatch refused.symm.trans given

end RebuildFixture

open RebuildFixture

/-- The anchor of a stream is rebuilt from a proof that has a type. -/
theorem rebuilds_iff_typed : RebuildsAnchors put base [model.toString] (proof (some "f(bytes32)"))
    (IpfsMerge.candidates put none (some fun _ => .ok metadata) none [candidate]) :=
  (rebuilds_iff encodes built addressed stays (blockCid_wellFormed 8) stores [model.toString]).mpr (.inl rfl)

/-- From a proof without a type nothing is rebuilt, because it is not stored. -/
theorem untyped_not_rebuilt : EncodesRecords put ∧
    BuiltTree put none (some fun _ => .ok metadata) none [candidate] records (proof none).root metadata ∧
    Ipfs.Addressed put base ∧ (∀ entry ∈ records, entry ∈ base) ∧ (proof none).txHash.WellFormed ∧
    StoresAnchors put (proof none) (IpfsMerge.candidates put none (some fun _ => .ok metadata) none [candidate]) ∧
    ¬RebuildsAnchors put base [model.toString] (proof none)
      (IpfsMerge.candidates put none (some fun _ => .ok metadata) none [candidate]) := by
  refine ⟨encodes, built, addressed, stays, blockCid_wellFormed 8, stores_nothing, fun rebuilds => ?_⟩
  have none := (rebuilds_of_refused (blockCid_wellFormed 4) (blockCid_wellFormed 8) refused).mp rebuilds
  exact none 0 candidate rfl model wanted

end RebuildAnchorWorker

end Ceramic
