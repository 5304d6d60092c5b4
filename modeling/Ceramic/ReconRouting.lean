import Ceramic.ReconEvents
import Ceramic.BlockStore

/-! Whether the events of the Recon feed are routed to the streams they belong to. A data commit
with a header is taken for a genesis without a model, and dropped. -/
namespace Ceramic

open StreamUtils

section

variable {env : Environment} {stream model : StreamID} {genesis : CommitData}

/-- The type that is inferred from the model is the stream's. -/
theorem IsGenesisOf.type_eq (isGenesis : IsGenesisOf env stream model genesis) :
    (if model.toString = env.MODEL.toString then MODEL_TYPE_ID else MODEL_INSTANCE_TYPE_ID) =
      stream.type := by
  rcases isGenesis.type with ⟨type, rfl⟩ | ⟨type, other⟩
  · rw [if_pos rfl, type]
  · rw [if_neg fun same => other (StreamID.toString_injective same), type]

/-- The header of an event that is not the genesis has no model. -/
theorem header_model {header : JsObject} (only : (JsObject.delete header "shouldIndex").isEmpty = true) :
    JsObject.get header "model" = .undefined := by
  have none : header.find? (fun field => field.1 == "model") = none := by
    refine List.find?_eq_none.mpr fun field member isModel => ?_
    have deleted : field ∈ JsObject.delete header "shouldIndex" := by
      refine List.mem_filter.mpr ⟨member, ?_⟩
      rw [eq_of_beq isModel]
      rfl
    rw [List.isEmpty_iff.mp only] at deleted
    cases deleted
  rw [JsObject.get, JsObject.get?, none]
  rfl

end

namespace ReconNode

variable {node : ReconNode} {stream model : StreamID} {genesis c : CommitData} {event : ReconEvent}

theorem updateOf_genesis (read : Utils.getCommitData (node.dispatcher event.moment) event.cid = .ok c)
    (found : (node.genesisOf event c).2 = .ok genesis) (isGenesis : IsGenesisOf node.env stream model genesis) :
    node.updateOf event = .ok ⟨⟨stream.type, c.commit.id.getD event.cid⟩, event.cid, some model⟩ := by
  obtain ⟨header, isHeader, truthy, parsed⟩ := isGenesis.header
  unfold updateOf
  refine bind_eq_ok.mpr ⟨c, read, bind_eq_ok.mpr ⟨genesis, found, ?_⟩⟩
  simp only [isHeader, truthy, Bool.not_true, Bool.false_eq_true, if_false]
  refine bind_eq_ok.mpr ⟨model, parsed, ?_⟩
  rw [isGenesis.type_eq]
  rfl

/-- A header without a model makes the event fail. -/
theorem updateOf_header (read : Utils.getCommitData (node.dispatcher event.moment) event.cid = .ok c)
    {header : JsObject} (isHeader : c.commit.header = some header)
    (only : (JsObject.delete header "shouldIndex").isEmpty = true) :
    node.updateOf event = .error ⟨"Model not found in genesis commit header " ++
      (c.commit.id.getD event.cid).toString ++ " for event for cid " ++ event.cid.toString⟩ := by
  unfold updateOf
  rw [read]
  simp only [bind, Except.bind, genesisOf, isHeader, Option.isSome_some, if_true, pure, Except.pure,
    header_model only]
  rfl

/-- An event is routed to its stream, with the stream's model, exactly if it is the genesis or has
no header. -/
theorem updateOf_event_iff
    (read : Utils.getCommitData (node.dispatcher event.moment) event.cid = .ok c)
    (readGenesis : Utils.getCommitData (node.dispatcher event.moment) stream.cid = .ok genesis)
    (isGenesis : IsGenesisOf node.env stream model genesis) (isEvent : IsEventOf stream genesis event.cid c) :
    node.updateOf event = .ok ⟨stream, event.cid, some model⟩ ↔
      c.commit.prev = none ∨ c.commit.header = none := by
  -- an event without a header refers to the genesis
  have referring (id : c.commit.id = some stream.cid) (plain : c.commit.header = none) :
      node.updateOf event = .ok ⟨stream, event.cid, some model⟩ := by
    have found : (node.genesisOf event c).2 = .ok genesis := by
      unfold genesisOf
      rw [plain, id]
      exact readGenesis
    have update := updateOf_genesis read found isGenesis
    rwa [id] at update
  cases isEvent with
  | genesis same =>
    refine iff_of_true ?_ (.inl isGenesis.prev)
    obtain ⟨header, isHeader, _⟩ := isGenesis.header
    have found : (node.genesisOf event genesis).2 = .ok genesis := by
      unfold genesisOf
      rw [isHeader]
      rfl
    have update := updateOf_genesis read found isGenesis
    rw [isGenesis.id, Option.getD_none, same] at update
    rw [update, same]
  | data _ signed id linked only =>
    cases isHeader : c.commit.header with
    | none => exact iff_of_true (referring id isHeader) (.inr rfl)
    | some header =>
      rw [updateOf_header read isHeader (only header isHeader)]
      refine iff_of_false nofun ?_
      rintro (first | plain)
      · rw [first] at linked
        cases linked
      · cases plain
  | time _ proved id linked plain => exact iff_of_true (referring id plain) (.inr plain)

/-- Every event of a batch is handled in its turn, whatever became of those before it. -/
theorem handleReconEvents_getElem? (batch : List ReconEvent) (i : Nat) :
    (node.handleReconEvents batch)[i]? = batch[i]?.map node.handleReconEvent := by
  induction batch generalizing i with
  | nil => rfl
  | cons first rest ih =>
    cases i with
    | zero => rfl
    | succ i => exact ih i

/-- All events of a batch are handled in order, and of those whose blocks can be loaded exactly the
ones that are a genesis or have no header go to their stream. -/
theorem recon_events_routed_iff (node : ReconNode) (batch : List ReconEvent) (i : Nat)
    (event : ReconEvent) (at_i : batch[i]? = some event) :
    (node.handleReconEvents batch)[i]? = some (node.handleReconEvent event) ∧
    ∀ (stream model : StreamID) (genesis c : CommitData),
      Utils.getCommitData (node.dispatcher event.moment) event.cid = .ok c →
      Utils.getCommitData (node.dispatcher event.moment) stream.cid = .ok genesis →
      IsGenesisOf node.env stream model genesis → IsEventOf stream genesis event.cid c →
      ((node.handleReconEvent event).update = some ⟨stream, event.cid, some model⟩ ↔
        c.commit.prev = none ∨ c.commit.header = none) := by
  refine ⟨by rw [handleReconEvents_getElem?, at_i]; rfl, fun stream model genesis c read readGenesis isGenesis isEvent => ?_⟩
  rw [← updateOf_event_iff read readGenesis isGenesis isEvent]
  unfold handleReconEvent
  split
  next failed => simp [failed]
  next update made => simp [made]

end ReconNode

namespace BlockStore

/-- A ModelInstanceDocument, a commit that takes it out of the index, and an update after it. -/
def unindexedPost : List Block :=
  [⟨⟨[1]⟩, .plain { header := some [("controllers", .arr [.str "did:key:z6Mk"]), ("model", .bytes [7])] }⟩,
   ⟨⟨[2]⟩, .signed ⟨⟨[2, 0]⟩, "", ""⟩⟩,
   ⟨⟨[2, 0]⟩, .plain { id := some ⟨[1]⟩, prev := some ⟨[1]⟩, data := .arr [],
                       header := some [("shouldIndex", .bool false)] }⟩,
   ⟨⟨[3]⟩, .signed ⟨⟨[3, 0]⟩, "", ""⟩⟩,
   ⟨⟨[3, 0]⟩, .plain { id := some ⟨[1]⟩, prev := some ⟨[2]⟩, data := .arr [] }⟩]

/-- A node that tracks everything, and on which everything goes well. -/
def postNode : ReconNode where
  env := { Environment.permissive with MODEL := ⟨4, ⟨[]⟩⟩ }
  dispatcher := fun _ => dispatcher unindexedPost (fun _ => none) (fun _ => none)
  fromMemoryOrStore_UNSAFE := fun _ _ => .ok true
  shouldIndexStream := fun _ _ => true
  load := fun _ _ => .ok ()
  _handleTip := fun _ _ _ => .ok ()

def unindexedPostId : StreamID := ⟨MODEL_INSTANCE_TYPE_ID, ⟨[1]⟩⟩

def postGenesis : CommitData where
  cid := ⟨[1]⟩
  type := .INIT
  commit := { header := some [("controllers", .arr [.str "did:key:z6Mk"]), ("model", .bytes [7])] }

theorem postGenesis_isGenesis :
    IsGenesisOf postNode.env unindexedPostId ⟨MODEL_TYPE_ID, ⟨[]⟩⟩ postGenesis :=
  ⟨rfl, rfl, ⟨_, rfl, by decide, rfl⟩, .inr ⟨rfl, by decide⟩⟩

/-- The update is routed also when the commit before it fails. -/
theorem recon_events_routed_iff_update :
    (postNode.handleReconEvents [⟨0, ⟨[2]⟩⟩, ⟨0, ⟨[3]⟩⟩])[1]? = some (postNode.handleReconEvent ⟨0, ⟨[3]⟩⟩) ∧
    (postNode.handleReconEvent ⟨0, ⟨[3]⟩⟩).update =
      some ⟨unindexedPostId, ⟨[3]⟩, some ⟨MODEL_TYPE_ID, ⟨[]⟩⟩⟩ := by
  obtain ⟨inTurn, routed⟩ :=
    ReconNode.recon_events_routed_iff postNode [⟨0, ⟨[2]⟩⟩, ⟨0, ⟨[3]⟩⟩] 1 ⟨0, ⟨[3]⟩⟩ rfl
  refine ⟨inTurn, (routed unindexedPostId ⟨MODEL_TYPE_ID, ⟨[]⟩⟩ postGenesis _ rfl rfl postGenesis_isGenesis
    (.data _ rfl rfl rfl ?_)).mpr (.inr rfl)⟩
  decide

/-- A commit that sets `shouldIndex` is not routed to its stream. -/
theorem shouldIndex_commit_dropped : ¬∀ (event : ReconEvent) (stream model : StreamID)
    (genesis c : CommitData),
      Utils.getCommitData (postNode.dispatcher event.moment) event.cid = .ok c →
      Utils.getCommitData (postNode.dispatcher event.moment) stream.cid = .ok genesis →
      IsGenesisOf postNode.env stream model genesis → IsEventOf stream genesis event.cid c →
      (postNode.handleReconEvent event).update = some ⟨stream, event.cid, some model⟩ := by
  intro routed
  have update := routed ⟨0, ⟨[2]⟩⟩ unindexedPostId ⟨MODEL_TYPE_ID, ⟨[]⟩⟩ postGenesis _ rfl rfl
    postGenesis_isGenesis (.data _ rfl rfl rfl (by decide))
  revert update
  decide

end BlockStore

end Ceramic
