import Ceramic.MultiQuery
import Ceramic.LoadAtTime
import Ceramic.AnchorRequestStore

/-! Resolving a 3ID at a version. The document metadata names the anchor of the version and the entry of the latest
log that comes next: the first one with a later timestamp, of whatever type it is. -/
namespace Ceramic.ThreeIdResolver

open MultiQueries

/-- The year, the month and the day of a day counted from 1970-01-01. -/
def civilFromDays (days : Nat) : Nat × Nat × Nat :=
  -- counted from the first of March of the year 0, in eras of 400 years
  let shifted := days + 719468
  let dayOfEra := shifted % 146097
  let yearOfEra := (dayOfEra - dayOfEra / 1460 + dayOfEra / 36524 - dayOfEra / 146096) / 365
  let dayOfYear := dayOfEra - (365 * yearOfEra + yearOfEra / 4 - yearOfEra / 100)
  let month := (5 * dayOfYear + 2) / 153
  let year := yearOfEra + shifted / 146097 * 400
  (if month < 10 then year else year + 1, if month < 10 then month + 3 else month - 9,
    dayOfYear - (153 * month + 2) / 5 + 1)

def padded (width n : Nat) : String :=
  let digits := toString n
  String.ofList (List.replicate (width - digits.length) '0') ++ digits

/-- Dates reach 100,000,000 days from 1970. -/
def MAX_DATE_SECONDS : Nat := 8640000000000

/-- `new Date(timestamp * 1000).toISOString().split('.')[0] + 'Z'` -/
def formatTime (timestamp : Nat) : Except JsError String :=
  if MAX_DATE_SECONDS < timestamp then .error ⟨"Invalid time value"⟩
  else
    let (year, month, day) := civilFromDays (timestamp / 86400)
    let yearText := if year ≤ 9999 then padded 4 year else "+" ++ padded 6 year
    .ok (yearText ++ "-" ++ padded 2 month ++ "-" ++ padded 2 day ++ "T" ++ padded 2 (timestamp / 3600 % 24) ++ ":" ++
      padded 2 (timestamp / 60 % 60) ++ ":" ++ padded 2 (timestamp % 60) ++ "Z")

example : (formatTime 1615889301).toOption = some "2021-03-16T10:08:21Z" := by decide +kernel

/-- The text of a timestamp, unless it is falsy. -/
def formatTime? : Timestamp → Except JsError (Option String)
  | .seconds 0 | .undefined | .null => .ok none
  | .seconds (n + 1) => (formatTime (n + 1)).map some

/-- Return last anchor log entry, or genesis if no anchors found -/
def lastAnchorOrGenesisEntry (log : NonEmptyArray LogEntry) : LogEntry :=
  (log.toList.reverse.find? fun entry => entry.type = .TIME).getD log.first

/-- An entry has a later time than the requested version, or any time if that has none. -/
def isNext (updated : Timestamp) (entry : LogEntry) : Bool :=
  entry.timestamp.truthy && (updated.truthy && updated.lt entry.timestamp || !updated.truthy)

structure DIDDocumentMetadata where
  updated : Option String := none
  nextUpdate : Option String := none
  versionId : Option String := none
  nextVersionId : Option String := none
  deriving DecidableEq, Repr

def extractMetadata (requestedVersionState latestVersionState : StreamState) : Except JsError DIDDocumentMetadata := do
  let requested := lastAnchorOrGenesisEntry requestedVersionState.log
  let next := latestVersionState.log.toList.find? (isNext requested.timestamp)
  let updated ← formatTime? requested.timestamp
  let nextUpdate ← formatTime? ((next.map (·.timestamp)).getD .undefined)
  let versionId := if requestedVersionState.log.toList.length = 1 then "0" else requested.cid.toString
  return { updated, nextUpdate, versionId := some versionId, nextVersionId := next.map (·.cid.toString) }

structure VersionInfo where
  commit : Option String := none
  timestamp : Option Nat := none

/-- The commit that is asked for; an empty text asks for none. -/
def requestedCommit (parseCID : String → Option Cid) (streamId : StreamID) (verNfo : VersionInfo) :
    Except JsError (Option CommitID) :=
  match verNfo.commit.filter (· ≠ "") with
  | some commit => do
    let commit ← StreamRefParsing.parseCommit parseCID streamId.cid (.text commit)
    return some (.make streamId.type streamId.cid commit)
  | none => .ok none

/-- Each query is a single load. -/
def versionQuery (streamId : StreamID) (commitId : Option CommitID) (verNfo : VersionInfo) :
    List (MultiQuery × List Nat) :=
  ({ streamId := .ref (.streamID streamId) }, []) ::
    match commitId, verNfo.timestamp.filter (· ≠ 0) with
    | some commitId, _ => [({ streamId := .ref (.commitID commitId) }, [])]
    | none, some atTime => [({ streamId := .ref (.streamID streamId), atTime := some atTime }, [])]
    | none, none => []

def latestOf (didId : String) (resp : Index) : Except JsError Stream :=
  match resp.find? didId with
  | some latest => .ok latest
  | none => .error ⟨"Failed to properly resolve 3ID, stream " ++ didId ++ " not found in response."⟩

def tileOf (resp : Index) (latest : Stream) : Option String → Except JsError Stream
  | some commitIdStr => match resp.find? commitIdStr with
    | some found => .ok found
    | none => .error ⟨"No resolution for commit " ++ commitIdStr⟩
  | none => .ok latest

structure DIDResolution where
  /-- The content of the tile, of which the DID document is made. -/
  content : JsValue
  didDocumentMetadata : DIDDocumentMetadata

def resolve (loads : Loads) (didId : String) (verNfo : VersionInfo) : Except JsError DIDResolution := do
  let streamId ← StreamID.fromString loads.parseCID didId
  let commitId ← requestedCommit loads.parseCID streamId verNfo
  let resp ← multiQuery loads (versionQuery streamId commitId verNfo)
  let latest ← latestOf didId resp
  let commitIdStr := (commitId.map CommitID.toString).or (resp.keys.find? (· ≠ didId))
  let requestedVersionState := ((commitIdStr.bind resp.find?).map (·.state)).getD latest.state
  let metadata ← extractMetadata requestedVersionState latest.state
  let tile ← tileOf resp latest commitIdStr
  return ⟨tile.state.content, metadata⟩

section

variable {loads : Loads}

/-- A query without paths is a single load. -/
theorem queryResult_single {ref : StreamRef} {state : StreamState} (loaded : loads.load ref none = .ok state) :
    ∃ stream : Stream, stream.state = state ∧
      queryResult loads ({ streamId := .ref ref }, []) = (InsertionMap.empty _ _).set ref.toString stream := by
  obtain ⟨stream, isStream, sameState⟩ : ∃ stream, loadStream loads ref none = .ok stream ∧ stream.state = state :=
    ⟨_, bind_eq_ok.mpr ⟨state, loaded, rfl⟩, rfl⟩
  have walked : walkNext loads none ⟨⟨[]⟩, ref⟩ = ([.entry ref.toString stream], []) := by
    unfold walkNext
    rw [isStream]
    have visits : nextVisits loads stream.content (TrieNode.mk []).children = .ok [] := by
      unfold nextVisits
      cases stream.content.isNullish <;> rfl
    dsimp only
    rw [visits]
    rfl
  refine ⟨stream, sameState, ?_⟩
  have returned : _loadLinkedStreams loads { streamId := .ref ref } [] =
      .ok ((InsertionMap.empty _ _).set ref.toString stream) := by
    refine bind_eq_ok.mpr ⟨ref, rfl, bind_eq_ok.mpr ⟨⟨[]⟩, rfl, bind_eq_ok.mpr ⟨(), rfl, ?_⟩⟩⟩
    have drained : Worklist.drain (walkNext loads none) (TrieNode.size ⟨[]⟩) [] [⟨⟨[]⟩, ref⟩] =
        [.entry ref.toString stream] := by
      simp [TrieNode.size, TrieNode.sizes, Worklist.drain, walked]
    dsimp only
    rw [drained]
    rfl
  unfold queryResult
  rw [returned]
  rfl

/-- What two loads of different streams or commits give. -/
theorem multiQuery_two {first second : StreamRef} {state other : StreamState} (loaded : loads.load first none = .ok state)
    (loadedToo : loads.load second none = .ok other) (apart : first.toString ≠ second.toString) :
    ∃ results stream version, multiQuery loads [({ streamId := .ref first }, []), ({ streamId := .ref second }, [])] =
      .ok results ∧ results.find? first.toString = some stream ∧ stream.state = state ∧
      results.find? second.toString = some version ∧ version.state = other := by
  obtain ⟨stream, sameState, isFirst⟩ := queryResult_single loaded
  obtain ⟨version, sameOther, isSecond⟩ := queryResult_single loadedToo
  obtain ⟨results, returned, -⟩ := @multiQuery_spec loads
    [({ streamId := .ref first }, []), ({ streamId := .ref second }, [])]
  obtain ⟨_, _, same⟩ := bind_eq_ok.mp returned
  obtain rfl := Except.ok.inj same
  refine ⟨_, stream, version, returned, ?_, sameState, ?_, sameOther⟩
  all_goals
    simp only [List.map_cons, List.map_nil, List.foldl_cons, List.foldl_nil, isFirst, isSecond, spread]
    simp [InsertionMap.set, InsertionMap.keys, InsertionMap.empty, InsertionMap.find?, apart, Ne.symm apart]

/-- Resolving a commit of a stream: the metadata is made of what is loaded at the commit and of the latest state. -/
theorem resolve_commit {id : StreamID} (reads : StreamID.fromString loads.parseCID id.toString = .ok id)
    {version : String} {commitId : CommitID}
    (asked : requestedCommit loads.parseCID id { commit := some version } = .ok (some commitId))
    {latest requested : StreamState} (current : loads.load (.streamID id) none = .ok latest)
    (loaded : loads.load (.commitID commitId) none = .ok requested) (apart : commitId.toString ≠ id.toString) :
    resolve loads id.toString { commit := some version } =
      (extractMetadata requested latest).map (DIDResolution.mk requested.content) := by
  obtain ⟨resp, stream, tile, returned, isLatest, rfl, isTile, rfl⟩ := multiQuery_two current loaded (Ne.symm apart)
  have isLatest : resp.find? id.toString = some stream := isLatest
  have isTile : resp.find? commitId.toString = some tile := isTile
  have queried : multiQuery loads (versionQuery id (some commitId) { commit := some version }) = .ok resp := returned
  unfold resolve latestOf
  simp only [reads, asked, queried, bind, Except.bind, isLatest, Option.map_some, Option.some_or, Option.bind_some, isTile,
    Option.getD_some, tileOf]
  cases extractMetadata tile.state stream.state with
  | error e => rfl
  | ok metadata => rfl

end

end Ceramic.ThreeIdResolver
