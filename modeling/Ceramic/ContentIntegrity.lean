import Ceramic.ContentDispatcher
import Ceramic.Library.Transition

/-! Whether the values that are retrieved for a CID are what the CID stands for. The blocks of a
client's container are cached without being hashed, so it takes honest containers. -/
namespace Ceramic

namespace Ipld

variable (ipld : Ipld)

/-- The value is the decoding of bytes whose hash is the CID. -/
def IsContentOf (cid : Cid) (value : JsValue) : Prop :=
  ∃ bytes decoded, ipld.hashes cid bytes = true ∧ ipld.decode cid.code bytes = .ok decoded ∧
    value.Same decoded

/-- The block is too large or cannot be decoded, so that it is not cached. -/
def Refused (cid : Cid) (block : List UInt8) : Prop :=
  IPFS_MAX_COMMIT_SIZE < block.length ∨ ∃ e, ipld.decode cid.code block = .error e

/-- No block of a container is cached under a CID that it does not hash to. Where the capability is
refused, the linked block is not looked at. -/
def Honest : CeramicCommit → Prop
  | .other _ _ => True
  | .container jws linkedBlock none =>
    ∀ link, jws.link = some link → ipld.Refused link linkedBlock ∨ ipld.hashes link linkedBlock = true
  | .container jws linkedBlock (some cacaoBlock) =>
    ∀ cap, ContentDispatcher.capabilityCid ipld jws = .ok cap → ipld.Refused cap cacaoBlock ∨
      ipld.hashes cap cacaoBlock = true ∧ ∀ link, jws.link = some link →
        ipld.Refused link linkedBlock ∨ ipld.hashes link linkedBlock = true

end Ipld

namespace ContentDispatcher

variable (ipld : Ipld)

/-- A query with a path is kept under a text that is not a CID's. -/
def Apart (query : Cid × String) : Prop :=
  query.2 = "" ∨ ∀ cid : Cid, cid.toString ≠ resolutionPath query.1 query.2

/-- Containers are honest, and the path of a query does not make it the text of a CID. -/
def mayRun (_ : ContentDispatcher) : DispatcherAction ipld → Prop
  | .storeInitEvent data _ _ | .storeEvent data _ _ => ipld.Honest data
  | .retrieve cid path => Apart (cid, path)
  | _ => True

/-- An entry that is found for a CID is the CID's. -/
def SoundCache (cache : IPLDRecordsCache) : Prop :=
  ∀ entry ∈ cache.entries, ∀ cid : Cid, cid.toString = entry.1 → ipld.IsContentOf cid entry.2.record

structure Sound (dispatcher : ContentDispatcher) : Prop where
  cache : SoundCache ipld dispatcher.ipldCache
  loading : ∀ query ∈ dispatcher.loading, Apart query
  returned : ∀ result ∈ dispatcher.returned, ipld.IsContentOf result.1 result.2

/-- A path that begins with a slash keeps a query apart. -/
theorem apart_of_slash {cid : Cid} {path : String} (slash : '/' ∈ path.toList) : Apart (cid, path) := by
  refine .inr fun other same => other.slash_notMem_toString ?_
  rw [same, resolutionPath, String.toList_append]
  exact List.mem_append_right _ slash

variable {ipld}

theorem isContentOf_decoded {cid : Cid} {bytes : List UInt8} {record : JsValue}
    (hashes : ipld.hashes cid bytes = true) (decoded : ipld.decode cid.code bytes = .ok record) :
    ipld.IsContentOf cid record :=
  ⟨bytes, record, hashes, decoded, .refl record⟩

theorem SoundCache.touch {cache : IPLDRecordsCache} (sound : SoundCache ipld cache) (query : String) :
    SoundCache ipld (cache.touch query) :=
  fun entry member => sound entry (LruCache.mem_touch member)

theorem SoundCache.set {cache : IPLDRecordsCache} {cid : Cid} {entry : CacheEntry}
    (sound : SoundCache ipld cache) (content : ipld.IsContentOf cid entry.record) :
    SoundCache ipld (IPLDRecordsCache.set cache cid entry) := by
  intro other member cid' same
  rcases LruCache.mem_set member with rfl | old
  · rwa [Cid.toString_injective same]
  · exact sound other old cid' same

theorem SoundCache.setApart {cache : IPLDRecordsCache} {query : String} {entry : CacheEntry}
    (sound : SoundCache ipld cache) (apart : ∀ cid : Cid, cid.toString ≠ query) :
    SoundCache ipld (cache.setWithResolutionPath query entry) := by
  intro other member cid same
  rcases LruCache.mem_set member with rfl | old
  · exact absurd same (apart cid)
  · exact sound other old cid same

theorem cacheBlock_ok {cid : Cid} {block : List UInt8} {opened next : CAR × IPLDRecordsCache}
    (h : cacheBlock ipld cid block opened = .ok next) :
    ∃ record, block.length ≤ IPFS_MAX_COMMIT_SIZE ∧ ipld.decode cid.code block = .ok record ∧
      next.2 = IPLDRecordsCache.set opened.2 cid { record, block } := by
  obtain ⟨_, restricted, h⟩ := bind_eq_ok.mp h
  obtain ⟨record, got, h⟩ := bind_eq_ok.mp h
  obtain rfl := Except.ok.inj h
  refine ⟨record, ?_, ?_, rfl⟩
  · unfold restrictBlockSize at restricted
    split at restricted
    next => cases restricted
    next fits => exact Nat.le_of_not_lt fits
  · simpa [getRecord] using got

/-- What a step caches is not refused. -/
theorem not_refused {cid : Cid} {block : List UInt8} {record : JsValue}
    (fits : block.length ≤ IPFS_MAX_COMMIT_SIZE) (decoded : ipld.decode cid.code block = .ok record) :
    ¬ipld.Refused cid block := by
  rintro (large | ⟨e, failed⟩)
  · omega
  · cases decoded.symm.trans failed

/-- A step keeps the cache sound. -/
def Keeps (ipld : Ipld) (step : CarStep) : Prop :=
  ∀ opened next, SoundCache ipld opened.2 → step opened = .ok next → SoundCache ipld next.2

theorem cacheBlock_keeps {cid : Cid} {block : List UInt8}
    (honest : ipld.Refused cid block ∨ ipld.hashes cid block = true) :
    Keeps ipld (cacheBlock ipld cid block) := by
  intro opened next sound stepped
  obtain ⟨record, fits, decoded, cached⟩ := cacheBlock_ok stepped
  have hashes := honest.resolve_left (not_refused fits decoded)
  rw [cached]
  exact sound.set (isContentOf_decoded hashes decoded)

theorem cacheLinked_keeps {jws : ClientJWS} {linkedBlock : List UInt8}
    (honest : ∀ link, jws.link = some link →
      ipld.Refused link linkedBlock ∨ ipld.hashes link linkedBlock = true) :
    Keeps ipld (cacheLinked ipld jws linkedBlock) := by
  intro opened next sound stepped
  unfold cacheLinked at stepped
  split at stepped
  next link isLink => exact cacheBlock_keeps (honest link isLink) opened next sound stepped
  next => cases stepped

/-- The CID of the root is computed from its block. -/
theorem cacheRoot_keeps (codec : Nat) (value : JsValue) : Keeps ipld (cacheRoot ipld codec value) := by
  intro opened next sound stepped
  obtain ⟨cidBlock, _, stepped⟩ := bind_eq_ok.mp stepped
  exact cacheBlock_keeps (.inr (ipld.hashes_cidOf codec cidBlock))
    ({ opened.1 with roots := opened.1.roots ++ [ipld.cidOf codec cidBlock] }, opened.2) next sound stepped

/-- Where the first step throws, the cache is as before. -/
theorem runSteps_cons {step : CarStep} {steps : List CarStep} {opened : CAR × IPLDRecordsCache}
    (sound : SoundCache ipld opened.2)
    (rest : ∀ next, step opened = .ok next → SoundCache ipld (runSteps steps next).1) :
    SoundCache ipld (runSteps (step :: steps) opened).1 := by
  unfold runSteps
  split
  next next stepped => exact rest next stepped
  next => exact sound

theorem runSteps_sound {steps : List CarStep} (keeps : ∀ step ∈ steps, Keeps ipld step)
    {opened : CAR × IPLDRecordsCache} (sound : SoundCache ipld opened.2) :
    SoundCache ipld (runSteps steps opened).1 := by
  induction steps generalizing opened with
  | nil => exact sound
  | cons step steps ih =>
    refine runSteps_cons sound fun next stepped => ?_
    have kept := keeps step List.mem_cons_self opened next sound stepped
    exact ih (fun other member => keeps other (List.mem_cons_of_mem _ member)) kept

/-- Making the CAR file of an honest container keeps the cache sound, wherever it throws. -/
theorem createCAR_sound {cache : IPLDRecordsCache} {data : CeramicCommit}
    (sound : SoundCache ipld cache) (honest : ipld.Honest data) :
    SoundCache ipld (_createCAR ipld cache data).1 := by
  cases data with
  | other commit single =>
    refine runSteps_sound (fun step member => ?_) sound
    obtain rfl := List.mem_singleton.mp member
    exact cacheRoot_keeps dagCbor commit
  | container jws linkedBlock cacaoBlock =>
    have rest (named : ∀ link, jws.link = some link →
        ipld.Refused link linkedBlock ∨ ipld.hashes link linkedBlock = true) :
        ∀ step ∈ [cacheLinked ipld jws linkedBlock, cacheRoot ipld dagJose jws.toJs], Keeps ipld step := by
      intro step member
      rcases List.mem_cons.mp member with rfl | last
      · exact cacheLinked_keeps named
      · obtain rfl := List.mem_singleton.mp last
        exact cacheRoot_keeps dagJose jws.toJs
    cases cacaoBlock with
    | none => exact runSteps_sound (rest honest) sound
    | some cacaoBlock =>
      refine runSteps_cons sound fun next stepped => ?_
      obtain ⟨cap, isCap, stepped⟩ := bind_eq_ok.mp stepped
      obtain ⟨record, fits, decoded, _⟩ := cacheBlock_ok stepped
      obtain ⟨hashes, named⟩ := (honest cap isCap).resolve_left (not_refused fits decoded)
      exact runSteps_sound (rest named) (cacheBlock_keeps (.inr hashes) _ next sound stepped)

theorem storeRecord_sound {cache after : IPLDRecordsCache} {record : JsValue} {answer : Except JsError Unit}
    {cid : Cid} (sound : SoundCache ipld cache)
    (stored : storeRecord ipld cache record answer = .ok (after, cid)) : SoundCache ipld after := by
  obtain ⟨block, encoded, stored⟩ := bind_eq_ok.mp stored
  obtain ⟨_, _, stored⟩ := bind_eq_ok.mp stored
  obtain ⟨cached, setting, stored⟩ := bind_eq_ok.mp stored
  obtain ⟨rfl, _⟩ := Prod.mk.inj (Except.ok.inj stored)
  unfold IPLDRecordsCache.setRecord at setting
  split at setting
  next =>
    obtain rfl := Except.ok.inj setting
    exact sound
  next =>
    obtain ⟨_, _, setting⟩ := bind_eq_ok.mp setting
    obtain rfl := Except.ok.inj setting
    obtain ⟨decoded, decodes, same⟩ := ipld.decode_encode record block encoded
    refine sound.set ⟨block, decoded, ipld.hashes_cidOf dagCbor block, ?_, same⟩
    rw [Ipld.code_cidOf]
    exact decodes

theorem getIpfsBlock_sound {dispatcher : ContentDispatcher} {cid : Cid} {answer : IpfsAnswer ipld}
    (sound : Sound ipld dispatcher) : Sound ipld (dispatcher.getIpfsBlock ipld cid answer) := by
  unfold getIpfsBlock
  split
  next => exact ⟨sound.cache.touch _, sound.loading, sound.returned⟩
  next => exact sound
  next bytes _ _ =>
    split
    next after setting =>
      refine ⟨?_, sound.loading, sound.returned⟩
      unfold IPLDRecordsCache.setBlock at setting
      split at setting
      next =>
        obtain rfl := Except.ok.inj setting
        exact sound.cache
      next =>
        obtain ⟨record, decoded, setting⟩ := bind_eq_ok.mp setting
        obtain rfl := Except.ok.inj setting
        exact sound.cache.set (isContentOf_decoded bytes.property decoded)
    next => exact sound

/-- What the IPFS node answers for a CID without a path is the content of the CID. -/
theorem attempt_content {cid : Cid} {answer : IpfsAnswer ipld} {entry : CacheEntry}
    (loaded : attempt ipld cid "" answer = .ok entry) : ipld.IsContentOf cid entry.record := by
  unfold attempt at loaded
  rw [if_pos rfl] at loaded
  simp only [bind, Except.bind, pure, Except.pure] at loaded
  split at loaded
  next => cases loaded
  next block _ =>
    split at loaded
    next => cases loaded
    next =>
      split at loaded
      next => cases loaded
      next record decodes =>
        obtain rfl := Except.ok.inj loaded
        refine isContentOf_decoded block.property ?_
        cases decoded : ipld.decode cid.code block.val with
        | ok value =>
          rw [decoded] at decodes
          exact congrArg Except.ok (Except.ok.inj decodes)
        | error e =>
          rw [decoded] at decodes
          cases decodes

/-- The loop ends with the entry of one of its attempts. -/
theorem getWithRetries_ok {cid : Cid} {path : String} {answers : Nat → IpfsAnswer ipld} {retries : Nat}
    {entry : CacheEntry} (loaded : getWithRetries ipld cid path answers retries = .ok entry) :
    ∃ answer, attempt ipld cid path answer = .ok entry := by
  induction retries with
  | zero =>
    unfold getWithRetries at loaded
    cases attempted : attempt ipld cid path (answers 0) with
    | ok got =>
      rw [attempted] at loaded
      exact ⟨answers 0, attempted.trans (congrArg Except.ok (Except.ok.inj loaded))⟩
    | error e =>
      rw [attempted] at loaded
      cases loaded
  | succ retries ih =>
    unfold getWithRetries at loaded
    split at loaded
    next got attempted =>
      obtain rfl := Except.ok.inj loaded
      exact ⟨answers (retries + 1), attempted⟩
    next =>
      split at loaded
      next => exact ih loaded
      next => cases loaded

theorem finish_sound {dispatcher : ContentDispatcher} {cid : Cid} {path : String} {record : JsValue}
    (sound : Sound ipld dispatcher) (content : path = "" → ipld.IsContentOf cid record) :
    Sound ipld (dispatcher.finish cid path record) := by
  unfold finish
  split
  next whole =>
    refine ⟨sound.cache, sound.loading, fun result member => ?_⟩
    rcases List.mem_append.mp member with old | new
    · exact sound.returned result old
    · obtain rfl := List.mem_singleton.mp new
      exact content whole
  next => exact sound

theorem resolutionPath_empty (cid : Cid) : resolutionPath cid "" = cid.toString := by
  rw [resolutionPath, String.append_empty]

theorem retrieve_sound {dispatcher : ContentDispatcher} {cid : Cid} {path : String}
    (sound : Sound ipld dispatcher) (apart : Apart (cid, path)) :
    Sound ipld (dispatcher.retrieve cid path) := by
  unfold retrieve
  dsimp only
  split
  next fromCache found =>
    refine finish_sound ⟨sound.cache.touch _, sound.loading, sound.returned⟩ fun whole => ?_
    subst whole
    exact sound.cache _ (LruCache.mem_of_find? found) cid (resolutionPath_empty cid).symm
  next =>
    refine ⟨sound.cache, fun query member => ?_, sound.returned⟩
    rcases List.mem_append.mp member with old | new
    · exact sound.loading query old
    · obtain rfl := List.mem_singleton.mp new
      exact apart

theorem loaded_sound {dispatcher : ContentDispatcher} {index : Nat} {cid : Cid} {path : String}
    {answers : Nat → IpfsAnswer ipld} (sound : Sound ipld dispatcher)
    (waiting : dispatcher.loading[index]? = some (cid, path)) :
    Sound ipld (dispatcher.loaded ipld index cid path answers) := by
  have rest : Sound ipld { dispatcher with loading := dispatcher.loading.eraseIdx index } :=
    ⟨sound.cache, fun query member => sound.loading query ((List.eraseIdx_sublist _ _).subset member),
      sound.returned⟩
  unfold loaded
  dsimp only
  split
  next entry got =>
    obtain ⟨answer, attempted⟩ := getWithRetries_ok got
    have content : path = "" → ipld.IsContentOf cid entry.record := by
      rintro rfl
      exact attempt_content attempted
    refine finish_sound ⟨?_, rest.loading, rest.returned⟩ content
    rcases sound.loading (cid, path) (List.mem_of_getElem? waiting) with whole | apart
    · obtain rfl : path = "" := whole
      rw [resolutionPath_empty]
      exact sound.cache.set (content rfl)
    · exact sound.cache.setApart apart
  next => exact rest

theorem step_sound {useRustCeramic : Bool} {dispatcher after : ContentDispatcher}
    {action : DispatcherAction ipld} (sound : Sound ipld dispatcher)
    (may : mayRun ipld dispatcher action)
    (stepped : step ipld useRustCeramic dispatcher action = some after) : Sound ipld after := by
  cases action with
  | storeInitEvent data streamType answer =>
    obtain rfl := Option.some.inj stepped
    exact ⟨createCAR_sound sound.cache may, sound.loading, sound.returned⟩
  | storeEvent data streamId answer =>
    obtain rfl := Option.some.inj stepped
    exact ⟨createCAR_sound sound.cache may, sound.loading, sound.returned⟩
  | storeRecord record answer =>
    unfold step at stepped
    dsimp only at stepped
    split at stepped
    next cache cid stored =>
      obtain rfl := Option.some.inj stepped
      exact ⟨storeRecord_sound sound.cache stored, sound.loading, sound.returned⟩
    next =>
      obtain rfl := Option.some.inj stepped
      exact sound
  | importCAR streamId answer =>
    obtain rfl := Option.some.inj stepped
    exact sound
  | getIpfsBlock cid answer =>
    obtain rfl := Option.some.inj stepped
    exact getIpfsBlock_sound sound
  | retrieve cid path =>
    obtain rfl := Option.some.inj stepped
    exact retrieve_sound sound may
  | loaded index answers =>
    obtain ⟨⟨cid, path⟩, waiting, stepped⟩ := Option.bind_eq_some_iff.mp stepped
    obtain rfl := Option.some.inj stepped
    exact loaded_sound sound waiting

/-- As long as the containers that are stored are honest, what is retrieved for a CID is the
decoding of bytes that hash to it. -/
theorem content_integrity {useRustCeramic : Bool} {capacity : Nat} {reached : ContentDispatcher}
    (run : Transition.Reaches (step ipld useRustCeramic) (mayRun ipld) (start capacity) reached) :
    ∀ result ∈ reached.returned, ipld.IsContentOf result.1 result.2 := by
  have initial : Sound ipld (start capacity) := ⟨nofun, nofun, nofun⟩
  have sound : Sound ipld reached := run.invariant initial fun _ _ _ sound may stepped =>
    step_sound sound may stepped
  exact sound.returned

/-- `{ data: 1 }` in `dag-cbor`. -/
def payloadBlock : List UInt8 := [161, 100, 100, 97, 116, 97, 1]

/-- `{ data: 2 }` in `dag-cbor`. -/
def forgedBlock : List UInt8 := [161, 100, 100, 97, 116, 97, 2]

def payloadDigest : List UInt8 :=
  [215, 111, 62, 123, 217, 96, 37, 124, 197, 190, 112, 133, 29, 172, 34, 127, 114, 132, 121, 212, 171, 118, 41,
   75, 246, 135, 254, 2, 192, 211, 60, 145]

def forgedDigest : List UInt8 :=
  [66, 50, 229, 248, 76, 48, 251, 29, 149, 122, 96, 142, 237, 93, 215, 107, 155, 153, 1, 34, 186, 70, 170, 43,
   27, 35, 59, 21, 213, 149, 116, 60]

def payloadCid : Cid := ⟨[1, 113, 18, 32] ++ payloadDigest⟩

def clientJws : ClientJWS where
  payload := "AXESINdvPnvZYCV8xb5whR2sIn9yhHnUq3YpS_aH_gLA0zyR"
  signatures := [⟨"eyJhbGciOiJFZERTQSJ9", "AQ"⟩]
  link := some payloadCid

/-- The JWS in `dag-jose`: the bytes of the link, of the header and of the signature. -/
def jwsBlock : List UInt8 :=
  [162, 103, 112, 97, 121, 108, 111, 97, 100, 88, 36, 1, 113, 18, 32] ++ payloadDigest ++
  [106, 115, 105, 103, 110, 97, 116, 117, 114, 101, 115, 129, 162, 105, 112, 114, 111, 116, 101, 99, 116, 101,
   100, 79, 123, 34, 97, 108, 103, 34, 58, 34, 69, 100, 68, 83, 65, 34, 125, 105, 115, 105, 103, 110, 97, 116,
   117, 114, 101, 65, 1]

def jwsDigest : List UInt8 :=
  [183, 185, 201, 7, 117, 161, 49, 6, 170, 120, 12, 28, 245, 21, 207, 2, 153, 203, 180, 55, 216, 151, 253, 99,
   91, 116, 85, 51, 147, 95, 188, 171]

def dataOf (n : Rat) : JsValue := .obj [("data", .num n)]

/-- The codecs and hashes on the blocks above. -/
def fewBlocks : Ipld where
  encode := fun codec value =>
    if codec = dagCbor ∧ value = dataOf 1 then .ok payloadBlock
    else if codec = dagCbor ∧ value = dataOf 2 then .ok forgedBlock
    else if codec = dagJose ∧ value = clientJws.toJs then .ok jwsBlock
    else .error ⟨"not supported"⟩
  decode := fun codec block =>
    if codec = dagCbor ∧ block = payloadBlock then .ok (dataOf 1)
    else if codec = dagCbor ∧ block = forgedBlock then .ok (dataOf 2)
    else if codec = dagJose ∧ block = jwsBlock then .ok clientJws.toJs
    else .error ⟨"not supported"⟩
  digest := fun hasher block =>
    if hasher = sha2_256 ∧ block = payloadBlock then payloadDigest
    else if hasher = sha2_256 ∧ block = forgedBlock then forgedDigest
    else if hasher = sha2_256 ∧ block = jwsBlock then jwsDigest
    else []
  parse := fun _ => .error ⟨"not supported"⟩
  base64urlToJSON := fun _ => .error ⟨"not supported"⟩
  decode_encode := by
    intro record block encoded
    split at encoded
    next is =>
      obtain rfl := Except.ok.inj encoded
      exact ⟨dataOf 1, by decide, is.2 ▸ .refl _⟩
    next =>
      split at encoded
      next is =>
        obtain rfl := Except.ok.inj encoded
        exact ⟨dataOf 2, by decide, is.2 ▸ .refl _⟩
      next =>
        split at encoded
        next is => cases is.1
        next => cases encoded

/-- A client stores an event, and the commit of its payload is retrieved. -/
def storeAndRetrieve (linkedBlock : List UInt8) (imported : Except JsError Unit) :
    List (DispatcherAction fewBlocks) :=
  [.storeEvent (.container clientJws linkedBlock none) ⟨0, payloadCid⟩ imported, .retrieve payloadCid ""]

def afterRetrieve (linkedBlock : List UInt8) (imported : Except JsError Unit) : ContentDispatcher :=
  (Transition.run (step fewBlocks false) (start 1024) (storeAndRetrieve linkedBlock imported)).getD
    (start 1024)

theorem content_integrity_payload :
    (payloadCid, dataOf 1) ∈ (afterRetrieve payloadBlock (.ok ())).returned ∧
    ∀ result ∈ (afterRetrieve payloadBlock (.ok ())).returned,
      fewBlocks.IsContentOf result.1 result.2 := by
  have honest : fewBlocks.Honest (.container clientJws payloadBlock none) := by
    rintro link isLink
    obtain rfl := Option.some.inj isLink
    exact .inr (by decide)
  refine ⟨by decide, content_integrity (Transition.reaches_of_run
    (rfl : Transition.run (step fewBlocks false) (start 1024) (storeAndRetrieve payloadBlock (.ok ())) =
      some (afterRetrieve payloadBlock (.ok ()))) ⟨honest, .inl rfl, trivial⟩)⟩

/-- A client stores an event with another block than the linked one. It cannot be imported, but from
then on the block stands for the link. -/
theorem forged_block_retrieved : ¬∀ reached : ContentDispatcher,
    Transition.Reaches (step fewBlocks false) (fun _ _ => True) (start 1024) reached →
      ∀ result ∈ reached.returned, fewBlocks.IsContentOf result.1 result.2 := by
  intro integrity
  have ran : Transition.run (step fewBlocks false) (start 1024)
      (storeAndRetrieve forgedBlock (.error ⟨"block hash mismatch"⟩)) =
        some (afterRetrieve forgedBlock (.error ⟨"block hash mismatch"⟩)) := rfl
  have returned : (payloadCid, dataOf 2) ∈
      (afterRetrieve forgedBlock (.error ⟨"block hash mismatch"⟩)).returned := by decide
  obtain ⟨bytes, decoded, hashes, decodes, same⟩ :=
    integrity _ (Transition.reaches_of_run ran ⟨trivial, trivial, trivial⟩) _ returned
  -- only the payload hashes to the link
  have isPayload : bytes = payloadBlock := by
    have digests : fewBlocks.digest sha2_256 bytes = payloadDigest := of_decide_eq_true hashes
    unfold fewBlocks at digests
    dsimp only at digests
    split at digests
    next is => exact is.2
    next =>
      split at digests
      next => exact absurd digests (by decide)
      next =>
        split at digests
        next => exact absurd digests (by decide)
        next => exact absurd digests (by decide)
  subst isPayload
  obtain rfl : dataOf 1 = decoded := Except.ok.inj decodes
  cases same with
  | obj ordered fields =>
    obtain rfl := List.perm_singleton.mp ordered.symm
    cases fields with
    | cons value _ => cases value

end ContentDispatcher

end Ceramic
