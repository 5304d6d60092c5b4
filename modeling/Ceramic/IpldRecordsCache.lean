import Ceramic.Js
import Ceramic.IdText
import Ceramic.Library.LruCache

/-! The dispatcher's cache of IPLD records, in decoded and encoded form, and the codecs and
hashes that it rests on. The entries are kept by text: that of a CID, or of a CID and a path. -/
namespace Ceramic

namespace Cid

/-- The codec and the multihash; version 0 has `dag-pb` and a bare multihash. -/
def parts (cid : Cid) : Nat × List UInt8 :=
  if cid.isV0 then (0x70, cid.bytes) else varintDecode (varintDecode cid.bytes).2

def code (cid : Cid) : Nat := cid.parts.1

def multihash (cid : Cid) : List UInt8 := cid.parts.2

end Cid

namespace JsValue

mutual
/-- Equal but for the order of the fields of objects. -/
inductive Same : JsValue → JsValue → Prop where
  | refl (value : JsValue) : Same value value
  | arr {items items' : List JsValue} : SameItems items items' → Same (.arr items) (.arr items')
  | obj {fields ordered fields' : List (String × JsValue)} : fields.Perm ordered →
      SameFields ordered fields' → Same (.obj fields) (.obj fields')

inductive SameItems : List JsValue → List JsValue → Prop where
  | nil : SameItems [] []
  | cons {item item' : JsValue} {items items' : List JsValue} :
      Same item item' → SameItems items items' → SameItems (item :: items) (item' :: items')

inductive SameFields : List (String × JsValue) → List (String × JsValue) → Prop where
  | nil : SameFields [] []
  | cons {key : String} {value value' : JsValue} {fields fields' : List (String × JsValue)} :
      Same value value' → SameFields fields fields' →
        SameFields ((key, value) :: fields) ((key, value') :: fields')
end

end JsValue

def dagCbor : Nat := 0x71

def dagJose : Nat := 0x85

def sha2_256 : Nat := 0x12

/-- The codecs and hashers by their codes, and what else is read with the help of `multiformats`. -/
structure Ipld where
  encode : (codec : Nat) → JsValue → Except JsError (List UInt8)
  decode : (codec : Nat) → List UInt8 → Except JsError JsValue
  digest : (hasher : Nat) → List UInt8 → List UInt8
  /-- `CID.parse`. -/
  parse : String → Except JsError Cid
  base64urlToJSON : String → Except JsError JsValue
  /-- A record that is encoded can be decoded again. -/
  decode_encode : ∀ record block, encode dagCbor record = .ok block →
    ∃ decoded, decode dagCbor block = .ok decoded ∧ record.Same decoded

namespace Ipld

variable (ipld : Ipld)

/-- `CID.create(1, codec, sha256.digest(bytes))`. -/
def cidOf (codec : Nat) (bytes : List UInt8) : Cid :=
  ⟨1 :: (varintEncode codec ++ 0x12 :: 0x20 :: ipld.digest sha2_256 bytes)⟩

/-- The hash of the bytes is the one that the CID has. -/
def hashes (cid : Cid) (bytes : List UInt8) : Bool :=
  let (hasher, sized) := varintDecode cid.multihash
  ipld.digest hasher bytes = (varintDecode sized).2

end Ipld

/-- Fully decoded IPLD record and block bytes. -/
structure CacheEntry where
  record : JsValue
  block : List UInt8
  deriving DecidableEq, Repr

abbrev IPLDRecordsCache := LruCache String CacheEntry

namespace IPLDRecordsCache

variable (ipld : Ipld)

def set (cache : IPLDRecordsCache) (cid : Cid) (entry : CacheEntry) : IPLDRecordsCache :=
  LruCache.set cache cid.toString entry

def setRecord (cache : IPLDRecordsCache) (cid : Cid) (record : JsValue) :
    Except JsError IPLDRecordsCache := do
  if cache.has cid.toString then return cache
  let block ← ipld.encode cid.code record
  return cache.set cid { record, block }

def setBlock (cache : IPLDRecordsCache) (cid : Cid) (bytes : List UInt8) :
    Except JsError IPLDRecordsCache := do
  if cache.has cid.toString then return cache
  let record ← ipld.decode cid.code bytes
  return cache.set cid { record, block := bytes }

def setWithResolutionPath (cache : IPLDRecordsCache) (query : String) (entry : CacheEntry) :
    IPLDRecordsCache :=
  LruCache.set cache query entry

def getWithResolutionPath (cache : IPLDRecordsCache) (query : String) : Option CacheEntry :=
  cache.find? query

end IPLDRecordsCache

namespace Ipld

variable (ipld : Ipld) (codec : Nat) (bytes : List UInt8)

theorem parts_cidOf : (ipld.cidOf codec bytes).parts =
    (codec, 0x12 :: 0x20 :: ipld.digest sha2_256 bytes) := by
  have notV0 : (ipld.cidOf codec bytes).isV0 = false := by simp [cidOf, Cid.isV0]
  unfold Cid.parts
  rw [notV0, if_neg Bool.false_ne_true]
  exact varintDecode_varintBytes (Nat.lt_succ_self codec) _

@[simp] theorem code_cidOf : (ipld.cidOf codec bytes).code = codec := by
  rw [Cid.code, parts_cidOf]

@[simp] theorem hashes_cidOf : ipld.hashes (ipld.cidOf codec bytes) bytes = true := by
  unfold hashes Cid.multihash
  rw [parts_cidOf]
  exact decide_eq_true rfl

end Ipld

end Ceramic
