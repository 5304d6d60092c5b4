import Ceramic.Multiformats

/-! Stream references and their textual form. A `CommitID` names a stream at one
commit; its text differs from that of the stream it belongs to. -/
namespace Ceramic

def STREAMID_CODEC : Nat := 206

/-- The registered stream type codes. -/
def TILE_TYPE_ID : Nat := 0
def CAIP10_LINK_TYPE_ID : Nat := 1
def MODEL_TYPE_ID : Nat := 2
def MODEL_INSTANCE_TYPE_ID : Nat := 3

structure StreamID where
  type : Nat
  cid : Cid
  deriving DecidableEq, Repr

namespace StreamID

def bytes (id : StreamID) : List UInt8 :=
  varintEncode STREAMID_CODEC ++ varintEncode id.type ++ id.cid.bytes

def toString (id : StreamID) : String := String.ofList (base36Encode id.bytes)

end StreamID

/-- `commit = none` stands for the genesis commit. -/
structure CommitID where
  type : Nat
  cid : Cid
  commit : Option Cid
  deriving DecidableEq, Repr

namespace CommitID

/-- The constructor: a commit equal to the genesis is stored as `null`. -/
def make (type : Nat) (cid : Cid) (commit : Option Cid) : CommitID :=
  ⟨type, cid, match commit with
    | none => none
    | some c => if c = cid then none else some c⟩

def baseID (id : CommitID) : StreamID := ⟨id.type, id.cid⟩

/-- The `commit` getter. -/
def commitCid (id : CommitID) : Cid := id.commit.getD id.cid

def bytes (id : CommitID) : List UInt8 :=
  varintEncode STREAMID_CODEC ++ varintEncode id.type ++ id.cid.bytes ++
    match id.commit with
    | none => [0]
    | some c => c.bytes

def toString (id : CommitID) : String := String.ofList (base36Encode id.bytes)

/-- The text of a commit of a stream is not the text of the stream. -/
theorem toString_ne_baseID (id : CommitID) (nonempty : ∀ commit ∈ id.commit, commit.bytes ≠ []) :
    id.toString ≠ id.baseID.toString := by
  intro same
  have base : id.baseID.bytes = (0xCE : UInt8) :: 0x01 :: (varintEncode id.type ++ id.cid.bytes) := rfl
  obtain ⟨behind, bytes, more⟩ : ∃ behind, id.bytes = id.baseID.bytes ++ behind ∧ behind ≠ [] := by
    unfold CommitID.bytes
    cases commit : id.commit with
    | none => exact ⟨[0], rfl, by simp⟩
    | some cid => exact ⟨cid.bytes, rfl, nonempty cid commit⟩
  have equal := bigEndian_of_base36Encode (by rw [bytes, base]; rfl) (by rw [base]; rfl)
    (String.ofList_injective same)
  have positive : 0 < bigEndian id.baseID.bytes := by
    have front : id.baseID.bytes = [0xCE] ++ ((0x01 : UInt8) :: (varintEncode id.type ++ id.cid.bytes)) := rfl
    rw [front, bigEndian_append]
    exact Nat.add_pos_left (Nat.mul_pos (by decide) (Nat.pow_pos (by omega))) _
  rw [bytes, bigEndian_append] at equal
  have scaled : bigEndian id.baseID.bytes < bigEndian id.baseID.bytes * 256 ^ behind.length := by
    have large : 1 < 256 ^ behind.length := Nat.one_lt_pow (by simpa using more) (by omega)
    exact (Nat.lt_mul_iff_one_lt_right positive).mpr large
  omega

end CommitID

/-- `StreamID | CommitID`. -/
inductive StreamRef where
  | streamID (id : StreamID)
  | commitID (id : CommitID)
  deriving DecidableEq, Repr

namespace StreamRef

def baseID : StreamRef → StreamID
  | .streamID id => id
  | .commitID id => id.baseID

def toString : StreamRef → String
  | .streamID id => id.toString
  | .commitID id => id.toString

end StreamRef

end Ceramic
