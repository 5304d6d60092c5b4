import Ceramic.Js

/-! The stream data model: commits as they are fetched, log entries and stream
states as they are kept. -/
namespace Ceramic

inductive SignatureStatus where
  | GENESIS | PARTIAL | SIGNED
  deriving DecidableEq, Repr

inductive AnchorStatus where
  | NOT_REQUESTED | PENDING | PROCESSING | ANCHORED | FAILED | REPLACED
  deriving DecidableEq, Repr

inductive EventType where
  | INIT | DATA | TIME
  deriving DecidableEq, Repr

structure AnchorProof where
  chainId : String
  txHash : Cid
  root : Cid
  txType : Option String
  deriving DecidableEq, Repr

/-- The fields of a capability that the stream code reads: the resources it
covers and the text of its expiration time. -/
structure Cacao where
  resources : List String
  exp : Option String
  deriving DecidableEq, Repr

/-- A signed commit as stored: a JWS whose payload is the linked block. -/
structure DagJWS where
  link : Cid
  protectedHeader : String
  signature : String
  deriving DecidableEq, Repr

/-- A commit's payload. Which properties are present tells the kinds apart:
a genesis has no `prev`, an anchor commit has a `proof`. -/
structure Commit where
  id : Option Cid := none
  prev : Option Cid := none
  header : Option JsObject := none
  data : JsValue := .undefined
  proof : Option Cid := none
  path : String := ""
  deriving DecidableEq, Repr

structure LogEntry where
  cid : Cid
  type : EventType
  timestamp : Timestamp := .undefined
  expirationTime : Option Int := none
  deriving DecidableEq, Repr

structure CommitData where
  cid : Cid
  type : EventType
  timestamp : Timestamp := .undefined
  expirationTime : Option Int := none
  commit : Commit
  envelope : Option DagJWS := none
  proof : Option AnchorProof := none
  anchorValidationError : Option JsError := none
  capability : Option Cacao := none
  deriving DecidableEq, Repr

/-- `CommitData` extends `LogEntry`. -/
def CommitData.toLogEntry (c : CommitData) : LogEntry :=
  ⟨c.cid, c.type, c.timestamp, c.expirationTime⟩

/-- An array that holds at least one element. -/
structure NonEmptyArray (α : Type) where
  toList : List α
  nonempty : toList ≠ []
  deriving DecidableEq

namespace NonEmptyArray

instance [Repr α] : Repr (NonEmptyArray α) := ⟨fun a => reprPrec a.toList⟩

@[ext] theorem ext {a b : NonEmptyArray α} (h : a.toList = b.toList) : a = b := by
  cases a; cases b; simpa using h

def singleton (x : α) : NonEmptyArray α := ⟨[x], by simp⟩

/-- `array[0]`. -/
def first (a : NonEmptyArray α) : α := a.toList.head a.nonempty

/-- `array[array.length - 1]`. -/
def last (a : NonEmptyArray α) : α := a.toList.getLast a.nonempty

def push (a : NonEmptyArray α) (x : α) : NonEmptyArray α := ⟨a.toList ++ [x], by simp⟩

@[simp] theorem toList_singleton (x : α) : (singleton x).toList = [x] := rfl
@[simp] theorem first_singleton (x : α) : (singleton x).first = x := rfl
@[simp] theorem last_singleton (x : α) : (singleton x).last = x := rfl
@[simp] theorem toList_push (a : NonEmptyArray α) (x : α) : (a.push x).toList = a.toList ++ [x] := rfl
@[simp] theorem last_push (a : NonEmptyArray α) (x : α) : (a.push x).last = x := by
  simp [last, push]

@[simp] theorem first_push (a : NonEmptyArray α) (x : α) : (a.push x).first = a.first := by
  simp [first, push, List.head_append_of_ne_nil a.nonempty]

theorem head?_toList (a : NonEmptyArray α) : a.toList.head? = some a.first :=
  List.head?_eq_some_head a.nonempty

theorem getLast?_toList (a : NonEmptyArray α) : a.toList.getLast? = some a.last :=
  List.getLast?_eq_some_getLast a.nonempty

end NonEmptyArray

/-- Metadata is an open record: stream types keep what their genesis header holds. -/
abbrev StreamMetadata := JsObject

structure StreamNext where
  content : Option JsValue := none
  metadata : Option StreamMetadata := none
  deriving DecidableEq, Repr

structure StreamState where
  type : Nat
  content : JsValue
  next : Option StreamNext := none
  metadata : StreamMetadata
  signature : SignatureStatus
  anchorStatus : AnchorStatus
  anchorProof : Option AnchorProof := none
  log : NonEmptyArray LogEntry
  deriving DecidableEq, Repr

end Ceramic
