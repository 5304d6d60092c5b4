import Ceramic.Js
import Ceramic.Library.OrderedMap
import Mathlib.Data.Char
import Mathlib.Data.List.Lex

/-! The two key-value stores, one over `level` with its JSON encoding and one over `levelup` with S3
below it, and the map of values they are both to be. -/
namespace Ceramic

open OrderedMap (Write)

/-- Keys are ordered by their code points, which is the order of their UTF-8 bytes. -/
structure StoreKey where
  text : String
  deriving Repr

instance : LinearOrder StoreKey :=
  LinearOrder.lift' (fun key => key.text.toList) fun a b same => by
    cases a
    cases b
    exact congrArg StoreKey.mk (String.toList_inj.mp same)

abbrev StoreSearchParams := OrderedMap.Search StoreKey

/-- `JSON.stringify`, `JSON.parse` and `String(value)`. -/
structure JsonText where
  stringify : JsValue → String
  parse : String → Except JsError JsValue
  string : JsValue → String

structure StoreError where
  message : String
  notFound : Bool := false
  deriving DecidableEq, Repr

/-- What the databases below the stores hold. -/
abbrev LevelDatabase := OrderedMap StoreKey String

inductive KVCall where
  | put (key : StoreKey) (value : JsValue)
  | del (key : StoreKey)
  /-- The changes of a chained batch, at its `write()`. -/
  | batch (writes : List (Write StoreKey JsValue))
  | get (key : StoreKey)
  | exists? (key : StoreKey)
  | isEmpty (params : StoreSearchParams)
  | find (params : StoreSearchParams)
  | findKeys (params : StoreSearchParams)

/-- What a caller sees; of an error it is whether the key was not found. -/
inductive KVAnswer where
  | done
  | value (value : JsValue)
  | missing
  | truth (b : Bool)
  | entries (found : List (StoreKey × JsValue))
  | keys (found : List StoreKey)
  | failed (message : String)

namespace KVAnswer

def ofError (error : StoreError) : KVAnswer := if error.notFound then .missing else .failed error.message

def ofExcept (answer : α → KVAnswer) : Except StoreError α → KVAnswer
  | .ok a => answer a
  | .error e => ofError e

end KVAnswer

/-- The values of found entries, decoded; the first that cannot be makes the search fail. -/
def decodeEntries (json : JsonText) (found : List (StoreKey × String)) :
    Except StoreError (List (StoreKey × JsValue)) :=
  found.mapM fun entry =>
    match json.parse entry.2 with
    | .ok value => .ok (entry.1, value)
    | .error e => .error { message := e.message }

/-- The outcome of a change: what is answered, and the database after it. -/
def changed (level : LevelDatabase) : Except StoreError LevelDatabase → KVAnswer × LevelDatabase
  | .ok after => (.done, after)
  | .error e => (.ofError e, level)

namespace LevelKVStore

/-- `level` encodes the values it is given, all but `null` and `undefined`. -/
def encode (json : JsonText) (value : JsValue) : Except StoreError String :=
  if value.isNullish then .error { message := "ModuleError: Value cannot be null or undefined" }
  else .ok (json.stringify value)

def put (json : JsonText) (key : StoreKey) (value : JsValue) (level : LevelDatabase) : Except StoreError LevelDatabase :=
  match encode json value with
  | .ok text => .ok (level.put key text)
  | .error err =>
    .error { message := "Error storing key " ++ key.text ++ " to leveldb state store: " ++ err.message }

def get (json : JsonText) (key : StoreKey) (level : LevelDatabase) : Except StoreError JsValue :=
  match level.get? key with
  | none =>
    .error { message := "Error fetching key " ++ key.text ++ " from leveldb state store: Error: NotFound: ",
             notFound := true }
  | some text =>
    match json.parse text with
    | .ok value => .ok value
    | .error err =>
      .error { message := "Error fetching key " ++ key.text ++ " from leveldb state store: " ++ err.message }

def encodeWrite (json : JsonText) : Write StoreKey JsValue → Except StoreError (Write StoreKey String)
  | .put key value => (encode json value).map (.put key)
  | .del key => .ok (.del key)

/-- `batch().put(…).del(…).write()`. -/
def batch (json : JsonText) (writes : List (Write StoreKey JsValue)) (level : LevelDatabase) :
    Except StoreError LevelDatabase :=
  (writes.mapM (encodeWrite json)).map level.writeAll

def exists? (json : JsonText) (key : StoreKey) (level : LevelDatabase) : Except StoreError Bool :=
  match get json key level with
  -- `typeof val === 'string'`
  | .ok (.str _) => .ok true
  | .ok _ => .ok false
  | .error e => if e.notFound then .ok false else .error e

def find (json : JsonText) (params : StoreSearchParams) (level : LevelDatabase) :
    Except StoreError (List (StoreKey × JsValue)) :=
  decodeEntries json (level.search params)

def findKeys (params : StoreSearchParams) (level : LevelDatabase) : List StoreKey := (level.search params).map Prod.fst

def isEmpty (params : StoreSearchParams) (level : LevelDatabase) : Bool := (findKeys params level).length == 0

def call (json : JsonText) : KVCall → LevelDatabase → KVAnswer × LevelDatabase
  | .put key value, level => changed level (put json key value level)
  | .del key, level => (.done, level.del key)
  | .batch writes, level => changed level (batch json writes level)
  | .get key, level => (.ofExcept .value (get json key level), level)
  | .exists? key, level => (.ofExcept .truth (exists? json key level), level)
  | .isEmpty params, level => (.truth (isEmpty params level), level)
  | .find params, level => (.ofExcept .entries (find json params level), level)
  | .findKeys params, level => (.keys (findKeys params level), level)

end LevelKVStore

namespace S3KVStore

def put (json : JsonText) (key : StoreKey) (value : JsValue) (level : LevelDatabase) : LevelDatabase :=
  level.put key (json.stringify value)

def get (json : JsonText) (key : StoreKey) (level : LevelDatabase) : Except StoreError JsValue :=
  match level.get? key with
  | none => .error { message := "Key not found in database [" ++ key.text ++ "]", notFound := true }
  | some text =>
    match json.parse text with
    | .ok value => .ok value
    | .error e => .error { message := e.message }

/-- The batch is that of `levelup`: values are stored as their strings, without `JSON.stringify`. -/
def encodeWrite (json : JsonText) : Write StoreKey JsValue → Except StoreError (Write StoreKey String)
  | .put key value =>
    if value.isNullish then .error { message := "value cannot be `null` or `undefined`" }
    else .ok (.put key (json.string value))
  | .del key => .ok (.del key)

def batch (json : JsonText) (writes : List (Write StoreKey JsValue)) (level : LevelDatabase) :
    Except StoreError LevelDatabase :=
  (writes.mapM (encodeWrite json)).map level.writeAll

def exists? (key : StoreKey) (level : LevelDatabase) : Bool := (level.get? key).isSome

def find (json : JsonText) (params : StoreSearchParams) (level : LevelDatabase) :
    Except StoreError (List (StoreKey × JsValue)) :=
  decodeEntries json (level.search params)

def findKeys (params : StoreSearchParams) (level : LevelDatabase) : List StoreKey := (level.search params).map Prod.fst

def isEmpty (params : StoreSearchParams) (level : LevelDatabase) : Bool :=
  -- A limit of the caller's own comes after the `limit: 1`.
  let result := findKeys { params with limit := params.limit.or (some 1) } level
  decide (0 < result.length)

def call (json : JsonText) : KVCall → LevelDatabase → KVAnswer × LevelDatabase
  | .put key value, level => (.done, put json key value level)
  | .del key, level => (.done, level.del key)
  | .batch writes, level => changed level (batch json writes level)
  | .get key, level => (.ofExcept .value (get json key level), level)
  | .exists? key, level => (.truth (exists? key level), level)
  | .isEmpty params, level => (.truth (isEmpty params level), level)
  | .find params, level => (.ofExcept .entries (find json params level), level)
  | .findKeys params, level => (.keys (findKeys params level), level)

end S3KVStore

/-- The map of values a store is to be. -/
abbrev ValueMap := OrderedMap StoreKey JsValue

namespace ValueMap

def call : KVCall → ValueMap → KVAnswer × ValueMap
  | .put key value, m => (.done, m.put key value)
  | .del key, m => (.done, m.del key)
  | .batch writes, m => (.done, m.writeAll writes)
  | .get key, m => ((m.get? key).elim .missing .value, m)
  | .exists? key, m => (.truth (m.get? key).isSome, m)
  | .isEmpty params, m => (.truth (m.range params).isEmpty, m)
  | .find params, m => (.entries (m.search params), m)
  | .findKeys params, m => (.keys ((m.search params).map Prod.fst), m)

end ValueMap

namespace KVCall

/-- The changes a call makes to a map of values. -/
def writes : KVCall → List (Write StoreKey JsValue)
  | .put key value => [.put key value]
  | .del key => [.del key]
  | .batch writes => writes
  | _ => []

/-- The values a call is to store. -/
def values (call : KVCall) : List JsValue := call.writes.filterMap Write.value

end KVCall

/-- The answers to calls made one after the other. -/
def answers (call : KVCall → σ → KVAnswer × σ) : List KVCall → σ → List KVAnswer
  | [], _ => []
  | first :: rest, state => (call first state).1 :: answers call rest (call first state).2

namespace ValueMap

theorem call_state (call : KVCall) (m : ValueMap) : (ValueMap.call call m).2 = m.writeAll call.writes := by
  cases call <;> rfl

/-- After any calls, a key is there if the last change of it was a `put`, with the value put. -/
theorem get?_after (calls : List KVCall) (m : ValueMap) (key : StoreKey) :
    (calls.foldl (fun m call => (ValueMap.call call m).2) m).get? key =
      (OrderedMap.lastWrite (calls.flatMap KVCall.writes) key).getD (m.get? key) := by
  have whole : calls.foldl (fun m call => (ValueMap.call call m).2) m = m.writeAll (calls.flatMap KVCall.writes) := by
    induction calls generalizing m with
    | nil => rfl
    | cons call calls ih =>
      rw [List.foldl_cons, ih, call_state, List.flatMap_cons, OrderedMap.writeAll, OrderedMap.writeAll,
        OrderedMap.writeAll, List.foldl_append]
  rw [whole, OrderedMap.get?_writeAll]

end ValueMap

/-- The texts in the database are read as the values of the map. -/
def Decodes (json : JsonText) (level : LevelDatabase) (m : ValueMap) : Prop := level.map json.parse = m.map Except.ok

section

variable {json : JsonText} {level after : LevelDatabase} {m : ValueMap} {key : StoreKey} {value : JsValue}

theorem Decodes.get? (decodes : Decodes json level m) (key : StoreKey) :
    (level.get? key).map json.parse = (m.get? key).map Except.ok := by
  rw [← OrderedMap.get?_map, ← OrderedMap.get?_map, decodes]

theorem decodes_iff : Decodes json level m ↔ ∀ key, (level.get? key).map json.parse = (m.get? key).map Except.ok := by
  refine ⟨Decodes.get?, fun same => OrderedMap.ext fun key => ?_⟩
  rw [OrderedMap.get?_map, OrderedMap.get?_map, same key]

theorem Decodes.put (decodes : Decodes json level m) {text : String} (readBack : json.parse text = .ok value) :
    Decodes json (level.put key text) (m.put key value) := by
  unfold Decodes
  rw [OrderedMap.map_put, OrderedMap.map_put, decodes, readBack]

theorem Decodes.del (decodes : Decodes json level m) : Decodes json (level.del key) (m.del key) := by
  unfold Decodes
  rw [OrderedMap.map_del, OrderedMap.map_del, decodes]

theorem Decodes.search (decodes : Decodes json level m) (params : StoreSearchParams) :
    (level.search params).map (fun entry => (entry.1, json.parse entry.2)) =
      (m.search params).map fun entry => (entry.1, Except.ok entry.2) := by
  rw [← OrderedMap.search_map, ← OrderedMap.search_map, decodes]

theorem Decodes.keys (decodes : Decodes json level m) (params : StoreSearchParams) :
    (level.search params).map Prod.fst = (m.search params).map Prod.fst := by
  have same := congrArg (List.map Prod.fst) (decodes.search params)
  rwa [List.map_map, List.map_map] at same

theorem Decodes.entries (decodes : Decodes json level m) (params : StoreSearchParams) :
    decodeEntries json (level.search params) = .ok (m.search params) := by
  have same := decodes.search params
  unfold decodeEntries
  generalize m.search params = expected at same ⊢
  generalize level.search params = found at same ⊢
  induction found generalizing expected with
  | nil =>
    obtain rfl := List.map_eq_nil_iff.mp same.symm
    rfl
  | cons entry found ih =>
    cases expected with
    | nil => cases same
    | cons first expected =>
      obtain ⟨head, tail⟩ := List.cons.inj same
      obtain ⟨sameKey, isValue⟩ := Prod.mk.inj head
      rw [List.mapM_cons, isValue, ih expected tail, sameKey]
      rfl

/-- The search of `range` in which nothing is limited finds the same keys. -/
theorem Decodes.range (decodes : Decodes json level m) (params : StoreSearchParams) :
    level.range params = [] ↔ m.range params = [] := by
  have same := congrArg (OrderedMap.range · params) decodes
  rw [OrderedMap.range_map, OrderedMap.range_map] at same
  rw [← List.map_eq_nil_iff, same, List.map_eq_nil_iff]

/-- Under a key there is nothing in both, or a text and the value it is read as. -/
theorem Decodes.cases (decodes : Decodes json level m) (key : StoreKey) :
    (level.get? key = none ∧ m.get? key = none) ∨
      ∃ text value, level.get? key = some text ∧ m.get? key = some value ∧ json.parse text = .ok value := by
  have same := decodes.get? key
  cases found : level.get? key with
  | none =>
    rw [found] at same
    exact .inl ⟨rfl, Option.map_eq_none_iff.mp same.symm⟩
  | some text =>
    rw [found] at same
    obtain ⟨value, isValue, isText⟩ := Option.map_eq_some_iff.mp same.symm
    exact .inr ⟨text, value, rfl, isValue, isText.symm⟩

theorem Decodes.levelGet (decodes : Decodes json level m) (key : StoreKey) :
    KVAnswer.ofExcept .value (LevelKVStore.get json key level) = (m.get? key).elim .missing .value := by
  unfold LevelKVStore.get
  rcases decodes.cases key with ⟨noText, noValue⟩ | ⟨text, value, isText, isValue, parsed⟩
  · rw [noText, noValue]
    rfl
  · rw [isText, isValue]
    simp only [parsed]
    rfl

theorem Decodes.s3Get (decodes : Decodes json level m) (key : StoreKey) :
    KVAnswer.ofExcept .value (S3KVStore.get json key level) = (m.get? key).elim .missing .value := by
  unfold S3KVStore.get
  rcases decodes.cases key with ⟨noText, noValue⟩ | ⟨text, value, isText, isValue, parsed⟩
  · rw [noText, noValue]
    rfl
  · rw [isText, isValue]
    simp only [parsed]
    rfl

/-- Changes keep the reading if every value that stays is read back from its text. -/
theorem Decodes.writeAll_iff (decodes : Decodes json level m) (writes : List (Write StoreKey JsValue))
    (encode : JsValue → String) :
    Decodes json (level.writeAll (writes.map (Write.map encode))) (m.writeAll writes) ↔
      ∀ key value, OrderedMap.lastWrite writes key = some (some value) → json.parse (encode value) = .ok value := by
  rw [decodes_iff]
  simp only [OrderedMap.get?_writeAll, OrderedMap.lastWrite_map]
  constructor
  · intro same key value isLast
    have here := same key
    rw [isLast] at here
    exact Option.some.inj here
  · intro readBack key
    cases isLast : OrderedMap.lastWrite writes key with
    | none => exact decodes.get? key
    | some left =>
      cases left with
      | none => rfl
      | some value => exact congrArg some (readBack key value isLast)

/-- No change stores `null` or `undefined`. -/
def NoNull (writes : List (Write StoreKey JsValue)) : Prop :=
  ∀ change ∈ writes, ∀ value ∈ change.value, value.isNullish = false

theorem ofError_ne_done (e : StoreError) : KVAnswer.ofError e ≠ .done := by
  unfold KVAnswer.ofError
  split <;> exact nofun

theorem set_put_iff (key : StoreKey) (value : JsValue) :
    (∀ v ∈ (Write.put key value).value, v.isNullish = false) ↔ value.isNullish = false :=
  ⟨fun all => all value rfl, fun set _ isValue => Option.some.inj isValue ▸ set⟩

theorem mapM_encodeWrite {encodeWrite : Write StoreKey JsValue → Except StoreError (Write StoreKey String)}
    {text : JsValue → String}
    (encodes : ∀ change coded, encodeWrite change = .ok coded ↔
      coded = change.map text ∧ ∀ value ∈ change.value, value.isNullish = false)
    (writes : List (Write StoreKey JsValue)) (coded : List (Write StoreKey String)) :
    writes.mapM encodeWrite = .ok coded ↔ coded = writes.map (Write.map text) ∧ NoNull writes := by
  induction writes generalizing coded with
  | nil =>
    have none : NoNull [] := fun change member => nomatch member
    rw [List.mapM_nil, and_iff_left none]
    exact ⟨fun same => (Except.ok.inj same).symm, fun same => congrArg Except.ok same.symm⟩
  | cons change writes ih =>
    rw [List.mapM_cons]
    constructor
    · intro succeeded
      obtain ⟨first, isFirst, rest⟩ := bind_eq_ok.mp succeeded
      obtain ⟨others, areOthers, same⟩ := bind_eq_ok.mp rest
      obtain rfl := Except.ok.inj same
      obtain ⟨rfl, firstSet⟩ := (encodes change first).mp isFirst
      obtain ⟨rfl, othersSet⟩ := (ih others).mp areOthers
      exact ⟨rfl, List.forall_mem_cons.mpr ⟨firstSet, othersSet⟩⟩
    · rintro ⟨rfl, set⟩
      obtain ⟨firstSet, othersSet⟩ := List.forall_mem_cons.mp set
      exact bind_eq_ok.mpr ⟨_, (encodes change _).mpr ⟨rfl, firstSet⟩,
        bind_eq_ok.mpr ⟨_, (ih _).mpr ⟨rfl, othersSet⟩, rfl⟩⟩

/-- A batch does what it does to a map if nothing it stores is `null` and what stays is read back. -/
theorem batch_iff {encodeWrite : Write StoreKey JsValue → Except StoreError (Write StoreKey String)}
    {text : JsValue → String}
    (encodes : ∀ change coded, encodeWrite change = .ok coded ↔
      coded = change.map text ∧ ∀ value ∈ change.value, value.isNullish = false)
    (decodes : Decodes json level m) (writes : List (Write StoreKey JsValue)) :
    (changed level ((writes.mapM encodeWrite).map level.writeAll)).1 = .done ∧
      Decodes json (changed level ((writes.mapM encodeWrite).map level.writeAll)).2 (m.writeAll writes) ↔
    NoNull writes ∧
      ∀ key value, OrderedMap.lastWrite writes key = some (some value) → json.parse (text value) = .ok value := by
  rw [← decodes.writeAll_iff]
  cases coded : writes.mapM encodeWrite with
  | error e =>
    have unset : ¬ NoNull writes := by
      intro set
      cases coded.symm.trans ((mapM_encodeWrite encodes writes _).mpr ⟨rfl, set⟩)
    exact ⟨fun done => absurd done.1 (ofError_ne_done e), fun set => absurd set.1 unset⟩
  | ok stored =>
    obtain ⟨rfl, set⟩ := (mapM_encodeWrite encodes writes stored).mp coded
    exact ⟨fun done => ⟨set, done.2⟩, fun both => ⟨rfl, both.2⟩⟩

theorem mem_of_lastWrite {writes : List (Write StoreKey JsValue)} {left : Option JsValue}
    (isLast : OrderedMap.lastWrite writes key = some left) : ∃ change ∈ writes, change.value = left := by
  obtain ⟨change, found, same⟩ := Option.map_eq_some_iff.mp isLast
  exact ⟨change, List.mem_reverse.mp (List.mem_of_find?_eq_some found), same⟩

end

namespace LevelKVStore

/-- The calls this store answers as the map does. -/
def Meets (m : ValueMap) : KVCall → Prop
  | .put _ value => value.isNullish = false
  | .batch writes => NoNull writes
  | .exists? key => ∀ value, m.get? key = some value → ∃ text, value = .str text
  | .isEmpty params => params.limit = some 0 → m.range params = []
  | _ => True

variable {json : JsonText} {level : LevelDatabase} {m : ValueMap}

theorem encode_set (json : JsonText) {value : JsValue} (set : value.isNullish = false) :
    encode json value = .ok (json.stringify value) := if_neg (Bool.eq_false_iff.mp set)

theorem encode_null (json : JsonText) {value : JsValue} (null : value.isNullish = true) :
    encode json value = .error { message := "ModuleError: Value cannot be null or undefined" } := if_pos null

theorem encodeWrite_iff (json : JsonText) (change : Write StoreKey JsValue) (coded : Write StoreKey String) :
    encodeWrite json change = .ok coded ↔
      coded = change.map json.stringify ∧ ∀ value ∈ change.value, value.isNullish = false := by
  cases change with
  | put key value =>
    rw [encodeWrite, set_put_iff]
    cases null : value.isNullish
    · rw [encode_set json null]
      exact ⟨fun same => ⟨(Except.ok.inj same).symm, rfl⟩, fun both => congrArg Except.ok both.1.symm⟩
    · rw [encode_null json null]
      exact ⟨nofun, fun both => nomatch both.2⟩
  | del key =>
    refine ⟨fun same => ⟨(Except.ok.inj same).symm, nofun⟩, ?_⟩
    rintro ⟨rfl, -⟩
    rfl

theorem exists?_iff (decodes : Decodes json level m) (key : StoreKey) :
    KVAnswer.ofExcept .truth (exists? json key level) = .truth (m.get? key).isSome ↔
      ∀ value, m.get? key = some value → ∃ text, value = .str text := by
  unfold exists? get
  rcases decodes.cases key with ⟨noText, noValue⟩ | ⟨text, value, isText, isValue, parsed⟩
  · rw [noText, noValue]
    simp [KVAnswer.ofExcept]
  · rw [isText, isValue]
    simp only [parsed]
    cases value <;> simp [KVAnswer.ofExcept]

theorem isEmpty_iff (decodes : Decodes json level m) (params : StoreSearchParams) :
    isEmpty params level = (m.range params).isEmpty ↔ (params.limit = some 0 → m.range params = []) := by
  have none : isEmpty params level = true ↔ m.range params = [] ∨ params.limit = some 0 := by
    unfold isEmpty findKeys
    rw [decodes.keys, beq_iff_eq, List.length_map, List.length_eq_zero_iff, OrderedMap.search_eq_nil_iff]
  rw [Bool.eq_iff_iff, none, List.isEmpty_iff]
  constructor
  · exact fun same limited => same.mp (.inr limited)
  · exact fun empty => ⟨fun either => either.elim id empty, .inl⟩

/-- A call is answered as the map answers it, and leaves what the map then holds, if it is one of these. -/
theorem call_iff (decodes : Decodes json level m) (call : KVCall)
    (readBack : ∀ value ∈ call.values, json.parse (json.stringify value) = .ok value) :
    (LevelKVStore.call json call level).1 = (ValueMap.call call m).1 ∧
      Decodes json (LevelKVStore.call json call level).2 (ValueMap.call call m).2 ↔ Meets m call := by
  cases call with
  | put key value =>
    have stored : Decodes json (level.put key (json.stringify value)) (m.put key value) :=
      decodes.put (readBack value List.mem_cons_self)
    cases null : value.isNullish
    · have done : put json key value level = .ok (level.put key (json.stringify value)) := by
        unfold put
        rw [encode_set json null]
      rw [LevelKVStore.call, done]
      exact ⟨fun _ => null, fun _ => ⟨rfl, stored⟩⟩
    · obtain ⟨e, failed⟩ : ∃ e, put json key value level = .error e := by
        unfold put
        rw [encode_null json null]
        exact ⟨_, rfl⟩
      rw [LevelKVStore.call, failed]
      exact ⟨fun done => (ofError_ne_done e done.1).elim, fun set => Bool.noConfusion (null.symm.trans set)⟩
  | del key => exact ⟨fun _ => trivial, fun _ => ⟨rfl, decodes.del⟩⟩
  | batch writes =>
    refine (batch_iff (encodeWrite_iff json) decodes writes).trans (and_iff_left ?_)
    intro key value isLast
    obtain ⟨change, member, isValue⟩ := mem_of_lastWrite isLast
    exact readBack value (List.mem_filterMap.mpr ⟨change, member, isValue⟩)
  | get key => exact ⟨fun _ => trivial, fun _ => ⟨decodes.levelGet key, decodes⟩⟩
  | exists? key => exact (and_iff_left decodes).trans (exists?_iff decodes key)
  | isEmpty params =>
    refine (and_iff_left decodes).trans (Iff.trans ?_ (isEmpty_iff decodes params))
    exact ⟨fun same => KVAnswer.truth.inj same, congrArg KVAnswer.truth⟩
  | find params =>
    exact ⟨fun _ => trivial, fun _ => ⟨congrArg (KVAnswer.ofExcept .entries) (decodes.entries params), decodes⟩⟩
  | findKeys params => exact ⟨fun _ => trivial, fun _ => ⟨congrArg KVAnswer.keys (decodes.keys params), decodes⟩⟩

end LevelKVStore

namespace S3KVStore

/-- The calls this store answers as the map does: to be asked whether it is empty is almost never one. -/
def Meets (json : JsonText) (m : ValueMap) : KVCall → Prop
  | .batch writes => NoNull writes ∧ ∀ key value, OrderedMap.lastWrite writes key = some (some value) →
      json.parse (json.string value) = .ok value
  | .isEmpty params => params.limit = some 0 ∧ m.range params ≠ []
  | _ => True

variable {json : JsonText} {level : LevelDatabase} {m : ValueMap}

theorem encodeWrite_iff (json : JsonText) (change : Write StoreKey JsValue) (coded : Write StoreKey String) :
    encodeWrite json change = .ok coded ↔
      coded = change.map json.string ∧ ∀ value ∈ change.value, value.isNullish = false := by
  cases change with
  | put key value =>
    rw [encodeWrite, set_put_iff]
    cases null : value.isNullish
    · exact ⟨fun same => ⟨(Except.ok.inj same).symm, rfl⟩, fun both => congrArg Except.ok both.1.symm⟩
    · exact ⟨nofun, fun both => nomatch both.2⟩
  | del key =>
    refine ⟨fun same => ⟨(Except.ok.inj same).symm, nofun⟩, ?_⟩
    rintro ⟨rfl, -⟩
    rfl

/-- The test is the other way round, except for a search that is to find nothing. -/
theorem isEmpty_iff (decodes : Decodes json level m) (params : StoreSearchParams) :
    isEmpty params level = (m.range params).isEmpty ↔ params.limit = some 0 ∧ m.range params ≠ [] := by
  have sameRange : m.range { params with limit := params.limit.or (some 1) } = m.range params := rfl
  have limited : params.limit.or (some 1) = some 0 ↔ params.limit = some 0 := by
    cases params.limit <;> simp
  have found : isEmpty params level = true ↔ ¬(m.range params = [] ∨ params.limit = some 0) := by
    unfold isEmpty findKeys
    rw [decodes.keys, decide_eq_true_eq, List.length_map, List.length_pos_iff, Ne,
      OrderedMap.search_eq_nil_iff, sameRange, limited]
  rw [Bool.eq_iff_iff, found, List.isEmpty_iff]
  tauto

theorem call_iff (decodes : Decodes json level m) (call : KVCall)
    (readBack : ∀ value ∈ call.values, json.parse (json.stringify value) = .ok value) :
    (S3KVStore.call json call level).1 = (ValueMap.call call m).1 ∧
      Decodes json (S3KVStore.call json call level).2 (ValueMap.call call m).2 ↔ Meets json m call := by
  cases call with
  | put key value => exact ⟨fun _ => trivial, fun _ => ⟨rfl, decodes.put (readBack value List.mem_cons_self)⟩⟩
  | del key => exact ⟨fun _ => trivial, fun _ => ⟨rfl, decodes.del⟩⟩
  | batch writes => exact batch_iff (encodeWrite_iff json) decodes writes
  | get key => exact ⟨fun _ => trivial, fun _ => ⟨decodes.s3Get key, decodes⟩⟩
  | exists? key =>
    refine ⟨fun _ => trivial, fun _ => ⟨congrArg KVAnswer.truth ?_, decodes⟩⟩
    unfold exists?
    rw [← Option.isSome_map (f := json.parse), decodes.get? key, Option.isSome_map]
  | isEmpty params =>
    refine (and_iff_left decodes).trans (Iff.trans ?_ (isEmpty_iff decodes params))
    exact ⟨fun same => KVAnswer.truth.inj same, congrArg KVAnswer.truth⟩
  | find params =>
    exact ⟨fun _ => trivial, fun _ => ⟨congrArg (KVAnswer.ofExcept .entries) (decodes.entries params), decodes⟩⟩
  | findKeys params => exact ⟨fun _ => trivial, fun _ => ⟨congrArg KVAnswer.keys (decodes.keys params), decodes⟩⟩

end S3KVStore

/-- Each call meets a condition on the map as it is before the call. -/
def AllMeet (Meets : ValueMap → KVCall → Prop) : List KVCall → ValueMap → Prop
  | [], _ => True
  | call :: calls, m => Meets m call ∧ AllMeet Meets calls (ValueMap.call call m).2

/-- A store that answers single calls as the map does answers runs of them as the map does. -/
theorem answers_of_call {json : JsonText} {call : KVCall → LevelDatabase → KVAnswer × LevelDatabase}
    {Meets : ValueMap → KVCall → Prop} {Stores : KVCall → Prop}
    (meets : ∀ {level m} c, Decodes json level m → Stores c → Meets m c →
      (call c level).1 = (ValueMap.call c m).1 ∧ Decodes json (call c level).2 (ValueMap.call c m).2)
    {calls : List KVCall} {level : LevelDatabase} {m : ValueMap} (decodes : Decodes json level m)
    (stores : ∀ c ∈ calls, Stores c) (allMeet : AllMeet Meets calls m) :
    answers call calls level = answers ValueMap.call calls m := by
  induction calls generalizing level m with
  | nil => rfl
  | cons first rest ih =>
    obtain ⟨storesFirst, storesRest⟩ := List.forall_mem_cons.mp stores
    obtain ⟨same, after⟩ := meets first decodes storesFirst allMeet.1
    exact congrArg₂ List.cons same (ih after storesRest allMeet.2)

/-- Both stores answer as the map does as long as the calls meet their conditions. -/
theorem stores_answer_as_map (json : JsonText) (calls : List KVCall)
    (readBack : ∀ call ∈ calls, ∀ value ∈ call.values, json.parse (json.stringify value) = .ok value) :
    (AllMeet LevelKVStore.Meets calls .empty →
      answers (LevelKVStore.call json) calls .empty = answers ValueMap.call calls .empty) ∧
    (AllMeet (S3KVStore.Meets json) calls .empty →
      answers (S3KVStore.call json) calls .empty = answers ValueMap.call calls .empty) :=
  ⟨answers_of_call (fun call decodes stores => (LevelKVStore.call_iff decodes call stores).mpr) rfl readBack,
    answers_of_call (fun call decodes stores => (S3KVStore.call_iff decodes call stores).mpr) rfl readBack⟩

namespace StoredCount

def count : StoreKey := ⟨"count"⟩

/-- The texts of a number and of a string. -/
def json : JsonText where
  stringify value := if value = .str "1" then "\"1\"" else "1"
  parse text := if text = "\"1\"" then .ok (.str "1") else .ok (.num 1)
  string _ := "1"

theorem string_answered :
    answers (LevelKVStore.call json) [.put count (.str "1"), .exists? count] .empty = [.done, .truth true] ∧
    answers (S3KVStore.call json) [.put count (.str "1"), .exists? count] .empty = [.done, .truth true] := by
  have readBack : ∀ call ∈ [KVCall.put count (.str "1"), .exists? count], ∀ value ∈ call.values,
      json.parse (json.stringify value) = .ok value := by
    intro call member value stored
    rcases List.mem_pair.mp member with rfl | rfl
    · obtain rfl := List.mem_singleton.mp stored
      rfl
    · cases stored
  obtain ⟨level, s3⟩ := stores_answer_as_map json _ readBack
  constructor
  · refine (level ⟨rfl, fun value isValue => ?_, trivial⟩).trans rfl
    exact ⟨"1", (Option.some.inj isValue).symm⟩
  · exact (s3 ⟨trivial, trivial, trivial⟩).trans rfl

end StoredCount

/-- A number that is stored does not exist in the one store, and the other is not empty when it is. -/
theorem stores_disagree :
    (¬∀ (json : JsonText) (calls : List KVCall),
      (∀ call ∈ calls, ∀ value ∈ call.values, json.parse (json.stringify value) = .ok value) →
      answers (LevelKVStore.call json) calls .empty = answers ValueMap.call calls .empty) ∧
    ¬∀ (json : JsonText) (calls : List KVCall),
      (∀ call ∈ calls, ∀ value ∈ call.values, json.parse (json.stringify value) = .ok value) →
      answers (S3KVStore.call json) calls .empty = answers ValueMap.call calls .empty := by
  constructor
  · intro agree
    have same := agree StoredCount.json [.put StoredCount.count (.num 1), .exists? StoredCount.count] (by
      intro call member value stored
      rcases List.mem_pair.mp member with rfl | rfl
      · obtain rfl := List.mem_singleton.mp stored
        rfl
      · cases stored)
    have found : false = true := KVAnswer.truth.inj (Option.some.inj (congrArg (·[1]?) same))
    cases found
  · intro agree
    have same := agree StoredCount.json [.isEmpty {}] (fun call member value stored => by
      obtain rfl := List.mem_singleton.mp member
      cases stored)
    have empty : false = true := KVAnswer.truth.inj (List.cons.inj same).1
    cases empty

end Ceramic
