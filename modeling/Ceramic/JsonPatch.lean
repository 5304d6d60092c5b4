import Ceramic.Js

/-! The JSON patches commits carry, as the package that applies them documents it: operations one after
the other, each at a pointer of a JSON document. What happens inside values that are no plain objects
is left open. -/
namespace Ceramic

open JsObject

namespace JsObject

theorem get_set_self (o : JsObject) (key : String) (value : JsValue) : get (set o key value) key = value := by
  rw [JsObject.get, get?_set_self]
  rfl

theorem get_set_other (o : JsObject) {key other : String} (apart : key ≠ other) (value : JsValue) :
    get (set o key value) other = get o other := by
  rw [JsObject.get, get?_set_other o apart]
  rfl

theorem get_delete_self (o : JsObject) (key : String) : get (delete o key) key = .undefined := by
  have absent : get? (delete o key) key = none :=
    get?_eq_none fun field member => by simpa using (List.mem_filter.mp member).2
  rw [JsObject.get, absent]
  rfl

theorem get_delete_other (o : JsObject) {key other : String} (apart : key ≠ other) :
    get (delete o key) other = get o other := by
  unfold JsObject.get delete
  induction o with
  | nil => rfl
  | cons field o ih =>
    by_cases gone : field.1 = key
    · have otherKey : field.1 ≠ other := fun same => apart (gone.symm.trans same)
      rw [List.filter_cons_of_neg (by simp [gone]), get?_cons, if_neg otherKey]
      exact ih
    · rw [List.filter_cons_of_pos (by simp [gone]), get?_cons, get?_cons]
      by_cases here : field.1 = other
      · simp [here]
      · simpa [here] using ih

end JsObject

/-- A field of a document. -/
def JsValue.fieldOf (document : JsValue) (field : String) : JsValue :=
  match document with
  | .obj fields => JsObject.get fields field
  | _ => .undefined

namespace JsonPatch

/-- `~1` stands for a slash in a key, and `~0` for a tilde. -/
def unescape : List Char → List Char
  | '~' :: '1' :: rest => '/' :: unescape rest
  | '~' :: '0' :: rest => '~' :: unescape rest
  | c :: rest => c :: unescape rest
  | [] => []

/-- The keys a pointer leads through. What stands before its first slash is not looked at, and where
there is no slash the key is read past the end of the list. -/
def pointerKeys (pointer : String) : List String :=
  if pointer = "" then []
  else match (pointer.toList.splitOn '/').drop 1 with
    | [] => ["undefined"]
    | keys => keys.map fun key => String.ofList (unescape key)

inductive Change where
  | add (value : JsValue)
  | replace (value : JsValue)
  | remove

/-- What a change of one property makes of an object. -/
def Change.ofObject (fields : JsObject) (key : String) : Change → JsObject
  | .add value | .replace value => JsObject.set fields key value
  | .remove => JsObject.delete fields key

/-- What the documentation leaves open, or what no JSON patch has: reading and changing arrays and other
values that are no plain objects (the change also gives what stood there before), pointers to copy
from that are no text, and patches that are no list. A value that is no object stays none. -/
structure Unspecified where
  read : JsValue → List String → Except JsError JsValue
  write : Change → JsValue → List String → Except JsError (JsValue × JsValue)
  copied : JsValue → JsValue → Except JsError JsValue
  patch : JsValue → JsValue → Except JsError JsValue
  write_noObject : ∀ {change value keys before after}, (∀ fields, value ≠ .obj fields) →
    write change value keys = .ok (before, after) → ∀ fields, after ≠ .obj fields

/-- A change that is refused leaves no object. -/
theorem noObject_of_refused {value before after : JsValue} (_ : ∀ fields, value ≠ .obj fields)
    (written : Except.error (JsError.mk "") = Except.ok (before, after)) : ∀ fields, after ≠ .obj fields := by
  cases written

variable (unspecified : Unspecified)

def read : List String → JsValue → Except JsError JsValue
  | [], value => .ok value
  | key :: keys, .obj fields => read keys (JsObject.get fields key)
  | _, .undefined => .error ⟨"Cannot read properties of undefined"⟩
  | _, .null => .error ⟨"Cannot read properties of null"⟩
  | keys, value => unspecified.read value keys

/-- A change below a value that is no object. -/
def writeElsewhere (change : Change) (keys : List String) : JsValue → Except JsError (JsValue × JsValue)
  | .undefined => .error ⟨"Cannot set properties of undefined"⟩
  | .null => .error ⟨"Cannot set properties of null"⟩
  | value => unspecified.write change value keys

/-- What stood at the last key, and the value with the change made. -/
def write (change : Change) : List String → JsValue → Except JsError (JsValue × JsValue)
  | [], value => .ok (value, value)
  | key :: keys, value =>
    match value with
    | .obj fields =>
      if keys.isEmpty then .ok (JsObject.get fields key, .obj (change.ofObject fields key))
      else do
        let (before, child) ← write change keys (JsObject.get fields key)
        return (before, .obj (JsObject.set fields key child))
    | value => writeElsewhere unspecified change (key :: keys) value

def change (change : Change) (keys : List String) (document : JsValue) : Except JsError JsValue :=
  (write unspecified change keys document).map Prod.snd

/-- `(pointer || "").split('/')`. -/
def keysOf : JsValue → Except JsError (List String)
  | .str pointer => .ok (pointerKeys pointer)
  | pointer => if pointer.truthy then .error ⟨"path.split is not a function"⟩ else .ok ["undefined"]

/-- The property of the table of operations that a value names; a list of one name names it too. -/
def nameOf : JsValue → Option String
  | .str name => some name
  | .arr [value] => nameOf value
  | _ => none

def copiedValue (document : JsValue) : JsValue → Except JsError JsValue
  | .str pointer => read unspecified (pointerKeys pointer) document
  | pointer => unspecified.copied pointer document

/-- An operation on the document as a whole. -/
def applyToRoot (entry : JsValue) (document : JsValue) : Except JsError JsValue := do
  match ← entry.prop "op" with
  | .str "add" | .str "replace" => entry.prop "value"
  | .str "remove" => return .null
  | .str "move" | .str "copy" => copiedValue unspecified document (← entry.prop "from")
  | _ => return document

/-- Moving the document into itself is ruled out. -/
def applyMove (keys : List String) (entry : JsValue) (document : JsValue) : Except JsError JsValue := do
  match ← keysOf (← entry.prop "from") with
  | [] => throw ⟨"Cannot move the root of the document"⟩
  | source =>
    let (moved, without) ← write unspecified .remove source document
    change unspecified (.add moved) keys without

def applyOperation (document : JsValue) (entry : JsValue) : Except JsError JsValue := do
  let path ← entry.prop "path"
  if path = .str "" then applyToRoot unspecified entry document
  else
    let keys ← keysOf path
    match nameOf (← entry.prop "op") with
    | some "add" => do change unspecified (.add (← entry.prop "value")) keys document
    | some "replace" => do change unspecified (.replace (← entry.prop "value")) keys document
    | some "remove" => change unspecified .remove keys document
    | some "move" => applyMove unspecified keys entry document
    | some "copy" => do
      change unspecified (.add (← copiedValue unspecified document (← entry.prop "from"))) keys document
    | some "test" | some "_get" => return document
    | _ => throw ⟨"Cannot read properties of undefined (reading 'call')"⟩

/-- `applyPatch(document, patch).newDocument`, where it returns. -/
def applyPatch (document : JsValue) : JsValue → Except JsError JsValue
  | .arr entries => entries.foldlM (applyOperation unspecified) document
  | .bytes b => (b.map fun byte => .num byte.toNat).foldlM (applyOperation unspecified) document
  | patch => unspecified.patch patch document

variable {unspecified}

theorem write_object {change : Change} {key : String} {keys : List String} {fields : JsObject} :
    write unspecified change (key :: keys) (.obj fields) =
      if keys.isEmpty then .ok (JsObject.get fields key, .obj (change.ofObject fields key))
      else do
        let (before, child) ← write unspecified change keys (JsObject.get fields key)
        return (before, .obj (JsObject.set fields key child)) := rfl

theorem write_elsewhere {change : Change} {key : String} {keys : List String} {value : JsValue}
    (noObject : ∀ fields, value ≠ .obj fields) :
    write unspecified change (key :: keys) value = writeElsewhere unspecified change (key :: keys) value := by
  cases value with
  | obj fields => exact absurd rfl (noObject fields)
  | _ => rfl

/-- Without an object there are no fields, before a change and after it. -/
theorem elsewhere_fields {change : Change} {keys : List String} {value before after : JsValue}
    (noObject : ∀ fields, value ≠ .obj fields)
    (written : writeElsewhere unspecified change keys value = .ok (before, after)) (field : String) :
    after.fieldOf field = .undefined := by
  have stillNone : ∀ fields, after ≠ .obj fields := by
    unfold writeElsewhere at written
    split at written
    · cases written
    · cases written
    · exact unspecified.write_noObject noObject written
  cases after with
  | obj fields => exact absurd rfl (stillNone fields)
  | _ => rfl

theorem fieldOf_noObject {value : JsValue} (noObject : ∀ fields, value ≠ .obj fields) (field : String) :
    value.fieldOf field = .undefined := by
  cases value with
  | obj fields => exact absurd rfl (noObject fields)
  | _ => rfl

/-- A change below one key of a document does not touch the others. -/
theorem write_other {change : Change} {key field : String} {keys : List String} {document before after : JsValue}
    (written : write unspecified change (key :: keys) document = .ok (before, after)) (apart : key ≠ field) :
    after.fieldOf field = document.fieldOf field := by
  by_cases isObject : ∃ fields, document = .obj fields
  · obtain ⟨fields, rfl⟩ := isObject
    rw [write_object] at written
    split at written
    · obtain ⟨_, rfl⟩ := Prod.mk.inj (Except.ok.inj written)
      cases change with
      | add value => exact get_set_other fields apart value
      | replace value => exact get_set_other fields apart value
      | remove => exact get_delete_other fields apart
    · obtain ⟨⟨_, child⟩, _, returned⟩ := bind_eq_ok.mp written
      obtain ⟨_, rfl⟩ := Prod.mk.inj (Except.ok.inj returned)
      exact get_set_other fields apart child
  · have noObject : ∀ fields, document ≠ .obj fields := fun fields same => isObject ⟨fields, same⟩
    rw [write_elsewhere noObject] at written
    rw [elsewhere_fields noObject written, fieldOf_noObject noObject]

/-- Removing something of an absent field leaves it absent. -/
theorem write_absent {field : String} {keys : List String} {document before after : JsValue}
    (written : write unspecified .remove (field :: keys) document = .ok (before, after))
    (absent : document.fieldOf field = .undefined) : after.fieldOf field = .undefined := by
  by_cases isObject : ∃ fields, document = .obj fields
  · obtain ⟨fields, rfl⟩ := isObject
    rw [write_object] at written
    split at written
    · obtain ⟨_, rfl⟩ := Prod.mk.inj (Except.ok.inj written)
      exact get_delete_self fields field
    next more =>
      obtain ⟨⟨_, child⟩, inside, _⟩ := bind_eq_ok.mp written
      have missing : JsObject.get fields field = .undefined := absent
      rw [missing] at inside
      cases keys with
      | nil => exact absurd rfl more
      | cons next keys =>
        rw [write_elsewhere (by simp)] at inside
        cases inside
  · have noObject : ∀ fields, document ≠ .obj fields := fun fields same => isObject ⟨fields, same⟩
    rw [write_elsewhere noObject] at written
    exact elsewhere_fields noObject written field

theorem write_keeps {change : Change} {field : String} {keys : List String} {document before after : JsValue}
    (written : write unspecified change keys document = .ok (before, after)) (apart : keys.head? ≠ some field) :
    after.fieldOf field = document.fieldOf field := by
  cases keys with
  | nil =>
    obtain ⟨_, rfl⟩ := Prod.mk.inj (Except.ok.inj written)
    rfl
  | cons key keys => exact write_other written fun same => apart (congrArg some same)

theorem change_keeps {made : Change} {field : String} {keys : List String} {document after : JsValue}
    (changed : change unspecified made keys document = .ok after) (apart : keys.head? ≠ some field) :
    after.fieldOf field = document.fieldOf field := by
  obtain ⟨⟨_, _⟩, written, rfl⟩ := map_eq_ok.mp changed
  exact write_keeps written apart

/-- A new whole document has the same value in a field. -/
def KeepsWhole (field : String) (held : JsValue) (entry : JsValue) : Prop :=
  match entry.prop "op" with
  | .ok (.str "add") | .ok (.str "replace") => ∀ value, entry.prop "value" = .ok value → value.fieldOf field = held
  | .ok (.str "remove") => held = .undefined
  | .ok (.str "move") | .ok (.str "copy") => False
  | _ => True

/-- An operation that does not reach a field which holds the given value. -/
structure Keeps (field : String) (held : JsValue) (entry : JsValue) : Prop where
  whole : entry.prop "path" = .ok (.str "") → KeepsWhole field held entry
  written : ∀ path keys, entry.prop "path" = .ok path → keysOf path = .ok keys → keys.head? ≠ some field
  taken : ∀ op source keys, entry.prop "op" = .ok op → nameOf op = some "move" →
    entry.prop "from" = .ok source → keysOf source = .ok keys → keys.head? = some field → held = .undefined

variable {field : String} {held entry document after : JsValue}

theorem applyToRoot_keeps (kept : KeepsWhole field held entry) (before : document.fieldOf field = held)
    (applied : applyToRoot unspecified entry document = .ok after) : after.fieldOf field = held := by
  unfold applyToRoot at applied
  obtain ⟨op, read, applied⟩ := bind_eq_ok.mp applied
  unfold KeepsWhole at kept
  rw [read] at kept
  split at applied
  · exact kept after applied
  · exact kept after applied
  · obtain rfl := Except.ok.inj applied
    exact kept.symm
  · exact kept.elim
  · exact kept.elim
  · obtain rfl := Except.ok.inj applied
    exact before

theorem applyMove_keeps (kept : Keeps field held entry) {op : JsValue} (read : entry.prop "op" = .ok op)
    (move : nameOf op = some "move") {keys : List String} (apart : keys.head? ≠ some field)
    (before : document.fieldOf field = held) (applied : applyMove unspecified keys entry document = .ok after) :
    after.fieldOf field = held := by
  obtain ⟨source, given, applied⟩ := bind_eq_ok.mp applied
  obtain ⟨fromKeys, isFrom, applied⟩ := bind_eq_ok.mp applied
  split at applied
  · cases applied
  next key rest =>
    obtain ⟨⟨moved, without⟩, removed, added⟩ := bind_eq_ok.mp applied
    have inBetween : without.fieldOf field = held := by
      by_cases same : fromKeys.head? = some field
      · have absent := kept.taken op source fromKeys read move given isFrom same
        cases fromKeys with
        | nil => cases same
        | cons key keys =>
          obtain rfl := Option.some.inj same
          rw [absent] at before ⊢
          exact write_absent removed before
      · exact (write_keeps removed same).trans before
    exact (change_keeps added apart).trans inBetween

theorem applyOperation_keeps (kept : Keeps field held entry) (before : document.fieldOf field = held)
    (applied : applyOperation unspecified document entry = .ok after) : after.fieldOf field = held := by
  unfold applyOperation at applied
  obtain ⟨path, isPath, applied⟩ := bind_eq_ok.mp applied
  split at applied
  next root => exact applyToRoot_keeps (kept.whole (root ▸ isPath)) before applied
  next =>
    obtain ⟨keys, isKeys, applied⟩ := bind_eq_ok.mp applied
    obtain ⟨op, isOp, applied⟩ := bind_eq_ok.mp applied
    have apart := kept.written path keys isPath isKeys
    split at applied
    next =>
      obtain ⟨value, _, added⟩ := bind_eq_ok.mp applied
      exact (change_keeps added apart).trans before
    next =>
      obtain ⟨value, _, replaced⟩ := bind_eq_ok.mp applied
      exact (change_keeps replaced apart).trans before
    next => exact (change_keeps applied apart).trans before
    next move => exact applyMove_keeps kept isOp move apart before applied
    next =>
      obtain ⟨source, _, applied⟩ := bind_eq_ok.mp applied
      obtain ⟨value, _, copied⟩ := bind_eq_ok.mp applied
      exact (change_keeps copied apart).trans before
    next =>
      obtain rfl := Except.ok.inj applied
      exact before
    next =>
      obtain rfl := Except.ok.inj applied
      exact before
    next => cases applied

/-- A patch none of whose operations reaches a field leaves the field as it is. -/
theorem foldlM_keeps {entries : List JsValue} (kept : ∀ entry ∈ entries, Keeps field held entry)
    (before : document.fieldOf field = held)
    (applied : entries.foldlM (applyOperation unspecified) document = .ok after) : after.fieldOf field = held := by
  induction entries generalizing document with
  | nil =>
    obtain rfl := Except.ok.inj applied
    exact before
  | cons entry entries ih =>
    obtain ⟨next, first, rest⟩ := bind_eq_ok.mp applied
    have here := applyOperation_keeps (kept entry List.mem_cons_self) before first
    exact ih (fun other behind => kept other (List.mem_cons_of_mem _ behind)) here rest

/-- A key without tildes and slashes stands in a pointer as it is. -/
theorem unescape_plain {segment : List Char} (plain : ∀ c ∈ unescape segment, c ≠ '~' ∧ c ≠ '/') :
    unescape segment = segment := by
  induction segment using unescape.induct with
  | case1 rest ih => exact absurd rfl (plain '/' List.mem_cons_self).2
  | case2 rest ih => exact absurd rfl (plain '~' List.mem_cons_self).1
  | case3 c rest noSlash noTilde ih =>
    rw [unescape.eq_3 c rest noSlash noTilde] at plain ⊢
    rw [ih fun other behind => plain other (List.mem_cons_of_mem _ behind)]
  | case4 => rfl

theorem head_splitOn (separator : Char) (text : List Char) :
    (text.splitOn separator).head? = some (text.takeWhile (· != separator)) := by
  induction text with
  | nil => rfl
  | cons c text ih =>
    rw [List.splitOn_cons_eq_if_modifyHead]
    by_cases same : c = separator
    · simp [same]
    · simp [same, ih]

/-- The first key of a pointer is what stands before its second slash, unescaped. -/
theorem pointerKeys_head {rest : List Char} :
    (pointerKeys (String.ofList ('/' :: rest))).head? =
      some (String.ofList (unescape (rest.takeWhile (· != '/')))) := by
  unfold pointerKeys
  rw [if_neg (by simp), String.toList_ofList, List.splitOn_cons_eq_if_modifyHead, if_pos (by simp)]
  have first := head_splitOn '/' rest
  cases split : rest.splitOn '/' with
  | nil => exact absurd split (List.splitOn_ne_nil '/' rest)
  | cons segment segments =>
    rw [split] at first
    rw [← Option.some.inj first]
    rfl

end JsonPatch

end Ceramic
