import Ceramic.StreamId
import Mathlib.Data.List.Forall2

/-! JavaScript values as commits, metadata and stream content hold them, and the
few operators of the language whose behaviour on `null` and `undefined` the
stream code depends on. Numbers are exact rationals: no modelled function rounds. -/
namespace Ceramic

/-- A thrown `Error`; only its message is ever read. -/
structure JsError where
  message : String
  deriving DecidableEq, Repr

theorem ok_of_isSome {x : Except JsError α} (h : x.toOption.isSome) : ∃ a, x = .ok a := by
  cases x with
  | ok a => exact ⟨a, rfl⟩
  | error e => cases h

theorem bind_eq_ok {ε : Type} {x : Except ε α} {f : α → Except ε β} {b : β} :
    (x >>= f) = .ok b ↔ ∃ a, x = .ok a ∧ f a = .ok b := by
  cases x <;> simp [bind, Except.bind]

/-- A sequence of checks succeeds when each of them does. -/
theorem then_eq_ok {x : Except JsError Unit} {rest : Except JsError α} {a : α} :
    (do x; rest) = .ok a ↔ x = .ok () ∧ rest = .ok a := by
  cases x with
  | error => simp [bind, Except.bind]
  | ok => exact (and_iff_right rfl).symm

/-- A check that throws is passed where its condition is false. -/
theorem guard_eq_ok {condition : Prop} [Decidable condition] {e : JsError} {rest : Unit → Except JsError α}
    {result : α} : (if condition then throw e >>= rest else rest ()) = .ok result ↔
      ¬condition ∧ rest () = .ok result := by
  by_cases holds : condition
  · simp [holds, bind, Except.bind, throw, throwThe, MonadExceptOf.throw]
  · simp [holds]

theorem map_eq_ok {x : Except JsError α} {f : α → β} {b : β} :
    x.map f = .ok b ↔ ∃ a, x = .ok a ∧ f a = b := by
  cases x <;> simp [Except.map]

theorem exists_of_forall₂ {α β : Type} {R : α → β → Prop} {xs : List α} {ys : List β} (all : List.Forall₂ R xs ys)
    {x : α} (member : x ∈ xs) : ∃ y ∈ ys, R x y := by
  induction all with
  | nil => cases member
  | cons related _ ih =>
    rcases List.mem_cons.mp member with rfl | behind
    · exact ⟨_, List.mem_cons_self, related⟩
    · obtain ⟨y, found, related⟩ := ih behind
      exact ⟨y, List.mem_cons_of_mem _ found, related⟩

theorem mapM_ok {f : α → Except JsError β} {xs : List α} {ys : List β} (h : xs.mapM f = .ok ys) :
    List.Forall₂ (fun x y => f x = .ok y) xs ys := by
  induction xs generalizing ys with
  | nil =>
    obtain rfl : [] = ys := Except.ok.inj h
    exact .nil
  | cons x xs ih =>
    rw [List.mapM_cons] at h
    obtain ⟨y, first, rest⟩ := bind_eq_ok.mp h
    obtain ⟨ys', behind, returned⟩ := bind_eq_ok.mp rest
    obtain rfl : y :: ys' = ys := Except.ok.inj returned
    exact .cons first (ih behind)

theorem mapM_exists {f : α → Except JsError β} {xs : List α} (each : ∀ x ∈ xs, ∃ y, f x = .ok y) :
    ∃ ys, xs.mapM f = .ok ys := by
  induction xs with
  | nil => exact ⟨[], rfl⟩
  | cons x xs ih =>
    obtain ⟨y, first⟩ := each x List.mem_cons_self
    obtain ⟨ys, behind⟩ := ih fun other member => each other (List.mem_cons_of_mem _ member)
    exact ⟨y :: ys, by rw [List.mapM_cons, first, behind]; rfl⟩

theorem forM_eq_ok {f : α → Except JsError Unit} {items : List α} :
    items.forM f = .ok () ↔ ∀ item ∈ items, f item = .ok () := by
  induction items with
  | nil => simp [pure, Except.pure]
  | cons first items ih =>
    rw [List.forall_mem_cons, ← ih]
    constructor
    · intro passed
      obtain ⟨_, here, behind⟩ := bind_eq_ok.mp passed
      exact ⟨here, behind⟩
    · rintro ⟨here, behind⟩
      exact bind_eq_ok.mpr ⟨(), here, behind⟩

inductive JsValue where
  | undefined
  | null
  | bool (b : Bool)
  | num (n : Rat)
  | str (s : String)
  | bytes (b : List UInt8)
  | cid (c : Cid)
  | streamID (id : StreamID)
  | arr (items : List JsValue)
  | obj (fields : List (String × JsValue))
  deriving Repr

namespace JsValue

mutual
def beq : JsValue → JsValue → Bool
  | .undefined, .undefined => true
  | .null, .null => true
  | .bool a, .bool b => a == b
  | .num a, .num b => decide (a = b)
  | .str a, .str b => a == b
  | .bytes a, .bytes b => a == b
  | .cid a, .cid b => decide (a = b)
  | .streamID a, .streamID b => decide (a = b)
  | .arr a, .arr b => beqItems a b
  | .obj a, .obj b => beqFields a b
  | _, _ => false

def beqItems : List JsValue → List JsValue → Bool
  | [], [] => true
  | x :: xs, y :: ys => beq x y && beqItems xs ys
  | _, _ => false

def beqFields : List (String × JsValue) → List (String × JsValue) → Bool
  | [], [] => true
  | (k, x) :: xs, (l, y) :: ys => k == l && beq x y && beqFields xs ys
  | _, _ => false
end

mutual
theorem beq_iff : (a b : JsValue) → (beq a b = true ↔ a = b)
  | .undefined, b | .null, b | .bool _, b | .num _, b | .str _, b
  | .bytes _, b | .cid _, b | .streamID _, b => by cases b <;> simp [beq]
  | .arr xs, b => by
    cases b
    case arr ys => simp [beq, beqItems_iff xs ys]
    all_goals simp [beq]
  | .obj xs, b => by
    cases b
    case obj ys => simp [beq, beqFields_iff xs ys]
    all_goals simp [beq]

theorem beqItems_iff : (a b : List JsValue) → (beqItems a b = true ↔ a = b)
  | [], b => by cases b <;> simp [beqItems]
  | x :: xs, [] => by simp [beqItems]
  | x :: xs, y :: ys => by simp [beqItems, beq_iff x y, beqItems_iff xs ys]

theorem beqFields_iff : (a b : List (String × JsValue)) → (beqFields a b = true ↔ a = b)
  | [], b => by cases b <;> simp [beqFields]
  | x :: xs, [] => by simp [beqFields]
  | (k, x) :: xs, (l, y) :: ys => by
    simp [beqFields, beq_iff x y, beqFields_iff xs ys, and_assoc]
end

instance : DecidableEq JsValue := fun a b => decidable_of_iff _ (beq_iff a b)

/-- `Boolean(value)`. -/
def truthy : JsValue → Bool
  | .undefined | .null => false
  | .bool b => b
  | .num n => n != 0
  | .str s => s != ""
  | .bytes _ | .cid _ | .streamID _ | .arr _ | .obj _ => true

/-- `value == null`. -/
def isNullish : JsValue → Bool
  | .undefined | .null => true
  | _ => false

/-- `===`. Two objects met here never share a reference. -/
def strictEq (a b : JsValue) : Bool :=
  match a with
  | .bytes _ | .cid _ | .streamID _ | .arr _ | .obj _ => false
  | _ => decide (a = b)

theorem eq_of_strictEq {a b : JsValue} (same : a.strictEq b = true) : a = b := by
  unfold strictEq at same
  split at same
  all_goals first
    | cases same
    | exact of_decide_eq_true same

/-- Length in UTF-16 code units, as `String.prototype.length` counts. -/
def utf16Length (s : String) : Nat :=
  (s.toList.map fun c => if c.val.toNat < 0x10000 then 1 else 2).sum

end JsValue

/-- An object, its own enumerable properties in insertion order. -/
abbrev JsObject := List (String × JsValue)

namespace JsObject

def get? (o : JsObject) (key : String) : Option JsValue :=
  (o.find? (fun field => field.1 == key)).map Prod.snd

/-- `o[key]`: a missing property reads as `undefined`. -/
def get (o : JsObject) (key : String) : JsValue := (get? o key).getD .undefined

/-- `o[key] = value`: an existing key keeps its place. -/
def set (o : JsObject) (key : String) (value : JsValue) : JsObject :=
  if o.any (fun field => field.1 == key)
  then o.map fun field => if field.1 == key then (key, value) else field
  else o ++ [(key, value)]

/-- `{ ...o, ...other }`. -/
def spread (o other : JsObject) : JsObject := other.foldl (fun acc field => set acc field.1 field.2) o

def delete (o : JsObject) (key : String) : JsObject := o.filter fun field => field.1 != key

theorem get?_cons (field : String × JsValue) (o : JsObject) (key : String) :
    get? (field :: o) key = if field.1 = key then some field.2 else get? o key := by
  unfold get?
  rw [List.find?_cons]
  by_cases same : field.1 = key
  · simp [same]
  · simp [same, beq_false_of_ne same]

theorem get?_eq_none {o : JsObject} {key : String} (absent : ∀ field ∈ o, field.1 ≠ key) :
    get? o key = none := by
  unfold get?
  rw [List.find?_eq_none.mpr fun field member => by simpa using absent field member]
  rfl

theorem get?_append (o back : JsObject) (key : String) :
    get? (o ++ back) key = (get? o key).or (get? back key) := by
  induction o with
  | nil => rfl
  | cons field o ih =>
    rw [List.cons_append, get?_cons, get?_cons, ih]
    by_cases same : field.1 = key
    · simp [same]
    · simp [same]

/-- A new key comes last. -/
theorem set_new {o : JsObject} {key : String} (new : ∀ field ∈ o, field.1 ≠ key)
    (value : JsValue) : set o key value = o ++ [(key, value)] := by
  unfold set
  rw [if_neg]
  intro present
  obtain ⟨field, member, same⟩ := List.any_eq_true.mp present
  exact new field member (beq_iff_eq.mp same)

theorem get?_set_self (o : JsObject) (key : String) (value : JsValue) :
    get? (set o key value) key = some value := by
  by_cases new : ∀ field ∈ o, field.1 ≠ key
  · rw [set_new new, get?_append, get?_eq_none new, get?_cons, if_pos rfl]
    rfl
  · push Not at new
    obtain ⟨field, member, same⟩ := new
    have present : o.any (fun field => field.1 == key) :=
      List.any_eq_true.mpr ⟨field, member, by simpa using same⟩
    unfold set
    rw [if_pos present]
    clear present
    induction o with
    | nil => cases member
    | cons first o ih =>
      rw [List.map_cons, get?_cons]
      by_cases here : first.1 = key
      · simp [here]
      · have behind : field ∈ o := by
          rcases List.mem_cons.mp member with rfl | behind
          · exact absurd same here
          · exact behind
        simpa [here] using ih behind

theorem get?_set_other (o : JsObject) {key other : String} (apart : key ≠ other) (value : JsValue) :
    get? (set o key value) other = get? o other := by
  unfold set
  split
  next present =>
    clear present
    induction o with
    | nil => rfl
    | cons first o ih =>
      rw [List.map_cons, get?_cons, get?_cons, ih]
      by_cases here : first.1 = key
      · simp [here, apart]
      · simp [here]
  next =>
    rw [get?_append, get?_cons, if_neg apart]
    exact Option.or_none

/-- What is set over an object is found; the rest of the object is as it was. -/
theorem get?_spread (o other : JsObject) (nodup : (other.map (·.1)).Nodup) (key : String) :
    get? (spread o other) key = (get? other key).or (get? o key) := by
  unfold spread
  induction other generalizing o with
  | nil => rfl
  | cons field other ih =>
    obtain ⟨absent, nodup⟩ := List.nodup_cons.mp nodup
    rw [List.foldl_cons, ih _ nodup, get?_cons]
    by_cases same : field.1 = key
    · subst same
      have later : get? other field.1 = none :=
        get?_eq_none fun second member equal => absent (List.mem_map.mpr ⟨second, member, equal⟩)
      rw [later, get?_set_self, if_pos rfl]
      rfl
    · rw [get?_set_other o same, if_neg same]

end JsObject

namespace JsValue

/-- `value[key]` for the property reads the handlers make; reading a property of
`undefined` or `null` throws. -/
def prop (value : JsValue) (key : String) : Except JsError JsValue :=
  match value with
  | .undefined => .error ⟨"Cannot read properties of undefined (reading '" ++ key ++ "')"⟩
  | .null => .error ⟨"Cannot read properties of null (reading '" ++ key ++ "')"⟩
  | .arr items => .ok <|
      if key = "length" then .num items.length
      else if key = "0" then items.head?.getD .undefined else .undefined
  | .str s => .ok <|
      if key = "length" then .num (utf16Length s)
      else if key = "0" then (s.toList.head?.map (fun c => .str c.toString)).getD .undefined
      else .undefined
  | .bytes b => .ok <|
      if key = "length" then .num b.length
      else if key = "0" then (b.head?.map fun byte => .num byte.toNat).getD .undefined else .undefined
  | .obj fields => .ok (JsObject.get fields key)
  | _ => .ok .undefined

end JsValue

/-- A `timestamp` property: seconds, or absent in one of the two ways the code
leaves it absent. -/
inductive Timestamp where
  | undefined
  | null
  | seconds (n : Nat)
  deriving DecidableEq, Repr

namespace Timestamp

/-- `Number(timestamp)`, with `none` for `NaN`. -/
def toNumber : Timestamp → Option Nat
  | .undefined => none
  | .null => some 0
  | .seconds n => some n

/-- The operator `<`: `null` counts as zero and `undefined` compares false. -/
def lt (a b : Timestamp) : Bool :=
  match a.toNumber, b.toNumber with
  | some x, some y => decide (x < y)
  | _, _ => false

def truthy : Timestamp → Bool
  | .seconds n => n != 0
  | _ => false

@[simp] theorem lt_seconds (m n : Nat) : lt (.seconds m) (.seconds n) = decide (m < n) := rfl

@[simp] theorem lt_undefined_left (b : Timestamp) : lt .undefined b = false := rfl

@[simp] theorem lt_undefined_right (a : Timestamp) : lt a .undefined = false := by
  cases a <;> rfl

theorem lt_asymm {a b : Timestamp} (h : lt a b) : lt b a = false := by
  cases a <;> cases b <;> simp_all [lt, toNumber]; omega

end Timestamp

end Ceramic
