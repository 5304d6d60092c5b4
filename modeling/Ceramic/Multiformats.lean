import Mathlib.Data.List.Basic
import Mathlib.Order.Defs.LinearOrder
import Mathlib.Data.List.Lex
import Mathlib.Data.List.TakeWhile
import Mathlib.Data.List.Induction
import Mathlib.Tactic.Ring

/-! Byte-level identifiers: multibase text, varints and content identifiers.
A `Uint8Array` under `<` is compared through its `toString`, the comma-separated
decimal form, and not byte by byte. -/
namespace Ceramic

/-- Digits of `n` in the given base, most significant first; zero has none. -/
def digits (base fuel n : Nat) : List Nat :=
  match fuel with
  | 0 => []
  | fuel + 1 => if n = 0 then [] else digits base fuel (n / base) ++ [n % base]

def bigEndian (bytes : List UInt8) : Nat := bytes.foldl (fun acc b => 256 * acc + b.toNat) 0

/-- The base-x encoding: one leader for each leading zero byte, then the digits of the rest. -/
def baseX (alphabet : List Char) (bytes : List UInt8) : List Char :=
  let leader := alphabet.headD '0'
  List.replicate (bytes.takeWhile (· == 0)).length leader ++
    (digits alphabet.length (8 * bytes.length) (bigEndian bytes)).map fun d => alphabet.getD d leader

def base36Alphabet : List Char := "0123456789abcdefghijklmnopqrstuvwxyz".toList

def base58Alphabet : List Char := "123456789ABCDEFGHJKLMNPQRSTUVWXYZabcdefghijkmnopqrstuvwxyz".toList

def base32Alphabet : List Char := "abcdefghijklmnopqrstuvwxyz234567".toList

/-- `base36.encode`, with its multibase prefix. -/
def base36Encode (bytes : List UInt8) : List Char := 'k' :: baseX base36Alphabet bytes

/-- The number that digits stand for. -/
def ofDigits (base : Nat) (ds : List Nat) : Nat := ds.foldl (fun acc d => base * acc + d) 0

theorem ofDigits_digits {base fuel n : Nat} (enough : n < base ^ fuel) :
    ofDigits base (digits base fuel n) = n := by
  induction fuel generalizing n with
  | zero =>
    obtain rfl : n = 0 := by simpa using enough
    rfl
  | succ fuel ih =>
    by_cases zero : n = 0
    · simp [digits, zero, ofDigits]
    · have rest : n / base < base ^ fuel := Nat.div_lt_of_lt_mul (by
        rw [Nat.pow_succ] at enough
        rwa [Nat.mul_comm])
      have value := ih rest
      simp only [ofDigits] at value
      simp only [digits, zero, if_false, ofDigits, List.foldl_append, value, List.foldl_cons,
        List.foldl_nil]
      exact Nat.div_add_mod n base

theorem digits_lt {base : Nat} (positive : 0 < base) (fuel n : Nat) :
    ∀ d ∈ digits base fuel n, d < base := by
  induction fuel generalizing n with
  | zero => simp [digits]
  | succ fuel ih =>
    intro d member
    by_cases zero : n = 0
    · simp [digits, zero] at member
    · simp only [digits, zero, if_false, List.mem_append, List.mem_singleton] at member
      rcases member with front | rfl
      · exact ih _ d front
      · exact Nat.mod_lt n positive

theorem ofDigits_append (base : Nat) (front back : List Nat) :
    ofDigits base (front ++ back) = ofDigits base front * base ^ back.length + ofDigits base back := by
  unfold ofDigits
  rw [List.foldl_append]
  generalize front.foldl (fun acc d => base * acc + d) 0 = start
  have shifted : ∀ start, back.foldl (fun acc d => base * acc + d) start =
      start * base ^ back.length + back.foldl (fun acc d => base * acc + d) 0 := by
    induction back with
    | nil => simp
    | cons d back ih =>
      intro start
      rw [List.foldl_cons, List.foldl_cons, ih (base * start + d), ih (base * 0 + d), List.length_cons,
        Nat.pow_succ]
      ring
  exact shifted start

theorem ofDigits_cons (base d : Nat) (ds : List Nat) :
    ofDigits base (d :: ds) = d * base ^ ds.length + ofDigits base ds := by
  have split := ofDigits_append base [d] ds
  simpa [ofDigits] using split

theorem ofDigits_lt {base : Nat} {ds : List Nat} (small : ∀ d ∈ ds, d < base) :
    ofDigits base ds < base ^ ds.length := by
  induction ds with
  | nil => simp [ofDigits]
  | cons d ds ih =>
    have first := small d List.mem_cons_self
    have rest := ih fun other member => small other (List.mem_cons_of_mem _ member)
    rw [ofDigits_cons, List.length_cons, Nat.pow_succ]
    calc d * base ^ ds.length + ofDigits base ds < d * base ^ ds.length + base ^ ds.length := by omega
      _ = (d + 1) * base ^ ds.length := by ring
      _ ≤ base * base ^ ds.length := Nat.mul_le_mul_right _ first
      _ = base ^ ds.length * base := Nat.mul_comm _ _

theorem bigEndian_append (front back : List UInt8) :
    bigEndian (front ++ back) = bigEndian front * 256 ^ back.length + bigEndian back := by
  have shift (start : Nat) (bytes : List UInt8) :
      bytes.foldl (fun acc b => 256 * acc + b.toNat) start = start * 256 ^ bytes.length +
        bigEndian bytes := by
    induction bytes generalizing start with
    | nil => simp [bigEndian]
    | cons b bytes ih =>
      rw [bigEndian, List.foldl_cons, ih, List.foldl_cons, ih (256 * 0 + b.toNat), List.length_cons,
        Nat.pow_succ]
      ring
  rw [bigEndian, List.foldl_append, shift]
  rfl

theorem bigEndian_lt (bytes : List UInt8) : bigEndian bytes < 256 ^ bytes.length := by
  induction bytes using List.reverseRecOn with
  | nil => decide
  | append_singleton bytes b ih =>
    have byte := b.toNat_lt
    rw [bigEndian_append, List.length_append]
    simp only [List.length_singleton, Nat.pow_succ, Nat.pow_zero, Nat.one_mul, bigEndian,
      List.foldl_cons, List.foldl_nil, Nat.mul_zero, Nat.zero_add] at ih ⊢
    omega

/-- An alphabet in which every letter stands for one digit. -/
structure IsAlphabet (alphabet : List Char) : Prop where
  letters : ∀ d < alphabet.length, alphabet.idxOf (alphabet.getD d (alphabet.headD '0')) = d
  enough : 2 ≤ alphabet.length

/-- The digits of bytes without leading zeros can be read off their text. -/
theorem digits_of_baseX {alphabet : List Char} (valid : IsAlphabet alphabet) {bytes : List UInt8}
    (lead : bytes.takeWhile (· == 0) = []) :
    (baseX alphabet bytes).map alphabet.idxOf =
      digits alphabet.length (8 * bytes.length) (bigEndian bytes) := by
  have positive : 0 < alphabet.length := Nat.lt_of_lt_of_le (by decide) valid.enough
  unfold baseX
  dsimp only
  rw [lead, List.length_nil, List.replicate_zero, List.nil_append, List.map_map]
  conv_rhs => rw [← List.map_id (digits _ _ _)]
  exact List.map_congr_left fun d member => valid.letters d (digits_lt positive _ _ d member)

theorem ofDigits_of_baseX {alphabet : List Char} (valid : IsAlphabet alphabet) {bytes : List UInt8}
    (lead : bytes.takeWhile (· == 0) = []) :
    ofDigits alphabet.length ((baseX alphabet bytes).map alphabet.idxOf) = bigEndian bytes := by
  rw [digits_of_baseX valid lead]
  refine ofDigits_digits ?_
  calc bigEndian bytes < 256 ^ bytes.length := bigEndian_lt bytes
    _ = 2 ^ (8 * bytes.length) := by rw [Nat.pow_mul]
    _ ≤ alphabet.length ^ (8 * bytes.length) := Nat.pow_le_pow_left valid.enough _

theorem base36_isAlphabet : IsAlphabet base36Alphabet := ⟨by decide +kernel, by decide⟩

/-- The text of bytes without leading zeros gives their number. -/
theorem bigEndian_of_base36Encode {a b : List UInt8} (leadA : a.takeWhile (· == 0) = [])
    (leadB : b.takeWhile (· == 0) = []) (same : base36Encode a = base36Encode b) :
    bigEndian a = bigEndian b := by
  have text : baseX base36Alphabet a = baseX base36Alphabet b := (List.cons.inj same).2
  rw [← ofDigits_of_baseX base36_isAlphabet leadA, text, ofDigits_of_baseX base36_isAlphabet leadB]

/-- `base32.encode`, unpadded: the last partial group is filled with zero bits. -/
def base32Encode (bytes : List UInt8) : List Char :=
  let bits := 8 * bytes.length
  let groups := (bits + 4) / 5
  let padded := bigEndian bytes * 2 ^ (5 * groups - bits)
  'b' :: (List.range groups).map fun i =>
    base32Alphabet.getD (padded / 32 ^ (groups - 1 - i) % 32) 'a'

/-- Unsigned LEB128 with a bound on the number of bytes. -/
def varintBytes (fuel n : Nat) : List UInt8 :=
  match fuel with
  | 0 => []
  | fuel + 1 =>
    if n < 128 then [UInt8.ofNat n] else UInt8.ofNat (n % 128 + 128) :: varintBytes fuel (n / 128)

/-- `varint.encode`. -/
def varintEncode (n : Nat) : List UInt8 := varintBytes (n + 1) n

/-- A content identifier, known by its binary form. -/
structure Cid where
  bytes : List UInt8
  deriving DecidableEq, Repr

namespace Cid

/-- Version 0 identifiers are bare sha2-256 multihashes. -/
def isV0 (cid : Cid) : Bool := cid.bytes.take 2 == [0x12, 0x20] && cid.bytes.length == 34

def toString (cid : Cid) : String :=
  String.ofList (if cid.isV0 then baseX base58Alphabet cid.bytes else base32Encode cid.bytes)

/-- `String(byte)` in code units. -/
def decimal (byte : UInt8) : List Nat :=
  let n := byte.toNat
  if n < 10 then [48 + n]
  else if n < 100 then [48 + n / 10, 48 + n % 10]
  else [48 + n / 100, 48 + n / 10 % 10, 48 + n % 10]

/-- `Uint8Array.prototype.toString`, in code units; 44 is the comma. -/
def joined : List UInt8 → List Nat
  | [] => []
  | [b] => decimal b
  | b :: c :: rest => decimal b ++ 44 :: joined (c :: rest)

/-- `cid1.bytes < cid2.bytes`. -/
def bytesLt (a b : Cid) : Bool := decide (joined a.bytes < joined b.bytes)

theorem decimal_digits (byte : UInt8) : ∀ unit ∈ decimal byte, 44 < unit := by
  intro unit member
  unfold decimal at member
  dsimp only at member
  split at member
  · simp at member; omega
  split at member <;> simp at member <;> omega

theorem decimal_ne_nil (byte : UInt8) : decimal byte ≠ [] := by
  unfold decimal
  dsimp only
  split
  · simp
  split <;> simp

theorem decimal_injective {a b : UInt8} (h : decimal a = decimal b) : a = b := by
  have ha := a.toNat_lt
  have hb := b.toNat_lt
  apply UInt8.toNat_inj.mp
  unfold decimal at h
  dsimp only at h
  split at h <;> split at h
  all_goals try split at h
  all_goals try split at h
  all_goals simp at h
  all_goals omega

theorem takeWhile_digits (ds rest : List Nat) (digit : ∀ unit ∈ ds, 44 < unit) :
    (ds ++ 44 :: rest).takeWhile (44 < ·) = ds := by
  induction ds with
  | nil => simp
  | cons d ds ih =>
    have hd := digit d (by simp)
    simp [hd, ih fun unit member => digit unit (by simp [member])]

theorem joined_cons (b : UInt8) (rest : List UInt8) :
    (joined (b :: rest)).takeWhile (44 < ·) = decimal b := by
  cases rest with
  | nil =>
    rw [joined, List.takeWhile_eq_self_iff]
    intro unit member
    simpa using decimal_digits b unit member
  | cons c rest => rw [joined, takeWhile_digits _ _ (decimal_digits b)]

theorem joined_injective {a b : List UInt8} (h : joined a = joined b) : a = b := by
  induction a generalizing b with
  | nil =>
    cases b with
    | nil => rfl
    | cons y ys =>
      have := joined_cons y ys
      rw [← h] at this
      exact absurd this.symm (decimal_ne_nil y)
  | cons x xs ih =>
    cases b with
    | nil =>
      have := joined_cons x xs
      rw [h] at this
      exact absurd this.symm (decimal_ne_nil x)
    | cons y ys =>
      have heads : decimal x = decimal y := by rw [← joined_cons x xs, h, joined_cons]
      obtain rfl := decimal_injective heads
      cases xs with
      | nil =>
        cases ys with
        | nil => rfl
        | cons z zs => simp [joined] at h
      | cons w ws =>
        cases ys with
        | nil => simp [joined] at h
        | cons z zs =>
          simp only [joined, List.append_cancel_left_eq, List.cons.injEq, true_and] at h
          rw [ih h]

theorem bytesLt_asymm {a b : Cid} (h : bytesLt a b) : bytesLt b a = false := by
  simp only [bytesLt, decide_eq_true_eq, decide_eq_false_iff_not] at h ⊢
  exact lt_asymm h

end Cid

end Ceramic
