/-! The logic of SQL conditions: a comparison with `NULL` is neither true nor false. -/
namespace ThreeValued

inductive Truth where
  | false
  | unknown
  | true
  deriving DecidableEq, Repr

namespace Truth

def ofBool (b : Bool) : Truth := if b then .true else .false

def not : Truth → Truth
  | .true => .false
  | .unknown => .unknown
  | .false => .true

def and : Truth → Truth → Truth
  | .false, _ | _, .false => .false
  | .true, t => t
  | .unknown, _ => .unknown

def or : Truth → Truth → Truth
  | .true, _ | _, .true => .true
  | .false, t => t
  | .unknown, _ => .unknown

def all (ts : List Truth) : Truth := ts.foldr and .true

def any (ts : List Truth) : Truth := ts.foldr or .false

/-- Negated or left alone. -/
def signed (negated : Bool) (t : Truth) : Truth := if negated then t.not else t

variable (a b c : Truth)

@[simp] theorem not_not : a.not.not = a := by cases a <;> rfl

@[simp] theorem and_true : a.and .true = a := by cases a <;> rfl

@[simp] theorem or_false : a.or .false = a := by cases a <;> rfl

theorem and_assoc : (a.and b).and c = a.and (b.and c) := by cases a <;> cases b <;> cases c <;> rfl

theorem and_comm : a.and b = b.and a := by cases a <;> cases b <;> rfl

@[simp] theorem all_singleton : all [a] = a := and_true a

@[simp] theorem signed_false : signed Bool.false a = a := rfl

@[simp] theorem signed_true : signed Bool.true a = a.not := rfl

theorem signed_not (negated : Bool) : signed (!negated) a = signed negated a.not := by
  cases negated
  · rfl
  · exact (not_not a).symm

theorem all_pair_comm : all [a, b] = all [b, a] := by
  simp [all, and_comm]

end Truth

inductive Connective where
  | and
  | or
  deriving DecidableEq, Repr

/-- Terms in a row, each led by its connective, after what the `AND`s before them gave.
`AND` binds tighter than `OR`. -/
def sequence : Truth → List (Connective × Truth) → Truth
  | run, [] => run
  | run, (.and, t) :: rest => sequence (run.and t) rest
  | run, (.or, t) :: rest => run.or (sequence t rest)

/-- Terms in a row; the first has nothing to connect to. -/
def joined : List (Connective × Truth) → Truth
  | [] => .true
  | (_, t) :: rest => sequence t rest

@[simp] theorem joined_singleton (connective : Connective) (t : Truth) :
    joined [(connective, t)] = t := rfl

theorem joined_and (ts : List Truth) : joined (ts.map fun t => (.and, t)) = Truth.all ts := by
  cases ts with
  | nil => rfl
  | cons t ts =>
    have run : ∀ start, sequence start (ts.map fun t => (.and, t)) = start.and (Truth.all ts) := by
      induction ts with
      | nil => exact fun start => (Truth.and_true start).symm
      | cons u ts ih => exact fun start => by rw [List.map_cons, sequence, ih, Truth.and_assoc]; rfl
    exact run t

theorem joined_or (t : Truth) (ts : List Truth) :
    joined ((t :: ts).map fun t => (.or, t)) = Truth.any (t :: ts) := by
  induction ts generalizing t with
  | nil => exact (Truth.or_false t).symm
  | cons u ts ih =>
    have rest : sequence u (ts.map fun t => (.or, t)) = Truth.any (u :: ts) := ih u
    exact congrArg t.or rest

end ThreeValued
