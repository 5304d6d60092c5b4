import Mathlib.Data.List.Forall2

/-! Programs that read from a store, with the keys that they read there. -/

/-- A program that ends, or reads the value of a key and goes on with the answer. -/
inductive Fetch (Key Value Error α : Type) where
  | done (result : Except Error α)
  | read (key : Key) (next : Except Error Value → Fetch Key Value Error α)

namespace Fetch

variable {Key Value Error α β : Type}

def bind : Fetch Key Value Error α → (α → Fetch Key Value Error β) → Fetch Key Value Error β
  | .done (.ok a), rest => rest a
  | .done (.error e), _ => .done (.error e)
  | .read key next, rest => .read key fun answer => (next answer).bind rest

instance : Monad (Fetch Key Value Error) where
  pure a := .done (.ok a)
  bind := bind

def get (key : Key) : Fetch Key Value Error Value := .read key .done

/-- The outcome of a program as a value. -/
def attempt : Fetch Key Value Error α → Fetch Key Value Error (Except Error α)
  | .done result => .done (.ok result)
  | .read key next => .read key fun answer => (next answer).attempt

/-- One program after the other. -/
def each (program : α → Fetch Key Value Error β) : List α → Fetch Key Value Error (List β)
  | [] => pure []
  | x :: xs => do
    let first ← program x
    return first :: (← each program xs)

section

variable (lookup : Key → Except Error Value)

def run : Fetch Key Value Error α → Except Error α
  | .done result => result
  | .read key next => (next (lookup key)).run

/-- The keys that are read, in their order. -/
def reads : Fetch Key Value Error α → List Key
  | .done _ => []
  | .read key next => key :: (next (lookup key)).reads

@[simp] theorem run_done (result : Except Error α) : (done result : Fetch Key Value Error α).run lookup = result := rfl

@[simp] theorem reads_done (result : Except Error α) : (done result : Fetch Key Value Error α).reads lookup = [] := rfl

@[simp] theorem run_pure (a : α) : (pure a : Fetch Key Value Error α).run lookup = .ok a := rfl

@[simp] theorem reads_pure (a : α) : (pure a : Fetch Key Value Error α).reads lookup = [] := rfl

@[simp] theorem run_get (key : Key) : (get key).run lookup = lookup key := rfl

@[simp] theorem reads_get (key : Key) : (get key).reads lookup = [key] := rfl

@[simp] theorem run_bind (program : Fetch Key Value Error α) (rest : α → Fetch Key Value Error β) :
    (program >>= rest).run lookup = program.run lookup >>= fun a => (rest a).run lookup := by
  change (program.bind rest).run lookup = _
  induction program with
  | done result => cases result <;> rfl
  | read key next ih => exact ih (lookup key)

/-- What a program reads, and what follows reads if the program succeeds. -/
theorem mem_reads_bind {program : Fetch Key Value Error α} {rest : α → Fetch Key Value Error β} {key : Key} :
    key ∈ (program >>= rest).reads lookup ↔
      key ∈ program.reads lookup ∨ ∃ a, program.run lookup = .ok a ∧ key ∈ (rest a).reads lookup := by
  change key ∈ (program.bind rest).reads lookup ↔ _
  induction program with
  | done result =>
    cases result with
    | ok a => simp [bind]
    | error e => simp [bind]
  | read first next ih =>
    have followed := ih (lookup first)
    simp only [bind, reads, List.mem_cons, run, followed, or_assoc]

@[simp] theorem run_attempt (program : Fetch Key Value Error α) :
    program.attempt.run lookup = .ok (program.run lookup) := by
  induction program with
  | done result => rfl
  | read key next ih => exact ih (lookup key)

@[simp] theorem reads_attempt (program : Fetch Key Value Error α) :
    program.attempt.reads lookup = program.reads lookup := by
  induction program with
  | done result => rfl
  | read key next ih => exact congrArg _ (ih (lookup key))

variable {lookup}

theorem exists_of_mem_reads_each {program : α → Fetch Key Value Error β} {xs : List α} {key : Key}
    (member : key ∈ (each program xs).reads lookup) : ∃ x ∈ xs, key ∈ (program x).reads lookup := by
  induction xs with
  | nil => cases member
  | cons x xs ih =>
    rcases (mem_reads_bind lookup).mp member with here | ⟨_, _, behind⟩
    · exact ⟨x, List.mem_cons_self, here⟩
    · rcases (mem_reads_bind lookup).mp behind with later | ⟨_, _, none⟩
      · obtain ⟨other, inRest, found⟩ := ih later
        exact ⟨other, List.mem_cons_of_mem _ inRest, found⟩
      · cases none

theorem run_each {program : α → Fetch Key Value Error β} {xs : List α} {ys : List β}
    (ran : (each program xs).run lookup = .ok ys) :
    List.Forall₂ (fun x y => (program x).run lookup = .ok y) xs ys := by
  induction xs generalizing ys with
  | nil =>
    obtain rfl : [] = ys := Except.ok.inj ran
    exact .nil
  | cons x xs ih =>
    unfold each at ran
    rw [run_bind] at ran
    cases first : (program x).run lookup with
    | error e =>
      rw [first] at ran
      cases ran
    | ok y =>
      rw [first] at ran
      change (each program xs >>= fun rest => pure (y :: rest)).run lookup = .ok ys at ran
      rw [run_bind] at ran
      cases rest : (each program xs).run lookup with
      | error e =>
        rw [rest] at ran
        cases ran
      | ok behind =>
        rw [rest] at ran
        obtain rfl := Except.ok.inj ran
        exact .cons first (ih rest)

/-- A store that has the same values for the keys that are read gives the same run. -/
theorem run_congr {other : Key → Except Error Value} {program : Fetch Key Value Error α}
    (agree : ∀ key ∈ program.reads lookup, other key = lookup key) : program.run other = program.run lookup := by
  induction program with
  | done result => rfl
  | read key next ih =>
    have same : other key = lookup key := agree key List.mem_cons_self
    rw [run, run, same]
    exact ih (lookup key) fun later member => agree later (List.mem_cons_of_mem _ member)

end

end Fetch
