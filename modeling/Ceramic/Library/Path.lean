import Ceramic.Library.Transition

/-! Infinite runs, which may also stand still. -/
namespace Transition

variable {State Action : Type}

structure Path (step : State → Action → Option State) where
  state : Nat → State
  action : Nat → Option Action
  moves : ∀ n a, action n = some a → step (state n) a = some (state (n + 1))
  rests : ∀ n, action n = none → state (n + 1) = state n

namespace Path

variable {step : State → Action → Option State} {allowed : State → Action → Prop} (path : Path step)

/-- Every step of the path is allowed where it is taken. -/
def Keeps (allowed : State → Action → Prop) : Prop := ∀ n a, path.action n = some a → allowed (path.state n) a

theorem reaches (keeps : path.Keeps allowed) (n : Nat) :
    Reaches step allowed (path.state 0) (path.state n) := by
  induction n with
  | zero => exact .start
  | succ n ih =>
    cases action : path.action n with
    | none =>
      rw [path.rests n action]
      exact ih
    | some a => exact ih.next (keeps n a action) (path.moves n a action)

/-- What no step undoes stays. -/
theorem stays (Holds : State → Prop) (preserved : ∀ s a s', Holds s → step s a = some s' → Holds s') {n m : Nat}
    (holds : Holds (path.state n)) (later : n ≤ m) : Holds (path.state m) := by
  induction later with
  | refl => exact holds
  | @step m _ ih =>
    cases action : path.action m with
    | none =>
      rw [path.rests m action]
      exact ih
    | some a => exact preserved _ _ _ ih (path.moves m a action)

/-- Until an action is taken, what every other action preserves holds. -/
theorem holdsUntil (Holds : State → Prop) (goal : Action → Prop)
    (preserved : ∀ s a s', Holds s → ¬goal a → step s a = some s' → Holds s') {n m : Nat}
    (holds : Holds (path.state n)) (later : n ≤ m) :
    Holds (path.state m) ∨ ∃ k a, n ≤ k ∧ k < m ∧ path.action k = some a ∧ goal a ∧ Holds (path.state k) := by
  induction later with
  | refl => exact .inl holds
  | @step m later ih =>
    rcases ih with ih | ⟨k, a, first, before, taken⟩
    · cases action : path.action m with
      | none =>
        rw [path.rests m action]
        exact .inl ih
      | some a =>
        by_cases reached : goal a
        · exact .inr ⟨m, a, later, m.lt_succ_self, action, reached, ih⟩
        · exact .inl (preserved _ _ _ ih reached (path.moves m a action))
    · exact .inr ⟨k, a, first, Nat.lt_trans before m.lt_succ_self, taken⟩

end Path

end Transition
