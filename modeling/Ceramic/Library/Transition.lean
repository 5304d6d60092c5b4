/-! Systems that take one step after the other, where some steps may be ruled out by a
condition on the state before them. -/
namespace Transition

variable {State Action : Type} (step : State → Action → Option State)
  (allowed : State → Action → Prop)

/-- The states of the runs all of whose steps are allowed. -/
inductive Reaches (start : State) : State → Prop where
  | start : Reaches start start
  | next {s s' : State} {a : Action} :
      Reaches start s → allowed s a → step s a = some s' → Reaches start s'

variable {step allowed}

/-- What every allowed step preserves holds in every state reached. -/
theorem Reaches.invariant {start s : State} {Holds : State → Prop} (initial : Holds start)
    (preserved : ∀ s a s', Holds s → allowed s a → step s a = some s' → Holds s')
    (reaches : Reaches step allowed start s) : Holds s := by
  induction reaches with
  | start => exact initial
  | next _ permitted stepped ih => exact preserved _ _ _ ih permitted stepped

theorem Reaches.mono {more : State → Action → Prop} {start s : State} (weaker : ∀ s a, allowed s a → more s a)
    (reaches : Reaches step allowed start s) : Reaches step more start s := by
  induction reaches with
  | start => exact .start
  | next _ permitted stepped ih => exact ih.next (weaker _ _ permitted) stepped

theorem Reaches.trans {start middle s : State} (first : Reaches step allowed start middle)
    (second : Reaches step allowed middle s) : Reaches step allowed start s := by
  induction second with
  | start => exact first
  | next _ permitted stepped ih => exact ih.next permitted stepped

/-- A system whose steps are matched by those of another, none or several for one, only gets to states that the other
one gets to. -/
theorem Reaches.simulated {Abstract Event : Type} {matching : Abstract → Event → Option Abstract}
    {permitted : Abstract → Event → Prop} {Related : State → Abstract → Prop} {start s : State} {first : Abstract}
    (initial : Related start first)
    (matched : ∀ s a s' t, Related s t → allowed s a → step s a = some s' →
      ∃ t', Reaches matching permitted t t' ∧ Related s' t')
    (reaches : Reaches step allowed start s) : ∃ t, Reaches matching permitted first t ∧ Related s t := by
  induction reaches with
  | start => exact ⟨first, .start, initial⟩
  | next _ stepAllowed stepped ih =>
    obtain ⟨t, reached, related⟩ := ih
    obtain ⟨t', further, related'⟩ := matched _ _ _ t related stepAllowed stepped
    exact ⟨t', reached.trans further, related'⟩

variable (step) in
/-- The state after a sequence of steps, if all of them can be taken. -/
def run (s : State) (actions : List Action) : Option State := actions.foldlM step s

theorem run_cons {s s' : State} {a : Action} {actions : List Action} :
    run step s (a :: actions) = some s' ↔ ∃ middle, step s a = some middle ∧ run step middle actions = some s' :=
  Option.bind_eq_some_iff

theorem run_concat {s s' : State} {a : Action} {actions : List Action} :
    run step s (actions ++ [a]) = some s' ↔ ∃ middle, run step s actions = some middle ∧ step middle a = some s' := by
  unfold run
  rw [List.foldlM_append, Option.bind_eq_bind, Option.bind_eq_some_iff]
  simp [List.foldlM_cons, List.foldlM_nil]

/-- Where every step uses up some of what there is at first, a run is no longer than that. -/
theorem length_le_of_run {potential : State → Nat} {Holds : State → Prop}
    (preserved : ∀ s a s', Holds s → step s a = some s' → Holds s' ∧ potential s' < potential s) {s s' : State}
    {actions : List Action} (holds : Holds s) (ran : run step s actions = some s') :
    Holds s' ∧ actions.length + potential s' ≤ potential s := by
  induction actions generalizing s with
  | nil =>
    obtain rfl : s = s' := Option.some.inj ran
    exact ⟨holds, by simp⟩
  | cons a actions ih =>
    obtain ⟨middle, stepped, rest⟩ := run_cons.mp ran
    obtain ⟨holdsMiddle, used⟩ := preserved s a middle holds stepped
    obtain ⟨holdsLast, bounded⟩ := ih holdsMiddle rest
    exact ⟨holdsLast, by rw [List.length_cons]; omega⟩

/-- Each step of a sequence can be taken and is allowed where it is taken. -/
def AllAllowed (step : State → Action → Option State) (allowed : State → Action → Prop) :
    State → List Action → Prop
  | _, [] => True
  | s, a :: actions => allowed s a ∧
    match step s a with
    | some s' => AllAllowed step allowed s' actions
    | none => False

instance decidableAllAllowed (step : State → Action → Option State) (allowed : State → Action → Prop)
    [∀ s a, Decidable (allowed s a)] : (s : State) → (actions : List Action) →
      Decidable (AllAllowed step allowed s actions)
  | _, [] => isTrue trivial
  | s, a :: actions =>
    match stepped : step s a with
    | some s' =>
      have := decidableAllAllowed step allowed s' actions
      decidable_of_iff (allowed s a ∧ AllAllowed step allowed s' actions) (by simp [AllAllowed, stepped])
    | none => isFalse (by simp [AllAllowed, stepped])

theorem reaches_of_run {s s' : State} {actions : List Action} (ran : run step s actions = some s')
    (permitted : AllAllowed step allowed s actions) : Reaches step allowed s s' := by
  induction actions generalizing s with
  | nil =>
    obtain rfl : s = s' := Option.some.inj ran
    exact .start
  | cons a actions ih =>
    obtain ⟨middle, stepped, rest⟩ := run_cons.mp ran
    obtain ⟨first, permitted⟩ := permitted
    simp only [stepped] at permitted
    have reached : Reaches step allowed s middle := Reaches.next .start first stepped
    exact reached.trans (ih rest permitted)

end Transition
