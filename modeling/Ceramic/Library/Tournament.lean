import Mathlib.Order.Lattice

/-! Holding the winner of a sequence of challenges. Whoever is held meets the next
challenger and is replaced unless it keeps its place. -/
namespace Tournament

variable {α : Type} (keeps : α → α → Bool)

def hold (held challenger : α) : α := if keeps held challenger then held else challenger

def holdAll (held : α) (challengers : List α) : α := challengers.foldl (hold keeps) held

/-- Two distinct contestants do not both keep their place against the other. -/
def Antisymmetric (among : List α) : Prop :=
  ∀ x ∈ among, ∀ y ∈ among, keeps x y = true → keeps y x = true → x = y

/-- The challengers are those of the list, each at least once. -/
def Covers (among challengers : List α) : Prop :=
  (∀ x ∈ challengers, x ∈ among) ∧ ∀ x ∈ among, x ∈ challengers

theorem Covers.refl (among : List α) : Covers among among := ⟨fun _ => id, fun _ => id⟩

theorem Covers.append {among challengers : List α} {x : α} (covers : Covers among challengers)
    (member : x ∈ among) : Covers among (challengers ++ [x]) := by
  refine ⟨fun y inside => ?_, fun y inside => List.mem_append_left _ (covers.2 y inside)⟩
  rcases List.mem_append.mp inside with old | new
  · exact covers.1 y old
  · exact List.mem_singleton.mp new ▸ member

theorem holdAll_append (held x : α) (challengers : List α) :
    holdAll keeps held (challengers ++ [x]) = hold keeps (holdAll keeps held challengers) x := by
  simp [holdAll]

theorem hold_mem (held challenger : α) : hold keeps held challenger ∈ [held, challenger] := by
  unfold hold
  split <;> simp

theorem holdAll_mem (held : α) (challengers : List α) :
    holdAll keeps held challengers ∈ held :: challengers := by
  induction challengers generalizing held with
  | nil => simp [holdAll]
  | cons x xs ih =>
    have step := hold_mem keeps held x
    have rest := ih (hold keeps held x)
    simp only [holdAll, List.foldl_cons, List.mem_cons, List.not_mem_nil, or_false] at step rest ⊢
    rcases rest with same | later
    · rw [same]
      exact step.imp_right .inl
    · exact .inr (.inr later)

/-- What relates the loser of each comparison to its winner relates the first held to the last. -/
theorem holdAll_related {rel : α → α → Prop} {held : α} {challengers among : List α}
    (refl : ∀ x, rel x x) (trans : ∀ {x y z}, rel x y → rel y z → rel x z)
    (replaced : ∀ x ∈ among, ∀ y ∈ among, keeps x y = false → rel x y)
    (inside : ∀ x ∈ held :: challengers, x ∈ among) : rel held (holdAll keeps held challengers) := by
  induction challengers generalizing held with
  | nil => exact refl held
  | cons x xs ih =>
    have heldIn := inside held List.mem_cons_self
    have xIn := inside x (List.mem_cons_of_mem _ List.mem_cons_self)
    have rest := fun y member => inside y (List.mem_cons_of_mem _ (List.mem_cons_of_mem _ member))
    cases verdict : keeps held x with
    | true =>
      have step : hold keeps held x = held := by simp [hold, verdict]
      rw [holdAll, List.foldl_cons, step]
      exact ih fun y member => (List.mem_cons.mp member).elim (· ▸ heldIn) (rest y)
    | false =>
      have step : hold keeps held x = x := by simp [hold, verdict]
      rw [holdAll, List.foldl_cons, step]
      exact trans (replaced held heldIn x xIn verdict)
        (ih fun y member => (List.mem_cons.mp member).elim (· ▸ xIn) (rest y))

/-- Where keeping the place carries over, whoever is held keeps its place against everyone met so far. -/
theorem hold_keeps {held challenger : α} {met among : List α} (reflexive : ∀ x ∈ among, keeps x x = true)
    (total : ∀ x ∈ among, ∀ y ∈ among, keeps x y = false → keeps y x = true)
    (trans : ∀ x ∈ among, ∀ y ∈ among, ∀ z ∈ among, keeps x y = true → keeps y z = true → keeps x z = true)
    (inside : ∀ x ∈ held :: challenger :: met, x ∈ among) (best : ∀ x ∈ met, keeps held x = true) :
    ∀ x ∈ challenger :: met, keeps (hold keeps held challenger) x = true := by
  obtain ⟨heldIn, challengerIn, metIn⟩ := by simpa only [List.forall_mem_cons] using inside
  unfold hold
  cases verdict : keeps held challenger with
  | true => exact List.forall_mem_cons.mpr ⟨verdict, best⟩
  | false =>
    have wins := total held heldIn challenger challengerIn verdict
    refine List.forall_mem_cons.mpr ⟨reflexive challenger challengerIn, fun x member => ?_⟩
    exact trans challenger challengerIn held heldIn x (metIn x member) wins (best x member)

/-- Who keeps its place against everyone is held in the end, from the moment it is met. -/
theorem holdAll_winner {held w : α} {challengers among : List α}
    (antisymmetric : Antisymmetric keeps among) (inside : ∀ x ∈ held :: challengers, x ∈ among)
    (winner : ∀ x ∈ held :: challengers, keeps w x = true) (member : w ∈ held :: challengers) :
    holdAll keeps held challengers = w := by
  induction challengers generalizing held with
  | nil => exact (List.mem_singleton.mp member).symm
  | cons x xs ih =>
    have wInside := inside w member
    have step : hold keeps held x = w ∨ w ∈ xs := by
      rcases List.mem_cons.mp member with rfl | later
      · exact .inl (by simp [hold, winner x (by simp)])
      · rcases List.mem_cons.mp later with rfl | behind
        · by_cases keeping : keeps held w = true
          · have same := antisymmetric held (inside held (by simp)) w wInside keeping (winner held (by simp))
            exact .inl (by simp [hold, same])
          · exact .inl (by simp [hold, keeping])
        · exact .inr behind
    have oneOf := hold_mem keeps held x
    simp only [List.mem_cons, List.not_mem_nil, or_false] at oneOf
    have fromHeld : ∀ {P : α → Prop}, (∀ y ∈ held :: x :: xs, P y) →
        ∀ y ∈ hold keeps held x :: xs, P y := by
      intro P all y inList
      rcases List.mem_cons.mp inList with rfl | behind
      · rcases oneOf with same | same
        · exact all _ (by simp [same])
        · exact all _ (by simp [same])
      · exact all y (by simp [behind])
    exact ih (fromHeld inside) (fromHeld winner) (List.mem_cons.mpr (step.imp_left Eq.symm))

/-- The order of the challenges does not matter exactly when one contestant keeps its
place against all challengers. -/
theorem holdAll_converges_iff {root : α} {among : List α}
    (antisymmetric : Antisymmetric keeps (root :: among)) (reflexive : ∀ x ∈ root :: among, keeps x x = true)
    (overRoot : ∀ x ∈ among, keeps x root = true) :
    (∀ xs ys, Covers among xs → Covers among ys →
      holdAll keeps root xs = holdAll keeps root ys) ↔
    ∃ w ∈ root :: among, ∀ x ∈ among, keeps w x = true := by
  constructor
  · intro converges
    -- whoever is held after all challenges would be replaced by one more that beats it
    have held := holdAll_mem keeps root among
    refine ⟨holdAll keeps root among, held, fun x member => ?_⟩
    have again := converges among (among ++ [x]) (.refl among) (Covers.append (.refl among) member)
    rw [holdAll_append] at again
    by_cases keeping : keeps (holdAll keeps root among) x = true
    · exact keeping
    · have replaced : holdAll keeps root among = x := by
        simpa [hold, keeping] using again
      exact absurd (replaced ▸ reflexive _ held) keeping
  · rintro ⟨w, member, wins⟩ xs ys coversX coversY
    have ends {zs : List α} (covers : Covers among zs) : holdAll keeps root zs = w := by
      have inside : ∀ x ∈ root :: zs, x ∈ root :: among := by
        intro x inList
        rcases List.mem_cons.mp inList with rfl | challenger
        · simp
        · exact List.mem_cons_of_mem _ (covers.1 x challenger)
      have winner : ∀ x ∈ root :: zs, keeps w x = true := by
        intro x inList
        rcases List.mem_cons.mp inList with rfl | challenger
        · rcases List.mem_cons.mp member with rfl | among
          · exact reflexive w (by simp)
          · exact overRoot w among
        · exact wins x (covers.1 x challenger)
      have met : w ∈ root :: zs := by
        rcases List.mem_cons.mp member with rfl | among
        · simp
        · exact List.mem_cons_of_mem _ (covers.2 w among)
      exact holdAll_winner keeps antisymmetric inside winner met
    rw [ends coversX, ends coversY]

/-- Pairwise comparisons in any order: a bracket names its entrants and who meets whom. -/
inductive Bracket (α : Type) where
  | entrant (x : α)
  | meeting (left right : Bracket α)

namespace Bracket

def entrants : Bracket α → List α
  | entrant x => [x]
  | meeting left right => left.entrants ++ right.entrants

def winner (accept : α → α → α) : Bracket α → α
  | entrant x => x
  | meeting left right => accept (left.winner accept) (right.winner accept)

variable {β : Type} [LinearOrder β] {accept : α → α → α} {rank : α → β}

/-- Where the lower rank is accepted, the lowest wins. -/
theorem winner_lowest (bracket : Bracket α) (among : ∀ x ∈ bracket.entrants, ∀ y ∈ bracket.entrants,
    accept x y = if rank x < rank y then x else y) :
    bracket.winner accept ∈ bracket.entrants ∧ ∀ x ∈ bracket.entrants, rank (bracket.winner accept) ≤ rank x := by
  induction bracket with
  | entrant x => simp [winner, entrants]
  | meeting left right ihLeft ihRight =>
    obtain ⟨leftIn, leftLowest⟩ := ihLeft fun x inX y inY =>
      among x (List.mem_append_left _ inX) y (List.mem_append_left _ inY)
    obtain ⟨rightIn, rightLowest⟩ := ihRight fun x inX y inY =>
      among x (List.mem_append_right _ inX) y (List.mem_append_right _ inY)
    have met := among _ (List.mem_append_left _ leftIn) _ (List.mem_append_right _ rightIn)
    simp only [winner, entrants, met]
    by_cases lower : rank (left.winner accept) < rank (right.winner accept)
    · rw [if_pos lower]
      refine ⟨List.mem_append_left _ leftIn, fun x member => ?_⟩
      rcases List.mem_append.mp member with inLeft | inRight
      · exact leftLowest x inLeft
      · exact le_trans (le_of_lt lower) (rightLowest x inRight)
    · rw [if_neg lower]
      refine ⟨List.mem_append_right _ rightIn, fun x member => ?_⟩
      rcases List.mem_append.mp member with inLeft | inRight
      · exact le_trans (not_lt.mp lower) (leftLowest x inLeft)
      · exact rightLowest x inRight

/-- So the order of the comparisons does not matter. -/
theorem winner_unique {bracket bracket' : Bracket α}
    (same : ∀ x, x ∈ bracket.entrants ↔ x ∈ bracket'.entrants)
    (among : ∀ x ∈ bracket.entrants, ∀ y ∈ bracket.entrants, accept x y = if rank x < rank y then x else y)
    (distinct : ∀ x ∈ bracket.entrants, ∀ y ∈ bracket.entrants, rank x = rank y → x = y) :
    bracket.winner accept = bracket'.winner accept := by
  obtain ⟨member, lowest⟩ := bracket.winner_lowest among
  obtain ⟨member', lowest'⟩ := bracket'.winner_lowest fun x inX y inY =>
    among x ((same x).mpr inX) y ((same y).mpr inY)
  apply distinct _ member _ ((same _).mpr member')
  exact le_antisymm (lowest _ ((same _).mpr member')) (lowest' _ ((same _).mp member))

end Bracket

end Tournament
