import Mathlib.Data.Fintype.EquivFin
import Mathlib.Data.Set.Finite.Basic
import Mathlib.Logic.Relation
import Mathlib.Order.WellFounded

/-! Questions that are answered by further questions. Each has rows of them and holds if every row has one
that holds. A row is gone through up to the first that holds, the rows one after the other, and the first
failure ends it all. Whether an answer is found at all is a matter of the questions alone. -/
namespace Questions

variable {ι ε : Type}

def meets (ask : ι → Except ε Bool) : List ι → Except ε Bool
  | [] => .ok false
  | question :: row => do
    if ← ask question then return true
    meets ask row

/-- A row may also be missing, with an error in its place. -/
def every (ask : ι → Except ε Bool) : List (Except ε (List ι)) → Except ε Bool
  | [] => .ok true
  | row :: rows => do
    let met ← meets ask (← row)
    let others ← every ask rows
    return met && others

section Rows

variable {ask more : ι → Except ε Bool}

theorem meets_cons {question : ι} {row : List ι} : meets ask (question :: row) =
    (ask question).bind fun met => if met then .ok true else meets ask row := by
  rw [meets]
  rcases ask question with _ | _ | _ <;> rfl

theorem meets_single (question : ι) : meets ask [question] = ask question := by
  rw [meets_cons]
  rcases ask question with _ | _ | _ <;> rfl

theorem meets_append (row others : List ι) : meets ask (row ++ others) =
    (meets ask row).bind fun met => if met then .ok true else meets ask others := by
  induction row with
  | nil => rfl
  | cons first row ih =>
    rw [List.cons_append, meets_cons, meets_cons, ih]
    rcases ask first with _ | _ | _ <;> rfl

theorem meets_eq_error {row : List ι} {e : ε} (failed : meets ask row = .error e) :
    ∃ before question after, row = before ++ question :: after ∧ (∀ other ∈ before, ask other = .ok false) ∧
      ask question = .error e := by
  induction row with
  | nil => cases failed
  | cons first row ih =>
    rw [meets_cons] at failed
    rcases answered : ask first with other | _ | _
    · rw [answered] at failed
      exact ⟨[], first, row, rfl, by simp, answered.trans failed⟩
    · rw [answered] at failed
      obtain ⟨before, question, after, rfl, unmet, isError⟩ := ih failed
      exact ⟨first :: before, question, after, rfl, List.forall_mem_cons.mpr ⟨answered, unmet⟩, isError⟩
    · simp [answered, Except.bind] at failed

theorem exists_of_meets {row : List ι} (met : meets ask row = .ok true) : ∃ question ∈ row, ask question = .ok true := by
  induction row with
  | nil => cases met
  | cons first row ih =>
    rw [meets_cons] at met
    rcases answered : ask first with _ | _ | _
    · simp [answered, Except.bind] at met
    · rw [answered] at met
      obtain ⟨question, member, holds⟩ := ih met
      exact ⟨question, List.mem_cons_of_mem _ member, holds⟩
    · exact ⟨first, List.mem_cons_self, answered⟩

theorem unmet_of_meets {row : List ι} (unmet : meets ask row = .ok false) : ∀ question ∈ row, ask question = .ok false := by
  induction row with
  | nil => simp
  | cons first row ih =>
    rw [meets_cons] at unmet
    rcases answered : ask first with _ | _ | _
    · simp [answered, Except.bind] at unmet
    · rw [answered] at unmet
      exact List.forall_mem_cons.mpr ⟨answered, ih unmet⟩
    · simp [answered, Except.bind] at unmet

/-- In a row that is answered a question is answered unless one before it is met. -/
theorem answered_of_meets {before after : List ι} {question : ι} {met : Bool}
    (answered : meets ask (before ++ question :: after) = .ok met) (unmet : ∀ other ∈ before, ask other ≠ .ok true) :
    ∃ answer, ask question = .ok answer := by
  induction before with
  | nil =>
    rw [List.nil_append, meets_cons] at answered
    cases asked : ask question with
    | error => simp [asked, Except.bind] at answered
    | ok answer => exact ⟨answer, rfl⟩
  | cons first before ih =>
    obtain ⟨here, behind⟩ := List.forall_mem_cons.mp unmet
    rw [List.cons_append, meets_cons] at answered
    rcases asked : ask first with _ | _ | _
    · simp [asked, Except.bind] at answered
    · rw [asked] at answered
      exact ih answered behind
    · exact absurd asked here

theorem every_cons {row : Except ε (List ι)} {rows : List (Except ε (List ι))} : every ask (row :: rows) =
    (row.bind (meets ask)).bind fun met => (every ask rows).map fun others => met && others := by
  rw [every]
  cases row with
  | error => rfl
  | ok questions =>
    simp only [bind, Except.bind]
    cases meets ask questions with
    | error => rfl
    | ok met => cases every ask rows <;> rfl

theorem every_ok_cons {questions : List ι} {rows : List (Except ε (List ι))} : every ask (.ok questions :: rows) =
    (meets ask questions).bind fun met => (every ask rows).map fun others => met && others := every_cons

/-- A row that has been answered. -/
def Answered (ask : ι → Except ε Bool) (row : Except ε (List ι)) : Prop :=
  ∃ questions met, row = .ok questions ∧ meets ask questions = .ok met

theorem every_eq_error {rows : List (Except ε (List ι))} {e : ε} (failed : every ask rows = .error e) :
    ∃ before row after, rows = before ++ row :: after ∧ (∀ other ∈ before, Answered ask other) ∧
      (row = .error e ∨ ∃ questions, row = .ok questions ∧ meets ask questions = .error e) := by
  induction rows with
  | nil => cases failed
  | cons row rows ih =>
    rw [every_cons] at failed
    cases row with
    | error other => exact ⟨[], .error other, rows, rfl, by simp, .inl (congrArg _ (Except.error.inj failed))⟩
    | ok questions =>
      cases answered : meets ask questions with
      | error other =>
        simp only [Except.bind, answered] at failed
        exact ⟨[], .ok questions, rows, rfl, by simp, .inr ⟨questions, rfl, answered.trans failed⟩⟩
      | ok met =>
        cases behind : every ask rows with
        | ok others => simp [Except.bind, answered, behind, Except.map] at failed
        | error other =>
          simp only [Except.bind, answered, behind, Except.map] at failed
          obtain ⟨before, row, after, rfl, passed, isError⟩ := ih (behind.trans failed)
          refine ⟨.ok questions :: before, row, after, rfl, ?_, isError⟩
          exact List.forall_mem_cons.mpr ⟨⟨questions, met, rfl, answered⟩, passed⟩

theorem every_eq_ok {rows : List (Except ε (List ι))} {holds : Bool} (answered : every ask rows = .ok holds) :
    (∀ row ∈ rows, Answered ask row) ∧
      (holds = true ↔ ∀ row ∈ rows, ∃ questions, row = .ok questions ∧ meets ask questions = .ok true) := by
  induction rows generalizing holds with
  | nil =>
    obtain rfl : true = holds := Except.ok.inj answered
    simp
  | cons row rows ih =>
    rw [every_cons] at answered
    cases row with
    | error => cases answered
    | ok questions =>
      cases here : meets ask questions with
      | error => simp [Except.bind, here] at answered
      | ok met =>
        cases behind : every ask rows with
        | error => simp [Except.bind, here, behind, Except.map] at answered
        | ok others =>
          simp only [Except.bind, here, behind, Except.map] at answered
          obtain rfl : (met && others) = holds := Except.ok.inj answered
          obtain ⟨passed, all⟩ := ih behind
          refine ⟨List.forall_mem_cons.mpr ⟨⟨questions, met, rfl, here⟩, passed⟩, ?_⟩
          rw [List.forall_mem_cons, ← all, Bool.and_eq_true]
          simp [here]

theorem meets_congr {row : List ι} {exceeded : ε} (same : ∀ question, ask question ≠ .error exceeded → more question = ask question)
    (within : meets ask row ≠ .error exceeded) : meets more row = meets ask row := by
  induction row with
  | nil => rfl
  | cons first row ih =>
    rw [meets_cons] at within
    rw [meets_cons, meets_cons]
    have here : more first = ask first := same first fun error => within (by rw [error]; rfl)
    rw [here]
    rcases answered : ask first with _ | _ | _
    · rfl
    · rw [answered] at within
      exact ih within
    · rfl

theorem every_congr {rows : List (Except ε (List ι))} {exceeded : ε}
    (same : ∀ question, ask question ≠ .error exceeded → more question = ask question)
    (within : every ask rows ≠ .error exceeded) : every more rows = every ask rows := by
  induction rows with
  | nil => rfl
  | cons row rows ih =>
    rw [every_cons] at within
    rw [every_cons, every_cons]
    cases row with
    | error => rfl
    | ok questions =>
      have here : meets more questions = meets ask questions :=
        meets_congr same fun error => within (by simp [Except.bind, error])
      simp only [Except.bind, here] at within ⊢
      cases answered : meets ask questions with
      | error => rfl
      | ok met =>
        rw [answered] at within
        rw [ih fun error => within (by simp [error, Except.map])]

end Rows

variable (rows : ι → List (Except ε (List ι))) (exceeded : ε)

/-- The answer, where the questions asked within one another are not more than some number. -/
def answer : Nat → ι → Except ε Bool
  | 0, _ => .error exceeded
  | depth + 1, question => every (answer depth) (rows question)

def Terminates (question : ι) : Prop := ∃ depth, answer rows exceeded depth question ≠ .error exceeded

def HoldsTo : Nat → ι → Prop
  | 0, _ => False
  | depth + 1, question => ∀ row ∈ rows question, ∃ others, row = .ok others ∧ ∃ other ∈ others, HoldsTo depth other

/-- A question holds if every row has one that holds, in whatever order they are asked. -/
def Holds (question : ι) : Prop := ∃ depth, HoldsTo rows depth question

/-- A question of a row with none before it that holds. -/
def Reached (row : List ι) (question : ι) : Prop :=
  ∃ before after, row = before ++ question :: after ∧ ∀ other ∈ before, ¬Holds rows other

/-- A row is missing somewhere below a question. -/
inductive Fails : ι → Prop
  | here {question e} : .error e ∈ rows question → Fails question
  | further {question row other} : .ok row ∈ rows question → Reached rows row other → Fails other → Fails question

/-- The second question is asked to answer the first: the rows before its own do not fail, and in its own
row there is none before it that holds or fails. -/
def Asks (question other : ι) : Prop :=
  ∃ above before after below, rows question = above ++ .ok (before ++ other :: after) :: below ∧
    (∀ row ∈ above, ∃ questions, row = .ok questions ∧ ∀ reached, Reached rows questions reached → ¬Fails rows reached) ∧
    ∀ earlier ∈ before, ¬Holds rows earlier ∧ ¬Fails rows earlier

variable {rows exceeded}

theorem answer_mono {depth : Nat} {question : ι} (within : answer rows exceeded depth question ≠ .error exceeded) :
    answer rows exceeded (depth + 1) question = answer rows exceeded depth question := by
  induction depth generalizing question with
  | zero => exact absurd rfl within
  | succ depth ih => exact every_congr (fun other => ih) within

theorem answer_of_le {m n : Nat} (deeper : m ≤ n) {question : ι} (within : answer rows exceeded m question ≠ .error exceeded) :
    answer rows exceeded n question = answer rows exceeded m question := by
  induction deeper with
  | refl => rfl
  | step _ ih => exact (answer_mono (ih ▸ within)).trans ih

theorem holdsTo_of_answer {depth : Nat} {question : ι} (met : answer rows exceeded depth question = .ok true) :
    HoldsTo rows depth question := by
  induction depth generalizing question with
  | zero => cases met
  | succ depth ih =>
    intro row member
    obtain ⟨others, rfl, metRow⟩ := (every_eq_ok met).2.mp rfl row member
    obtain ⟨other, other_mem, holds⟩ := exists_of_meets metRow
    exact ⟨others, rfl, other, other_mem, ih holds⟩

theorem HoldsTo.mono {m n : Nat} (deeper : m ≤ n) {question : ι} (holds : HoldsTo rows m question) : HoldsTo rows n question := by
  induction m generalizing n question with
  | zero => exact holds.elim
  | succ m ih =>
    cases n with
    | zero => exact absurd deeper (Nat.not_succ_le_zero m)
    | succ n =>
      intro row member
      obtain ⟨others, isRow, other, other_mem, holdsOther⟩ := holds row member
      exact ⟨others, isRow, other, other_mem, ih (Nat.le_of_succ_le_succ deeper) holdsOther⟩

/-- What each of a list has from some depth on, all have from one depth on. -/
theorem exists_common {α : Type} {has : Nat → α → Prop} (mono : ∀ m n a, m ≤ n → has m a → has n a) {list : List α}
    (each : ∀ a ∈ list, ∃ depth, has depth a) : ∃ depth, ∀ a ∈ list, has depth a := by
  induction list with
  | nil => exact ⟨0, nofun⟩
  | cons first list ih =>
    obtain ⟨here, ⟨own, isOwn⟩⟩ := (List.forall_mem_cons.mp each).symm
    obtain ⟨depth, others⟩ := ih here
    refine ⟨max own depth, List.forall_mem_cons.mpr ⟨mono _ _ _ (le_max_left own depth) isOwn, fun a member => ?_⟩⟩
    exact mono _ _ _ (le_max_right own depth) (others a member)

/-- A question that holds is not answered otherwise. -/
theorem answer_of_holdsTo {bound : Nat} {question : ι} (holds : HoldsTo rows bound question) {depth : Nat} {met : Bool}
    (answered : answer rows exceeded depth question = .ok met) : met = true := by
  induction bound generalizing question depth met with
  | zero => exact holds.elim
  | succ bound ih =>
    cases depth with
    | zero => cases answered
    | succ depth =>
      obtain ⟨passed, all⟩ := every_eq_ok answered
      refine all.mpr fun row member => ?_
      obtain ⟨others, rfl, other, other_mem, holdsOther⟩ := holds row member
      obtain ⟨questions, metRow, same, answeredRow⟩ := passed _ member
      obtain rfl : others = questions := Except.ok.inj same
      cases metRow with
      | true => exact ⟨others, rfl, answeredRow⟩
      | false => cases ih holdsOther (unmet_of_meets answeredRow other other_mem)

theorem holds_iff {depth : Nat} {question : ι} {met : Bool} (answered : answer rows exceeded depth question = .ok met) :
    Holds rows question ↔ met = true := by
  constructor
  · rintro ⟨bound, holds⟩
    exact answer_of_holdsTo holds answered
  · rintro rfl
    exact ⟨depth, holdsTo_of_answer answered⟩

/-- In a row that is answered, all that is reached is answered. -/
theorem answered_of_reached {depth : Nat} {row : List ι} (answered : Answered (answer rows exceeded depth) (.ok row)) {question : ι}
    (reached : Reached rows row question) : ∃ met, answer rows exceeded depth question = .ok met := by
  obtain ⟨_, met, same, answeredRow⟩ := answered
  cases same
  obtain ⟨before, after, rfl, none⟩ := reached
  exact answered_of_meets answeredRow fun other member isMet => none other member ((holds_iff isMet).mpr rfl)

theorem not_fails {depth : Nat} {question : ι} {met : Bool} (answered : answer rows exceeded depth question = .ok met) :
    ¬Fails rows question := by
  intro fails
  induction fails generalizing depth met with
  | here missing =>
    cases depth with
    | zero => cases answered
    | succ depth =>
      obtain ⟨_, _, same, -⟩ := (every_eq_ok answered).1 _ missing
      cases same
  | further member reached _ ih =>
    cases depth with
    | zero => cases answered
    | succ depth =>
      obtain ⟨metOther, answeredOther⟩ := answered_of_reached ((every_eq_ok answered).1 _ member) reached
      exact ih answeredOther

/-- Where the first error of a row comes from. -/
theorem reached_of_error {depth : Nat} {row : List ι} {e : ε} (failed : meets (answer rows exceeded depth) row = .error e) :
    ∃ before question after, row = before ++ question :: after ∧ (∀ other ∈ before, ¬Holds rows other ∧ ¬Fails rows other) ∧
      answer rows exceeded depth question = .error e := by
  obtain ⟨before, question, after, rfl, unmet, isError⟩ := meets_eq_error failed
  refine ⟨before, question, after, rfl, fun other member => ⟨fun holds => ?_, not_fails (unmet other member)⟩, isError⟩
  cases (holds_iff (unmet other member)).mp holds

theorem fails_of_error {depth : Nat} {question : ι} {e : ε} (failed : answer rows exceeded depth question = .error e)
    (other : e ≠ exceeded) : Fails rows question := by
  induction depth generalizing question with
  | zero => exact absurd (Except.error.inj failed).symm other
  | succ depth ih =>
    obtain ⟨above, row, below, split, -, rfl | ⟨questions, rfl, failedRow⟩⟩ := every_eq_error failed
    · have missing : .error e ∈ rows question := by simp [split]
      exact .here missing
    · obtain ⟨before, asked, after, rfl, earlier, isError⟩ := reached_of_error failedRow
      have member : .ok (before ++ asked :: after) ∈ rows question := by simp [split]
      exact .further member ⟨before, after, rfl, fun other first => (earlier other first).1⟩ (ih isError)

/-- Two places of one list. -/
theorem eq_or_before {α : Type} {before after front back : List α} {x y : α}
    (same : before ++ x :: after = front ++ y :: back) : x = y ∨ x ∈ front ∨ y ∈ before := by
  induction before generalizing front with
  | nil =>
    cases front with
    | nil => exact .inl (List.cons.inj same).1
    | cons first front => exact .inr (.inl (by simp [(List.cons.inj same).1]))
  | cons first before ih =>
    cases front with
    | nil => exact .inr (.inr (by simp [(List.cons.inj same).1]))
    | cons other front =>
      obtain isEqual | inFront | inBefore := ih (List.cons.inj same).2
      · exact .inl isEqual
      · exact .inr (.inl (List.mem_cons_of_mem _ inFront))
      · exact .inr (.inr (List.mem_cons_of_mem _ inBefore))

/-- What is asked gets an answer wherever the question does. -/
theorem Asks.within {question other : ι} (asks : Asks rows question other) {depth : Nat}
    (within : answer rows exceeded (depth + 1) question ≠ .error exceeded) : answer rows exceeded depth other ≠ .error exceeded := by
  obtain ⟨above, before, after, below, split, passed, earlier⟩ := asks
  intro isExceeded
  have unanswered : ¬Answered (answer rows exceeded depth) (.ok (before ++ other :: after)) := fun answered => by
    obtain ⟨met, isMet⟩ := answered_of_reached answered ⟨before, after, rfl, fun first member => (earlier first member).1⟩
    cases isExceeded.symm.trans isMet
  have own : .ok (before ++ other :: after) ∈ rows question := by simp [split]
  cases answered : answer rows exceeded (depth + 1) question with
  | ok met => exact unanswered ((every_eq_ok answered).1 _ own)
  | error e =>
    have notExceeded : e ≠ exceeded := fun same => within (answered.trans (congrArg _ same))
    obtain ⟨front, row, back, place, done, isError⟩ := every_eq_error answered
    obtain rfl | ahead | behind := eq_or_before (split.symm.trans place)
    · obtain missing | ⟨_, same, failed⟩ := isError
      · cases missing
      · cases same
        obtain ⟨first, asked, last, order, unmet, failedAsked⟩ := meets_eq_error failed
        obtain rfl | inFirst | inBefore := eq_or_before order
        · exact notExceeded (Except.error.inj (failedAsked.symm.trans isExceeded))
        · cases (unmet other inFirst).symm.trans isExceeded
        · exact (earlier asked inBefore).2 (fails_of_error failedAsked notExceeded)
    · exact unanswered (done _ ahead)
    · obtain ⟨questions, rfl, sound⟩ := passed row behind
      obtain missing | ⟨_, same, failed⟩ := isError
      · cases missing
      · cases same
        obtain ⟨first, asked, last, rfl, unmet, failedAsked⟩ := reached_of_error failed
        exact sound asked ⟨first, last, rfl, fun o member => (unmet o member).1⟩ (fails_of_error failedAsked notExceeded)

theorem exists_depth (questions : List ι) : ∃ depth, ∀ question ∈ questions, Terminates rows exceeded question →
    answer rows exceeded depth question ≠ .error exceeded := by
  induction questions with
  | nil => exact ⟨0, by simp⟩
  | cons first questions ih =>
    obtain ⟨depth, within⟩ := ih
    by_cases terminates : Terminates rows exceeded first
    · obtain ⟨own, here⟩ := terminates
      refine ⟨max own depth, List.forall_mem_cons.mpr ⟨fun _ => ?_, fun question member isDone => ?_⟩⟩
      · rwa [answer_of_le (le_max_left own depth) here]
      · rw [answer_of_le (le_max_right own depth) (within question member isDone)]
        exact within question member isDone
    · exact ⟨depth, List.forall_mem_cons.mpr ⟨fun isDone => absurd isDone terminates, within⟩⟩

/-- An answer is found exactly where no chain of questions goes on for ever. -/
theorem terminates_iff_acc (distinct : ∀ question e, .error e ∈ rows question → e ≠ exceeded) {question : ι} :
    Terminates rows exceeded question ↔ Acc (fun other question => Asks rows question other) question := by
  constructor
  · rintro ⟨depth, within⟩
    induction depth generalizing question with
    | zero => exact absurd rfl within
    | succ depth ih => exact .intro _ fun other asks => ih (asks.within within)
  · intro accessible
    induction accessible with
    | intro question _ ih =>
      obtain ⟨depth, enough⟩ := @exists_depth _ _ rows exceeded ((rows question).flatMap fun row => row.toOption.getD [])
      refine ⟨depth + 1, fun isExceeded => ?_⟩
      obtain ⟨above, row, below, split, done, rfl | ⟨questions, rfl, failed⟩⟩ := every_eq_error isExceeded
      · exact distinct question _ (by simp [split]) rfl
      · obtain ⟨before, asked, after, rfl, earlier, isError⟩ := reached_of_error failed
        have asks : Asks rows question asked := by
          refine ⟨above, before, after, below, split, fun other member => ?_, earlier⟩
          obtain ⟨others, met, rfl, answered⟩ := done other member
          refine ⟨others, rfl, fun reached isReached => ?_⟩
          obtain ⟨_, answeredReached⟩ := answered_of_reached ⟨others, met, rfl, answered⟩ isReached
          exact not_fails answeredReached
        have member : asked ∈ (rows question).flatMap fun row => row.toOption.getD [] :=
          List.mem_flatMap.mpr ⟨.ok (before ++ asked :: after), by simp [split], by simp [Except.toOption]⟩
        exact enough asked member (ih asked asks) isError

section Chains

open Relation

variable {leads : ι → ι → Prop} {start : ι}

theorem irrefl_of_acc {before : ι → ι → Prop} {a : ι} (accessible : Acc before a) : ¬before a a := by
  induction accessible with
  | intro a _ ih => exact fun loops => ih a loops loops

/-- Among finitely many, only a cycle goes on for ever. -/
theorem acc_iff_no_cycle (finite : {a | ReflTransGen leads start a}.Finite) :
    Acc (fun b a => leads a b) start ↔ ¬∃ a, ReflTransGen leads start a ∧ TransGen leads a a := by
  constructor
  · rintro accessible ⟨a, reached, cycle⟩
    have within : Acc (fun b a => leads a b) a := by
      clear cycle
      induction reached with
      | refl => exact accessible
      | tail _ step ih => exact ih.inv step
    exact irrefl_of_acc within.transGen (transGen_swap.mpr cycle)
  · intro acyclic
    have : Finite {a | ReflTransGen leads start a} := finite
    let behind (b a : {a | ReflTransGen leads start a}) : Prop := TransGen leads a.1 b.1
    have : IsTrans _ behind := ⟨fun _ _ _ first second => second.trans first⟩
    have : Std.Irrefl behind := ⟨fun a cycle => acyclic ⟨a.1, a.2, cycle⟩⟩
    have wellFounded : WellFounded behind := Finite.wellFounded_of_trans_of_irrefl behind
    have every (a : {a | ReflTransGen leads start a}) : Acc (fun b a => leads a b) a.1 := by
      induction a using wellFounded.induction with
      | _ a ih => exact .intro _ fun b step => ih ⟨b, a.2.tail step⟩ (.single step)
    exact every ⟨start, .refl⟩

end Chains

end Questions
