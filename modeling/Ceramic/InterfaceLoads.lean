import Ceramic.ModelInterfaces
import Ceramic.Library.Transition
import Mathlib.Algebra.GroupWithZero.Nat
import Mathlib.Algebra.Order.BigOperators.Group.List
import Mathlib.Data.Fintype.Card
import Mathlib.Data.Fintype.EquivFin
import Mathlib.Data.Fintype.Sets

/-! The interfaces behind those that are listed, when the loads of their models are answered in any order.
Every call asks for the promises of its interfaces at once and waits for all of them; they are kept for all
calls together. -/
namespace Ceramic

/-- How far the promise for an interface has got. -/
inductive PromiseState where
  | loading
  /-- The model is loaded, and the call for what it names waits. -/
  | awaiting (ownImplements : List String)
  | resolved (behind : List String)
  | rejected (error : JsError)

/-- The promises that are kept, and the models that were asked for, the first one first. -/
structure InterfaceLoads where
  promise : String → Option PromiseState
  loads : List String

namespace InterfaceLoads

def setPromise (s : InterfaceLoads) (modelID : String) (state : PromiseState) : InterfaceLoads :=
  { s with promise := fun other => if other = modelID then some state else s.promise other }

@[simp] theorem setPromise_loads (s : InterfaceLoads) (modelID : String) (state : PromiseState) :
    (s.setPromise modelID state).loads = s.loads := rfl

@[simp] theorem setPromise_self (s : InterfaceLoads) (modelID : String) (state : PromiseState) :
    (s.setPromise modelID state).promise modelID = some state := if_pos rfl

theorem setPromise_other (s : InterfaceLoads) {modelID other : String} (state : PromiseState)
    (apart : other ≠ modelID) : (s.setPromise modelID state).promise other = s.promise other := if_neg apart

/-- The model is asked for unless there is a promise for it. -/
def ensure (s : InterfaceLoads) (modelID : String) : InterfaceLoads :=
  match s.promise modelID with
  | some _ => s
  | none => { s.setPromise modelID .loading with loads := s.loads ++ [modelID] }

def ensureAll (s : InterfaceLoads) (interfaces : List String) : InterfaceLoads := interfaces.foldl ensure s

/-- `Promise.all`: what it comes to, as soon as that is known. -/
def all (promise : String → Option PromiseState) : List String → Option (Except JsError (List (List String)))
  | [] => some (.ok [])
  | modelID :: rest =>
    match promise modelID, all promise rest with
    | some (.rejected error), _ => some (.error error)
    | _, some (.error error) => some (.error error)
    | some (.resolved behind), some (.ok loaded) => some (.ok (behind :: loaded))
    | _, _ => none

/-- What a call for some interfaces returns once its promises have come to something. -/
def returned (s : InterfaceLoads) (interfaces : List String) : Option (Except JsError (List String)) :=
  (all s.promise interfaces).map fun loaded => loaded.map fun lists => (interfaces ++ lists.flatten).eraseDups

/-- A load is answered, or a call inside a promise returns. -/
inductive Action where
  | loaded (modelID : String)
  | returned (modelID : String)
  deriving DecidableEq, Repr

def settled (ownImplements : List String) : Except JsError (List String) → PromiseState
  | .ok subImplements => .resolved (ownImplements ++ subImplements)
  | .error error => .rejected error

variable (reader : ModelReader)

def step (s : InterfaceLoads) : Action → Option InterfaceLoads
  | .loaded modelID =>
    match s.promise modelID with
    | some .loading => match loadInterfaceImplements reader modelID with
      | .ok ownImplements => some ((s.ensureAll ownImplements).setPromise modelID (.awaiting ownImplements))
      | .error error => some (s.setPromise modelID (.rejected error))
    | _ => none
  | .returned modelID =>
    match s.promise modelID with
    | some (.awaiting ownImplements) =>
      (s.returned ownImplements).map fun result => s.setPromise modelID (settled ownImplements result)
    | _ => none

/-- The call, with no promise kept before. -/
def call (interfaces : List String) : InterfaceLoads := ensureAll ⟨fun _ => none, []⟩ interfaces

section

variable {reader} {s : InterfaceLoads} {interfaces : List String}

/-- What asking for some interfaces leaves. -/
structure Ensured (s : InterfaceLoads) (interfaces : List String) (after : InterfaceLoads) : Prop where
  kept : ∀ modelID state, s.promise modelID = some state → after.promise modelID = some state
  new : ∀ modelID state, s.promise modelID = none → after.promise modelID = some state →
    modelID ∈ interfaces ∧ state = .loading
  present : ∀ modelID ∈ interfaces, after.promise modelID ≠ none

/-- Every promise stands for a single load. -/
structure Tracked (s : InterfaceLoads) : Prop where
  once : s.loads.Nodup
  promised : ∀ modelID, s.promise modelID ≠ none ↔ modelID ∈ s.loads

theorem ensured_ensure (s : InterfaceLoads) (modelID : String) : Ensured s [modelID] (s.ensure modelID) := by
  unfold ensure
  cases isPromise : s.promise modelID with
  | some state =>
    refine ⟨fun _ _ same => same, fun other _ missing found => ?_, fun other member => ?_⟩
    · cases missing.symm.trans found
    · obtain rfl := List.mem_singleton.mp member
      exact Option.ne_none_iff_exists'.mpr ⟨state, isPromise⟩
  | none =>
    refine ⟨fun other state same => ?_, fun other state missing found => ?_, fun other member => ?_⟩
    · have apart : other ≠ modelID := by
        rintro rfl
        cases isPromise.symm.trans same
      exact (if_neg apart).trans same
    · by_cases same : other = modelID
      · subst same
        exact ⟨List.mem_singleton_self _, (Option.some.inj ((if_pos rfl).symm.trans found)).symm⟩
      · cases missing.symm.trans ((if_neg same).symm.trans found)
    · obtain rfl := List.mem_singleton.mp member
      exact Option.ne_none_iff_exists'.mpr ⟨.loading, if_pos rfl⟩

theorem Ensured.trans {middle after : InterfaceLoads} {rest : List String} (first : Ensured s interfaces middle)
    (second : Ensured middle rest after) : Ensured s (interfaces ++ rest) after := by
  refine ⟨fun other state same => second.kept _ _ (first.kept _ _ same), fun other state missing found => ?_,
    fun other member => ?_⟩
  · cases between : middle.promise other with
    | none =>
      obtain ⟨member, isNew⟩ := second.new other state between found
      exact ⟨List.mem_append_right _ member, isNew⟩
    | some known =>
      obtain rfl := Option.some.inj ((second.kept other known between).symm.trans found)
      obtain ⟨member, isNew⟩ := first.new other known missing between
      exact ⟨List.mem_append_left _ member, isNew⟩
  · rcases List.mem_append.mp member with here | behind
    · obtain ⟨state, found⟩ := Option.ne_none_iff_exists'.mp (first.present other here)
      exact Option.ne_none_iff_exists'.mpr ⟨state, second.kept _ _ found⟩
    · exact second.present other behind

theorem ensured_ensureAll (s : InterfaceLoads) (interfaces : List String) :
    Ensured s interfaces (s.ensureAll interfaces) := by
  induction interfaces generalizing s with
  | nil =>
    refine ⟨fun _ _ same => same, fun _ _ missing found => ?_, nofun⟩
    cases missing.symm.trans found
  | cons first rest ih => exact (ensured_ensure s first).trans (ih (s.ensure first))

theorem Tracked.ensure (tracked : Tracked s) (modelID : String) : Tracked (s.ensure modelID) := by
  unfold InterfaceLoads.ensure
  cases isPromise : s.promise modelID with
  | some state => exact tracked
  | none =>
    have fresh : modelID ∉ s.loads := fun member => (tracked.promised modelID).mpr member isPromise
    refine ⟨?_, fun other => ?_⟩
    · exact List.nodup_append.mpr ⟨tracked.once, List.nodup_singleton _, by
        rintro a inside _ last rfl
        obtain rfl := List.mem_singleton.mp last
        exact fresh inside⟩
    · rw [List.mem_append, List.mem_singleton, ← tracked.promised other]
      by_cases same : other = modelID
      · simp [same]
      · have unchanged : (s.setPromise modelID .loading).promise other = s.promise other := setPromise_other s _ same
        simp [same, unchanged]

theorem Tracked.ensureAll (tracked : Tracked s) (interfaces : List String) : Tracked (s.ensureAll interfaces) := by
  induction interfaces generalizing s with
  | nil => exact tracked
  | cons first rest ih => exact ih (tracked.ensure first)

theorem Tracked.setPromise (tracked : Tracked s) {modelID : String} (known : s.promise modelID ≠ none)
    (state : PromiseState) : Tracked (s.setPromise modelID state) := by
  refine ⟨tracked.once, fun other => ?_⟩
  rw [setPromise_loads, ← tracked.promised other]
  by_cases same : other = modelID
  · subst same
    simp [known]
  · rw [setPromise_other s state same]

/-- A promise that has come to something. -/
def IsSettled : Option PromiseState → Prop
  | some (.resolved _) => True
  | some (.rejected _) => True
  | _ => False

/-- Once each promise has come to something, so have all together. -/
theorem all_of_settled {promise : String → Option PromiseState} {interfaces : List String}
    (done : ∀ a ∈ interfaces, IsSettled (promise a)) : ∃ loaded, all promise interfaces = some loaded := by
  induction interfaces with
  | nil => exact ⟨_, rfl⟩
  | cons first rest ih =>
    obtain ⟨loaded, isLoaded⟩ := ih fun a member => done a (List.mem_cons_of_mem _ member)
    have isDone := done first List.mem_cons_self
    rw [all, isLoaded]
    cases isFirst : promise first with
    | none =>
      rw [isFirst] at isDone
      exact isDone.elim
    | some state =>
      rw [isFirst] at isDone
      cases state with
      | loading => exact isDone.elim
      | awaiting own => exact isDone.elim
      | resolved behind => cases loaded <;> exact ⟨_, rfl⟩
      | rejected error => exact ⟨_, rfl⟩

/-- What all promises come to: one of them is rejected, or each is resolved. -/
theorem all_cases {promise : String → Option PromiseState} {interfaces : List String}
    {loaded : Except JsError (List (List String))} (settled : all promise interfaces = some loaded) :
    (∃ error, loaded = .error error ∧ ∃ a ∈ interfaces, promise a = some (.rejected error)) ∨
    ∃ lists, loaded = .ok lists ∧ (∀ a ∈ interfaces, ∃ behind ∈ lists, promise a = some (.resolved behind)) ∧
      ∀ behind ∈ lists, ∃ a ∈ interfaces, promise a = some (.resolved behind) := by
  induction interfaces generalizing loaded with
  | nil =>
    obtain rfl := Option.some.inj settled
    exact .inr ⟨[], rfl, nofun, nofun⟩
  | cons first rest ih =>
    rw [all] at settled
    split at settled
    next error isFirst =>
      obtain rfl := Option.some.inj settled
      exact .inl ⟨error, rfl, first, List.mem_cons_self, isFirst⟩
    next error isRest _ =>
      obtain rfl := Option.some.inj settled
      obtain ⟨same, isSame, a, member, rejected⟩ | ⟨lists, isOk, _⟩ := ih isRest
      · obtain rfl := Except.error.inj isSame
        exact .inl ⟨error, rfl, a, List.mem_cons_of_mem _ member, rejected⟩
      · cases isOk
    next behind lists isFirst isRest =>
      obtain rfl := Option.some.inj settled
      obtain ⟨same, isSame, _⟩ | ⟨same, isSame, each, only⟩ := ih isRest
      · cases isSame
      · obtain rfl := Except.ok.inj isSame
        refine .inr ⟨_, rfl, fun a member => ?_, fun other member => ?_⟩
        · rcases List.mem_cons.mp member with rfl | inside
          · exact ⟨behind, List.mem_cons_self, isFirst⟩
          · obtain ⟨other, isOther, resolved⟩ := each a inside
            exact ⟨other, List.mem_cons_of_mem _ isOther, resolved⟩
        · rcases List.mem_cons.mp member with rfl | inside
          · exact ⟨first, List.mem_cons_self, isFirst⟩
          · obtain ⟨a, isA, resolved⟩ := only other inside
            exact ⟨a, List.mem_cons_of_mem _ isA, resolved⟩
    next => cases settled

/-- What the promises that have come to something stand for. -/
structure Truthful (reader : ModelReader) (s : InterfaceLoads) : Prop where
  resolved : ∀ modelID behind, s.promise modelID = some (.resolved behind) → reader.Promises modelID (.ok behind)
  rejected : ∀ modelID error, s.promise modelID = some (.rejected error) → reader.Promises modelID (.error error)

/-- A call that returns lists its interfaces and those behind them. -/
theorem Truthful.lists (truthful : Truthful reader s) {result : Except JsError (List String)}
    (done : s.returned interfaces = some result) : reader.Lists interfaces result := by
  obtain ⟨loaded, settled, rfl⟩ := Option.map_eq_some_iff.mp done
  obtain ⟨error, rfl, a, member, isRejected⟩ | ⟨lists, rfl, each, only⟩ := all_cases settled
  · refine ⟨⟨nofun, fun all => ?_⟩, nofun⟩
    obtain ⟨behind, impossible⟩ := (truthful.rejected a error isRejected).resolves.mpr (all a member)
    cases impossible
  · refine ⟨⟨fun _ a member => ?_, fun _ => ⟨_, rfl⟩⟩, fun listed isListed b => ?_⟩
    · obtain ⟨behind, _, resolved⟩ := each a member
      exact (truthful.resolved a behind resolved).resolves.mp ⟨behind, rfl⟩
    · obtain rfl := Except.ok.inj isListed
      rw [List.mem_eraseDups, List.mem_append, List.mem_flatten]
      constructor
      · rintro (member | ⟨behind, inside, isBehind⟩)
        · exact ⟨b, member, .refl⟩
        · obtain ⟨a, member, resolved⟩ := only behind inside
          have path := ((truthful.resolved a behind resolved).behind behind rfl b).mp isBehind
          exact ⟨a, member, path.to_reflTransGen⟩
      · rintro ⟨a, member, path⟩
        rcases Relation.reflTransGen_iff_eq_or_transGen.mp path with rfl | path
        · exact .inl member
        · obtain ⟨behind, inside, resolved⟩ := each a member
          exact .inr ⟨behind, inside, ((truthful.resolved a behind resolved).behind behind rfl b).mpr path⟩

/-- What holds at any time during a call. -/
structure Holds (reader : ModelReader) (interfaces : List String) (s : InterfaceLoads) : Prop where
  tracked : Tracked s
  truthful : Truthful reader s
  reached : ∀ b ∈ s.loads, ∃ a ∈ interfaces, reader.Reaches a b
  awaits : ∀ modelID own, s.promise modelID = some (.awaiting own) →
    loadInterfaceImplements reader modelID = .ok own ∧ ∀ b ∈ own, s.promise b ≠ none

/-- One load is answered, or one call returns. -/
theorem step_cases {action : Action} {after : InterfaceLoads} (stepped : step reader s action = some after) :
    (∃ modelID own, s.promise modelID = some .loading ∧ loadInterfaceImplements reader modelID = .ok own ∧
      after = (s.ensureAll own).setPromise modelID (.awaiting own)) ∨
    (∃ modelID error, s.promise modelID = some .loading ∧ loadInterfaceImplements reader modelID = .error error ∧
      after = s.setPromise modelID (.rejected error)) ∨
    ∃ modelID own result, s.promise modelID = some (.awaiting own) ∧ s.returned own = some result ∧
      after = s.setPromise modelID (settled own result) := by
  cases action with
  | loaded modelID =>
    rw [step] at stepped
    split at stepped
    next isLoading =>
      split at stepped
      next own found => exact .inl ⟨modelID, own, isLoading, found, (Option.some.inj stepped).symm⟩
      next error failed => exact .inr (.inl ⟨modelID, error, isLoading, failed, (Option.some.inj stepped).symm⟩)
    next => cases stepped
  | returned modelID =>
    rw [step] at stepped
    split at stepped
    next own isAwaiting =>
      obtain ⟨result, done, same⟩ := Option.map_eq_some_iff.mp stepped
      exact .inr (.inr ⟨modelID, own, result, isAwaiting, done, same.symm⟩)
    next => cases stepped

/-- A promise may change to what it has come to. -/
theorem Holds.setPromise (holds : Holds reader interfaces s) {modelID : String} {state : PromiseState}
    (known : s.promise modelID ≠ none)
    (resolved : ∀ behind, state = .resolved behind → reader.Promises modelID (.ok behind))
    (rejected : ∀ error, state = .rejected error → reader.Promises modelID (.error error))
    (awaits : ∀ own, state = .awaiting own → loadInterfaceImplements reader modelID = .ok own ∧
      ∀ b ∈ own, s.promise b ≠ none) : Holds reader interfaces (s.setPromise modelID state) := by
  have stays {b : String} (isPromise : s.promise b ≠ none) : (s.setPromise modelID state).promise b ≠ none := by
    by_cases same : b = modelID
    · subst same
      simp
    · rwa [setPromise_other s state same]
  refine ⟨holds.tracked.setPromise known state, ⟨?_, ?_⟩, holds.reached, ?_⟩
  · intro other behind found
    by_cases same : other = modelID
    · subst same
      rw [setPromise_self] at found
      exact resolved behind (Option.some.inj found)
    · rw [setPromise_other s state same] at found
      exact holds.truthful.resolved other behind found
  · intro other error found
    by_cases same : other = modelID
    · subst same
      rw [setPromise_self] at found
      exact rejected error (Option.some.inj found)
    · rw [setPromise_other s state same] at found
      exact holds.truthful.rejected other error found
  · intro other own found
    by_cases same : other = modelID
    · subst same
      rw [setPromise_self] at found
      obtain ⟨isOwn, present⟩ := awaits own (Option.some.inj found)
      exact ⟨isOwn, fun b member => stays (present b member)⟩
    · rw [setPromise_other s state same] at found
      obtain ⟨isOwn, present⟩ := holds.awaits other own found
      exact ⟨isOwn, fun b member => stays (present b member)⟩

/-- What is new is only asked for. -/
theorem Ensured.old {after : InterfaceLoads} {own : List String} (ensured : Ensured s own after) {modelID : String}
    {state : PromiseState} (found : after.promise modelID = some state) (further : state ≠ .loading) :
    s.promise modelID = some state := by
  cases before : s.promise modelID with
  | none => exact absurd (ensured.new modelID state before found).2 further
  | some known => exact (ensured.kept modelID known before).symm.trans found

theorem Holds.ensureAll (holds : Holds reader interfaces s) {own : List String}
    (within : ∀ b ∈ own, ∃ a ∈ interfaces, reader.Reaches a b) : Holds reader interfaces (s.ensureAll own) := by
  have ensured := ensured_ensureAll s own
  have tracked := holds.tracked.ensureAll own
  refine ⟨tracked, ⟨fun other behind found => ?_, fun other error found => ?_⟩, fun b member => ?_,
    fun other named found => ?_⟩
  · exact holds.truthful.resolved other behind (ensured.old found nofun)
  · exact holds.truthful.rejected other error (ensured.old found nofun)
  · obtain ⟨state, found⟩ := Option.ne_none_iff_exists'.mp ((tracked.promised b).mpr member)
    cases before : s.promise b with
    | none => exact within b (ensured.new b state before found).1
    | some known => exact holds.reached b ((holds.tracked.promised b).mp (by simp [before]))
  · obtain ⟨isOwn, present⟩ := holds.awaits other named (ensured.old found nofun)
    refine ⟨isOwn, fun b member => ?_⟩
    obtain ⟨state, known⟩ := Option.ne_none_iff_exists'.mp (present b member)
    exact Option.ne_none_iff_exists'.mpr ⟨state, ensured.kept b state known⟩

/-- Each step keeps what holds. -/
theorem Holds.step (holds : Holds reader interfaces s) {action : Action} {after : InterfaceLoads}
    (stepped : InterfaceLoads.step reader s action = some after) : Holds reader interfaces after := by
  obtain ⟨modelID, own, isLoading, found, rfl⟩ | ⟨modelID, error, isLoading, failed, rfl⟩ |
    ⟨modelID, own, result, isAwaiting, done, rfl⟩ := step_cases stepped
  · have known : s.promise modelID ≠ none := by simp [isLoading]
    obtain ⟨a, member, path⟩ := holds.reached modelID ((holds.tracked.promised modelID).mp known)
    have within : ∀ b ∈ own, ∃ a ∈ interfaces, reader.Reaches a b := fun b inside =>
      ⟨a, member, path.tail (((isInterface_of_own found).2 b).mpr inside)⟩
    have ensured := ensured_ensureAll s own
    refine (holds.ensureAll within).setPromise ?_ nofun nofun fun same isSame => ?_
    · exact Option.ne_none_iff_exists'.mpr ⟨.loading, ensured.kept modelID _ isLoading⟩
    · obtain rfl := PromiseState.awaiting.inj isSame
      exact ⟨found, ensured.present⟩
  · refine holds.setPromise (by simp [isLoading]) nofun (fun e _ => promises_of_error failed e) nofun
  · obtain ⟨found, _⟩ := holds.awaits modelID own isAwaiting
    have promises := promises_of_lists found (holds.truthful.lists done)
    cases result with
    | ok sub =>
      refine holds.setPromise (by simp [isAwaiting]) (fun behind same => ?_) nofun nofun
      obtain rfl := PromiseState.resolved.inj same
      exact promises
    | error e =>
      refine holds.setPromise (by simp [isAwaiting]) nofun (fun error same => ?_) nofun
      obtain rfl := PromiseState.rejected.inj same
      exact promises

/-- No promise is ever dropped. -/
theorem present_step {action : Action} {after : InterfaceLoads}
    (stepped : InterfaceLoads.step reader s action = some after) {b : String} (present : s.promise b ≠ none) :
    after.promise b ≠ none := by
  have stays {middle : InterfaceLoads} (isPromise : middle.promise b ≠ none) (modelID : String)
      (state : PromiseState) : (middle.setPromise modelID state).promise b ≠ none := by
    by_cases same : b = modelID
    · subst same
      simp
    · rwa [setPromise_other middle state same]
  obtain ⟨modelID, own, _, _, rfl⟩ | ⟨modelID, error, _, _, rfl⟩ | ⟨modelID, own, result, _, _, rfl⟩ :=
    step_cases stepped
  · obtain ⟨state, found⟩ := Option.ne_none_iff_exists'.mp present
    have kept := (ensured_ensureAll s own).kept b state found
    exact stays (Option.ne_none_iff_exists'.mpr ⟨state, kept⟩) modelID _
  · exact stays present modelID _
  · exact stays present modelID _

theorem holds_call (reader : ModelReader) (interfaces : List String) : Holds reader interfaces (call interfaces) := by
  have empty : Holds reader interfaces ⟨fun _ => none, []⟩ :=
    ⟨⟨List.nodup_nil, by simp⟩, ⟨nofun, nofun⟩, nofun, nofun⟩
  exact empty.ensureAll fun a member => ⟨a, member, .refl⟩

/-- How much is left to do for an interface. -/
def remaining : Option PromiseState → Nat
  | none => 3
  | some .loading => 2
  | some (.awaiting _) => 1
  | some _ => 0

/-- All interfaces that a call can come to. -/
def known (reader : ModelReader) (interfaces : List String) : List String :=
  interfaces ++ reader.models.flatMap fun model => model.content.implements

def potential (known : List String) (s : InterfaceLoads) : Nat :=
  (known.map fun modelID => remaining (s.promise modelID)).sum

theorem mem_known {a b : String} (member : a ∈ interfaces) (path : reader.Reaches a b) : b ∈ known reader interfaces := by
  rcases Relation.ReflTransGen.cases_tail path with rfl | ⟨c, _, model, loaded, implemented⟩
  · exact List.mem_append_left _ member
  · obtain ⟨ref, _, _, found⟩ := ModelReader.load_ok.mp loaded
    exact List.mem_append_right _ (List.mem_flatMap.mpr ⟨model, (ModelReader.loadStream_ok found).1, implemented⟩)

theorem Ensured.remaining_le {after : InterfaceLoads} {own : List String} (ensured : Ensured s own after)
    (modelID : String) : remaining (after.promise modelID) ≤ remaining (s.promise modelID) := by
  cases before : s.promise modelID with
  | some state => rw [ensured.kept modelID state before]
  | none =>
    cases found : after.promise modelID with
    | none => exact Nat.le_refl _
    | some state =>
      obtain ⟨-, rfl⟩ := ensured.new modelID state before found
      exact Nat.le_succ 2

/-- A promise that comes further leaves less to do. -/
theorem potential_setPromise {middle : InterfaceLoads} {modelID : String} {state : PromiseState} {ids : List String}
    (member : modelID ∈ ids) (others : ∀ b, remaining (middle.promise b) ≤ remaining (s.promise b))
    (further : remaining (some state) < remaining (s.promise modelID)) :
    potential ids (middle.setPromise modelID state) < potential ids s := by
  refine List.sum_lt_sum _ _ (fun b _ => ?_) ⟨modelID, member, ?_⟩
  · by_cases same : b = modelID
    · subst same
      rw [setPromise_self]
      exact further.le
    · rw [setPromise_other middle state same]
      exact others b
  · rw [setPromise_self]
    exact further

/-- Each step does some of what is left to do. -/
theorem potential_step (holds : Holds reader interfaces s) {action : Action} {after : InterfaceLoads}
    (stepped : step reader s action = some after) :
    potential (known reader interfaces) after < potential (known reader interfaces) s := by
  have isKnown {modelID : String} {state : PromiseState} (found : s.promise modelID = some state) :
      modelID ∈ known reader interfaces := by
    obtain ⟨a, member, path⟩ := holds.reached modelID ((holds.tracked.promised modelID).mp (by simp [found]))
    exact mem_known member path
  obtain ⟨modelID, own, isLoading, -, rfl⟩ | ⟨modelID, error, isLoading, -, rfl⟩ |
    ⟨modelID, own, result, isAwaiting, -, rfl⟩ := step_cases stepped
  · refine potential_setPromise (isKnown isLoading) (ensured_ensureAll s own).remaining_le ?_
    rw [isLoading]
    exact Nat.lt_succ_self 1
  · refine potential_setPromise (isKnown isLoading) (fun _ => Nat.le_refl _) ?_
    rw [isLoading]
    exact Nat.succ_pos 1
  · refine potential_setPromise (isKnown isAwaiting) (fun _ => Nat.le_refl _) ?_
    rw [isAwaiting]
    cases result <;> exact Nat.zero_lt_one

/-- Where no interface is behind itself, nothing waits once there is nothing left to do. -/
theorem settled_of_stuck (acyclic : ∀ modelID, ¬Relation.TransGen reader.Implements modelID modelID)
    (holds : Holds reader interfaces s) (stuck : ∀ action, step reader s action = none) {modelID : String}
    (asked : modelID ∈ s.loads) : IsSettled (s.promise modelID) := by
  let behind (b a : { b // b ∈ s.loads }) : Prop := Relation.TransGen reader.Implements a.1 b.1
  have : IsTrans _ behind := ⟨fun _ _ _ first second => second.trans first⟩
  have : Std.Irrefl behind := ⟨fun a => acyclic a.1⟩
  have wellFounded : WellFounded behind := Finite.wellFounded_of_trans_of_irrefl behind
  induction nested : (⟨modelID, asked⟩ : { b // b ∈ s.loads }) using wellFounded.induction generalizing modelID with
  | _ a ih =>
    subst nested
    cases isPromise : s.promise modelID with
    | none => exact (holds.tracked.promised modelID).mpr asked isPromise
    | some state =>
      cases state with
      | loading =>
        have enabled := stuck (.loaded modelID)
        rw [step, isPromise] at enabled
        cases answered : loadInterfaceImplements reader modelID <;> simp [answered] at enabled
      | awaiting own =>
        obtain ⟨found, present⟩ := holds.awaits modelID own isPromise
        have done : ∀ b ∈ own, IsSettled (s.promise b) := by
          intro b member
          have isAsked := (holds.tracked.promised b).mp (present b member)
          exact ih ⟨b, isAsked⟩ (.single (((isInterface_of_own found).2 b).mpr member)) isAsked rfl
        obtain ⟨loaded, settled⟩ := all_of_settled done
        have enabled := stuck (.returned modelID)
        rw [step, isPromise] at enabled
        simp [returned, settled] at enabled
      | resolved behind => trivial
      | rejected error => trivial

/-- `Array.from(new Set(..))` has no duplicates. -/
theorem nodup_eraseDups (values : List String) : values.eraseDups.Nodup := by
  induction length : values.length using Nat.strong_induction_on generalizing values with
  | _ n ih =>
    cases values with
    | nil => exact List.nodup_nil
    | cons first rest =>
      rw [List.eraseDups_cons, List.nodup_cons]
      have shorter : (rest.filter fun other => !other == first).length < n := by
        rw [← length, List.length_cons]
        exact Nat.lt_succ_of_le (List.length_filter_le _ _)
      exact ⟨by simp, ih _ shorter _ rfl⟩

/-- In whatever order the loads are answered and the calls return: no model is loaded twice, what the call returns is
the list of its interfaces and those behind them, without duplicates, or an error if one of them cannot be loaded or is
no interface, and it does return after so many steps. -/
structure ListsInAnyOrder (reader : ModelReader) (interfaces : List String) : Prop where
  once : ∀ actions s, Transition.run (step reader) (call interfaces) actions = some s → s.loads.Nodup
  lists : ∀ actions s result, Transition.run (step reader) (call interfaces) actions = some s →
    s.returned interfaces = some result →
    reader.Lists interfaces result ∧ ∀ listed, result = .ok listed → listed.Nodup
  bounded : ∃ bound, ∀ actions s, Transition.run (step reader) (call interfaces) actions = some s →
    actions.length ≤ bound
  returns : ∀ actions s, Transition.run (step reader) (call interfaces) actions = some s →
    (∀ action, step reader s action = none) → ∃ result, s.returned interfaces = some result

end

theorem loadAllModelInterfaces_anyOrder {reader : ModelReader}
    (acyclic : ∀ modelID, ¬Relation.TransGen reader.Implements modelID modelID) (interfaces : List String) :
    ListsInAnyOrder reader interfaces := by
  have run {actions : List Action} {s : InterfaceLoads}
      (ran : Transition.run (step reader) (call interfaces) actions = some s) :
      (Holds reader interfaces s ∧ ∀ a ∈ interfaces, s.promise a ≠ none) ∧
        actions.length + potential (known reader interfaces) s ≤
          potential (known reader interfaces) (call interfaces) := by
    refine @Transition.length_le_of_run _ _ _ (potential (known reader interfaces))
      (fun s => Holds reader interfaces s ∧ ∀ a ∈ interfaces, s.promise a ≠ none) ?_ _ _ _
      ⟨holds_call reader interfaces, (ensured_ensureAll _ interfaces).present⟩ ran
    rintro s action after ⟨holds, listed⟩ stepped
    exact ⟨⟨holds.step stepped, fun a member => present_step stepped (listed a member)⟩, potential_step holds stepped⟩
  constructor
  case once => exact fun actions s ran => (run ran).1.1.tracked.once
  case lists =>
    intro actions s result ran done
    refine ⟨(run ran).1.1.truthful.lists done, fun listed isListed => ?_⟩
    obtain ⟨loaded, _, rfl⟩ := Option.map_eq_some_iff.mp done
    obtain ⟨lists, _, rfl⟩ := map_eq_ok.mp isListed
    exact nodup_eraseDups _
  case bounded =>
    exact ⟨_, fun actions s ran => (Nat.le_add_right _ _).trans (run ran).2⟩
  case returns =>
    intro actions s ran stuck
    obtain ⟨⟨holds, listed⟩, _⟩ := run ran
    have done : ∀ a ∈ interfaces, IsSettled (s.promise a) := fun a member =>
      settled_of_stuck acyclic holds stuck ((holds.tracked.promised a).mp (listed a member))
    obtain ⟨loaded, settled⟩ := all_of_settled done
    exact ⟨_, Option.map_eq_some_iff.mpr ⟨loaded, settled, rfl⟩⟩

open ModelInterfacesFixture

/-- Another interface with the first one behind it, and one that both are behind. -/
def colleague : Model := modelOf 6 true [named.id.toString]

def both : Model := modelOf 7 true [employee.id.toString, colleague.id.toString]

theorem both_accepted :
    ModelsAccepted checks ((((empty.accept named).accept employee).accept colleague).accept both) := by
  have employed : ModelsAccepted checks ((empty.accept named).accept employee) := by
    refine accepted_next named_accepted 3 true (fun interfaceID inside => ?_) (fresh_of_numbers fun model inside => ?_)
    · obtain rfl := List.mem_singleton.mp inside
      exact ⟨named, (ModelReader.ordered_of_accepted named_accepted).load_toString List.mem_cons_self⟩
    · obtain rfl := List.mem_singleton.mp inside
      exact ⟨1, by decide, rfl⟩
  have joined : ModelsAccepted checks (((empty.accept named).accept employee).accept colleague) := by
    refine accepted_next employed 6 true (fun interfaceID inside => ?_) (fresh_of_numbers ?_)
    · obtain rfl := List.mem_singleton.mp inside
      exact ⟨named, (ModelReader.ordered_of_accepted employed).load_toString
        (List.mem_cons_of_mem _ List.mem_cons_self)⟩
    · rintro model (_ | ⟨_, _ | ⟨_, ⟨⟩⟩⟩)
      · exact ⟨3, by decide, rfl⟩
      · exact ⟨1, by decide, rfl⟩
  have ordered := ModelReader.ordered_of_accepted joined
  refine accepted_next joined 7 true (fun interfaceID inside => ?_) (fresh_of_numbers ?_)
  · rcases List.mem_cons.mp inside with rfl | inside
    · exact ⟨employee, ordered.load_toString (List.mem_cons_of_mem _ List.mem_cons_self)⟩
    · obtain rfl := List.mem_singleton.mp inside
      exact ⟨colleague, ordered.load_toString List.mem_cons_self⟩
  · rintro model (_ | ⟨_, _ | ⟨_, _ | ⟨_, ⟨⟩⟩⟩⟩)
    · exact ⟨6, by decide, rfl⟩
    · exact ⟨3, by decide, rfl⟩
    · exact ⟨1, by decide, rfl⟩

/-- Models that name only older ones are behind no model that is behind them. -/
theorem acyclic_of_ordered {reader : ModelReader} (ordered : reader.Ordered) (modelID : String) :
    ¬Relation.TransGen reader.Implements modelID modelID := by
  have lower {a b : String} (path : Relation.TransGen reader.Implements a b) : reader.rank b < reader.rank a := by
    induction path with
    | single edge => exact ordered.ranked edge
    | tail _ edge ih => exact (ordered.ranked edge).trans ih
  exact fun path => Nat.lt_irrefl _ (lower path)

theorem loadAllModelInterfaces_diamond :
    ListsInAnyOrder ((((empty.accept named).accept employee).accept colleague).accept both) [both.id.toString] :=
  loadAllModelInterfaces_anyOrder (acyclic_of_ordered (ModelReader.ordered_of_accepted both_accepted)) _

end InterfaceLoads

end Ceramic
