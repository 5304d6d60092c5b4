import Ceramic.PinCoverage
import Ceramic.Library.Transition

/-! The commits that a running state says are pinned, while streams are pinned and unpinned. An
operation of the pin store goes on from one `await` to the next in one turn; in between the stream
may change, and other operations take their turns. -/
namespace Ceramic

open StreamUtils

/-- How far `PinStore.add` is. `log` is what it read of the stream in the beginning. -/
inductive Adding where
  | expanding (log newCommits : List Cid)
  /-- The points that were not passed to `pinning.pin` yet. -/
  | pinning (log points : List Cid)
  | saving (log : List Cid) (value : StreamState)
  | marking (log : List Cid)
  deriving DecidableEq

/-- How far `PinStore.rm` is. -/
inductive Removing where
  | expanding (log : List Cid)
  | removing
  | marking
  deriving DecidableEq

namespace Adding

def log : Adding → List Cid
  | .expanding log _ | .pinning log _ | .saving log _ | .marking log => log

/-- The commits that are still to be pinned. -/
def remaining : Adding → List Cid
  | .expanding _ newCommits => newCommits
  | .pinning _ points => points
  | _ => []

end Adding

/-- A stream and what is known of its pins. -/
structure PinBook where
  running : RunningState
  stored : Option StreamState
  /-- What was passed to `pinning.pin`, and not to `pinning.unpin` since. -/
  pins : List Cid
  adds : List Adding := []
  rms : List Removing := []

inductive PinAction where
  | next (value : StreamState)
  | beginAdd (force : Bool)
  | expand (index : Nat) (store : PinStore)
  | pin (index : Nat)
  | beginSave (index : Nat)
  | save (index : Nat)
  | markAsPinned (index : Nat)
  /-- Something that was waited for is rejected. -/
  | failAdd (index : Nat)
  | beginRm
  | unpin (index : Nat) (store : PinStore)
  | remove (index : Nat)
  | markAsUnpinned (index : Nat)
  | failRm (index : Nat)

namespace PinBook

def newCommits (book : PinBook) (force : Bool) : List Cid :=
  if force then cids book.running.value else book.running.newCommits

def goOn (book : PinBook) (index : Nat) (adding : Adding) : PinBook := { book with adds := book.adds.set index adding }

def endAdd (book : PinBook) (index : Nat) : PinBook := { book with adds := book.adds.eraseIdx index }

def endRm (book : PinBook) (index : Nat) : PinBook := { book with rms := book.rms.eraseIdx index }

/-- The next turn of a call of `add`. -/
def stepAdd (book : PinBook) (index : Nat) (action : PinAction) (adding : Adding) : Option PinBook :=
  match action, adding with
  | .expand _ store, .expanding log newCommits =>
    match store.getComponentCIDsOfCommits newCommits true with
    | .ok points => some (book.goOn index (.pinning log points))
    | .error _ => none
  | .pin _, .pinning log (point :: points) =>
    some { book.goOn index (.pinning log points) with pins := point :: book.pins }
  | .beginSave _, .pinning log [] => some (book.goOn index (.saving log book.running.value))
  | .save _, .saving log value => some { book.goOn index (.marking log) with stored := some value }
  | .markAsPinned _, .marking _ => some { book.endAdd index with running := book.running.markAsPinned }
  | .failAdd _, .expanding _ _ | .failAdd _, .pinning _ _ | .failAdd _, .saving _ _ => some (book.endAdd index)
  | _, _ => none

/-- The next turn of a call of `rm`. -/
def stepRm (book : PinBook) (index : Nat) (action : PinAction) (removal : Removing) : Option PinBook :=
  match action, removal with
  | .unpin _ store, .expanding log =>
    match store.getComponentCIDsOfCommits log false with
    | .ok points => some { book with
        pins := book.pins.filter fun cid => cid ∉ points
        rms := book.rms.set index .removing }
    | .error _ => none
  | .remove _, .removing => some { book with stored := none, rms := book.rms.set index .marking }
  | .markAsUnpinned _, .marking =>
    some { book.endRm index with running := { book.running with pinnedCommits := none } }
  | .failRm _, .expanding _ | .failRm _, .removing => some (book.endRm index)
  | _, _ => none

def step (book : PinBook) (action : PinAction) : Option PinBook :=
  match action with
  | .next value => some { book with running := { book.running with value } }
  | .beginAdd force =>
    if book.newCommits force = [] then some book
    else some { book with adds := book.adds ++ [.expanding (cids book.running.value) (book.newCommits force)] }
  | .beginRm => some { book with rms := book.rms ++ [.expanding (cids book.running.value)] }
  | .expand index _ | .pin index | .beginSave index | .save index | .markAsPinned index | .failAdd index => do
    let adding ← book.adds[index]?
    book.stepAdd index action adding
  | .unpin index _ | .remove index | .markAsUnpinned index | .failRm index => do
    let removal ← book.rms[index]?
    book.stepRm index action removal

/-- A stream that is loaded from the state store is pinned, and another one is not. -/
def start (value : StreamState) (pinned : Bool) : PinBook where
  running := .make value pinned
  stored := if pinned then some value else none
  pins := if pinned then cids value else []

/-- Every commit that the running state says is pinned was pinned, and not unpinned since. -/
def Truthful (book : PinBook) : Prop :=
  ∀ commits ∈ book.running.pinnedCommits, ∀ cid ∈ commits, cid ∈ book.pins

/-- The state store has the stream just when the running state says that it is pinned. -/
def Coupled (book : PinBook) : Prop := book.stored.isSome = book.running.pinnedCommits.isSome

/-- No call of `rm` has unpinned its points without having marked the running state. -/
def NoneUnpinning (book : PinBook) : Prop := ∀ removal ∈ book.rms, ∃ log, removal = .expanding log

/-- Calls of `add` and of `rm` keep apart, and the log gets no commits while `add` goes on. -/
def Apart (book : PinBook) : PinAction → Prop
  | .beginAdd _ => book.NoneUnpinning
  | .unpin _ _ => book.adds = []
  | .markAsPinned index => ∀ adding ∈ book.adds[index]?, ∀ cid ∈ cids book.running.value, cid ∈ adding.log
  | _ => True

/-- What `rm` unpins is not what the running state says is pinned. -/
def UnpinsOthers (book : PinBook) : PinAction → Prop
  | .unpin index store => ∀ log, book.rms[index]? = some (.expanding log) →
      ∀ points, store.getComponentCIDsOfCommits log false = .ok points →
        ∀ commits ∈ book.running.pinnedCommits, ∀ cid ∈ commits, cid ∉ points
  | _ => True

/-- The state store does not fail to remove the stream. -/
def Removes (book : PinBook) : PinAction → Prop
  | .failRm index => book.rms[index]? ≠ some .removing
  | _ => True

/-- What holds between the operations, the state store and the running state. -/
structure Consistent (book : PinBook) : Prop where
  apart : book.adds ≠ [] → book.NoneUnpinning
  known : ∀ adding ∈ book.adds, ∀ cid ∈ adding.log, cid ∈ book.pins ∨ cid ∈ adding.remaining
  saved : ∀ log, Adding.marking log ∈ book.adds → book.stored.isSome
  removed : Removing.marking ∈ book.rms → book.stored = none
  coupled : (∀ log, Adding.marking log ∉ book.adds) → Removing.marking ∉ book.rms → book.Coupled

/-- Around the element at an index. -/
theorem split_at {α : Type} {xs : List α} {index : Nat} {x : α} (found : xs[index]? = some x) :
    ∃ front back, xs = front ++ x :: back ∧ xs.eraseIdx index = front ++ back ∧
      ∀ y, xs.set index y = front ++ y :: back := by
  obtain ⟨inside, rfl⟩ := List.getElem?_eq_some_iff.mp found
  refine ⟨xs.take index, xs.drop (index + 1), ?_, List.eraseIdx_eq_take_drop_succ .., fun y => ?_⟩
  · rw [List.getElem_cons_drop, List.take_append_drop]
  · rw [List.set_eq_take_append_cons_drop, if_pos inside]

variable {book next : PinBook} {index : Nat}

theorem NoneUnpinning.not_marking (idle : book.NoneUnpinning) : Removing.marking ∉ book.rms := by
  intro member
  obtain ⟨log, same⟩ := idle _ member
  cases same

theorem Consistent.goOn (consistent : book.Consistent) {adding later : Adding} {pins : List Cid}
    (found : book.adds[index]? = some adding) (sameLog : later.log = adding.log)
    (before : ∀ log, adding ≠ .marking log) (after : ∀ log, later ≠ .marking log)
    (more : ∀ cid ∈ book.pins, cid ∈ pins) (left : ∀ cid ∈ adding.remaining, cid ∈ pins ∨ cid ∈ later.remaining) :
    { book.goOn index later with pins }.Consistent := by
  obtain ⟨front, back, split, -, goesOn⟩ := split_at found
  have occupied : book.adds ≠ [] := by simp [split]
  have marking (log : List Cid) : Adding.marking log ∈ book.adds.set index later ↔ Adding.marking log ∈ book.adds := by
    rw [goesOn later, split]
    simp [(before log).symm, (after log).symm]
  refine ⟨fun _ => consistent.apart occupied, ?_, fun log member => ?_, consistent.removed, fun noAdd noRm => ?_⟩
  · intro other member cid inLog
    change other ∈ book.adds.set index later at member
    rw [goesOn later] at member
    have old (stays : other ∈ book.adds) : cid ∈ pins ∨ cid ∈ other.remaining :=
      (consistent.known other stays cid inLog).imp_left (more cid)
    rcases List.mem_append.mp member with inFront | member
    · exact old (by rw [split]; exact List.mem_append_left _ inFront)
    · rcases List.mem_cons.mp member with rfl | inBack
      · rw [sameLog] at inLog
        rcases consistent.known adding (List.mem_of_getElem? found) cid inLog with pinned | waits
        · exact .inl (more cid pinned)
        · exact left cid waits
      · exact old (by rw [split]; exact List.mem_append_right _ (List.mem_cons_of_mem _ inBack))
  · exact consistent.saved log ((marking log).mp member)
  · exact consistent.coupled (fun log member => noAdd log ((marking log).mpr member)) noRm

/-- A call of `add` that ends leaves the others as they are. -/
theorem Consistent.mem_endAdd (consistent : book.Consistent) {adding : Adding} (found : book.adds[index]? = some adding) :
    ((book.endAdd index).adds ≠ [] → book.NoneUnpinning) ∧
    (∀ other ∈ (book.endAdd index).adds, other ∈ book.adds) := by
  obtain ⟨front, back, split, erased, -⟩ := split_at found
  have occupied : book.adds ≠ [] := by simp [split]
  exact ⟨fun _ => consistent.apart occupied, fun other member => List.mem_of_mem_eraseIdx member⟩

theorem Consistent.failAdd (consistent : book.Consistent) {adding : Adding} (found : book.adds[index]? = some adding)
    (before : ∀ log, adding ≠ .marking log) : (book.endAdd index).Consistent := by
  obtain ⟨front, back, split, erased, -⟩ := split_at found
  obtain ⟨apart, old⟩ := consistent.mem_endAdd found
  refine ⟨apart, fun other member => consistent.known other (old other member),
    fun log member => consistent.saved log (old _ member), consistent.removed, fun noAdd noRm => ?_⟩
  refine consistent.coupled (fun log member => noAdd log ?_) noRm
  change Adding.marking log ∈ book.adds.eraseIdx index
  rw [erased]
  rw [split] at member
  simpa [(before log).symm] using member

theorem Consistent.markAsPinned (consistent : book.Consistent) {log : List Cid}
    (found : book.adds[index]? = some (.marking log)) :
    { book.endAdd index with running := book.running.markAsPinned }.Consistent := by
  obtain ⟨apart, old⟩ := consistent.mem_endAdd found
  refine ⟨apart, fun other member => consistent.known other (old other member),
    fun log member => consistent.saved log (old _ member), consistent.removed, fun _ _ => ?_⟩
  exact consistent.saved log (List.mem_of_getElem? found)

theorem Consistent.save (consistent : book.Consistent) {log : List Cid} {value : StreamState}
    (found : book.adds[index]? = some (.saving log value)) :
    { book.goOn index (.marking log) with stored := some value }.Consistent := by
  obtain ⟨front, back, split, -, goesOn⟩ := split_at found
  have occupied : book.adds ≠ [] := by simp [split]
  have apart := consistent.apart occupied
  refine ⟨fun _ => apart, ?_, fun _ _ => rfl, fun member => absurd member apart.not_marking, fun noAdd _ => ?_⟩
  · intro other member cid inLog
    rcases List.mem_or_eq_of_mem_set member with old | rfl
    · exact consistent.known other old cid inLog
    · exact consistent.known _ (List.mem_of_getElem? found) cid inLog
  · refine absurd ?_ (noAdd log)
    change Adding.marking log ∈ book.adds.set index (.marking log)
    rw [goesOn]
    exact List.mem_append_right _ List.mem_cons_self

/-- No call of `add` goes on while one of `rm` is between unpinning and marking. -/
theorem Consistent.adds_eq_nil (consistent : book.Consistent) {removal : Removing} (member : removal ∈ book.rms)
    (unpinning : ∀ log, removal ≠ .expanding log) : book.adds = [] := by
  by_contra occupied
  obtain ⟨log, same⟩ := consistent.apart occupied _ member
  exact unpinning log same

/-- While no call of `add` goes on, what `rm` does keeps the state store and the running state together. -/
theorem consistent_of_no_adds (noAdds : book.adds = []) (removed : Removing.marking ∈ book.rms → book.stored = none)
    (coupled : Removing.marking ∉ book.rms → book.Coupled) : book.Consistent where
  apart occupied := absurd noAdds occupied
  known adding member := by
    rw [noAdds] at member
    cases member
  saved log member := by
    rw [noAdds] at member
    cases member
  removed := removed
  coupled _ := coupled

theorem Consistent.stepRm {action : PinAction} {removal : Removing} (consistent : book.Consistent)
    (apart : ∀ index store, action = .unpin index store → book.adds = [])
    (found : book.rms[index]? = some removal) (stepped : book.stepRm index action removal = some next) :
    next.Consistent := by
  have member := List.mem_of_getElem? found
  obtain ⟨front, back, split, erased, goesOn⟩ := split_at found
  unfold PinBook.stepRm at stepped
  split at stepped
  next unpinned store log =>
    split at stepped
    next points expanded =>
      obtain rfl := Option.some.inj stepped
      have marking : Removing.marking ∈ book.rms.set index .removing ↔ Removing.marking ∈ book.rms := by
        rw [goesOn, split]
        simp
      exact consistent_of_no_adds (apart _ _ rfl) (fun member => consistent.removed (marking.mp member))
        fun other => consistent.coupled (fun log member => by rw [apart _ _ rfl] at member; cases member)
          fun member => other (marking.mpr member)
    next => cases stepped
  next =>
    obtain rfl := Option.some.inj stepped
    have noAdds := consistent.adds_eq_nil member fun log same => by cases same
    refine consistent_of_no_adds noAdds (fun _ => rfl) fun other => absurd ?_ other
    change Removing.marking ∈ book.rms.set index .marking
    rw [goesOn]
    exact List.mem_append_right _ List.mem_cons_self
  next =>
    obtain rfl := Option.some.inj stepped
    have noAdds := consistent.adds_eq_nil member fun log same => by cases same
    have gone := consistent.removed member
    exact consistent_of_no_adds noAdds (fun _ => gone) fun _ => congrArg Option.isSome gone
  next log =>
    obtain rfl := Option.some.inj stepped
    have marking : Removing.marking ∈ book.rms.eraseIdx index ↔ Removing.marking ∈ book.rms := by
      rw [erased, split]
      simp
    exact ⟨fun occupied other inRest => consistent.apart occupied other (List.mem_of_mem_eraseIdx inRest),
      consistent.known, consistent.saved, fun member => consistent.removed (marking.mp member),
      fun noAdd noRm => consistent.coupled noAdd fun member => noRm (marking.mpr member)⟩
  next =>
    obtain rfl := Option.some.inj stepped
    have marking : Removing.marking ∈ book.rms.eraseIdx index ↔ Removing.marking ∈ book.rms := by
      rw [erased, split]
      simp
    exact ⟨fun occupied other inRest => consistent.apart occupied other (List.mem_of_mem_eraseIdx inRest),
      consistent.known, consistent.saved, fun member => consistent.removed (marking.mp member),
      fun noAdd noRm => consistent.coupled noAdd fun member => noRm (marking.mpr member)⟩
  next => cases stepped

theorem Consistent.stepAdd {action : PinAction} {adding : Adding} (consistent : book.Consistent)
    (found : book.adds[index]? = some adding) (stepped : book.stepAdd index action adding = some next) :
    next.Consistent := by
  unfold PinBook.stepAdd at stepped
  split at stepped
  next store log newCommits =>
    split at stepped
    next points expanded =>
      obtain rfl := Option.some.inj stepped
      refine consistent.goOn found rfl (fun log same => by cases same) (fun log same => by cases same)
        (fun cid pinned => pinned) fun cid new => .inr ?_
      obtain ⟨own, isOwn, inPoints⟩ := Replay.component_of_mem store expanded new
      obtain ⟨commit, -, inOwn, -⟩ := Replay.pinned_of_ok store isOwn
      exact inPoints cid inOwn
    next => cases stepped
  next log point points =>
    obtain rfl := Option.some.inj stepped
    refine consistent.goOn found rfl (fun log same => by cases same) (fun log same => by cases same)
      (fun cid pinned => List.mem_cons_of_mem _ pinned) fun cid waits => ?_
    rcases List.mem_cons.mp waits with rfl | waits
    · exact .inl List.mem_cons_self
    · exact .inr waits
  next log =>
    obtain rfl := Option.some.inj stepped
    exact consistent.goOn found rfl (fun log same => by cases same) (fun log same => by cases same)
      (fun cid pinned => pinned) fun cid waits => .inr waits
  next log value =>
    obtain rfl := Option.some.inj stepped
    exact consistent.save found
  next log =>
    obtain rfl := Option.some.inj stepped
    exact consistent.markAsPinned found
  all_goals first
    | obtain rfl := Option.some.inj stepped
      exact consistent.failAdd found fun log same => by cases same
    | cases stepped

theorem Consistent.beginAdd (consistent : book.Consistent) (idle : book.NoneUnpinning) (truthful : book.Truthful)
    (force : Bool) : { book with
      adds := book.adds ++ [Adding.expanding (cids book.running.value) (book.newCommits force)] }.Consistent := by
  refine ⟨fun _ => idle, ?_, fun log member => ?_, consistent.removed, fun noAdd noRm => ?_⟩
  · intro adding member cid inLog
    rcases List.mem_append.mp member with old | new
    · exact consistent.known adding old cid inLog
    · obtain rfl := List.mem_singleton.mp new
      by_cases waits : cid ∈ book.newCommits force
      · exact .inr waits
      · -- It was left out because it is pinned already.
        unfold newCommits RunningState.newCommits at waits
        cases force with
        | true => exact absurd inLog waits
        | false =>
          cases marked : book.running.pinnedCommits with
          | none =>
            rw [if_neg Bool.false_ne_true, marked] at waits
            exact absurd inLog waits
          | some commits =>
            rw [if_neg Bool.false_ne_true, marked] at waits
            have isMarked : cid ∈ commits := by
              by_contra other
              exact waits (List.mem_filter.mpr ⟨inLog, by simpa using other⟩)
            exact .inl (truthful commits marked cid isMarked)
  · rcases List.mem_append.mp member with old | new
    · exact consistent.saved log old
    · cases List.mem_singleton.mp new
  · exact consistent.coupled (fun log member => noAdd log (List.mem_append_left _ member)) noRm

theorem Consistent.step {action : PinAction} (consistent : book.Consistent)
    (truthful : book.NoneUnpinning → book.Truthful) (apart : book.Apart action)
    (stepped : book.step action = some next) : next.Consistent := by
  cases action with
  | next value =>
    obtain rfl := Option.some.inj stepped
    exact ⟨consistent.apart, consistent.known, consistent.saved, consistent.removed, consistent.coupled⟩
  | beginAdd force =>
    unfold PinBook.step at stepped
    dsimp only at stepped
    split at stepped
    · obtain rfl := Option.some.inj stepped
      exact consistent
    · obtain rfl := Option.some.inj stepped
      exact consistent.beginAdd apart (truthful apart) force
  | beginRm =>
    obtain rfl := Option.some.inj stepped
    have marking : Removing.marking ∈ book.rms ++ [.expanding (cids book.running.value)] ↔
        Removing.marking ∈ book.rms := by simp
    refine ⟨fun occupied removal member => ?_, consistent.known, consistent.saved,
      fun member => consistent.removed (marking.mp member),
      fun noAdd noRm => consistent.coupled noAdd fun member => noRm (marking.mpr member)⟩
    rcases List.mem_append.mp member with old | new
    · exact consistent.apart occupied removal old
    · exact ⟨_, List.mem_singleton.mp new⟩
  | expand | pin | beginSave | save | markAsPinned | failAdd =>
    obtain ⟨adding, found, goesOn⟩ := Option.bind_eq_some_iff.mp stepped
    exact consistent.stepAdd found goesOn
  | unpin index store =>
    obtain ⟨removal, found, goesOn⟩ := Option.bind_eq_some_iff.mp stepped
    exact consistent.stepRm (fun _ _ _ => apart) found goesOn
  | remove | markAsUnpinned | failRm =>
    obtain ⟨removal, found, goesOn⟩ := Option.bind_eq_some_iff.mp stepped
    exact consistent.stepRm (fun _ _ same => by cases same) found goesOn

/-- What a turn of `add` does to the pins and the running state. -/
theorem stepAdd_pins {action : PinAction} {adding : Adding} (stepped : book.stepAdd index action adding = some next) :
    (∀ cid ∈ book.pins, cid ∈ next.pins) ∧ (next.running = book.running ∨
      (∃ other, action = .markAsPinned other) ∧ (∃ log, adding = .marking log) ∧
        next.running = book.running.markAsPinned) := by
  unfold stepAdd at stepped
  split at stepped
  next =>
    split at stepped
    · obtain rfl := Option.some.inj stepped
      exact ⟨fun cid pinned => pinned, .inl rfl⟩
    · cases stepped
  next =>
    obtain rfl := Option.some.inj stepped
    exact ⟨fun cid pinned => List.mem_cons_of_mem _ pinned, .inl rfl⟩
  next other log =>
    obtain rfl := Option.some.inj stepped
    exact ⟨fun cid pinned => pinned, .inl rfl⟩
  next =>
    obtain rfl := Option.some.inj stepped
    exact ⟨fun cid pinned => pinned, .inl rfl⟩
  next other log =>
    obtain rfl := Option.some.inj stepped
    exact ⟨fun cid pinned => pinned, .inr ⟨⟨_, rfl⟩, ⟨_, rfl⟩, rfl⟩⟩
  all_goals first
    | obtain rfl := Option.some.inj stepped
      exact ⟨fun cid pinned => pinned, .inl rfl⟩
    | cases stepped

/-- What a turn of `rm` does to them, apart from unpinning. -/
theorem stepRm_pins {action : PinAction} {removal : Removing} (stepped : book.stepRm index action removal = some next)
    (keeps : ∀ other store, action ≠ .unpin other store) :
    next.pins = book.pins ∧ (next.running = book.running ∨ next.running.pinnedCommits = none) := by
  unfold stepRm at stepped
  split at stepped
  next => exact absurd rfl (keeps _ _)
  next =>
    obtain rfl := Option.some.inj stepped
    exact ⟨rfl, .inl rfl⟩
  next =>
    obtain rfl := Option.some.inj stepped
    exact ⟨rfl, .inr rfl⟩
  all_goals first
    | obtain rfl := Option.some.inj stepped
      exact ⟨rfl, .inl rfl⟩
    | cases stepped

/-- Only unpinning makes a truthful running state untruthful. -/
theorem Truthful.step {action : PinAction} (truthful : book.Truthful) (consistent : book.Consistent)
    (apart : book.Apart action) (keeps : ∀ index store, action ≠ .unpin index store)
    (stepped : book.step action = some next) : next.Truthful := by
  have unmarked (none : next.running.pinnedCommits = none) : next.Truthful := by
    intro commits marked
    rw [none] at marked
    cases marked
  have kept (pins : ∀ cid ∈ book.pins, cid ∈ next.pins) (same : next.running = book.running) : next.Truthful := by
    intro commits marked cid member
    rw [same] at marked
    exact pins cid (truthful commits marked cid member)
  cases action with
  | next value =>
    obtain rfl := Option.some.inj stepped
    exact truthful
  | beginAdd force =>
    unfold PinBook.step at stepped
    dsimp only at stepped
    split at stepped
    all_goals
      obtain rfl := Option.some.inj stepped
      exact kept (fun cid pinned => pinned) rfl
  | beginRm =>
    obtain rfl := Option.some.inj stepped
    exact kept (fun cid pinned => pinned) rfl
  | unpin index store => exact absurd rfl (keeps index store)
  | markAsPinned index =>
    obtain ⟨adding, found, goesOn⟩ := Option.bind_eq_some_iff.mp stepped
    obtain ⟨pins, same | ⟨-, ⟨log, rfl⟩, marked⟩⟩ := stepAdd_pins goesOn
    · exact kept pins same
    · -- What is marked is in the log that was read in the beginning, of which nothing is left to pin.
      intro commits isMarked cid member
      rw [marked] at isMarked
      obtain rfl := Option.some.inj isMarked
      rcases consistent.known _ (List.mem_of_getElem? found) cid (apart _ found cid member) with pinned | waits
      · exact pins cid pinned
      · cases waits
  | expand | pin | beginSave | save | failAdd =>
    obtain ⟨adding, found, goesOn⟩ := Option.bind_eq_some_iff.mp stepped
    obtain ⟨pins, same | ⟨⟨other, marks⟩, -⟩⟩ := stepAdd_pins goesOn
    · exact kept pins same
    · cases marks
  | remove | markAsUnpinned | failRm =>
    obtain ⟨removal, found, goesOn⟩ := Option.bind_eq_some_iff.mp stepped
    obtain ⟨pins, same | none⟩ := stepRm_pins goesOn keeps
    · exact kept (fun cid pinned => pins ▸ pinned) same
    · exact unmarked none

theorem step_unpin {store : PinStore} (stepped : book.step (.unpin index store) = some next) :
    ∃ log points, book.rms[index]? = some (.expanding log) ∧ store.getComponentCIDsOfCommits log false = .ok points ∧
      next = { book with
        pins := book.pins.filter fun cid => cid ∉ points
        rms := book.rms.set index .removing } := by
  obtain ⟨removal, found, goesOn⟩ := Option.bind_eq_some_iff.mp stepped
  unfold stepRm at goesOn
  cases removal with
  | expanding log =>
    dsimp only at goesOn
    split at goesOn
    next points expanded => exact ⟨log, points, found, expanded, (Option.some.inj goesOn).symm⟩
    next => cases goesOn
  | _ => cases goesOn

theorem stepAdd_rms {action : PinAction} {adding : Adding} (stepped : book.stepAdd index action adding = some next) :
    next.rms = book.rms := by
  unfold stepAdd at stepped
  split at stepped
  · split at stepped
    · rw [← Option.some.inj stepped]
      rfl
    · cases stepped
  all_goals first
    | rw [← Option.some.inj stepped]
      rfl
    | cases stepped

/-- A call of `rm` that has unpinned stays one until it marks the running state. -/
theorem noneUnpinning_of_step {action : PinAction} (removes : book.Removes action)
    (keeps : ∀ index store, action ≠ .unpin index store) (stepped : book.step action = some next)
    (idle : next.NoneUnpinning) : book.NoneUnpinning ∨ next.running.pinnedCommits = none := by
  have same (rms : next.rms = book.rms) : book.NoneUnpinning := fun removal member => idle removal (by rwa [rms])
  cases action with
  | next value =>
    obtain rfl := Option.some.inj stepped
    exact .inl idle
  | beginAdd force =>
    unfold PinBook.step at stepped
    dsimp only at stepped
    split at stepped
    all_goals
      obtain rfl := Option.some.inj stepped
      exact .inl (same rfl)
  | beginRm =>
    obtain rfl := Option.some.inj stepped
    exact .inl fun removal member => idle removal (List.mem_append_left _ member)
  | unpin index store => exact absurd rfl (keeps index store)
  | expand | pin | beginSave | save | markAsPinned | failAdd =>
    obtain ⟨adding, found, goesOn⟩ := Option.bind_eq_some_iff.mp stepped
    exact .inl (same (stepAdd_rms goesOn))
  | remove index =>
    obtain ⟨removal, found, goesOn⟩ := Option.bind_eq_some_iff.mp stepped
    obtain ⟨front, back, -, -, sets⟩ := split_at found
    cases removal with
    | removing =>
      obtain rfl := Option.some.inj goesOn
      have member : Removing.marking ∈ book.rms.set index .marking := by
        rw [sets]
        exact List.mem_append_right _ List.mem_cons_self
      obtain ⟨log, expanding⟩ := idle _ member
      cases expanding
    | _ => cases goesOn
  | markAsUnpinned index =>
    obtain ⟨removal, found, goesOn⟩ := Option.bind_eq_some_iff.mp stepped
    cases removal with
    | marking =>
      obtain rfl := Option.some.inj goesOn
      exact .inr rfl
    | _ => cases goesOn
  | failRm index =>
    obtain ⟨removal, found, goesOn⟩ := Option.bind_eq_some_iff.mp stepped
    obtain ⟨front, back, split, erased, -⟩ := split_at found
    cases removal with
    | expanding log =>
      obtain rfl := Option.some.inj goesOn
      refine .inl fun other member => ?_
      rw [split] at member
      rcases List.mem_append.mp member with inFront | member
      · exact idle other (by rw [endRm, erased]; exact List.mem_append_left _ inFront)
      · rcases List.mem_cons.mp member with rfl | inBack
        · exact ⟨log, rfl⟩
        · exact idle other (by rw [endRm, erased]; exact List.mem_append_right _ inBack)
    | removing => exact absurd found removes
    | marking => cases goesOn

theorem start_truthful (value : StreamState) (pinned : Bool) : (start value pinned).Truthful := by
  cases pinned with
  | false =>
    intro commits marked
    cases marked
  | true =>
    intro commits marked cid member
    obtain rfl := Option.some.inj marked
    exact member

theorem start_consistent (value : StreamState) (pinned : Bool) : (start value pinned).Consistent := by
  refine consistent_of_no_adds rfl (fun member => by cases member) fun _ => ?_
  cases pinned <;> rfl

theorem Truthful.step_others {action : PinAction} (truthful : book.Truthful) (consistent : book.Consistent)
    (apart : book.Apart action) (others : book.UnpinsOthers action) (stepped : book.step action = some next) :
    next.Truthful := by
  by_cases unpins : ∃ index store, action = .unpin index store
  · obtain ⟨index, store, rfl⟩ := unpins
    obtain ⟨log, points, found, expanded, rfl⟩ := step_unpin stepped
    intro commits marked cid member
    have stays := others log found points expanded commits marked cid member
    exact List.mem_filter.mpr ⟨truthful commits marked cid member, by simpa using stays⟩
  · push Not at unpins
    exact truthful.step consistent apart unpins stepped

theorem truthful_of_noneUnpinning {action : PinAction} (truthful : book.NoneUnpinning → book.Truthful)
    (consistent : book.Consistent) (apart : book.Apart action) (removes : book.Removes action)
    (stepped : book.step action = some next) (idle : next.NoneUnpinning) : next.Truthful := by
  by_cases unpins : ∃ index store, action = .unpin index store
  · obtain ⟨index, store, rfl⟩ := unpins
    obtain ⟨log, points, found, expanded, rfl⟩ := step_unpin stepped
    obtain ⟨front, back, -, -, sets⟩ := split_at found
    have member : Removing.removing ∈ book.rms.set index .removing := by
      rw [sets]
      exact List.mem_append_right _ List.mem_cons_self
    obtain ⟨other, expanding⟩ := idle _ member
    cases expanding
  · push Not at unpins
    rcases noneUnpinning_of_step removes unpins stepped idle with before | unmarked
    · exact (truthful before).step consistent apart unpins stepped
    · intro commits marked
      rw [unmarked] at marked
      cases marked

theorem Consistent.quiet (consistent : book.Consistent) (noAdds : book.adds = []) (noRms : book.rms = []) :
    book.Coupled := by
  refine consistent.coupled (fun log member => ?_) fun member => ?_
  · rw [noAdds] at member
    cases member
  · rw [noRms] at member
    cases member

/-- As long as calls of `add` and `rm` keep apart and no commits are added to the log while `add` goes on, the
bookkeeping is truthful if what `rm` unpins is never marked; and if `rm` unpins what is marked, it is truthful
as soon as `rm` has marked the running state, which it always does if the state store removes the stream. In
between the calls the state store and the bookkeeping agree. -/
theorem bookkeeping_truthful (value : StreamState) (pinned : Bool) :
    (∀ book, Transition.Reaches step (fun book action => book.Apart action ∧ book.UnpinsOthers action)
        (start value pinned) book → book.Truthful ∧ (book.adds = [] → book.rms = [] → book.Coupled)) ∧
    (∀ book, Transition.Reaches step (fun book action => book.Apart action ∧ book.Removes action)
        (start value pinned) book →
      (book.NoneUnpinning → book.Truthful) ∧ (book.adds = [] → book.rms = [] → book.Coupled)) := by
  have begun := start_consistent value pinned
  constructor
  · intro book reaches
    obtain ⟨truthful, consistent⟩ := @Transition.Reaches.invariant _ _ _ _ _ _
      (fun book => book.Truthful ∧ book.Consistent) ⟨start_truthful value pinned, begun⟩
      (fun book action next ⟨truthful, consistent⟩ ⟨apart, others⟩ stepped =>
        ⟨truthful.step_others consistent apart others stepped, consistent.step (fun _ => truthful) apart stepped⟩)
      reaches
    exact ⟨truthful, consistent.quiet⟩
  · intro book reaches
    obtain ⟨truthful, consistent⟩ := @Transition.Reaches.invariant _ _ _ _ _ _
      (fun book => (book.NoneUnpinning → book.Truthful) ∧ book.Consistent)
      ⟨fun _ => start_truthful value pinned, begun⟩
      (fun book action next ⟨truthful, consistent⟩ ⟨apart, removes⟩ stepped =>
        ⟨truthful_of_noneUnpinning truthful consistent apart removes stepped,
          consistent.step truthful apart stepped⟩) reaches
    exact ⟨truthful, consistent.quiet⟩

def oneCommit : StreamState where
  type := 0
  content := .obj []
  metadata := [("controllers", .arr [.str "did:key:z6Mk"])]
  signature := .SIGNED
  anchorStatus := .NOT_REQUESTED
  log := .singleton ⟨⟨[1]⟩, .INIT, .undefined, none⟩

def twoCommits : StreamState := { oneCommit with log := oneCommit.log.push ⟨⟨[2]⟩, .DATA, .undefined, none⟩ }

/-- No commit has points besides itself. -/
def plainStore : PinStore where
  retrieve := fun _ => .ok (.obj [("data", .obj [])])
  resolve := fun cid _ => .ok cid
  pin := fun _ => .ok ()
  base64urlToJSON := fun _ => .error ⟨"not supported"⟩
  parse := fun _ => .error ⟨"not supported"⟩
  stringOf := fun _ => ""

theorem bookkeeping_truthful_added :
    ∃ book : PinBook, book.running.pinnedCommits = some [⟨[1]⟩] ∧ book.Truthful ∧ book.Coupled := by
  have added : Transition.Reaches step (fun book action => book.Apart action ∧ book.UnpinsOthers action)
      (start oneCommit false) _ :=
    .next (a := .markAsPinned 0) (.next (a := .save 0) (.next (a := .beginSave 0) (.next (a := .pin 0)
      (.next (a := .expand 0 plainStore) (.next (a := .beginAdd false) .start
        ⟨fun _ member => (List.not_mem_nil member).elim, trivial⟩ rfl) ⟨trivial, trivial⟩ rfl) ⟨trivial, trivial⟩ rfl)
      ⟨trivial, trivial⟩ rfl) ⟨trivial, trivial⟩ rfl)
      ⟨fun adding found cid member => by obtain rfl := Option.some.inj found; exact member, trivial⟩ rfl
  obtain ⟨truthful, coupled⟩ := (bookkeeping_truthful oneCommit false).1 _ added
  exact ⟨_, rfl, truthful, coupled rfl rfl⟩

/-- A commit that gets into the log while the others are pinned is marked with them. -/
theorem marked_without_pin : ∃ book, Transition.run step (start oneCommit false)
    [.beginAdd false, .expand 0 plainStore, .pin 0, .next twoCommits, .beginSave 0, .save 0, .markAsPinned 0] = some book ∧
      ¬book.Truthful := by
  refine ⟨_, rfl, fun truthful => ?_⟩
  have pinned := truthful [⟨[1]⟩, ⟨[2]⟩] rfl ⟨[2]⟩ (by decide)
  revert pinned
  decide

end PinBook

end Ceramic
