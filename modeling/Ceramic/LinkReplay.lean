import Ceramic.Caip10LinkHandler
import Ceramic.JsonPatch
import Ceramic.Library.Transition

/-! Whether an old link proof can be applied once more. A proof is compared with the last anchor if the stream
is anchored and with the proof before it otherwise. -/
namespace Ceramic.Caip10LinkHandler

open StreamUtils JsObject

/-- The time of the proof a signed state was last updated with. -/
def lastProof (state : StreamState) : Option Rat :=
  if state.signature = .GENESIS then none
  else lastUpdateOf ((state.next.bind (·.metadata)).getD state.metadata)

/-- A commit, and what surrounds the handler when it is applied. -/
structure Delivery where
  env : Environment
  commitData : CommitData

/-- The state after a commit, if it is accepted. -/
def accept (state : StreamState) (delivery : Delivery) : Option StreamState :=
  match applyCommit delivery.env delivery.commitData (some state) with
  | .applied next => some next
  | .threw _ _ => none

/-- The link proof of a signed commit. -/
def proofOf (delivery : Delivery) : Option LinkProof :=
  if isAnchorCommitData delivery.commitData then none
  else match delivery.env.validateLink delivery.commitData.commit.data with
    | .ok proof => proof
    | .error _ => none

def proofTimestamps (deliveries : List Delivery) : List Rat :=
  deliveries.filterMap fun delivery => (proofOf delivery).bind (·.timestamp)

/-- An anchored state was anchored no earlier than the proof it was updated with was made. -/
def AnchoredInTime (state : StreamState) : Prop :=
  state.anchorStatus = .ANCHORED → ∀ last ∈ lastProof state,
    ∃ seconds, (anchorTimestampFromState state).toNumber = some seconds ∧ last ≤ (seconds : Rat)

/-- A link proof has a timestamp, and the state it is applied to was anchored in time. -/
def InOrder (state : StreamState) (delivery : Delivery) : Prop :=
  ∀ proof, proofOf delivery = some proof → proof.timestamp.isSome = true ∧ AnchoredInTime state

section

variable {state next : StreamState} {delivery : Delivery}

theorem applied_of_accept (accepted : accept state delivery = some next) :
    applyCommit delivery.env delivery.commitData (some state) = .applied next := by
  unfold accept at accepted
  split at accepted
  next applied => rw [applied, Option.some.inj accepted]
  next => cases accepted

/-- A commit that is accepted is an anchor commit, or its proof passed the checks. -/
theorem accept_cases (accepted : accept state delivery = some next) :
    (isAnchorCommitData delivery.commitData = true ∧ next = anchoredState delivery.commitData state) ∨
    (isAnchorCommitData delivery.commitData = false ∧ ∃ proof,
      checkProof delivery.env delivery.commitData state = .ok proof ∧
      next = signedState delivery.commitData state proof) := by
  have applied := applied_of_accept accepted
  unfold applyCommit dispatch at applied
  split at applied
  next => cases applied
  next =>
    dsimp only at applied
    split at applied
    next anchor => exact .inl ⟨anchor, (applyAnchorCommit_ok.mp (outcome_of_except applied)).2.2⟩
    next other =>
      obtain ⟨proof, checked, same⟩ := map_eq_ok.mp (outcome_of_except applied)
      exact .inr ⟨by simpa using other, proof, checked, same.symm⟩

/-- What passed the checks is the proof of the commit, and it was not too old. -/
theorem checkProof_ok {proof : LinkProof} (signed : isAnchorCommitData delivery.commitData = false)
    (checked : checkProof delivery.env delivery.commitData state = .ok proof) :
    proofOf delivery = some proof ∧ proofTooOld proof state = .ok false := by
  obtain ⟨_, _, rest⟩ := bind_eq_ok.mp checked
  unfold proofOf
  rw [signed]
  split at rest
  next valid isValid =>
    obtain ⟨_, same, rest⟩ := bind_eq_ok.mp rest
    obtain rfl := Except.ok.inj same
    obtain ⟨tooOld, compared, rest⟩ := bind_eq_ok.mp rest
    split at rest
    next => cases rest
    next notOld =>
      obtain rfl : tooOld = false := by simpa using notOld
      obtain ⟨controller, _, rest⟩ := bind_eq_ok.mp rest
      split at rest
      next text =>
        obtain ⟨_, _, rest⟩ := bind_eq_ok.mp rest
        dsimp only at rest
        split at rest
        next => cases rest
        next =>
          split at rest
          next => cases rest
          next =>
            obtain rfl := Except.ok.inj rest
            rw [if_neg Bool.false_ne_true, isValid]
            exact ⟨rfl, compared⟩
      next => cases rest
  next => cases rest
  next => cases rest

/-- An anchor commit keeps the time of the last proof. -/
theorem lastProof_anchored (commitData : CommitData) (state : StreamState) :
    lastProof (anchoredState commitData state) = lastProof state := rfl

theorem lastProof_signed (commitData : CommitData) (state : StreamState) (proof : LinkProof) :
    lastProof (signedState commitData state proof) = proof.timestamp := by
  change lastUpdateOf (set state.metadata "lastUpdate" _) = proof.timestamp
  rw [lastUpdateOf, get_set_self]
  cases proof.timestamp <;> rfl

/-- A proof that is not too old for a state that was anchored in time is not older than the one before. -/
theorem not_before_last {proof : LinkProof} (notOld : proofTooOld proof state = .ok false)
    (inTime : AnchoredInTime state) {last timestamp : Rat} (isLast : last ∈ lastProof state)
    (dated : proof.timestamp = some timestamp) : last ≤ timestamp := by
  have signed : state.signature ≠ .GENESIS := by
    intro unsigned
    rw [lastProof, if_pos unsigned] at isLast
    cases isLast
  rw [proofTooOld, if_neg signed, dated] at notOld
  split at notOld
  next anchored =>
    obtain ⟨seconds, isTime, late⟩ := inTime anchored last isLast
    rw [isTime] at notOld
    have notEarly : ¬timestamp < (seconds : Rat) := by simpa [before] using notOld
    exact late.trans (not_lt.mp notEarly)
  next =>
    rw [lastProof, if_neg signed] at isLast
    split at notOld
    next metadata isNext =>
      rw [isNext, Option.getD_some] at isLast
      rw [Option.mem_def.mp isLast] at notOld
      have notEarly : ¬timestamp < last := by simpa [before] using notOld
      exact not_lt.mp notEarly
    next => cases notOld

/-- The time an anchored state is compared with is a number, zero if no anchor has a time. -/
theorem anchorTimestamp_number (state : StreamState) :
    ∃ seconds, (anchorTimestampFromState state).toNumber = some seconds := by
  unfold anchorTimestampFromState
  split
  next entry found =>
    have truthy := List.find?_some found
    cases isTime : entry.timestamp with
    | seconds n => exact ⟨n, rfl⟩
    | undefined =>
      rw [isTime] at truthy
      cases truthy
    | null =>
      rw [isTime] at truthy
      cases truthy
  next => exact ⟨0, rfl⟩

/-- An anchored state that was not anchored in time is one that an older proof is accepted for. -/
theorem older_accepted_iff (anchored : state.anchorStatus = .ANCHORED) {last : Rat} (isLast : lastProof state = some last)
    (account : String) (did : JsValue) :
    (∃ timestamp < last, proofTooOld ⟨some timestamp, account, did⟩ state = .ok false) ↔ ¬AnchoredInTime state := by
  have signed : state.signature ≠ .GENESIS := by
    intro unsigned
    rw [lastProof, if_pos unsigned] at isLast
    cases isLast
  obtain ⟨seconds, isTime⟩ := anchorTimestamp_number state
  have compared (timestamp : Rat) :
      proofTooOld ⟨some timestamp, account, did⟩ state = .ok false ↔ (seconds : Rat) ≤ timestamp := by
    rw [proofTooOld, if_neg signed, if_pos anchored, isTime]
    simp [before]
  simp only [compared]
  constructor
  · rintro ⟨timestamp, older, late⟩ inTime
    obtain ⟨same, isSame, bound⟩ := inTime anchored last isLast
    obtain rfl := Option.some.inj (isSame.symm.trans isTime)
    exact absurd (lt_of_le_of_lt late older) (not_lt.mpr bound)
  · intro late
    refine ⟨seconds, not_le.mp fun bound => late fun _ other isOther => ?_, le_refl _⟩
    obtain rfl := Option.some.inj (isLast.symm.trans isOther)
    exact ⟨seconds, isTime, bound⟩

/-- What one commit does to the time of the last proof. -/
theorem accept_lastProof (accepted : accept state delivery = some next) :
    (proofOf delivery = none ∧ lastProof next = lastProof state) ∨
    ∃ proof, proofOf delivery = some proof ∧ proofTooOld proof state = .ok false ∧
      lastProof next = proof.timestamp := by
  obtain ⟨anchor, rfl⟩ | ⟨signed, proof, checked, rfl⟩ := accept_cases accepted
  · exact .inl ⟨by rw [proofOf, if_pos anchor], lastProof_anchored _ _⟩
  · obtain ⟨isProof, notOld⟩ := checkProof_ok signed checked
    exact .inr ⟨proof, isProof, notOld, lastProof_signed _ _ _⟩

end

/-- Where every link proof has a timestamp and no state is updated that was anchored before its last proof was made,
the times of the proofs never decrease: no proof is accepted once a newer one has been. -/
theorem proofs_in_order {state last : StreamState} {deliveries : List Delivery}
    (accepted : Transition.run accept state deliveries = some last)
    (inOrder : Transition.AllAllowed accept InOrder state deliveries) :
    ((lastProof state).toList ++ proofTimestamps deliveries).Pairwise (· ≤ ·) := by
  induction deliveries generalizing state with
  | nil => cases lastProof state <;> simp [proofTimestamps]
  | cons delivery deliveries ih =>
    obtain ⟨middle, first, rest⟩ := Transition.run_cons.mp accepted
    obtain ⟨here, behind⟩ := inOrder
    rw [first] at behind
    have later := ih rest behind
    obtain ⟨noProof, kept⟩ | ⟨proof, isProof, notOld, replaced⟩ := accept_lastProof first
    · rw [kept] at later
      simpa [proofTimestamps, noProof] using later
    · obtain ⟨dated, inTime⟩ := here proof isProof
      obtain ⟨timestamp, isTime⟩ := Option.isSome_iff_exists.mp dated
      rw [replaced, isTime] at later
      have times : proofTimestamps (delivery :: deliveries) = timestamp :: proofTimestamps deliveries := by
        simp [proofTimestamps, isProof, isTime]
      rw [times]
      cases isLast : lastProof state with
      | none => simpa using later
      | some before =>
        have ordered : before ≤ timestamp := not_before_last notOld inTime isLast isTime
        obtain ⟨afterTimestamp, _⟩ := List.pairwise_cons.mp later
        refine List.pairwise_cons.mpr ⟨fun other member => ?_, later⟩
        rcases List.mem_cons.mp member with rfl | behind
        · exact ordered
        · exact ordered.trans (afterTimestamp other behind)

/-- A node that takes a number for a proof made at this time. -/
def linking : Environment :=
  { Environment.permissive with
    validateLink := fun
      | .num timestamp => .ok (some ⟨some timestamp, "0xab@eip155:1", .str "did:3:testdid1"⟩)
      | _ => .ok none }

def linkGenesis : CommitData :=
  { cid := ⟨[1]⟩, type := .INIT
    commit := { header := some [("controllers", .arr [.str "0xab@eip155:1"])] } }

def linkedState : StreamState :=
  genesisState linkGenesis [("controllers", .arr [.str "0xab@eip155:1"])]

def proofAt (cid prev : UInt8) (timestamp : Rat) : Delivery :=
  ⟨linking, { cid := ⟨[cid]⟩, type := .DATA, commit := { prev := some ⟨[prev]⟩, data := .num timestamp } }⟩

def anchorAt (cid prev : UInt8) (seconds : Nat) : Delivery :=
  ⟨linking, { cid := ⟨[cid]⟩, type := .TIME, timestamp := .seconds seconds
              commit := { prev := some ⟨[prev]⟩, proof := some ⟨[9]⟩ }
              proof := some ⟨"eip155:1", ⟨[9]⟩, ⟨[9]⟩, none⟩ }⟩

/-- A proof may follow one that was anchored after it had been made. -/
theorem proofs_in_order_lateAnchor :
    (proofTimestamps [proofAt 2 1 8, anchorAt 3 2 9, proofAt 4 3 10]).Pairwise (· ≤ ·) := by
  have first : InOrder linkedState (proofAt 2 1 8) := by
    intro proof isProof
    obtain rfl := Option.some.inj isProof
    exact ⟨rfl, nofun⟩
  have second (state : StreamState) : InOrder state (anchorAt 3 2 9) := nofun
  have third {state : StreamState} (isLast : lastProof state = some 8)
      (isTime : anchorTimestampFromState state = .seconds 9) : InOrder state (proofAt 4 3 10) := by
    intro proof isProof
    obtain rfl := Option.some.inj isProof
    refine ⟨rfl, fun _ last member => ⟨9, by rw [isTime]; rfl, ?_⟩⟩
    obtain rfl := Option.some.inj (isLast.symm.trans member)
    decide
  exact @proofs_in_order linkedState _ [proofAt 2 1 8, anchorAt 3 2 9, proofAt 4 3 10] rfl
    ⟨first, second _, third rfl rfl, trivial⟩

/-- The proof of second 8 is applied again after that of second 10, behind an anchor of second 7. -/
theorem replayed_behind_earlyAnchor : applyCommit linking linkGenesis none = .applied linkedState ∧
    (Transition.run accept linkedState
      [proofAt 2 1 8, proofAt 3 2 10, anchorAt 4 3 7, proofAt 5 4 8]).isSome = true ∧
    proofTimestamps [proofAt 2 1 8, proofAt 3 2 10, anchorAt 4 3 7, proofAt 5 4 8] = [8, 10, 8] ∧
    ¬([8, 10, 8] : List Rat).Pairwise (· ≤ ·) :=
  ⟨rfl, rfl, rfl, by decide⟩

end Ceramic.Caip10LinkHandler
