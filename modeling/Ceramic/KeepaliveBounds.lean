import Ceramic.PubsubKeepalive
import Mathlib.Data.List.Chain

/-! How far apart the messages are that `PubsubKeepalive` publishes. -/
namespace Ceramic

/-- No two dates that follow one another, the latest first, are further apart. -/
def GapsWithin (bound : Nat) (dates : List Nat) : Prop :=
  dates.IsChain fun later earlier => later ≤ earlier + bound

/-- At this date the bound since the latest one is not passed. -/
def InTime (bound : Nat) (dates : List Nat) (date : Nat) : Prop :=
  ∀ latest ∈ dates.head?, date ≤ latest + bound

instance (bound : Nat) (dates : List Nat) : Decidable (GapsWithin bound dates) :=
  inferInstanceAs (Decidable (dates.IsChain fun later earlier => later ≤ earlier + bound))

theorem gapsWithin_nil (bound : Nat) : GapsWithin bound [] := .nil

theorem gapsWithin_cons {bound date : Nat} {dates : List Nat} :
    GapsWithin bound (date :: dates) ↔ InTime bound dates date ∧ GapsWithin bound dates := List.isChain_cons

theorem InTime.earlier {bound early late : Nat} {dates : List Nat} (inTime : InTime bound dates late)
    (before : early ≤ late) : InTime bound dates early :=
  fun latest isLatest => Nat.le_trans before (inTime latest isLatest)

@[simp] theorem inTime_cons {bound date latest : Nat} {dates : List Nat} :
    InTime bound (latest :: dates) date ↔ date ≤ latest + bound := by
  simp [InTime]

@[simp] theorem inTime_nil (bound date : Nat) : InTime bound [] date := by simp [InTime]

theorem dateNow_le {early late : Nat} (before : early ≤ late) : dateNow early ≤ dateNow late :=
  Nat.div_le_div_right before

/-- Half an interval later no more than the interval has passed, also on the clock. -/
theorem dateNow_add_le {moment half whole : Nat} (within : half ≤ whole) :
    dateNow (moment + half) ≤ dateNow moment + whole := by
  unfold dateNow
  omega

namespace PubsubKeepalive

/-- When the messages were published, the latest first. -/
def dates (k : PubsubKeepalive) : List Nat := k.published.map Prod.fst

/-- When the keepalive messages were. -/
def keepalives (k : PubsubKeepalive) : List Nat :=
  (k.published.filter fun entry => entry.2.typ = .keepalive).map Prod.fst

def PublishGaps (k : PubsubKeepalive) : Prop := GapsWithin k.maxPubsubPublishInterval k.dates

def KeepaliveGaps (k : PubsubKeepalive) : Prop := GapsWithin k.maxIntervalWithoutKeepalive k.keepalives

instance (k : PubsubKeepalive) : Decidable k.KeepaliveGaps :=
  inferInstanceAs (Decidable (GapsWithin k.maxIntervalWithoutKeepalive k.keepalives))

variable {k : PubsubKeepalive} {now : Nat} {message : PubsubMessage}

@[simp] theorem dates_next : (k.next now message).dates = now :: k.dates := rfl

theorem keepalives_next_keepalive (isKeepalive : message.typ = .keepalive) :
    (k.next now message).keepalives = now :: k.keepalives := by
  simp [keepalives, next, isKeepalive]

theorem keepalives_next_other (other : message.typ ≠ .keepalive) :
    (k.next now message).keepalives = k.keepalives := by
  simp [keepalives, next, other]

/-- The two clocks show when the latest messages were published. -/
structure Clocks (k : PubsubKeepalive) : Prop where
  published : ∀ latest ∈ k.dates.head?, k.lastPublishedMessageDate = latest
  keepalive : ∀ latest ∈ k.keepalives.head?, k.lastPublishedKeepAliveMessageDate = latest

theorem Clocks.next (clocks : k.Clocks) (now : Nat) (message : PubsubMessage) : (k.next now message).Clocks := by
  refine ⟨fun latest isLatest => ?_, fun latest isLatest => ?_⟩
  · obtain rfl := Option.some.inj isLatest
    rfl
  · by_cases isKeepalive : message.typ = .keepalive
    · rw [keepalives_next_keepalive isKeepalive] at isLatest
      obtain rfl := Option.some.inj isLatest
      exact if_pos isKeepalive
    · rw [keepalives_next_other isKeepalive] at isLatest
      exact (if_neg isKeepalive).trans (clocks.keepalive latest isLatest)

@[simp] theorem next_maxPubsubPublishInterval :
    (k.next now message).maxPubsubPublishInterval = k.maxPubsubPublishInterval := rfl

@[simp] theorem next_maxIntervalWithoutKeepalive :
    (k.next now message).maxIntervalWithoutKeepalive = k.maxIntervalWithoutKeepalive := rfl

@[simp] theorem next_interval : (k.next now message).interval = k.interval := rfl

theorem Clocks.known (clocks : k.Clocks) (ipfsVersion : Option String) :
    Clocks { k with _ipfsVersion := ipfsVersion } := ⟨clocks.published, clocks.keepalive⟩

/-- A tick publishes a keepalive message or nothing. -/
theorem onInterval_cases (version : String) (k : PubsubKeepalive) (now : Nat) (answer : String) :
    (¬k.needToPublishKeepaliveInactivity now ∧ ¬k.needToPublishKeepaliveOnceADay now ∧
      k.onInterval version now answer = { k with _ipfsVersion := some (k.knownVersion answer) }) ∨
    ((k.needToPublishKeepaliveInactivity now ∨ k.needToPublishKeepaliveOnceADay now) ∧
      k.onInterval version now answer = { k with _ipfsVersion := some (k.knownVersion answer) }.next now
        (.keepalive now version (k.knownVersion answer))) := by
  by_cases quiet : ¬k.needToPublishKeepaliveInactivity now ∧ ¬k.needToPublishKeepaliveOnceADay now
  · exact .inl ⟨quiet.1, quiet.2, if_pos quiet⟩
  · exact .inr ⟨by tauto, if_neg quiet⟩

theorem onInterval_interval (version : String) (k : PubsubKeepalive) (now : Nat) (answer : String) :
    (k.onInterval version now answer).interval = k.interval := by
  rcases onInterval_cases version k now answer with ⟨-, -, quiet⟩ | ⟨-, publishes⟩
  · rw [quiet]
    rfl
  · rw [publishes]
    rfl

end PubsubKeepalive

namespace KeepaliveTimer

open PubsubKeepalive

/-- A tick that publishes nothing leaves a keepalive message that follows one in time at the next tick. -/
def Timely (t : KeepaliveTimer) : KeepaliveAction → Prop
  | .next _ _ => True
  | .tick _ => t.keepalive.keepalives = [] ∨ t.keepalive.needToPublishKeepaliveInactivity (dateNow t.nextTick) ∨
      (dateNow (t.nextTick + t.keepalive.interval) : Int) ≤
        t.keepalive.lastPublishedKeepAliveMessageDate + t.keepalive.maxIntervalWithoutKeepalive

instance (t : KeepaliveTimer) : (action : KeepaliveAction) → Decidable (t.Timely action)
  | .next _ _ => isTrue trivial
  | .tick _ => inferInstanceAs (Decidable (t.keepalive.keepalives = [] ∨
      t.keepalive.needToPublishKeepaliveInactivity (dateNow t.nextTick) ∨
      (dateNow (t.nextTick + t.keepalive.interval) : Int) ≤
        t.keepalive.lastPublishedKeepAliveMessageDate + t.keepalive.maxIntervalWithoutKeepalive))

/-- What holds of a timer in every run. -/
structure Publishing (t : KeepaliveTimer) : Prop where
  clocks : t.keepalive.Clocks
  ticking : t.nextTick ≤ t.now + t.keepalive.interval
  gaps : t.keepalive.PublishGaps
  inTime : InTime t.keepalive.maxPubsubPublishInterval t.keepalive.dates (dateNow t.nextTick)

/-- What holds of it while the ticks leave the keepalive messages in time. -/
structure Alive (t : KeepaliveTimer) : Prop where
  gaps : t.keepalive.KeepaliveGaps
  inTime : InTime t.keepalive.maxIntervalWithoutKeepalive t.keepalive.keepalives (dateNow t.nextTick)

variable {version : String} {t t' : KeepaliveTimer} {action : KeepaliveAction}

theorem publishing_subscribed (maxPublish maxKeepalive now : Nat) :
    (subscribed maxPublish maxKeepalive now).Publishing where
  clocks := ⟨nofun, nofun⟩
  ticking := Nat.le_refl _
  gaps := gapsWithin_nil _
  inTime := inTime_nil _ _

theorem alive_subscribed (maxPublish maxKeepalive now : Nat) : (subscribed maxPublish maxKeepalive now).Alive :=
  ⟨gapsWithin_nil _, inTime_nil _ _⟩

/-- A message is published while the bounds are kept. -/
theorem Publishing.next {moment : Nat} {message : PubsubMessage} (publishing : t.Publishing)
    (later : t.now ≤ moment) (inWindow : moment ≤ t.nextTick) :
    Publishing { t with keepalive := t.keepalive.next (dateNow moment) message, now := moment } where
  clocks := publishing.clocks.next _ _
  ticking := Nat.le_trans publishing.ticking (Nat.add_le_add_right later _)
  gaps := gapsWithin_cons.mpr ⟨publishing.inTime.earlier (dateNow_le inWindow), publishing.gaps⟩
  inTime := by
    have soon : t.nextTick ≤ moment + t.keepalive.interval :=
      Nat.le_trans publishing.ticking (Nat.add_le_add_right later _)
    exact inTime_cons.mpr (Nat.le_trans (dateNow_le soon) (dateNow_add_le (Nat.min_le_left _ _)))

/-- A tick after less than half of the interval leaves the next message in time. -/
theorem inTime_of_recent {k : PubsubKeepalive} {tick : Nat} (clocks : k.Clocks)
    (recent : ¬k.needToPublishKeepaliveInactivity (dateNow tick)) :
    InTime k.maxPubsubPublishInterval k.dates (dateNow (tick + k.interval)) := by
  intro latest isLatest
  have clock := clocks.published latest isLatest
  have half : k.interval ≤ k.maxPubsubPublishInterval := Nat.min_le_left _ _
  unfold needToPublishKeepaliveInactivity dateNow at *
  omega

theorem Publishing.step (publishing : t.Publishing) (stepped : t.step version action = some t') : t'.Publishing := by
  cases action with
  | next moment message =>
    obtain ⟨⟨later, inWindow⟩, rfl⟩ := Option.ite_none_right_eq_some.mp stepped |>.imp_right Option.some.inj
    exact publishing.next later inWindow
  | tick answer =>
    obtain rfl := Option.some.inj stepped
    have known := publishing.clocks.known (some (t.keepalive.knownVersion answer))
    have ticking := Nat.le_of_eq (congrArg (t.nextTick + ·)
      (onInterval_interval version t.keepalive (dateNow t.nextTick) answer).symm)
    rcases onInterval_cases version t.keepalive (dateNow t.nextTick) answer with
      ⟨recent, -, quiet⟩ | ⟨-, publishes⟩
    · refine ⟨?_, ticking, ?_, ?_⟩
      · exact quiet ▸ known
      · exact quiet ▸ publishing.gaps
      · exact quiet ▸ inTime_of_recent known recent
    · refine ⟨?_, ticking, ?_, ?_⟩
      · exact publishes ▸ known.next _ _
      · exact publishes ▸ gapsWithin_cons.mpr ⟨publishing.inTime, publishing.gaps⟩
      · exact publishes ▸ inTime_cons.mpr (dateNow_add_le (Nat.min_le_left _ _))

/-- A step takes place in time if the timer is, whatever is published. -/
theorem Alive.gaps_step (alive : t.Alive) (stepped : t.step version action = some t') : t'.keepalive.KeepaliveGaps := by
  cases action with
  | next moment message =>
    obtain ⟨⟨-, inWindow⟩, rfl⟩ := Option.ite_none_right_eq_some.mp stepped |>.imp_right Option.some.inj
    by_cases isKeepalive : message.typ = .keepalive
    · rw [KeepaliveGaps, keepalives_next_keepalive isKeepalive]
      exact gapsWithin_cons.mpr ⟨alive.inTime.earlier (dateNow_le inWindow), alive.gaps⟩
    · rw [KeepaliveGaps, keepalives_next_other isKeepalive]
      exact alive.gaps
  | tick answer =>
    obtain rfl := Option.some.inj stepped
    rcases onInterval_cases version t.keepalive (dateNow t.nextTick) answer with ⟨-, -, quiet⟩ | ⟨-, publishes⟩
    · exact quiet ▸ alive.gaps
    · exact publishes ▸ gapsWithin_cons.mpr ⟨alive.inTime, alive.gaps⟩

/-- A tick that meets the condition leaves the keepalive messages in time. -/
theorem inTime_of_timely {answer : String} (publishing : t.Publishing)
    (timely : t.Timely (.tick answer)) (recent : ¬t.keepalive.needToPublishKeepaliveInactivity (dateNow t.nextTick)) :
    InTime t.keepalive.maxIntervalWithoutKeepalive t.keepalive.keepalives
      (dateNow (t.nextTick + t.keepalive.interval)) := by
  intro latest isLatest
  rcases timely with none | inactive | soon
  · rw [none] at isLatest
    cases isLatest
  · exact absurd inactive recent
  · rw [publishing.clocks.keepalive latest isLatest] at soon
    exact_mod_cast soon

theorem Alive.step (publishing : t.Publishing) (alive : t.Alive) (timely : t.Timely action)
    (stepped : t.step version action = some t') : t'.Alive := by
  refine ⟨alive.gaps_step stepped, ?_⟩
  cases action with
  | next moment message =>
    obtain ⟨⟨later, -⟩, rfl⟩ := Option.ite_none_right_eq_some.mp stepped |>.imp_right Option.some.inj
    by_cases isKeepalive : message.typ = .keepalive
    · have soon : t.nextTick ≤ moment + t.keepalive.interval :=
        Nat.le_trans publishing.ticking (Nat.add_le_add_right later _)
      rw [keepalives_next_keepalive isKeepalive]
      exact inTime_cons.mpr (Nat.le_trans (dateNow_le soon) (dateNow_add_le (Nat.min_le_right _ _)))
    · rw [keepalives_next_other isKeepalive]
      exact alive.inTime
  | tick answer =>
    obtain rfl := Option.some.inj stepped
    rcases onInterval_cases version t.keepalive (dateNow t.nextTick) answer with
      ⟨recent, -, quiet⟩ | ⟨-, publishes⟩
    · exact quiet ▸ inTime_of_timely publishing timely recent
    · exact publishes ▸ inTime_cons.mpr (dateNow_add_le (Nat.min_le_right _ _))

/-- A tick that does not meet the condition is silent, and the next one is too late. -/
theorem late_of_untimely {answer later : String} (publishing : t.Publishing) (alive : t.Alive)
    (untimely : ¬t.Timely (.tick answer))
    (ran : Transition.run (step version) t [.tick answer, .tick later] = some t') : ¬t'.keepalive.KeepaliveGaps := by
  obtain ⟨some', notInactive, notSoon⟩ := by simpa only [Timely, not_or] using untimely
  obtain ⟨latest, isLatest⟩ := Option.ne_none_iff_exists'.mp (mt List.head?_eq_none_iff.mp some')
  have clock := publishing.clocks.keepalive latest isLatest
  have inTime := alive.inTime latest isLatest
  have notDaily : ¬t.keepalive.needToPublishKeepaliveOnceADay (dateNow t.nextTick) := by
    unfold needToPublishKeepaliveOnceADay
    omega
  obtain rfl := Option.some.inj ran
  rcases onInterval_cases version t.keepalive (dateNow t.nextTick) answer with
    ⟨-, -, quiet⟩ | ⟨inactive | daily, -⟩
  · rw [quiet]
    rcases onInterval_cases version { t.keepalive with _ipfsVersion := some (t.keepalive.knownVersion answer) }
      (dateNow (t.nextTick + t.keepalive.interval)) later with ⟨-, notDue, -⟩ | ⟨-, publishes⟩
    · refine absurd ?_ notDue
      unfold needToPublishKeepaliveOnceADay
      dsimp only
      omega
    · intro gaps
      have late := (gapsWithin_cons.mp (publishes ▸ gaps)).1 latest isLatest
      exact notSoon (by rw [clock]; exact_mod_cast late)
  · exact absurd inactive notInactive
  · exact absurd daily notDaily

/-- In every run the messages follow one another within `maxPubsubPublishInterval`. The keepalive messages follow
one another within `maxIntervalWithoutKeepalive` in every run whose steps meet the condition, and a tick that does
not meet it makes the next one too late. -/
theorem keepalive_bounds (version : String) (maxPublish maxKeepalive now : Nat) (t : KeepaliveTimer) :
    (Transition.Reaches (step version) (fun _ _ => True) (subscribed maxPublish maxKeepalive now) t →
      t.keepalive.PublishGaps) ∧
    (Transition.Reaches (step version) Timely (subscribed maxPublish maxKeepalive now) t →
      t.keepalive.KeepaliveGaps ∧ ∀ answer later t',
        Transition.run (step version) t [.tick answer, .tick later] = some t' →
          (t'.keepalive.KeepaliveGaps ↔ t.Timely (.tick answer))) := by
  refine ⟨fun reaches => ?_, fun reaches => ?_⟩
  · have publishing : t.Publishing := reaches.invariant (publishing_subscribed maxPublish maxKeepalive now)
      fun _ _ _ publishing _ stepped => publishing.step stepped
    exact publishing.gaps
  · have kept : t.Publishing ∧ t.Alive := @Transition.Reaches.invariant _ _ _ _ _ _
      (fun t => t.Publishing ∧ t.Alive)
      ⟨publishing_subscribed maxPublish maxKeepalive now, alive_subscribed maxPublish maxKeepalive now⟩
      (fun _ _ _ kept timely stepped => ⟨kept.1.step stepped, kept.2.step kept.1 timely stepped⟩) reaches
    obtain ⟨publishing, alive⟩ := kept
    refine ⟨alive.gaps, fun answer later t' ran => ⟨?_, fun timely => ?_⟩⟩
    · intro gaps
      by_contra untimely
      exact late_of_untimely publishing alive untimely ran gaps
    · obtain ⟨middle, first, rest⟩ := Transition.run_cons.mp ran
      obtain ⟨last, second, same⟩ := Transition.run_cons.mp rest
      obtain rfl := Option.some.inj same
      have ticked : middle.Alive := alive.step publishing timely first
      exact ticked.gaps_step second

/-- The dispatcher's limits, a minute and a day, at a start on a November day. -/
def perDispatcher : KeepaliveTimer := subscribed 60000 86400000 3400000000000

/-- A tip is published between the first two ticks. -/
def tipBetweenTicks : List KeepaliveAction :=
  [.tick "0.0.0", .next 3400000090000 (.update ⟨MODEL_INSTANCE_TYPE_ID, ⟨[1]⟩⟩ ⟨[2]⟩ none), .tick "0.0.0"]

def afterTicks (start : KeepaliveTimer) (actions : List KeepaliveAction) : KeepaliveTimer :=
  (Transition.run (step "6.11.1") start actions).getD start

theorem keepalive_bounds_tipBetweenTicks : (afterTicks perDispatcher tipBetweenTicks).keepalive.KeepaliveGaps :=
  ((keepalive_bounds "6.11.1" 60000 86400000 3400000000000 (afterTicks perDispatcher tipBetweenTicks)).2
    (Transition.reaches_of_run (rfl : Transition.run (step "6.11.1") perDispatcher tipBetweenTicks =
      some (afterTicks perDispatcher tipBetweenTicks)) (by decide))).1

/-- Limits of a second between messages and of 100 ms between keepalive messages, of which every fourth tick
sends one. -/
theorem keepalive_late : ¬∀ (maxPublish maxKeepalive now : Nat) (t : KeepaliveTimer),
    Transition.Reaches (step "6.11.1") (fun _ _ => True) (subscribed maxPublish maxKeepalive now) t →
      t.keepalive.PublishGaps ∧ t.keepalive.KeepaliveGaps := by
  intro bounded
  have ran : Transition.run (step "6.11.1") (subscribed 1000 100 3400000000000)
      (List.replicate 4 (.tick "0.0.0")) =
        some (afterTicks (subscribed 1000 100 3400000000000) (List.replicate 4 (.tick "0.0.0"))) := rfl
  have gaps := (bounded 1000 100 3400000000000 _ (Transition.reaches_of_run ran (by decide))).2
  exact absurd gaps (by decide)

end KeepaliveTimer

end Ceramic
