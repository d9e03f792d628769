import EventSorcery.Dispatch
import EventSorcery.Repository

/-!
# Delays

A delay is any standard duration, up to `2 ^ 64` seconds. It crosses into the duration type of the date
library, which holds `i64Max` milliseconds, and is added to the clock, whose dates end long before
that. The enqueue refuses a delay that does not fit the first step and panics on the second. The worker
replaces a delay that does not fit the first step by 30 seconds. Times are in nanoseconds here; what is
recorded is the millisecond they lie in.
-/

namespace EventSorcery

/-- The largest delay the date library's duration holds, in nanoseconds. -/
def maxTimeDelta : ℕ := i64Max * 1000000

/-- A standard duration in the date library's type. -/
def fromStd (delay : ℕ) : Option ℕ := if delay ≤ maxTimeDelta then some delay else none

def timestampMillis (nanos : ℤ) : ℤ := nanos / 1000000

/-- The sum of a date and a duration; none is the panic of a sum that is no date. -/
def addDelta (now : ℤ) (delta : ℕ) : Option ℤ :=
  if InstantRange (timestampMillis (now + delta)) then some (now + delta) else none

/-! ## Enqueues -/

/-- When a job is due: an error, a time in milliseconds, or a panic. -/
def resolveRunAt (now : ℤ) : Option ℕ → Option (Except JobStoreError ℤ)
  | none => some (.ok (timestampMillis now))
  | some delay =>
      match fromStd delay with
      | none => some (.error .delayOverflow)
      | some delta => (addDelta now delta).map fun runAt => .ok (timestampMillis runAt)

/-- A command's buffered enqueues see its errors as those of the commit. -/
theorem resolveRunAtMs_eq (now : ℤ) (delay : Option ℕ) :
    resolveRunAtMs now delay =
      match resolveRunAt now delay with
      | none => .error .panicked
      | some (.error _) => .error .unknown
      | some (.ok runAtMs) => .ok runAtMs := by
  cases delay with
  | none => rfl
  | some delay =>
      unfold resolveRunAtMs resolveRunAt fromStd maxTimeDelta
      dsimp only
      by_cases hfits : delay ≤ i64Max * 1000000
      · rw [if_neg (Nat.not_lt.2 hfits), if_pos hfits]
        change (if InstantRange (timestampMillis (now + delay)) then _ else _) = _
        unfold addDelta
        dsimp only
        split_ifs <;> rfl
      · rw [if_pos (Nat.not_le.1 hfits), if_neg hfits]

/-! ## Workers -/

/-- A worker's duration: one that does not fit counts as 30 seconds. -/
def leaseDelta (delay : ℕ) : ℕ := (fromStd delay).getD 30000000000

/-- The time a worker records for a deferral, by a clock that shows `now`. -/
def Deferral.recordedAt (now : ℤ) : Deferral → Option Instant
  | .after delay => (addDelta now (leaseDelta delay)).bind fun runAt =>
      (instantFromMillis (timestampMillis runAt)).toOption
  | .atMillis millis => (instantFromMillis millis).toOption

/-- The worker's command, with the times it computes left open. -/
def ackCommandWith {Error : Type} (runAt : Deferral → Option Instant) (ctx : JobContext Error) :
    AckPlan → Option JobCommand
  | .succeeded => some (.succeed ctx.handle.claimId)
  | .deferred delay => (runAt delay).map (.reschedule ctx.handle.claimId)
  | .rejected error => some (.kill ctx.handle.claimId .rejected error)
  | .failed error =>
      if ctx.config.maxAttempts ≤ ctx.handle.attempt + 1 then
        some (.kill ctx.handle.claimId .retriesExhausted error)
      else
        (runAt (.after (ctx.config.backoff ctx.handle.attempt))).map fun runAt =>
          .retrySchedule ctx.handle.claimId runAt (ctx.handle.attempt + 1) error

section Workers

variable {Error : Type} (ctx : JobContext Error)

/-- `Deferral.runAt` is the same for a clock that shows whole milliseconds. -/
theorem runAt_eq_recordedAt (now : Instant) (delay : Deferral) :
    delay.runAt now = delay.recordedAt (now.1 * 1000000) := by
  cases delay with
  | atMillis millis => rfl
  | after delay =>
      have hdelta : (if i64Max * 1000000 < delay then 30000 else delay / 1000000) =
          leaseDelta delay / 1000000 := by
        unfold leaseDelta fromStd maxTimeDelta
        by_cases hfits : delay ≤ i64Max * 1000000
        · rw [if_neg (Nat.not_lt.2 hfits), if_pos hfits]
          rfl
        · rw [if_pos (Nat.not_le.1 hfits), if_neg hfits]
          rfl
      have hmillis : timestampMillis (now.1 * 1000000 + (leaseDelta delay : ℕ)) =
          now.1 + ((leaseDelta delay / 1000000 : ℕ) : ℤ) := by
        unfold timestampMillis
        push_cast
        omega
      unfold Deferral.runAt Deferral.recordedAt addDelta
      dsimp only
      rw [hdelta, hmillis]
      split_ifs with hrange
      · rw [Option.bind_some, hmillis]
      · rw [instantFromMillis, dif_neg hrange]
        rfl

theorem recordedAt_after (now : ℤ) (delay : ℕ) :
    (Deferral.after delay).recordedAt now =
      if h : InstantRange (timestampMillis (now + leaseDelta delay)) then some ⟨_, h⟩ else none := by
  unfold Deferral.recordedAt addDelta instantFromMillis
  by_cases hrange : InstantRange (timestampMillis (now + leaseDelta delay))
  · simp only [if_pos hrange, dif_pos hrange, Option.bind_some]
    rfl
  · simp only [if_neg hrange, dif_neg hrange, Option.bind_none]

theorem ackCommand_eq (plan : AckPlan) (now : Instant) :
    ackCommand ctx plan now = ackCommandWith (Deferral.recordedAt (now.1 * 1000000)) ctx plan := by
  cases plan <;> simp only [ackCommand, ackCommandWith, runAt_eq_recordedAt]

/-- The delays that fit are the ones a worker waits for. -/
theorem not_earlier_recordedAt_iff (now : ℤ) (delay : ℕ) :
    (∀ runAt, (Deferral.after delay).recordedAt now = some runAt →
        timestampMillis (now + delay) ≤ runAt.1) ↔
      delay ≤ maxTimeDelta ∨ ¬ InstantRange (timestampMillis (now + 30000000000)) := by
  by_cases hfits : delay ≤ maxTimeDelta
  · have hdelta : leaseDelta delay = delay := by
      rw [leaseDelta, fromStd, if_pos hfits, Option.getD_some]
    refine iff_of_true (fun runAt hrunAt => ?_) (.inl hfits)
    rw [recordedAt_after, hdelta] at hrunAt
    obtain ⟨hrange, hsome⟩ := Option.dite_none_right_eq_some.1 hrunAt
    obtain rfl := Option.some.inj hsome
    exact le_rfl
  · have hdelta : leaseDelta delay = 30000000000 := by
      rw [leaseDelta, fromStd, if_neg hfits, Option.getD_none]
    have hfall : timestampMillis (now + 30000000000) < timestampMillis (now + delay) := by
      unfold maxTimeDelta i64Max at hfits
      unfold timestampMillis
      omega
    rw [recordedAt_after, hdelta]
    constructor
    · intro hkept
      refine .inr fun hrange => ?_
      exact absurd (hkept _ (dif_pos hrange)) (not_le.2 hfall)
    · rintro (hle | hrange) runAt hrunAt
      · exact absurd hle hfits
      · obtain ⟨hrange', -⟩ := Option.dite_none_right_eq_some.1 hrunAt
        exact absurd hrange' hrange

end Workers

/-! ## What becomes of a delay -/

/-- An enqueue with the delay records the time the delay ends or names the overflow. -/
def EnqueueKeeps (now : ℤ) (delay : ℕ) : Prop :=
  resolveRunAt now (some delay) = some (.ok (timestampMillis (now + delay))) ∨
    resolveRunAt now (some delay) = some (.error .delayOverflow)

instance (now : ℤ) (delay : ℕ) : Decidable (EnqueueKeeps now delay) :=
  inferInstanceAs (Decidable (_ ∨ _))

/-- When the command lets the job run again. -/
def JobCommand.runAt? : JobCommand → Option Instant
  | retrySchedule _ runAt _ _ | reschedule _ runAt => some runAt
  | succeed _ | kill _ _ _ => none

/-- No recorded time is before the end of the delay. -/
def NotEarlier (now : ℤ) (delay : ℕ) (command : Option JobCommand) : Prop :=
  ∀ runAt ∈ command.bind JobCommand.runAt?, timestampMillis (now + delay) ≤ runAt.1

instance (now : ℤ) (delay : ℕ) (command : Option JobCommand) :
    Decidable (NotEarlier now delay command) :=
  inferInstanceAs (Decidable (∀ _ ∈ _, _))

theorem enqueueKeeps_iff (now : ℤ) (delay : ℕ) :
    EnqueueKeeps now delay ↔
      maxTimeDelta < delay ∨ InstantRange (timestampMillis (now + delay)) := by
  unfold EnqueueKeeps resolveRunAt
  dsimp only
  by_cases hfits : delay ≤ maxTimeDelta
  · rw [fromStd, if_pos hfits]
    dsimp only [addDelta]
    split_ifs with hrange <;> simp [hfits, hrange]
  · rw [fromStd, if_neg hfits]
    exact iff_of_true (.inr rfl) (.inl (not_le.1 hfits))

/-- A worker that backs off by the longest standard duration. -/
def longDelays : JobContext Unit where
  handle := ⟨"job", 2, "claim", 0⟩
  config :=
    { maxAttempts := 3, maxClaims := 3, executionTimeout := "", retryDelay := 0, refusedBackoff := 0
      backoff := fun _ => (2 ^ 64 - 1) * 1000000000
      decodes := fun _ => true
      errorChain := fun _ => ""
      failureChain := fun _ => "" }

/-- An enqueue keeps a delay except where it panics, on a sum that is no date. A worker keeps it, for
a deferral or a retry, except where it takes 30 seconds for it. -/
theorem delays_are_kept_iff {Error : Type} (now : ℤ) (delay : ℕ) (ctx : JobContext Error)
    (error : String) :
    (EnqueueKeeps now delay ↔
        maxTimeDelta < delay ∨ InstantRange (timestampMillis (now + delay))) ∧
      (NotEarlier now delay (ackCommandWith (Deferral.recordedAt now) ctx (.deferred (.after delay))) ↔
        delay ≤ maxTimeDelta ∨ ¬ InstantRange (timestampMillis (now + 30000000000))) ∧
      (NotEarlier now (ctx.config.backoff ctx.handle.attempt)
          (ackCommandWith (Deferral.recordedAt now) ctx (.failed error)) ↔
        ctx.config.maxAttempts ≤ ctx.handle.attempt + 1 ∨
          ctx.config.backoff ctx.handle.attempt ≤ maxTimeDelta ∨
          ¬ InstantRange (timestampMillis (now + 30000000000))) := by
  refine ⟨enqueueKeeps_iff now delay, ?_, ?_⟩
  · rw [← not_earlier_recordedAt_iff, NotEarlier, ackCommandWith]
    cases (Deferral.after delay).recordedAt now <;> simp [JobCommand.runAt?]
  · rw [← not_earlier_recordedAt_iff, NotEarlier, ackCommandWith]
    by_cases hlast : ctx.config.maxAttempts ≤ ctx.handle.attempt + 1
    · rw [if_pos hlast]
      exact iff_of_true (fun runAt hrunAt => by cases hrunAt) (.inl hlast)
    · rw [if_neg hlast, or_iff_right hlast]
      cases (Deferral.after (ctx.config.backoff ctx.handle.attempt)).recordedAt now <;>
        simp [JobCommand.runAt?]

/-- At the epoch a delay of 300000 years panics in an enqueue, and the longest standard duration is
30 seconds for a worker. -/
theorem long_delays_are_lost :
    resolveRunAt 0 (some (300000 * 31536000000000000)) = none ∧
      (Deferral.after ((2 ^ 64 - 1) * 1000000000)).recordedAt 0 = some ⟨30000, by decide⟩ ∧
      ¬ EnqueueKeeps 0 (300000 * 31536000000000000) ∧
      ¬ NotEarlier 0 ((2 ^ 64 - 1) * 1000000000)
        (ackCommandWith (Deferral.recordedAt 0) longDelays
          (.deferred (.after ((2 ^ 64 - 1) * 1000000000)))) ∧
      ¬ NotEarlier 0 (longDelays.config.backoff longDelays.handle.attempt)
        (ackCommandWith (Deferral.recordedAt 0) longDelays (.failed "refused")) := by
  decide +kernel

end EventSorcery
