import EventSorcery.JobRuntime
import EventSorcery.Lib.Process

/-!
# Executions of dispatched jobs

What a worker does with a claim it has won: the native worker runs the job's body under a timeout and
acknowledges the result, the Haskell worker executes, delivers and settles. Both are processes over
the same four calls: the job's `submit` and `reconcile`, the delivery of a verdict to the origin
entity, and the look at whether the lease was lost meanwhile. An answer that never comes is a
timeout in the native worker and an exception in the Haskell one.
-/

namespace EventSorcery

/-! ## What jobs answer -/

/-- When a deferred job runs again: native jobs name a duration in nanoseconds, Haskell jobs an
instant in milliseconds. -/
inductive Deferral where
  | after (nanos : ℕ)
  | atMillis (millis : ℤ)

inductive JobOutcome (Output : Type) where
  | done (output : Output)
  | defer (delay : Deferral)

inductive JobFailure (Error : Type) where
  | transient (error : Error)
  | terminal (error : Error)

inductive Reconciliation (Output : Type) where
  | settled (output : Output)
  | notSubmitted
  | indeterminate (delay : Deferral)

/-- Why a dispatch failed, as its origin is told. -/
inductive DispatchFailure (Error : Type) where
  | rejected (error : Error)
  | deadLettered (reason : DeadReason) (detail : String)
  deriving DecidableEq

/-- The verdict delivered to the origin entity. -/
inductive DispatchOutcome (Output Error : Type) where
  | confirmed (jobId : JobId) (output : Output) (attempts : UInt32)
  | failed (jobId : JobId) (failure : DispatchFailure Error) (attempts : UInt32)

def DispatchOutcome.jobId {Output Error : Type} : DispatchOutcome Output Error → JobId
  | .confirmed id _ _ | .failed id _ _ => id

/-- Why a verdict did not reach its origin: it could not be sent, or the origin refused it. -/
inductive OriginDeliveryError where
  | transport
  | refused

/-! ## Calls -/

/-- What an execution asks of its surroundings. -/
inductive WorkerCall (Output Error : Type) where
  | submit
  | reconcile
  | deliver (outcome : DispatchOutcome Output Error)
  | leaseLost

/-- What answers a call. -/
@[reducible]
def WorkerCall.Answer {Output Error : Type} : WorkerCall Output Error → Type
  | .submit => Except (JobFailure Error) (JobOutcome Output)
  | .reconcile => Except (JobFailure Error) (Reconciliation Output)
  | .deliver _ => Except OriginDeliveryError Unit
  | .leaseLost => Bool

/-- A program of a worker. -/
abbrev Program (Output Error R : Type) := Process (WorkerCall Output Error) WorkerCall.Answer R

/-- A program whose calls may be cut off. -/
abbrev Interruptible (Output Error R : Type) :=
  Process (WorkerCall Output Error) (fun c => Option c.Answer) R

/-- The calls an execution has made, each with its answer unless it was cut off. -/
abbrev History (Output Error : Type) :=
  List (Process.Answered (WorkerCall Output Error) fun c => Option c.Answer)

/-! ## The native worker -/

/-- What the native worker for a job type is configured with. Durations are in nanoseconds;
`executionTimeout` is as the timeout's message prints it. -/
structure JobWorkerConfig (Error : Type) where
  maxAttempts : UInt32
  maxClaims : UInt32
  executionTimeout : String
  backoff : UInt32 → ℕ
  retryDelay : ℕ
  refusedBackoff : ℕ
  /-- Whether a stored payload deserializes into the job. -/
  decodes : Json → Bool
  errorChain : Error → String
  failureChain : JobFailure Error → String

/-- The context a job runs in. -/
structure JobContext (Error : Type) where
  handle : JobClaimHandle
  config : JobWorkerConfig Error

/-- The first claim of a job is its second event. -/
def JobClaimHandle.isFirstExecution (handle : JobClaimHandle) : Bool := handle.claimSeq = 2

namespace JobContext

variable {Output Error : Type}

def isFirstExecution (ctx : JobContext Error) : Bool := ctx.handle.isFirstExecution

/-- Whether a failure recorded for this run would exhaust the retry budget. -/
def isFinalAttempt (ctx : JobContext Error) : Bool :=
  0 < ctx.config.maxAttempts && ctx.config.maxAttempts ≤ ctx.handle.attempt + 1

/-- How long to wait after a verdict that was not delivered. -/
def deliveryDeferral (ctx : JobContext Error) : OriginDeliveryError → Deferral
  | .transport => .after ctx.config.retryDelay
  | .refused => .after ctx.config.refusedBackoff

/-- Deliver the verdict of an outcome, if it is one. -/
def conclude (ctx : JobContext Error) :
    Except (JobFailure Error) (JobOutcome Output) →
      Program Output Error (Except (JobFailure Error) (JobOutcome Unit))
  | .ok (.done output) =>
      .call (.deliver (.confirmed ctx.handle.jobId output (ctx.handle.attempt + 1))) fun
        | .ok () => .ret (.ok (.done ()))
        | .error error => .ret (.ok (.defer (ctx.deliveryDeferral error)))
  | .ok (.defer delay) => .ret (.ok (.defer delay))
  | .error (.terminal error) =>
      .call (.deliver (.failed ctx.handle.jobId (.rejected error) (ctx.handle.attempt + 1))) fun
        | .ok () => .ret (.error (.terminal error))
        | .error deliveryError => .ret (.ok (.defer (ctx.deliveryDeferral deliveryError)))
  | .error (.transient error) =>
      if ctx.isFinalAttempt then
        .call (.deliver (.failed ctx.handle.jobId
          (.deadLettered .retriesExhausted (ctx.config.errorChain error))
          (ctx.handle.attempt + 1))) fun _ => .ret (.error (.transient error))
      else .ret (.error (.transient error))

/-- The body of a dispatched job: the first execution submits, every later one reconciles first and
submits only what was not submitted. -/
def perform (ctx : JobContext Error) :
    Program Output Error (Except (JobFailure Error) (JobOutcome Unit)) :=
  if ctx.isFirstExecution then .call .submit ctx.conclude
  else .call .reconcile fun
    | .ok (.settled output) => ctx.conclude (.ok (.done output))
    | .ok (.indeterminate delay) => .ret (.ok (.defer delay))
    | .ok .notSubmitted => .call .submit ctx.conclude
    | .error failure => ctx.conclude (.error failure)

end JobContext

/-- What the native worker records for a finished run. -/
inductive AckPlan where
  | succeeded
  | deferred (delay : Deferral)
  | failed (error : String)
  | rejected (error : String)

section Native

variable {Output Error : Type}

/-- The record for a result; no result is a run that exceeded its timeout, and counts as a transient
failure. -/
def ackPlan (config : JobWorkerConfig Error) :
    Option (Except (JobFailure Error) (JobOutcome Unit)) → AckPlan
  | some (.ok (.done ())) => .succeeded
  | some (.ok (.defer delay)) => .deferred delay
  | some (.error (.terminal error)) => .rejected (config.failureChain (.terminal error))
  | some (.error (.transient error)) => .failed (config.failureChain (.transient error))
  | none =>
      let limit := config.executionTimeout
      .failed s!"job execution exceeded {limit}"

/-- The instant a deferral names, seen from `now`. A duration beyond the duration type counts as 30
seconds; an instant out of range is none. -/
def Deferral.runAt (now : Instant) : Deferral → Option Instant
  | .after nanos =>
      let delta := if i64Max * 1000000 < nanos then 30000 else nanos / 1000000
      (instantFromMillis (now.1 + delta)).toOption
  | .atMillis millis => (instantFromMillis millis).toOption

/-- The command that records a plan; none when the clock's arithmetic overflows. -/
def ackCommand (ctx : JobContext Error) (plan : AckPlan) (now : Instant) : Option JobCommand :=
  match plan with
  | .succeeded => some (.succeed ctx.handle.claimId)
  | .deferred delay => (delay.runAt now).map (.reschedule ctx.handle.claimId)
  | .rejected error => some (.kill ctx.handle.claimId .rejected error)
  | .failed error =>
      let failed := ctx.handle.attempt + 1
      if ctx.config.maxAttempts ≤ failed then
        some (.kill ctx.handle.claimId .retriesExhausted error)
      else
        ((Deferral.after (ctx.config.backoff ctx.handle.attempt)).runAt now).map fun runAt =>
          .retrySchedule ctx.handle.claimId runAt failed error

/-- The settlement of a finished execution, given the clock's reading then. -/
abbrev Settle := Instant → Option JobCommand

/-- An execution by the native worker: run the body, and record its result unless the lease was
lost meanwhile. -/
def JobContext.run (ctx : JobContext Error) : Interruptible Output Error (Option Settle) :=
  ctx.perform.interruptible.bind fun result =>
    .call .leaseLost fun
      | some false => .ret (some (ackCommand ctx (ackPlan ctx.config result)))
      | _ => .ret none

end Native

/-! ## The Haskell worker -/

/-- How an execution starts. -/
inductive JobExecutionRoute where
  | submitExecution
  | reconcileExecution
  deriving DecidableEq, Repr

/-- The flag the C ABI sends with a claim. -/
def JobClaimHandle.hasPriorExecution (handle : JobClaimHandle) : UInt8 :=
  if handle.isFirstExecution then 0 else 1

def decodeExecutionRoute (tag : UInt8) : Option JobExecutionRoute :=
  if tag = 0 then some .submitExecution
  else if tag = 1 then some .reconcileExecution
  else none

/-- What a Haskell worker is configured with. `deliveryRetryAt` and `retryAt` are its instants for
an undelivered verdict, from the time of the run, and for the next attempt. -/
structure HaskellWorker (Error : Type) where
  attemptLimit : UInt32
  attemptLimit_pos : 0 < attemptLimit
  claimBudget : UInt32
  retryAt : UInt32 → ℤ
  deliveryRetryAt : ℤ → OriginDeliveryError → ℤ
  decodeJob : Json → Except String Unit
  renderJobError : Error → String

/-- The settlement calls of the C ABI. -/
inductive Settlement where
  | acknowledge
  | retry (runAtMs : ℤ) (error : String)
  | defer (delay : Deferral)
  | deadLetter (reason : DeadReason) (error : String)

/-- The command behind a settlement call; none when its instant or the attempt counter is out of
range. -/
def Settlement.command (handle : JobClaimHandle) : Settlement → Settle
  | .acknowledge, _ => some (.succeed handle.claimId)
  | .retry runAtMs error, now =>
      match (Deferral.atMillis runAtMs).runAt now with
      | none => none
      | some runAt =>
          if handle.attempt + 1 = 0 then none
          else some (.retrySchedule handle.claimId runAt (handle.attempt + 1) error)
  | .defer delay, now => (delay.runAt now).map (.reschedule handle.claimId)
  | .deadLetter reason error, _ => some (.kill handle.claimId reason error)

section Haskell

variable {Output Error : Type}

/-- The attempt a failure is reported as; the counter saturates. -/
def nextAttempt (attempt : UInt32) : UInt32 := if attempt + 1 = 0 then attempt else attempt + 1

def executeDurableJob :
    JobExecutionRoute → Program Output Error (Except (JobFailure Error) (JobOutcome Output))
  | .submitExecution => .call .submit .ret
  | .reconcileExecution => .call .reconcile fun
      | .error failure => .ret (.error failure)
      | .ok (.settled output) => .ret (.ok (.done output))
      | .ok .notSubmitted => .call .submit .ret
      | .ok (.indeterminate delay) => .ret (.ok (.defer delay))

/-- Deliver the verdict of an outcome, if it is one, and say how to settle. -/
def HaskellWorker.persistExecution (worker : HaskellWorker Error) (now : ℤ)
    (handle : JobClaimHandle) :
    Except (JobFailure Error) (JobOutcome Output) → Program Output Error Settlement
  | .ok (.done output) =>
      .call (.deliver (.confirmed handle.jobId output (nextAttempt handle.attempt))) fun
        | .ok () => .ret .acknowledge
        | .error error => .ret (.defer (.atMillis (worker.deliveryRetryAt now error)))
  | .ok (.defer delay) => .ret (.defer delay)
  | .error (.terminal failure) =>
      .call (.deliver (.failed handle.jobId (.rejected failure) (nextAttempt handle.attempt))) fun
        | .ok () => .ret (.deadLetter .rejected (worker.renderJobError failure))
        | .error error => .ret (.defer (.atMillis (worker.deliveryRetryAt now error)))
  | .error (.transient failure) =>
      let next := nextAttempt handle.attempt
      let text := worker.renderJobError failure
      if worker.attemptLimit ≤ next then
        .call (.deliver (.failed handle.jobId (.deadLettered .retriesExhausted text) next)) fun _ =>
          .ret (.deadLetter .retriesExhausted text)
      else .ret (.retry (worker.retryAt next) text)

/-- An execution by the Haskell worker: execute, and persist the outcome unless the lease was lost
meanwhile. -/
def HaskellWorker.run (worker : HaskellWorker Error) (now : ℤ) (handle : JobClaimHandle)
    (route : JobExecutionRoute) : Interruptible Output Error (Option Settle) :=
  (executeDurableJob route).interruptible.bind fun
    | none => .ret none
    | some result => .call .leaseLost fun
        | some false => (worker.persistExecution now handle result).interruptible.bind fun settlement =>
            .ret (settlement.map (Settlement.command handle))
        | _ => .ret none

end Haskell

/-! ## Workers -/

/-- A worker for dispatched jobs. -/
inductive Worker (Error : Type) where
  | native (config : JobWorkerConfig Error)
  | haskell (worker : HaskellWorker Error)

namespace Worker

variable {Output Error : Type}

def maxClaims : Worker Error → UInt32
  | .native config => config.maxClaims
  | .haskell worker => worker.claimBudget

/-- The execution a won claim starts. The native worker skips a payload that does not decode; the
Haskell worker dead-letters it. -/
def start (worker : Worker Error) (now : ℤ) (handle : JobClaimHandle) (payload : Json) :
    Option (Interruptible Output Error (Option Settle)) :=
  match worker with
  | .native config =>
      if config.decodes payload then some (JobContext.run ⟨handle, config⟩) else none
  | .haskell worker =>
      match decodeExecutionRoute handle.hasPriorExecution with
      | none => none
      | some route =>
          match worker.decodeJob payload with
          | .error cause =>
              some (.ret (some (Settlement.command handle (.deadLetter .undecodable cause))))
          | .ok () => some (worker.run now handle route)

end Worker

end EventSorcery
