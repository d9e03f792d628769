import EventSorcery.LeaseSafety
import EventSorcery.NativePoll

/-!
# Executions that renew their lease

A worker that has won a claim runs the job and, beside it, a loop that renews the claim's lease. The
native worker acknowledges the result while the loop goes on, sends a failed acknowledgement again, and
stops the loop last; a Haskell worker stops the loop, looks at what it left behind, and then settles
once. The two halves of an execution run independently, an execution may be cut off anywhere, and
everything else that uses the queue may happen in between; time is what the clock shows.
-/

namespace EventSorcery.Heartbeat

variable {Error : Type}

/-- Who runs an execution. A native worker renews by a fixed duration in nanoseconds; a Haskell worker's
schedule names the instants, if it has one. -/
inductive Runner (Error : Type) where
  | native (config : JobWorkerConfig Error) (leaseDuration : ℕ)
  | haskell (worker : HaskellWorker Error) (renews : Bool)

/-- How an execution ended: its settlement was answered, it found its lease lost and left the outcome
to others, a call of the engine failed, or it was cut off. -/
inductive Ending where
  | settled (verdict : SettlementVerdict)
  | leaseLost
  | failed
  | crashed
  deriving DecidableEq, Repr

/-- Where an execution is. It stops its renewals for an ending that is clear, or before it settles. -/
inductive Main where
  | performing
  | delivering
  | settling (command : JobCommand)
  | sending (command : JobCommand)
  | stopping (ending : Option Ending)
  | ended (ending : Ending)

/-- Where the loop that renews its lease is. -/
inductive Renewer where
  | sleeping
  | renewing (newLease : ℤ)
  | ended
  deriving DecidableEq, Repr

/-- What the loop left behind when it ended by itself. -/
inductive RenewalTerminal where
  | lost
  | failed
  deriving DecidableEq, Repr

/-- An execution. Its lease is the one its claim or its last renewal wrote. -/
structure Execution (Error : Type) where
  runner : Runner Error
  handle : JobClaimHandle
  main : Main
  renewer : Renewer
  terminal : Option RenewalTerminal
  lease : ℤ

/-! ## The two halves -/

/-- A claim under the worker's own policy. -/
def Runner.call (call : ClaimCall) : Runner Error → ClaimCall
  | .native config leaseDuration =>
      { call with leaseMs := leaseMillis (leaseDuration / 1000000), maxClaims := config.maxClaims }
  | .haskell worker _ => { call with maxClaims := worker.claimBudget }

/-- The execution that a won claim starts. A payload that does not decode is skipped by the native
worker and dead-lettered by the Haskell one. -/
def Runner.start (runner : Runner Error) (call : ClaimCall) (handle : JobClaimHandle) (payload : Json) :
    Option (Execution Error) :=
  let begun (main : Main) (renewer : Renewer) : Execution Error :=
    ⟨runner, handle, main, renewer, none, call.nowMs + call.leaseMs⟩
  match runner with
  | .native config _ => if config.decodes payload then some (begun .performing .sleeping) else none
  | .haskell worker renews =>
      match worker.decodeJob payload with
      | .ok () => some (begun .performing (if renews then .sleeping else .ended))
      | .error cause => some (begun (.settling (.kill handle.claimId .undecodable cause)) .ended)

/-- What an execution does without the engine. -/
inductive Act (Error : Type) where
  /-- The loop's timer goes off; a Haskell schedule names the deadline. -/
  | wake (deadline : ℤ)
  /-- The loop sees that it is to stop, or a Haskell schedule throws. -/
  | quit
  /-- The job is through, or cut off by its timeout or an exception. -/
  | perform (result : Option (Except (JobFailure Error) (JobOutcome Unit)))
  /-- The Haskell worker has delivered the outcome and chosen its settlement. -/
  | persist (settlement : Settlement)
  /-- The execution sees that the loop has ended. -/
  | stop
  /-- The process is gone. -/
  | crash
  /-- The native execution unwinds; nobody stops its loop. -/
  | unwind

namespace Main

def isStopping : Main → Bool
  | stopping _ => true
  | _ => false

def isEnded : Main → Bool
  | ended _ => true
  | _ => false

/-- The ending that is clear. -/
def ending? : Main → Option Ending
  | stopping ending => ending
  | ended ending => some ending
  | _ => none

/-- The settlement it is at. -/
def command? : Main → Option JobCommand
  | settling command | sending command => some command
  | _ => none

/-- The outcome of the job is still to be recorded. -/
def holds : Main → Bool
  | performing | delivering | settling _ | sending _ | stopping none => true
  | stopping (some _) | ended _ => false

end Main

namespace Execution

variable (ex : Execution Error)

def wake (now : Instant) (deadline : ℤ) : Execution Error :=
  match ex.renewer, ex.runner with
  | .sleeping, .native _ leaseDuration =>
      match (Deferral.after leaseDuration).runAt now with
      | some lease => { ex with renewer := .renewing lease.1 }
      | none => { ex with renewer := .ended }
  | .sleeping, .haskell _ _ => { ex with renewer := .renewing deadline }
  | _, _ => ex

def quit : Execution Error :=
  match ex.renewer, ex.main, ex.runner with
  | .sleeping, .stopping _, _ | .sleeping, _, .haskell _ _ => { ex with renewer := .ended }
  | _, _, _ => ex

/-- The native worker acknowledges the result unless the lease was lost meanwhile; an instant beyond the
clock's range ends it. -/
def performed (now : Instant) (result : Option (Except (JobFailure Error) (JobOutcome Unit))) :
    Execution Error :=
  match ex.main, ex.runner with
  | .performing, .native config _ =>
      if ex.terminal = some .lost then { ex with main := .stopping (some .leaseLost) }
      else
        match ackCommand ⟨ex.handle, config⟩ (ackPlan config result) now with
        | some command => { ex with main := .settling command }
        | none => { ex with main := .ended .crashed }
  | .performing, .haskell _ _ =>
      { ex with main := .stopping (if result.isSome then none else some .crashed) }
  | _, _ => ex

def persisted (now : Instant) (settlement : Settlement) : Execution Error :=
  match ex.main with
  | .delivering =>
      match settlement.command ex.handle now with
      | some command => { ex with main := .settling command }
      | none => { ex with main := .ended .failed }
  | _ => ex

def stopped : Execution Error :=
  match ex.main, ex.renewer with
  | .stopping (some ending), .ended => { ex with main := .ended ending }
  | .stopping none, .ended =>
      match ex.terminal with
      | none => { ex with main := .delivering }
      | some .lost => { ex with main := .ended .leaseLost }
      | some .failed => { ex with main := .ended .failed }
  | _, _ => ex

def crashed : Execution Error :=
  match ex.main with
  | .ended _ => { ex with renewer := .ended }
  | _ => { ex with main := .ended .crashed, renewer := .ended }

def unwound : Execution Error :=
  match ex.main, ex.runner with
  | .ended _, _ | _, .haskell _ _ => ex
  | _, .native _ _ => { ex with main := .ended .crashed }

def act (now : Instant) : Act Error → Execution Error
  | .wake deadline => ex.wake now deadline
  | .quit => ex.quit
  | .perform result => ex.performed now result
  | .persist settlement => ex.persisted now settlement
  | .stop => ex.stopped
  | .crash => ex.crashed
  | .unwind => ex.unwound

/-- A renewal is answered, or fails. The native loop goes on after a failure; the Haskell loop ends, and
may be stopped before it has left anything behind. -/
def renewed (answer : Option LeaseRenewal) (newLease : ℤ) (cut : Bool) : Execution Error :=
  match answer, ex.runner with
  | some .held, .native _ _ => { ex with renewer := .sleeping, lease := newLease }
  | some .held, .haskell _ _ =>
      { ex with
        renewer := if cut && ex.main.isStopping then .ended else .sleeping
        lease := newLease }
  | some .lost, .native _ _ => { ex with renewer := .ended, terminal := some .lost }
  | some .lost, .haskell _ _ =>
      { ex with
        renewer := .ended
        terminal := if cut && ex.main.isStopping then ex.terminal else some .lost }
  | none, .native _ _ => { ex with renewer := .sleeping }
  | none, .haskell _ _ =>
      { ex with
        renewer := .ended
        terminal := if cut && ex.main.isStopping then ex.terminal else some .failed }

/-- The load of a settlement fails: the native worker sends it again. -/
def unloaded : Execution Error :=
  match ex.runner with
  | .native _ _ => ex
  | .haskell _ _ => { ex with main := .ended .failed }

/-- A settlement is answered. -/
def answered (command : JobCommand) (verdict : SettlementVerdict) : Execution Error :=
  match ex.runner, verdict with
  | .native _ _, .transient => { ex with main := .settling command }
  | .native _ _, _ => { ex with main := .stopping (some (.settled verdict)) }
  | .haskell _ _, _ => { ex with main := .ended (.settled verdict) }

end Execution

/-! ## The system -/

structure State (Error : Type) where
  jobs : JobSystem.State
  now : Instant
  executions : List (Execution Error)

/-- One operation; executions are named by their position. -/
inductive Op (Error : Type) where
  | outside (op : JobSystem.Op)
  | tick (now : Instant)
  | claim (runner : Runner Error) (fault : Option SqliteJobError) (call : ClaimCall)
  | act (i : ℕ) (act : Act Error)
  | renew (i : ℕ) (fault cut : Bool)
  | load (i : ℕ) (fault : Bool)
  | commit (i : ℕ) (fault : Bool) (clock : ℕ → ℤ)

namespace State

/-- What others may do: they renew and settle claims of their own. A settlement in flight that an
execution left behind may still be committed. -/
def permits (s : State Error) : JobSystem.Op → Bool
  | .renew id claimSeq _ =>
      s.executions.all fun ex => !(ex.handle.jobId == id && ex.handle.claimSeq == claimSeq)
  | .settleLoad none _ command =>
      decide (command.claimId ∈ s.jobs.claimIds) &&
        s.executions.all fun ex => ex.handle.claimId != command.claimId
  | .settleLoad (some _) _ _ => false
  | .settleCommit j _ _ | .settleAbandon j =>
      (s.jobs.settlements[j]?.bind SettleTask.caller).all fun i =>
        s.executions[i]?.all fun ex => ex.main.isEnded
  | _ => true

def put (s : State Error) (i : ℕ) (ex : Execution Error) : State Error :=
  { s with executions := s.executions.set i ex }

def jobStep (K : CqrsEs) (s : State Error) (op : JobSystem.Op) : State Error :=
  { s with jobs := JobSystem.step K s.jobs op }

def begin (s : State Error) (ex : Execution Error) : State Error :=
  { s with executions := s.executions ++ [ex] }

end State

/-- Failures of a settlement's transaction. -/
def commitFault (fault : Bool) : Option EngineError := if fault then some .sql else none

variable (K : CqrsEs)

/-- What an operation does; one that is not enabled does nothing. -/
def step (s : State Error) : Op Error → State Error
  | .outside op => if s.permits op then s.jobStep K op else s
  | .tick now => if s.now.1 ≤ now.1 then { s with now := now } else s
  | .claim runner fault call =>
      let call := runner.call call
      if call.mint ∈ s.jobs.claimIds then s
      else
        match (claimJobAs fault call s.jobs.db).1 with
        | .ok (.claimed handle payload) =>
            match runner.start call handle payload with
            | some ex => (s.jobStep K (.claim fault call)).begin ex
            | none => s.jobStep K (.claim fault call)
        | _ => s.jobStep K (.claim fault call)
  | .act i act =>
      match s.executions[i]? with
      | some ex => s.put i (ex.act s.now act)
      | none => s
  | .renew i fault cut =>
      match s.executions[i]? with
      | some ex =>
          match ex.renewer with
          | .renewing newLease =>
              if fault then s.put i (ex.renewed none newLease cut)
              else
                let answer := (renewJob ex.handle.jobId ex.handle.claimSeq newLease s.jobs.db).1
                (s.jobStep K (.renew ex.handle.jobId ex.handle.claimSeq newLease)).put i
                  (ex.renewed (some answer) newLease cut)
          | _ => s
      | none => s
  | .load i fault =>
      match s.executions[i]? with
      | some ex =>
          match ex.main with
          | .settling command =>
              if fault then s.put i ex.unloaded
              else (s.jobStep K (.settleLoad (some i) ex.handle.jobId command)).put i
                { ex with main := .sending command }
          | _ => s
      | none => s
  | .commit i fault clock =>
      match s.executions[i]? with
      | some ex =>
          match ex.main, s.jobs.settlements.findIdx? fun task => task.caller == some i with
          | .sending command, some j =>
              match s.jobs.settlements[j]? with
              | some task =>
                  let verdict := (task.commit K (commitFault fault) clock s.jobs.db).1
                  (s.jobStep K (.settleCommit j (commitFault fault) clock)).put i
                    (ex.answered command verdict)
              | none => s
          | _, _ => s
      | none => s

/-- The system, from an empty database at some time. -/
def machine (Error : Type) (now : Instant) : Machine (State Error) (Op Error) :=
  ⟨⟨⟨.empty, [], [], []⟩, now, []⟩, step K⟩

/-! ## In time -/

/-- No execution whose outcome is still to be recorded has outlived its lease. -/
def State.inTime (s : State Error) : Bool :=
  s.executions.all fun ex => !ex.main.holds || decide (s.now.1 ≤ ex.lease)

/-- The time that a claim goes by. -/
def Op.reading? : Op Error → Option ℤ
  | .outside (.claim _ call) | .claim _ _ call => some call.nowMs
  | _ => none

/-- Clocks do not run ahead, and renewals come in time. -/
def InTime (s : State Error) (op : Op Error) : Prop :=
  (∀ nowMs ∈ op.reading?, nowMs ≤ s.now.1) ∧ (step K s op).inTime = true

instance (s : State Error) (op : Op Error) : Decidable (InTime K s op) :=
  inferInstanceAs (Decidable (_ ∧ _))

end EventSorcery.Heartbeat
