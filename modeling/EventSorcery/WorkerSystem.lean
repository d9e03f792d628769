import EventSorcery.DispatchSpec
import EventSorcery.LeaseSafety

/-!
# Workers running dispatched jobs

The job system together with the executions that won claims have started. One operation answers one
call of an execution, cuts one off, or takes one step of the job system; everything else that uses
the queue (enqueues, renewals, reactors, claims and settlements by others) may happen in between.
An execution's settlements name it as their caller, so an event on a job's stream can be traced to
the execution that recorded it.
-/

namespace EventSorcery

open Process (Spec Justified)

namespace WorkerSystem

section Defs

variable (Output Error : Type)

/-- Where an execution stands: in its program, with a settlement to send, or at its end. -/
inductive Stage where
  | running (program : Interruptible Output Error (Option Settle))
  | settling (command : JobCommand)
  | ended

/-- An execution: who runs it, the claim it was started for, and the calls it has made. -/
structure Execution where
  worker : Worker Error
  handle : JobClaimHandle
  calls : History Output Error
  stage : Stage Output Error

structure State where
  jobs : JobSystem.State
  executions : List (Execution Output Error)

/-- One operation; executions are named by their position. -/
inductive Op where
  | outside (op : JobSystem.Op)
  | claim (worker : Worker Error) (fault : Option SqliteJobError) (call : ClaimCall)
  | answer (i : ℕ) (answers : ∀ c : WorkerCall Output Error, Option c.Answer)
  | finish (i : ℕ) (now : Instant)
  | settle (i : ℕ)
  | crash (i : ℕ)

end Defs

variable {Output Error : Type} (K : CqrsEs)

/-- The job system takes a step. -/
def State.jobStep (s : State Output Error) (op : JobSystem.Op) : State Output Error :=
  { s with jobs := JobSystem.step K s.jobs op }

def State.begin (s : State Output Error) (ex : Execution Output Error) : State Output Error :=
  { s with executions := s.executions ++ [ex] }

def State.put (s : State Output Error) (i : ℕ) (ex : Execution Output Error) :
    State Output Error :=
  { s with executions := s.executions.set i ex }

/-- The stage after the program: the settlement it ended with, if it can be built. -/
def Stage.after (result : Option Settle) (now : Instant) : Stage Output Error :=
  match result.bind (· now) with
  | none => .ended
  | some command => .settling command

/-- The execution is gone; the call it was in, if any, has no answer. -/
def Execution.crashed (ex : Execution Output Error) : Execution Output Error :=
  match ex.stage with
  | .running (.call c _) => { ex with calls := ex.calls ++ [⟨c, none⟩], stage := .ended }
  | _ => { ex with stage := .ended }

/-- A claim under the worker's own budget. -/
def budgeted (worker : Worker Error) (call : ClaimCall) : ClaimCall :=
  { call with maxClaims := worker.maxClaims }

/-- What an operation does; one that is not enabled does nothing. A won claim starts at most one
execution. A settlement may be sent again as long as its execution has not ended. -/
def step (s : State Output Error) : Op Output Error → State Output Error
  | .outside (.settleLoad (some _) _ _) => s
  | .outside op => s.jobStep K op
  | .claim worker fault call =>
      let call := budgeted worker call
      if call.mint ∈ s.jobs.claimIds then s
      else
        match (claimJobAs fault call s.jobs.db).1 with
        | .ok (.claimed handle payload) =>
            match worker.start call.nowMs handle payload with
            | some program =>
                (s.jobStep K (.claim fault call)).begin ⟨worker, handle, [], .running program⟩
            | none => s.jobStep K (.claim fault call)
        | _ => s.jobStep K (.claim fault call)
  | .answer i answers =>
      match s.executions[i]? with
      | some ⟨worker, handle, calls, .running (.call c next)⟩ =>
          s.put i ⟨worker, handle, calls ++ [⟨c, answers c⟩], .running (next (answers c))⟩
      | _ => s
  | .finish i now =>
      match s.executions[i]? with
      | some ⟨worker, handle, calls, .running (.ret result)⟩ =>
          s.put i ⟨worker, handle, calls, .after result now⟩
      | _ => s
  | .settle i =>
      match s.executions[i]? with
      | some ⟨_, handle, _, .settling command⟩ =>
          s.jobStep K (.settleLoad (some i) handle.jobId command)
      | _ => s
  | .crash i =>
      match s.executions[i]? with
      | some ex => s.put i ex.crashed
      | none => s

/-! ## What one operation can do -/

/-- The new state of an operation. -/
inductive Change (s : State Output Error) : Op Output Error → State Output Error → Prop where
  | idle {op : Op Output Error} : Change s op s
  | outside {op : JobSystem.Op} (own : ∀ i id command, op ≠ .settleLoad (some i) id command) :
      Change s (.outside op) (s.jobStep K op)
  | claimed {worker : Worker Error} {fault : Option SqliteJobError} {call : ClaimCall}
      (fresh : call.mint ∉ s.jobs.claimIds) :
      Change s (.claim worker fault call) (s.jobStep K (.claim fault (budgeted worker call)))
  | started {worker : Worker Error} {fault : Option SqliteJobError} {call : ClaimCall}
      {handle : JobClaimHandle} {payload : Json}
      {program : Interruptible Output Error (Option Settle)}
      (fresh : call.mint ∉ s.jobs.claimIds)
      (won : (claimJobAs fault (budgeted worker call) s.jobs.db).1 = .ok (.claimed handle payload))
      (start : worker.start call.nowMs handle payload = some program) :
      Change s (.claim worker fault call)
        ((s.jobStep K (.claim fault (budgeted worker call))).begin
          ⟨worker, handle, [], .running program⟩)
  | answered {i : ℕ} {worker : Worker Error} {handle : JobClaimHandle}
      {calls : History Output Error} {c : WorkerCall Output Error}
      {next : Option c.Answer → Interruptible Output Error (Option Settle)}
      {answers : ∀ c : WorkerCall Output Error, Option c.Answer}
      (inFlight : s.executions[i]? = some ⟨worker, handle, calls, .running (.call c next)⟩) :
      Change s (.answer i answers)
        (s.put i ⟨worker, handle, calls ++ [⟨c, answers c⟩], .running (next (answers c))⟩)
  | finished {i : ℕ} {worker : Worker Error} {handle : JobClaimHandle}
      {calls : History Output Error} {result : Option Settle} {now : Instant}
      (inFlight : s.executions[i]? = some ⟨worker, handle, calls, .running (.ret result)⟩) :
      Change s (.finish i now) (s.put i ⟨worker, handle, calls, .after result now⟩)
  | settled {i : ℕ} {worker : Worker Error} {handle : JobClaimHandle}
      {calls : History Output Error} {command : JobCommand}
      (inFlight : s.executions[i]? = some ⟨worker, handle, calls, .settling command⟩) :
      Change s (.settle i) (s.jobStep K (.settleLoad (some i) handle.jobId command))
  | crashed {i : ℕ} {ex : Execution Output Error} (inFlight : s.executions[i]? = some ex) :
      Change s (.crash i) (s.put i ex.crashed)

/-- **What an operation can do.** -/
theorem step_change (s : State Output Error) (op : Op Output Error) :
    Change K s op (step K s op) := by
  cases op with
  | outside op =>
      rw [step.eq_def]
      split
      next => exact .idle
      next op' hop heq =>
        obtain rfl := Op.outside.inj heq
        exact .outside fun i id command h => hop i id command h
      all_goals next heq => cases heq
  | claim worker fault call =>
      rw [step]
      split_ifs with hfresh
      · exact .idle
      · split
        next handle payload hwon =>
          split
          next program hstart => exact .started hfresh hwon hstart
          next => exact .claimed hfresh
        next => exact .claimed hfresh
  | answer i answers =>
      rw [step]
      split
      next hin => exact .answered hin
      next => exact .idle
  | finish i now =>
      rw [step]
      split
      next hin => exact .finished hin
      next => exact .idle
  | settle i =>
      rw [step]
      split
      next hin => exact .settled hin
      next => exact .idle
  | crash i =>
      rw [step]
      split
      next hin => exact .crashed hin
      next => exact .idle

/-! ## The invariant -/

def Stage.isRunning : Stage Output Error → Bool
  | .running _ => true
  | _ => false

/-- What a stage says about the calls before it. -/
def Stage.Ok (worker : Worker Error) (handle : JobClaimHandle) (calls : History Output Error) :
    Stage Output Error → Prop
  | .running program => Spec (Allowed handle) (Ends worker handle) calls program
  | .settling command => Settles worker handle calls command
  | .ended => True

/-- An execution was started for a claim on its job's stream, and every call it made was one it may
make. -/
structure Execution.Ok (db : Db) (ex : Execution Output Error) : Prop where
  claimed : ∃ k : ℕ, JobSystem.ClaimedAt db ex.handle.jobId k ex.handle.claimId ∧
    ex.handle.claimSeq = (k + 1 : ℕ)
  calls : Justified (Allowed ex.handle) ex.calls
  stage : ex.stage.Ok ex.worker ex.handle ex.calls

/-- The settlement is one that the calls of execution `i` allow, and these are all its calls. -/
def BackedBy (executions : List (Execution Output Error)) (i : ℕ) (task : SettleTask) : Prop :=
  ∃ ex, executions[i]? = some ex ∧ ex.handle.jobId = task.jobId ∧ ex.stage.isRunning = false ∧
    Settles ex.worker ex.handle ex.calls task.command

/-- What holds between operations. -/
structure Inv (s : State Output Error) : Prop where
  jobs : JobSystem.Inv s.jobs
  executions : ∀ ex ∈ s.executions, ex.Ok s.jobs.db
  /-- One execution per claim. -/
  nodup : (s.executions.map fun ex => ex.handle.claimId).Nodup
  settlements : ∀ task ∈ s.jobs.settlements, ∀ i, task.caller = some i →
    BackedBy s.executions i task

variable {K}

theorem Execution.Ok.jobStep {s : JobSystem.State} (inv : JobSystem.Inv s) (op : JobSystem.Op)
    {ex : Execution Output Error} (h : ex.Ok s.db) : ex.Ok (JobSystem.step K s op).db := by
  obtain ⟨k, hclaim, hseq⟩ := h.claimed
  exact ⟨⟨k, claimedAt_step inv hclaim op, hseq⟩, h.calls, h.stage⟩

/-- The execution made the call `c` after the calls `before`: it was answered or cut off, or is under
way. -/
def Execution.Makes (ex : Execution Output Error) (before : History Output Error)
    (c : WorkerCall Output Error) : Prop :=
  (∃ answer after, ex.calls = before ++ ⟨c, answer⟩ :: after) ∨
    ∃ next, ex.stage = .running (.call c next) ∧ ex.calls = before

/-- An execution keeps the claim it was started for and the calls it made; once it has ended, it
makes no more. -/
structure Execution.Advances (ex ex' : Execution Output Error) : Prop where
  handle : ex'.handle = ex.handle
  worker : ex'.worker = ex.worker
  makes : ∀ before c, ex.Makes before c → ex'.Makes before c
  done : ex.stage.isRunning = false → ex'.calls = ex.calls ∧ ex'.stage.isRunning = false

/-- The call an execution is in is answered or cut off. -/
theorem Execution.advances_answered {worker : Worker Error} {handle : JobClaimHandle}
    {calls : History Output Error} {c : WorkerCall Output Error}
    {next : Option c.Answer → Interruptible Output Error (Option Settle)} (answer : Option c.Answer)
    (stage : Stage Output Error) :
    Execution.Advances ⟨worker, handle, calls, .running (.call c next)⟩
      ⟨worker, handle, calls ++ [⟨c, answer⟩], stage⟩ := by
  refine ⟨rfl, rfl, fun before c' hmakes => ?_, fun h => by cases h⟩
  rcases hmakes with ⟨answer', after, rfl⟩ | ⟨next', hstage, rfl⟩
  · exact .inl ⟨answer', after ++ [⟨c, answer⟩], by simp⟩
  · cases hstage
    exact .inl ⟨answer, [], rfl⟩

/-- An execution that is in no call stops running. -/
theorem Execution.advances_stopped {worker : Worker Error} {handle : JobClaimHandle}
    {calls : History Output Error} {stage stage' : Stage Output Error}
    (hidle : ∀ c next, stage ≠ .running (.call c next)) (hstop : stage'.isRunning = false) :
    Execution.Advances ⟨worker, handle, calls, stage⟩ ⟨worker, handle, calls, stage'⟩ := by
  refine ⟨rfl, rfl, fun before c hmakes => ?_, fun _ => ⟨rfl, hstop⟩⟩
  rcases hmakes with hmakes | ⟨next, hstage, -⟩
  · exact .inl hmakes
  · exact absurd hstage (hidle c next)

theorem Execution.advances_crashed (ex : Execution Output Error) : ex.Advances ex.crashed := by
  obtain ⟨worker, handle, calls, (result | ⟨c, next⟩) | command | -⟩ := ex
  · exact advances_stopped (by simp) rfl
  · exact advances_answered none .ended
  · exact advances_stopped (by simp) rfl
  · exact advances_stopped (by simp) rfl

theorem stage_after_ok {worker : Worker Error} {handle : JobClaimHandle}
    {calls : History Output Error} {result : Option Settle} (h : Ends worker handle calls result)
    (now : Instant) :
    (Stage.after result now : Stage Output Error).Ok worker handle calls := by
  unfold Stage.after
  cases hcommand : result.bind (· now) with
  | none => exact trivial
  | some command =>
      obtain ⟨settle, hsettle, heq⟩ := Option.bind_eq_some_iff.1 hcommand
      exact h settle hsettle now command heq

theorem isRunning_after (result : Option Settle) (now : Instant) :
    (Stage.after result now : Stage Output Error).isRunning = false := by
  unfold Stage.after
  cases result.bind (· now) <;> rfl

theorem BackedBy.put {executions : List (Execution Output Error)} {i j : ℕ} {task : SettleTask}
    {ex ex' : Execution Output Error} (h : BackedBy executions j task)
    (hi : executions[i]? = some ex) (hadv : ex.Advances ex') :
    BackedBy (executions.set i ex') j task := by
  obtain ⟨ex₀, hj, hid, hdone, hsettles⟩ := h
  by_cases hij : i = j
  · subst hij
    obtain rfl := Option.some.inj (hi.symm.trans hj)
    have hlt := (List.getElem?_eq_some_iff.1 hi).1
    obtain ⟨hcalls, hdone'⟩ := hadv.done hdone
    refine ⟨ex', List.getElem?_set_self hlt, hadv.handle ▸ hid, hdone', ?_⟩
    rw [hadv.handle, hadv.worker, hcalls]
    exact hsettles
  · exact ⟨ex₀, by rw [List.getElem?_set_ne hij, hj], hid, hdone, hsettles⟩

/-- An execution moves on by itself. -/
theorem Inv.put {s : State Output Error} (inv : Inv s) {i : ℕ} {ex ex' : Execution Output Error}
    (hi : s.executions[i]? = some ex) (hadv : ex.Advances ex')
    (hcalls : Justified (Allowed ex.handle) ex'.calls)
    (hstage : ex'.stage.Ok ex.worker ex.handle ex'.calls) : Inv (s.put i ex') := by
  refine ⟨inv.jobs, fun ex₀ hmem => ?_, ?_, fun task hmem j hcaller =>
    (inv.settlements task hmem j hcaller).put hi hadv⟩
  · rcases List.mem_or_eq_of_mem_set hmem with hmem | rfl
    · exact inv.executions ex₀ hmem
    · obtain ⟨hclaimed, -, -⟩ := inv.executions ex (List.mem_of_getElem? hi)
      refine ⟨hadv.handle ▸ hclaimed, hadv.handle ▸ hcalls, ?_⟩
      rw [hadv.handle, hadv.worker]
      exact hstage
  · change ((JobSystem.resume s.executions i (some ex')).map fun ex => ex.handle.claimId).Nodup
    exact JobSystem.nodup_resume inv.nodup hi fun ex₀ h => by
      rw [← Option.some.inj h, hadv.handle]

/-- The job system takes a step; a settlement sent by an execution is one its calls allow. -/
theorem Inv.jobStep {s : State Output Error} (inv : Inv s) {op : JobSystem.Op}
    (hop : ∀ task : SettleTask, op = .settleLoad task.caller task.jobId task.command →
      ∀ i, task.caller = some i → BackedBy s.executions i task) : Inv (s.jobStep K op) := by
  refine ⟨JobSystem.inv_step inv.jobs op, fun ex hmem => (inv.executions ex hmem).jobStep inv.jobs op,
    inv.nodup, fun task hmem i hcaller => ?_⟩
  rcases JobSystem.step_settlements hmem with hmem | ⟨heq, -, -⟩
  · exact inv.settlements task hmem i hcaller
  · exact hop task heq i hcaller

/-- A claim sends no settlement. -/
theorem Inv.claimStep {s : State Output Error} (inv : Inv s) (fault : Option SqliteJobError)
    (call : ClaimCall) : Inv (s.jobStep K (.claim fault call)) :=
  inv.jobStep fun _ h => by cases h

/-- An execution is started for a won claim. -/
theorem Inv.started {s : State Output Error} (inv : Inv s) {worker : Worker Error}
    {fault : Option SqliteJobError} {call : ClaimCall} {handle : JobClaimHandle} {payload : Json}
    {program : Interruptible Output Error (Option Settle)} (hfresh : call.mint ∉ s.jobs.claimIds)
    (hwon : (claimJobAs fault call s.jobs.db).1 = .ok (.claimed handle payload))
    (hstart : worker.start call.nowMs handle payload = some program) :
    Inv ((s.jobStep K (.claim fault call)).begin ⟨worker, handle, [], .running program⟩) := by
  obtain ⟨i, attempt, r, rfl, hheld⟩ := leaseHeld_of_won inv.jobs hfresh hwon (K := K)
  obtain ⟨claimant, leaseUntil, hclaim⟩ := hheld.claim
  have inv' := inv.claimStep fault call (K := K)
  refine ⟨inv'.jobs, fun ex hmem => ?_, ?_, fun task hmem j hcaller => ?_⟩
  · rcases List.mem_append.1 hmem with hmem | hmem
    · exact inv'.executions ex hmem
    · obtain rfl := List.mem_singleton.1 hmem
      exact ⟨⟨i, ⟨r, claimant, leaseUntil, hheld.rep, hclaim⟩, rfl⟩, Process.justified_nil _,
        Worker.start_spec hstart⟩
  · -- The claim ids of the executions so far were drawn before this one.
    rw [State.begin, List.map_append, List.map_singleton]
    refine List.nodup_append.2 ⟨inv.nodup, List.nodup_singleton _, ?_⟩
    rintro c hc c' hc' rfl
    obtain ⟨ex, hex, rfl⟩ := List.mem_map.1 hc
    obtain ⟨k, hat, -⟩ := (inv.executions ex hex).claimed
    have hmint : ex.handle.claimId = call.mint := List.mem_singleton.1 hc'
    exact hfresh (hmint ▸ inv.jobs.drawn hat)
  · obtain ⟨ex, hex, hrest⟩ := inv'.settlements task hmem j hcaller
    exact ⟨ex, getElem?_mono (List.prefix_append _ _) hex, hrest⟩

theorem inv_init : Inv (⟨⟨.empty, [], [], []⟩, []⟩ : State Output Error) :=
  ⟨JobSystem.inv_init, (fun _ h => by cases h), List.nodup_nil, (fun _ h => by cases h)⟩

theorem inv_step {s : State Output Error} (inv : Inv s) (op : Op Output Error) :
    Inv (step K s op) := by
  have hchange := step_change K s op
  generalize step K s op = s' at hchange ⊢
  cases hchange with
  | idle => exact inv
  | outside own =>
      refine inv.jobStep fun task heq i hcaller => ?_
      rw [hcaller] at heq
      exact absurd heq (own i task.jobId task.command)
  | claimed => exact inv.claimStep _ _
  | started fresh won start => exact inv.started fresh won start
  | answered inFlight =>
      obtain ⟨-, hcalls, hstage⟩ := inv.executions _ (List.mem_of_getElem? inFlight)
      exact inv.put inFlight (Execution.advances_answered _ _) (hcalls.concat hstage.1 _)
        (hstage.2 _)
  | finished inFlight =>
      obtain ⟨-, hcalls, hstage⟩ := inv.executions _ (List.mem_of_getElem? inFlight)
      exact inv.put inFlight (Execution.advances_stopped (by simp) (isRunning_after _ _)) hcalls
        (stage_after_ok hstage _)
  | settled inFlight =>
      obtain ⟨-, -, hstage⟩ := inv.executions _ (List.mem_of_getElem? inFlight)
      refine inv.jobStep fun task heq i hcaller => ?_
      obtain ⟨hi, hid, hcommand⟩ := JobSystem.Op.settleLoad.inj heq
      obtain rfl := Option.some.inj (hi.trans hcaller)
      exact ⟨_, inFlight, hid, rfl, hcommand ▸ hstage⟩
  | @crashed i ex inFlight =>
      obtain ⟨-, hcalls, hstage⟩ := inv.executions _ (List.mem_of_getElem? inFlight)
      have hadv := ex.advances_crashed
      obtain ⟨worker, handle, calls, (result | ⟨c, next⟩) | command | -⟩ := ex
      · exact inv.put inFlight hadv hcalls trivial
      · exact inv.put inFlight hadv (hcalls.concat hstage.1 _) trivial
      · exact inv.put inFlight hadv hcalls trivial
      · exact inv.put inFlight hadv hcalls trivial

end WorkerSystem

open WorkerSystem

/-- Every interleaving of workers and everything else that uses the queue, on a fresh database. -/
def workerSystem (Output Error : Type) (K : CqrsEs) :
    Machine (WorkerSystem.State Output Error) (WorkerSystem.Op Output Error) :=
  ⟨⟨⟨.empty, [], [], []⟩, []⟩, WorkerSystem.step K⟩

theorem workerSystem_inv {Output Error : Type} (K : CqrsEs)
    (ops : List (WorkerSystem.Op Output Error)) : Inv ((workerSystem Output Error K).run ops) :=
  Machine.run_invariant (m := workerSystem Output Error K) (P := Inv) WorkerSystem.inv_init
    (fun _ op inv => WorkerSystem.inv_step inv op) ops

end EventSorcery
