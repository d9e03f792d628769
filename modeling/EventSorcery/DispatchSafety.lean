import EventSorcery.WorkerSystem

/-!
# Safety of dispatched jobs

What every run of workers guarantees about a dispatched job: which executions may submit it, and
which verdicts its origin has been sent before an outcome is recorded.
-/

namespace EventSorcery

open WorkerSystem

variable {Output Error : Type}

/-! ## What later states keep -/

namespace WorkerSystem

theorem Execution.Advances.refl (ex : Execution Output Error) : ex.Advances ex :=
  ⟨rfl, rfl, fun _ _ h => h, fun h => ⟨rfl, h⟩⟩

theorem Execution.Advances.trans {ex ex' ex'' : Execution Output Error} (h : ex.Advances ex')
    (h' : ex'.Advances ex'') : ex.Advances ex'' := by
  refine ⟨h'.handle.trans h.handle, h'.worker.trans h.worker,
    fun before c hmakes => h'.makes before c (h.makes before c hmakes), fun hdone => ?_⟩
  obtain ⟨hcalls, hdone'⟩ := h.done hdone
  obtain ⟨hcalls', hdone''⟩ := h'.done hdone'
  exact ⟨hcalls'.trans hcalls, hdone''⟩

/-- `s'` comes after `s`: histories have grown and executions moved on. -/
structure Later (s s' : State Output Error) : Prop where
  log : ∀ {id : JobId} {r : JobRecord}, Represents s.jobs.db id r →
    ∃ r', Represents s'.jobs.db id r' ∧ r.log <+: r'.log
  executions : ∀ {i : ℕ} {ex : Execution Output Error}, s.executions[i]? = some ex →
    ∃ ex', s'.executions[i]? = some ex' ∧ ex.Advances ex'

theorem Later.refl (s : State Output Error) : Later s s :=
  ⟨fun hr => ⟨_, hr, List.prefix_rfl⟩, fun hi => ⟨_, hi, .refl _⟩⟩

theorem Later.trans {s s' s'' : State Output Error} (h : Later s s') (h' : Later s' s'') :
    Later s s'' := by
  refine ⟨fun hr => ?_, fun hi => ?_⟩
  · obtain ⟨r', hr', hlog⟩ := h.log hr
    obtain ⟨r'', hr'', hlog'⟩ := h'.log hr'
    exact ⟨r'', hr'', hlog.trans hlog'⟩
  · obtain ⟨ex', hi', hadv⟩ := h.executions hi
    obtain ⟨ex'', hi'', hadv'⟩ := h'.executions hi'
    exact ⟨ex'', hi'', hadv.trans hadv'⟩

theorem later_jobStep {K : CqrsEs} {s : State Output Error} (inv : Inv s) (op : JobSystem.Op) :
    Later s (s.jobStep K op) :=
  ⟨fun hr => (JobSystem.step_change inv.jobs op _).log_mono hr, fun hi => ⟨_, hi, .refl _⟩⟩

theorem later_begin (s : State Output Error) (ex : Execution Output Error) :
    Later s (s.begin ex) :=
  ⟨fun hr => ⟨_, hr, List.prefix_rfl⟩,
    fun hi => ⟨_, getElem?_mono (List.prefix_append _ _) hi, .refl _⟩⟩

theorem later_put {s : State Output Error} {i : ℕ} {ex ex' : Execution Output Error}
    (hi : s.executions[i]? = some ex) (hadv : ex.Advances ex') : Later s (s.put i ex') := by
  refine ⟨fun hr => ⟨_, hr, List.prefix_rfl⟩, fun {j ex₀} hj => ?_⟩
  by_cases hij : i = j
  · subst hij
    obtain rfl := Option.some.inj (hi.symm.trans hj)
    exact ⟨ex', List.getElem?_set_self (List.getElem?_eq_some_iff.1 hi).1, hadv⟩
  · exact ⟨ex₀, by rw [State.put, List.getElem?_set_ne hij, hj], .refl _⟩

theorem later_step {K : CqrsEs} {s : State Output Error} (inv : Inv s) (op : Op Output Error) :
    Later s (step K s op) := by
  have hchange := step_change K s op
  generalize step K s op = s' at hchange ⊢
  cases hchange with
  | idle => exact .refl s
  | outside => exact later_jobStep inv _
  | claimed => exact later_jobStep inv _
  | started => exact (later_jobStep inv _).trans (later_begin _ _)
  | answered inFlight => exact later_put inFlight (Execution.advances_answered _ _)
  | finished inFlight =>
      exact later_put inFlight (Execution.advances_stopped (by simp) (isRunning_after _ _))
  | settled => exact later_jobStep inv _
  | crashed inFlight => exact later_put inFlight (Execution.advances_crashed _)

theorem later_exec {K : CqrsEs} {s : State Output Error} (inv : Inv s)
    (ops : List (Op Output Error)) : Later s ((workerSystem Output Error K).exec s ops) := by
  induction ops generalizing s with
  | nil => exact .refl s
  | cons op ops ih => exact (later_step inv op).trans (ih (inv_step inv op))

/-! ## Calls that were made -/

/-- The execution submits the job without having reconciled it first. -/
def Execution.SubmitsAtOnce (ex : Execution Output Error) : Prop :=
  ∃ before, ex.Makes before .submit ∧ ∀ call ∈ before, call.1 ≠ .reconcile

theorem Execution.Ok.allowed {db : Db} {ex : Execution Output Error} (h : ex.Ok db)
    {before : History Output Error} {c : WorkerCall Output Error} (hmakes : ex.Makes before c) :
    Allowed ex.handle before c := by
  rcases hmakes with ⟨answer, after, hcalls⟩ | ⟨next, hstage, rfl⟩
  · exact h.calls before ⟨c, answer⟩ after hcalls
  · have hok := h.stage
    rw [hstage] at hok
    exact hok.1

/-- Only the first execution submits at once. -/
theorem Execution.Ok.isFirst {db : Db} {ex : Execution Output Error} (h : ex.Ok db)
    (hsubmits : ex.SubmitsAtOnce) : ex.handle.isFirstExecution := by
  obtain ⟨before, hmakes, hnone⟩ := hsubmits
  have hallowed := h.allowed hmakes
  by_contra hfirst
  simp only [Allowed, if_neg hfirst] at hallowed
  subst hallowed
  exact hnone _ (List.mem_singleton.2 rfl) rfl

/-- The first execution belongs to the claim at sequence 2. -/
theorem Execution.Ok.claimedAt_one {db : Db} {ex : Execution Output Error} (h : ex.Ok db)
    (hfirst : ex.handle.isFirstExecution) :
    JobSystem.ClaimedAt db ex.handle.jobId 1 ex.handle.claimId := by
  obtain ⟨k, hat, hseq⟩ := h.claimed
  have htwo : ex.handle.claimSeq = 2 := of_decide_eq_true hfirst
  obtain rfl : k = 1 := by omega
  exact hat

end WorkerSystem

/-! ## Submissions -/

/-- The claim `c` is the first of the history. -/
def FirstClaim (log : List JobEvent) (c : ClaimId) : Prop :=
  ∃ (k : ℕ) (worker : WorkerId) (lease : Instant), log[k]? = some (.claimed worker c lease) ∧
    ∀ j < k, ∀ e : JobEvent, log[j]? = some e → e.claimId? = none

theorem firstClaim_of_claimedAt_one {db : Db} {id : JobId} {c : ClaimId}
    (h : JobSystem.ClaimedAt db id 1 c) :
    ∃ log, db.stream (jobStream id) = SeqLog.ofList 0 (log.map JobEvent.stored) ∧
      FirstClaim log c := by
  obtain ⟨r, worker, lease, hr, hone⟩ := h
  refine ⟨r.log, hr.stream, 1, worker, lease, hone, fun j hj e he => ?_⟩
  obtain rfl : j = 0 := by omega
  obtain ⟨e', he', henq⟩ := r.live.isEnqueued_zero
  obtain rfl := Option.some.inj (he.symm.trans he')
  cases e with
  | enqueued => rfl
  | _ => cases henq

/-- **Submissions of a dispatched job.** In every run, an execution that submits without reconciling
first belongs to the first claim ever on the job's stream; a job has at most one such execution; and
every other execution submits only after its own reconciliation answered that nothing had been
submitted. -/
theorem submissions_follow_reconciliation (K : CqrsEs) (ops : List (Op Output Error)) :
    let s := (workerSystem Output Error K).run ops
    (∀ (i : ℕ) (ex : Execution Output Error), s.executions[i]? = some ex → ex.SubmitsAtOnce →
      ∃ log, s.jobs.db.stream (jobStream ex.handle.jobId) =
        SeqLog.ofList 0 (log.map JobEvent.stored) ∧ FirstClaim log ex.handle.claimId) ∧
    (∀ (i j : ℕ) (ex ex' : Execution Output Error),
      s.executions[i]? = some ex → s.executions[j]? = some ex' →
      ex.handle.jobId = ex'.handle.jobId → ex.SubmitsAtOnce → ex'.SubmitsAtOnce → i = j) ∧
    ∀ (i : ℕ) (ex : Execution Output Error) (before : History Output Error),
      s.executions[i]? = some ex → ex.Makes before .submit → ¬ ex.SubmitsAtOnce →
      ⟨.reconcile, some (.ok .notSubmitted)⟩ ∈ before := by
  have inv := workerSystem_inv K ops
  refine ⟨fun i ex hi hsubmits => ?_, fun i j ex ex' hi hj hid hsubmits hsubmits' => ?_,
    fun i ex before hi hmakes hother => ?_⟩
  · have hok := inv.executions ex (List.mem_of_getElem? hi)
    exact firstClaim_of_claimedAt_one (hok.claimedAt_one (hok.isFirst hsubmits))
  · have hok := inv.executions ex (List.mem_of_getElem? hi)
    have hok' := inv.executions ex' (List.mem_of_getElem? hj)
    -- Both belong to the one claim at sequence 2, and a claim has one execution.
    obtain ⟨r, worker, lease, hr, hone⟩ := hok.claimedAt_one (hok.isFirst hsubmits)
    obtain ⟨r', worker', lease', hr', hone'⟩ := hok'.claimedAt_one (hok'.isFirst hsubmits')
    rw [hid] at hr
    obtain rfl := hr.unique hr'
    have hclaim := (JobEvent.claimed.inj (Option.some.inj (hone.symm.trans hone'))).2.1
    exact JobSystem.index_unique inv.nodup hi hj hclaim
  · have hallowed := (inv.executions ex (List.mem_of_getElem? hi)).allowed hmakes
    by_cases hfirst : ex.handle.isFirstExecution
    · simp only [Allowed, if_pos hfirst] at hallowed
      refine absurd ⟨before, hmakes, fun call hmem => ?_⟩ hother
      rw [hallowed] at hmem
      cases hmem
    · simp only [Allowed, if_neg hfirst] at hallowed
      rw [hallowed]
      exact List.mem_singleton.2 rfl

/-! ## Verdicts before outcomes -/

/-- The operation `op`, taken in `s`, records the event `e` after the history `log` of the job, for a
settlement that execution `i` sent. -/
structure Records (K : CqrsEs) (s : WorkerSystem.State Output Error) (op : Op Output Error) (i : ℕ)
    (id : JobId) (log : List JobEvent) (e : JobEvent) : Prop where
  before : s.jobs.db.stream (jobStream id) = SeqLog.ofList 0 (log.map JobEvent.stored)
  after : (step K s op).jobs.db.stream (jobStream id) =
    SeqLog.ofList 0 ((log ++ [e]).map JobEvent.stored)
  settlement : ∃ j fault clock task, op = .outside (.settleCommit j fault clock) ∧
    s.jobs.settlements[j]? = some task ∧ task.caller = some i

/-- The number of failed attempts an open job has. -/
def JobState.attempt? (st : JobState) : Option UInt32 := st.fields?.map JobFields.attempt

/-- Recording `e` after `log` leaves the job open with the attempt count it had. -/
def KeepsAttempt (log : List JobEvent) (e : JobEvent) : Prop :=
  ∃ st st' attempt, jobFold log = .live st ∧ jobFold (log ++ [e]) = .live st' ∧
    st.attempt? = some attempt ∧ st'.attempt? = some attempt

theorem keepsAttempt_rescheduled {log : List JobEvent} {runAt : Instant}
    (h : LiveLog (log ++ [.rescheduled runAt])) (hne : log ≠ []) :
    KeepsAttempt log (.rescheduled runAt) := by
  obtain ⟨st', hst'⟩ := h
  obtain ⟨st, hst⟩ := (LiveLog.of_eq hst').of_append _ hne
  have hevolve := (liveLog_concat_iff hst).1 hst'
  cases st with
  | claimed => cases hevolve; exact ⟨_, _, _, hst, hst', rfl, rfl⟩
  | pending | done | dead => cases hevolve

/-- A stream with a history is a job's. -/
theorem JobsHeld.represents_of_stream {db : Db} (h : JobsHeld db) {id : JobId} {log : List JobEvent}
    (hlog : db.stream (jobStream id) = SeqLog.ofList 0 (log.map JobEvent.stored))
    (hne : log ≠ []) : ∃ r, Represents db id r ∧ r.log = log := by
  rcases h id with habs | ⟨r, hr⟩
  · have heq := congrArg SeqLog.values (habs.stream.symm.trans hlog)
    rw [SeqLog.values_ofList] at heq
    exact absurd (List.map_eq_nil_iff.1 heq.symm) hne
  · exact ⟨r, hr, log_unique hr.stream hlog⟩

/-- What an execution records is what it asked for, right after its claim, and its calls allow it. -/
theorem Records.backed {K : CqrsEs} {s : WorkerSystem.State Output Error} (inv : Inv s)
    {op : Op Output Error} {i : ℕ} {id : JobId} {log : List JobEvent} {e : JobEvent}
    (h : Records K s op i id log e) :
    ∃ (ex : Execution Output Error) (command : JobCommand) (worker : WorkerId) (lease : Instant),
      s.executions[i]? = some ex ∧ ex.handle.jobId = id ∧ ex.stage.isRunning = false ∧
      Settles ex.worker ex.handle ex.calls command ∧ e = command.event ∧ LiveLog (log ++ [e]) ∧
      log.getLast? = some (.claimed worker ex.handle.claimId lease) := by
  obtain ⟨j, fault, clock, task, rfl, hin, hcaller⟩ := h.settlement
  obtain ⟨ex, hex, hid, hdone, hsettles⟩ :=
    inv.settlements task (List.mem_of_getElem? hin) i hcaller
  have hafter : (task.commit K fault clock s.jobs.db).2.stream (jobStream id) =
      SeqLog.ofList 0 ((log ++ [e]).map JobEvent.stored) := by
    have hstream := h.after
    change (JobSystem.step K s.jobs _).db.stream _ = _ at hstream
    rwa [JobSystem.step_settleCommit K hin] at hstream
  -- The stream grew, so the settlement wrote to it.
  have hgrew : ¬ SameJob s.jobs.db (task.commit K fault clock s.jobs.db).2 id := by
    intro hsame
    have heq := congrArg SeqLog.values (hafter.symm.trans (hsame.stream.trans h.before))
    rw [SeqLog.values_ofList, SeqLog.values_ofList] at heq
    simp at heq
  obtain ⟨r, hr, hload⟩ := inv.jobs.settlements task (List.mem_of_getElem? hin)
  rcases task.commit_cases hr hload K fault clock with
    ⟨-, hdb⟩ | ⟨-, hv, live, worker, lease, hlast, hrep, hsame⟩
  · exact absurd (by rw [hdb]; exact .refl _ _) hgrew
  · obtain rfl : id = task.jobId := by
      by_contra hne
      exact hgrew (hsame id hne)
    obtain rfl := log_unique hr.stream h.before
    have he := log_unique hrep.stream hafter
    rw [JobRecord.appendEvent_log] at he
    obtain rfl := List.singleton_inj.1 (List.append_cancel_left he)
    exact ⟨ex, task.command, worker, lease, hex, hid, hdone, hsettles, rfl, live,
      hsettles.claim ▸ hlast⟩

/-- Two records of one execution are one event of one stream. -/
theorem Records.unique {K : CqrsEs} {s s' : WorkerSystem.State Output Error} (inv : Inv s)
    (inv' : Inv s') (hlater : Later s s') {op op' : Op Output Error} {i : ℕ} {id id' : JobId}
    {log log' : List JobEvent} {e e' : JobEvent} (h : Records K s op i id log e)
    (h' : Records K s' op' i id' log' e') : id = id' ∧ log = log' := by
  obtain ⟨ex, -, worker, lease, hex, -, -, -, -, hlive, hlast⟩ := h.backed inv
  obtain ⟨ex', -, worker', lease', hex', -, -, -, -, hlive', hlast'⟩ := h'.backed inv'
  obtain ⟨r, hr, rfl⟩ := inv.jobs.held.represents_of_stream h.before (by rintro rfl; cases hlast)
  obtain ⟨r', hr', rfl⟩ := inv'.jobs.held.represents_of_stream h'.before (by rintro rfl; cases hlast')
  obtain ⟨r'', hr'', hlog⟩ := hlater.log hr
  obtain ⟨ex'', hex'', hadv⟩ := hlater.executions hex
  obtain rfl := Option.some.inj (hex'.symm.trans hex'')
  rw [List.getLast?_eq_getElem?] at hlast hlast'
  -- The claim of the execution is at one place.
  obtain ⟨rfl, hlen⟩ := inv'.jobs.unique
    (⟨r'', worker, lease, hr'', getElem?_mono hlog hlast⟩ : JobSystem.ClaimedAt _ _ _ _)
    ⟨r', worker', lease', hr', hadv.handle ▸ hlast'⟩
  obtain rfl := hr''.unique hr'
  refine ⟨rfl, List.IsPrefix.eq_of_length hlog ?_⟩
  have hpos := r.live.length_pos
  have hpos' := r''.live.length_pos
  omega

/-- A native worker with five attempts. -/
def fiveAttempts (maxClaims : UInt32) : Worker Unit :=
  .native ⟨5, maxClaims, "300s", fun _ => 0, 0, 0, fun _ => true, fun _ => "failed",
    fun _ => "failed"⟩

/-- Every submission is refused for good, every verdict is taken and no lease is lost. -/
def refusals : ∀ c : WorkerCall Unit Unit, Option c.Answer
  | .submit => some (.error (.terminal ()))
  | .reconcile => none
  | .deliver _ => some (.ok ())
  | .leaseLost => some false

/-- An execution up to the settlement of its refused job. -/
def refusedJob : List (Op Unit Unit) :=
  [.outside (.enqueue none ⟨"j", "k", .null, 0⟩),
    .claim (fiveAttempts 50) none ⟨"j", "w", 0, 100, 0, "c"⟩,
    .answer 0 refusals, .answer 0 refusals, .answer 0 refusals, .finish 0 (.ofUInt32 0), .settle 0]

/-- The history of the refused job. -/
def refusedLog : List JobEvent :=
  [.enqueued "k" .null (.ofUInt32 0), .claimed "w" "c" (.ofUInt32 100)]

/-- A failure of the job was sent to its origin, whatever came of it. -/
def Told (s : WorkerSystem.State Output Error) (id : JobId) : Prop :=
  ∃ ex ∈ s.executions, ∃ before failure attempts,
    ex.Makes before (.deliver (.failed id failure attempts))

/-- Operations of native workers, and what is not a worker's. -/
def WorkerSystem.Op.isNative : Op Output Error → Bool
  | .outside (.claim ..) | .outside (.settleLoad ..) => false
  | .claim (.haskell _) _ _ => false
  | _ => true

/-- The claim budget of a job that the call would claim is not spent. -/
def budgetLeft (db : Db) (call : ClaimCall) : Bool :=
  match readJobProjectionForClaim db call.jobId with
  | none => true
  | some read =>
      match Lifecycle.ofJson jobEntity read.payload with
      | some (.live state) =>
          !runnable state read.leaseUntilMs call.nowMs ||
            state.fields?.all fun job => job.claims < call.maxClaims
      | _ => true

/-- Answers after which the worker dead-letters the job and tells nobody: the timeout of its last
attempt, unless a failure was being delivered, and a failure for now if it has no attempts at all. -/
def silences (worker : Worker Error) (handle : JobClaimHandle) (c : WorkerCall Output Error)
    (answer : Option c.Answer) : Bool :=
  match worker with
  | .native config =>
      (config.maxAttempts ≤ handle.attempt + 1 && c.isUntold && answer.isNone) ||
        (config.maxAttempts = 0 && c.isTransient answer)
  | .haskell _ => false

/-- The answer to the call the execution is in silences it. -/
def WorkerSystem.Execution.silencedBy (ex : Execution Output Error)
    (answers : ∀ c : WorkerCall Output Error, Option c.Answer) : Bool :=
  match ex.stage with
  | .running (.call c _) => silences ex.worker ex.handle c (answers c)
  | _ => false

/-- A step of native workers that dead-letters no job behind its origin's back: the origin has been
told already, or a claim has budget left, and an answer does not silence the execution. -/
def TellsOrigin (s : WorkerSystem.State Output Error) (op : Op Output Error) : Prop :=
  op.isNative ∧
  match op with
  | .claim worker _ call => budgetLeft s.jobs.db (budgeted worker call) ∨ Told s call.jobId
  | .answer i answers => ∀ ex : Execution Output Error, s.executions[i]? = some ex →
      ex.silencedBy answers → Told s ex.handle.jobId
  | _ => True

theorem Told.later {s s' : WorkerSystem.State Output Error} {id : JobId} (h : Told s id)
    (hlater : Later s s') : Told s' id := by
  obtain ⟨ex, hmem, before, failure, attempts, hmakes⟩ := h
  obtain ⟨i, hi⟩ := List.mem_iff_getElem?.1 hmem
  obtain ⟨ex', hi', hadv⟩ := hlater.executions hi
  exact ⟨ex', List.mem_of_getElem? hi', before, failure, attempts, hadv.makes _ _ hmakes⟩

theorem told_of_failureAttempted {s : WorkerSystem.State Output Error}
    {ex : Execution Output Error} (hmem : ex ∈ s.executions) {id : JobId}
    (h : FailureAttempted id ex.calls) : Told s id := by
  obtain ⟨failure, attempts, answer, hcall⟩ := h
  obtain ⟨before, after, hcalls⟩ := List.append_of_mem hcall
  exact ⟨ex, hmem, before, failure, attempts, .inl ⟨answer, after, hcalls⟩⟩

theorem Excused.silences {config : JobWorkerConfig Error} {handle : JobClaimHandle}
    {done : History Output Error} {reason : DeadReason}
    (h : Excused (.native config) handle done reason) :
    ∃ call ∈ done, silences (.native config) handle call.1 call.2 := by
  rcases h with ⟨hlast, c, huntold, hmem⟩ | ⟨hzero, call, hmem, htransient⟩
  · exact ⟨_, hmem, by simp [EventSorcery.silences, hlast, huntold]⟩
  · exact ⟨call, hmem, by simp [EventSorcery.silences, hzero, htransient]⟩

/-- A dead letter that is there now was there before, or was asked for by a settlement, or is that of
a claim without budget. -/
theorem JobSystem.JobChange.dead {K : CqrsEs} {s : JobSystem.State} {op : JobSystem.Op} {db' : Db}
    {id : JobId} {r' : JobRecord} {reason : DeadReason} {error : String}
    (h : JobChange K s op db' id) (hr' : Represents db' id r')
    (hdead : .dead reason error ∈ r'.log) :
    (∃ r, Represents s.db id r ∧ .dead reason error ∈ r.log) ∨
      (∃ task ∈ s.settlements, task.jobId = id ∧ task.command.event = .dead reason error) ∨
      ∃ fault call, op = .claim fault call ∧ call.jobId = id ∧ budgetLeft s.db call = false := by
  cases h with
  | same hsame =>
      exact .inl ⟨r', ⟨hsame.stream ▸ hr'.stream, hsame.row ▸ hr'.row, hr'.bounded⟩, hdead⟩
  | enqueued absent rep' =>
      obtain rfl := hr'.unique rep'
      cases List.mem_singleton.1 hdead
  | @claimed fault call r _ out op_eq fresh job rep answer effect rep' =>
      obtain rfl := hr'.unique rep'
      cases effect with
      | won hv live row fields runs budget lease =>
          rw [JobRecord.appendWithRow_log] at hdead
          rcases List.mem_append.1 hdead with hdead | hdead
          · exact .inl ⟨r, rep, hdead⟩
          · cases List.mem_singleton.1 hdead
      | @abandoned st fields hv live row hfields runs budget =>
          refine .inr (.inr ⟨fault, call, op_eq, job, ?_⟩)
          have hread := readJobProjection_represented rep row
          simp only [budgetLeft, job, hread, ofJson_liveJson, runs, hfields]
          simpa using budget
  | @settled i fault clock task r worker lease op_eq inFlight job rep verdict hv live last rep' =>
      obtain rfl := hr'.unique rep'
      rw [JobRecord.appendEvent_log] at hdead
      rcases List.mem_append.1 hdead with hdead | hdead
      · exact .inl ⟨r, rep, hdead⟩
      · exact .inr (.inl ⟨task, List.mem_of_getElem? inFlight, job,
          (List.mem_singleton.1 hdead).symm⟩)
  | leased op_eq rep row held rep' =>
      obtain rfl := hr'.unique rep'
      exact .inl ⟨_, rep, hdead⟩
  | reacted op_eq inFlight job rep rep' =>
      obtain rfl := hr'.unique rep'
      exact .inl ⟨_, rep, hdead⟩
  | caughtUp op_eq idle rep rep' =>
      obtain rfl := hr'.unique rep'
      exact .inl ⟨_, rep, hdead⟩

/-- If an answer silenced the execution, its origin has been told otherwise. -/
def Loud (s : WorkerSystem.State Output Error) (ex : Execution Output Error) : Prop :=
  ∀ call ∈ ex.calls, silences ex.worker ex.handle call.1 call.2 → Told s ex.handle.jobId

theorem Loud.later {s s' : WorkerSystem.State Output Error} {ex : Execution Output Error}
    (h : Loud s ex) (hlater : Later s s') : Loud s' ex :=
  fun call hmem hsilent => (h call hmem hsilent).later hlater

/-- What holds between the steps of native workers that tell the origin. -/
structure OriginsTold (s : WorkerSystem.State Output Error) : Prop where
  inv : Inv s
  native : ∀ ex ∈ s.executions, ∃ config, ex.worker = .native config
  executions : ∀ ex ∈ s.executions, ex.stage ≠ .ended → Loud s ex
  settlements : ∀ task ∈ s.jobs.settlements, ∃ (i : ℕ) (ex : Execution Output Error),
    task.caller = some i ∧ s.executions[i]? = some ex ∧ Loud s ex
  dead : ∀ {id : JobId} {r : JobRecord}, Represents s.jobs.db id r →
    ∀ reason error, .dead reason error ∈ r.log → Told s id

/-- An execution moves on by itself. -/
theorem OriginsTold.put {s : WorkerSystem.State Output Error} (h : OriginsTold s) {i : ℕ}
    {ex ex' : Execution Output Error} (inv' : Inv (s.put i ex'))
    (hi : s.executions[i]? = some ex) (hadv : ex.Advances ex')
    (hloud : ex'.stage ≠ .ended → Loud s ex') : OriginsTold (s.put i ex') := by
  have hlater := later_put hi hadv
  refine ⟨inv', fun ex₀ hmem => ?_, fun ex₀ hmem hopen => ?_, fun task hmem => ?_,
    fun hr reason error hdead => (h.dead hr reason error hdead).later hlater⟩
  · rcases List.mem_or_eq_of_mem_set hmem with hmem | rfl
    · exact h.native ex₀ hmem
    · rw [hadv.worker]
      exact h.native ex (List.mem_of_getElem? hi)
  · rcases List.mem_or_eq_of_mem_set hmem with hmem | rfl
    · exact (h.executions ex₀ hmem hopen).later hlater
    · exact (hloud hopen).later hlater
  · obtain ⟨j, ex₁, hcaller, hj, hloud₁⟩ := h.settlements task hmem
    by_cases hij : i = j
    · -- An execution that has sent a settlement makes no more calls.
      subst hij
      obtain ⟨ex₂, hi₂, -, hdone, -⟩ := h.inv.settlements task hmem i hcaller
      obtain rfl := Option.some.inj (hi.symm.trans hj)
      obtain rfl := Option.some.inj (hi.symm.trans hi₂)
      refine ⟨i, ex', hcaller, List.getElem?_set_self (List.getElem?_eq_some_iff.1 hi).1, ?_⟩
      intro call hcall hsilent
      rw [hadv.handle, hadv.worker] at hsilent
      rw [(hadv.done hdone).1] at hcall
      rw [hadv.handle]
      exact (hloud₁ call hcall hsilent).later hlater
    · exact ⟨j, ex₁, hcaller, by rw [State.put, List.getElem?_set_ne hij, hj], hloud₁.later hlater⟩

/-- An execution starts. -/
theorem OriginsTold.begin {s : WorkerSystem.State Output Error} (h : OriginsTold s)
    {ex : Execution Output Error} (inv' : Inv (s.begin ex))
    (hnative : ∃ config, ex.worker = .native config) (hcalls : ex.calls = []) :
    OriginsTold (s.begin ex) := by
  have hlater := later_begin s ex
  refine ⟨inv', fun ex₀ hmem => ?_, fun ex₀ hmem hopen => ?_, fun task hmem => ?_,
    fun hr reason error hdead => (h.dead hr reason error hdead).later hlater⟩
  · rcases List.mem_append.1 hmem with hmem | hmem
    · exact h.native ex₀ hmem
    · exact List.mem_singleton.1 hmem ▸ hnative
  · rcases List.mem_append.1 hmem with hmem | hmem
    · exact (h.executions ex₀ hmem hopen).later hlater
    · obtain rfl := List.mem_singleton.1 hmem
      intro call hcall
      rw [hcalls] at hcall
      cases hcall
  · obtain ⟨i, ex₀, hcaller, hi, hloud⟩ := h.settlements task hmem
    exact ⟨i, ex₀, hcaller, getElem?_mono (List.prefix_append _ _) hi, hloud.later hlater⟩

/-- The job system takes a step: a settlement is sent by an execution that is not silenced, and a
claim has budget left or the origin has been told. -/
theorem OriginsTold.jobStep {K : CqrsEs} {s : WorkerSystem.State Output Error} (h : OriginsTold s)
    {op : JobSystem.Op} (inv' : Inv (s.jobStep K op))
    (hsettle : ∀ task : SettleTask, op = .settleLoad task.caller task.jobId task.command →
      ∃ (i : ℕ) (ex : Execution Output Error), task.caller = some i ∧
        s.executions[i]? = some ex ∧ Loud s ex)
    (hclaim : ∀ fault call, op = .claim fault call →
      budgetLeft s.jobs.db call ∨ Told s call.jobId) : OriginsTold (s.jobStep K op) := by
  have hlater := later_jobStep h.inv op (K := K)
  refine ⟨inv', h.native, fun ex hmem hopen => (h.executions ex hmem hopen).later hlater,
    fun task hmem => ?_, fun {id r'} hr' reason error hdead => ?_⟩
  · have htask : ∃ (i : ℕ) (ex : Execution Output Error), task.caller = some i ∧
        s.executions[i]? = some ex ∧ Loud s ex := by
      rcases JobSystem.step_settlements hmem with hmem | ⟨heq, -, -⟩
      · exact h.settlements task hmem
      · exact hsettle task heq
    obtain ⟨i, ex, hcaller, hi, hloud⟩ := htask
    exact ⟨i, ex, hcaller, hi, hloud.later hlater⟩
  · refine Told.later ?_ hlater
    rcases (JobSystem.step_change h.inv.jobs op id).dead hr' hdead with
      ⟨r, hr, hdead⟩ | ⟨task, hmem, rfl, he⟩ | ⟨fault, call, rfl, rfl, hspent⟩
    · exact h.dead hr reason error hdead
    · obtain ⟨i, ex, hcaller, hi, hloud⟩ := h.settlements task hmem
      obtain ⟨ex', hi', hid, -, hsettles⟩ := h.inv.settlements task hmem i hcaller
      obtain rfl := Option.some.inj (hi.symm.trans hi')
      have hex := List.mem_of_getElem? hi
      rcases hsettles.dead reason error he with hattempted | hexcused
      · exact hid ▸ told_of_failureAttempted hex hattempted
      · obtain ⟨config, hworker⟩ := h.native ex hex
        rw [hworker] at hexcused
        obtain ⟨call, hcall, hsilent⟩ := hexcused.silences
        exact hid ▸ hloud call hcall (hworker ▸ hsilent)
    · rcases hclaim fault call rfl with hleft | htold
      · rw [hspent] at hleft
        cases hleft
      · exact htold

theorem originsTold_init (K : CqrsEs) : OriginsTold (workerSystem Output Error K).init := by
  refine ⟨WorkerSystem.inv_init, (fun _ h => by cases h), (fun _ h => by cases h),
    (fun _ h => by cases h), fun {id r} hr => ?_⟩
  exact absurd hr (Absent.not_represents ⟨rfl, rfl⟩)

theorem originsTold_step {K : CqrsEs} {s : WorkerSystem.State Output Error} (h : OriginsTold s)
    {op : Op Output Error} (hop : TellsOrigin s op) : OriginsTold (step K s op) := by
  have inv' := WorkerSystem.inv_step h.inv op (K := K)
  obtain ⟨hnative, hop⟩ := hop
  have hchange := WorkerSystem.step_change K s op
  generalize step K s op = s' at hchange inv' ⊢
  cases hchange with
  | idle => exact h
  | outside own =>
      refine h.jobStep inv' (fun task heq => ?_) fun fault call heq => ?_
      · rw [heq] at hnative
        cases hnative
      · rw [heq] at hnative
        cases hnative
  | claimed fresh =>
      refine h.jobStep inv' (fun task heq => by cases heq) fun fault call heq => ?_
      obtain ⟨-, rfl⟩ := JobSystem.Op.claim.inj heq
      exact hop
  | @started worker fault call handle payload program fresh won start =>
      have h' : OriginsTold (s.jobStep K (.claim fault (budgeted worker call))) := by
        refine h.jobStep (h.inv.claimStep _ _) (fun task heq => by cases heq) fun fault call heq => ?_
        obtain ⟨-, rfl⟩ := JobSystem.Op.claim.inj heq
        exact hop
      refine h'.begin inv' ?_ rfl
      cases worker with
      | native config => exact ⟨config, rfl⟩
      | haskell worker => cases hnative
  | answered inFlight =>
      have hloud := h.executions _ (List.mem_of_getElem? inFlight) (by simp)
      refine h.put inv' inFlight (Execution.advances_answered _ _) fun _ call hcall hsilent => ?_
      rcases List.mem_append.1 hcall with hcall | hcall
      · exact hloud call hcall hsilent
      · obtain rfl := List.mem_singleton.1 hcall
        have htold := hop _ inFlight
        exact htold hsilent
  | finished inFlight =>
      have hloud := h.executions _ (List.mem_of_getElem? inFlight) (by simp)
      exact h.put inv' inFlight (Execution.advances_stopped (by simp) (isRunning_after _ _))
        fun _ => hloud
  | settled inFlight =>
      refine h.jobStep inv' (fun task heq => ?_) fun fault call heq => by cases heq
      obtain ⟨hcaller, -, -⟩ := JobSystem.Op.settleLoad.inj heq
      exact ⟨_, _, hcaller.symm, inFlight,
        h.executions _ (List.mem_of_getElem? inFlight) (by simp)⟩
  | @crashed i ex inFlight =>
      refine h.put inv' inFlight ex.advances_crashed fun hopen => absurd ?_ hopen
      obtain ⟨worker, handle, calls, (result | ⟨c, next⟩) | command | -⟩ := ex <;> rfl

/-- **Dead letters tell the origin**, in every state of a run of native workers whose steps are all
such as `TellsOrigin` says. -/
theorem dead_letters_tell_origin (K : CqrsEs) (ops : List (Op Output Error))
    (hops : (workerSystem Output Error K).Meets TellsOrigin (workerSystem Output Error K).init ops)
    (before : List (Op Output Error)) (hbefore : before <+: ops) (id : JobId) (log : List JobEvent)
    (hlog : ((workerSystem Output Error K).run before).jobs.db.stream (jobStream id) =
      SeqLog.ofList 0 (log.map JobEvent.stored))
    (reason : DeadReason) (error : String) (hdead : .dead reason error ∈ log) :
    Told ((workerSystem Output Error K).run before) id := by
  obtain ⟨after, rfl⟩ := hbefore
  have h : OriginsTold ((workerSystem Output Error K).run before) :=
    Machine.run_invariant_of_meets (originsTold_init K)
      (fun s op h hop => originsTold_step h hop) hops.of_append
  obtain ⟨r, hr, rfl⟩ := h.inv.jobs.held.represents_of_stream hlog (List.ne_nil_of_mem hdead)
  exact h.dead hr reason error hdead

theorem refused_job_tells_origin :
    (workerSystem Unit Unit .atMultiples).Meets TellsOrigin
        (workerSystem Unit Unit .atMultiples).init
        (refusedJob ++ [.outside (.settleCommit 0 none fun _ => 0)]) ∧
      Told ((workerSystem Unit Unit .atMultiples).run
        (refusedJob ++ [.outside (.settleCommit 0 none fun _ => 0)])) "j" := by
  -- No answer of the run silences the execution.
  have hloud : ∀ {s : WorkerSystem.State Unit Unit},
      (∀ ex ∈ s.executions[0]?, ex.silencedBy refusals = false) →
      TellsOrigin s (.answer 0 refusals) := by
    intro s h
    refine ⟨rfl, fun ex hex hsilent => ?_⟩
    rw [h ex hex] at hsilent
    cases hsilent
  have hmeets : (workerSystem Unit Unit .atMultiples).Meets TellsOrigin
      (workerSystem Unit Unit .atMultiples).init
      (refusedJob ++ [.outside (.settleCommit 0 none fun _ => 0)]) := by
    refine ⟨⟨rfl, trivial⟩, ⟨rfl, .inl (by decide +kernel)⟩, hloud ?_, hloud ?_, hloud ?_,
      ⟨rfl, trivial⟩, ⟨rfl, trivial⟩, ⟨rfl, trivial⟩, trivial⟩
    all_goals decide +kernel
  exact ⟨hmeets, dead_letters_tell_origin .atMultiples _ hmeets _ List.prefix_rfl "j"
    (refusedLog ++ [.dead .rejected "failed"]) (by decide +kernel) .rejected "failed" (by simp)⟩

/-- The one claim the worker allows is lost in a crash, and the next one, after the lease, finds the
budget spent. -/
def spentClaims : List (Op Unit Unit) :=
  [.outside (.enqueue none ⟨"j", "k", .null, 0⟩),
    .claim (fiveAttempts 1) none ⟨"j", "w", 0, 100, 0, "c₁"⟩, .crash 0,
    .claim (fiveAttempts 1) none ⟨"j", "w", 200, 100, 0, "c₂"⟩]

/-- A job whose claims are spent is dead-lettered inside the claim, and its origin is told nothing. -/
theorem spent_claims_tell_nobody :
    ¬ ∀ ops : List (Op Unit Unit), (∀ op ∈ ops, op.isNative) →
      ∀ (id : JobId) (log : List JobEvent) (reason : DeadReason) (error : String),
      ((workerSystem Unit Unit .atMultiples).run ops).jobs.db.stream (jobStream id) =
        SeqLog.ofList 0 (log.map JobEvent.stored) →
      JobEvent.dead reason error ∈ log →
      Told ((workerSystem Unit Unit .atMultiples).run ops) id := by
  intro h
  obtain ⟨ex, hmem, before, failure, attempts, hmakes⟩ := h spentClaims
    (by simp [spentClaims, WorkerSystem.Op.isNative, fiveAttempts]) "j"
    [.enqueued "k" .null (.ofUInt32 0), .claimed "w" "c₁" (.ofUInt32 100), abandonedEvent]
    .abandoned "claim budget exhausted" (by decide +kernel) (by simp [abandonedEvent])
  -- The one execution made one call, its submission.
  have hquiet : ∀ ex ∈ ((workerSystem Unit Unit .atMultiples).run spentClaims).executions,
      (ex.calls.all fun call => call.1.isUntold) ∧ ex.stage.isRunning = false := by decide +kernel
  obtain ⟨hcalls, hstopped⟩ := hquiet ex hmem
  rcases hmakes with ⟨answer, after, heq⟩ | ⟨next, hstage, -⟩
  · rw [heq, List.all_eq_true] at hcalls
    cases hcalls _ (List.mem_append_cons_self)
  · rw [hstage] at hstopped
    cases hstopped

end EventSorcery
