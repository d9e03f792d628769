import EventSorcery.JobProgress
import EventSorcery.Abi
import EventSorcery.Dispatch

/-!
# What the counters of a job count

A job's state carries two numbers, the attempt and the claim count. They are written back by
settlements that learned them from a claim handle, possibly much earlier. Here handles are kept in a
ledger, and every settlement is made from one of them, by the facade or by a native worker. The
invariant says what the numbers are in terms of the job's own stream.
-/

namespace EventSorcery

/-! ## Counting events -/

def JobEvent.isClaimed : JobEvent → Bool
  | .claimed .. => true
  | _ => false

def JobEvent.isRetryScheduled : JobEvent → Bool
  | .retryScheduled .. => true
  | _ => false

def JobEvent.isRescheduled : JobEvent → Bool
  | .rescheduled .. => true
  | _ => false

theorem JobEvent.isRetryScheduled_of_isClaimed {e : JobEvent} (h : e.isClaimed) :
    e.isRetryScheduled = false := by
  cases e <;> first | rfl | cases h

/-- The outcomes after which a job runs again. -/
def JobEvent.isOutcome (e : JobEvent) : Bool := e.isRetryScheduled || e.isRescheduled

def retries (log : List JobEvent) : ℕ := log.countP JobEvent.isRetryScheduled

/-- The claims after the last event of a kind, or since the start. -/
def claimsSince (kind : JobEvent → Bool) (log : List JobEvent) : ℕ :=
  (log.rtakeWhile fun e => !kind e).countP JobEvent.isClaimed

theorem retries_concat (log : List JobEvent) (e : JobEvent) :
    retries (log ++ [e]) = retries log + e.isRetryScheduled.toNat := by
  rw [retries, List.countP_append, List.countP_singleton]
  cases e.isRetryScheduled <;> rfl

theorem claimsSince_concat (kind : JobEvent → Bool) (log : List JobEvent) (e : JobEvent) :
    claimsSince kind (log ++ [e]) =
      if kind e then 0 else claimsSince kind log + e.isClaimed.toNat := by
  rw [claimsSince, List.rtakeWhile_concat]
  cases hkind : kind e with
  | true => rfl
  | false =>
      simp only [Bool.not_false, if_true, Bool.false_eq_true, if_false, List.countP_append,
        List.countP_singleton, claimsSince]
      cases e.isClaimed <;> rfl

/-- The rows of the job's stream hold these events. -/
def JobHistory (db : Db) (id : JobId) (log : List JobEvent) : Prop :=
  db.stream (jobStream id) = SeqLog.ofList 0 (log.map JobEvent.stored)

instance (db : Db) (id : JobId) (log : List JobEvent) : Decidable (JobHistory db id log) :=
  inferInstanceAs (Decidable (_ = _))

theorem JobHistory.unique {db : Db} {id : JobId} {log log' : List JobEvent}
    (h : JobHistory db id log) (h' : JobHistory db id log') : log = log' :=
  log_unique h h'

/-- What an event does to the numbers of an open job. -/
theorem evolve_fields {st st' : JobState} {e : JobEvent} {job' : JobFields}
    (h : st.evolve e = .ok (some st')) (hjob' : st'.fields? = some job') :
    ∃ job, st.fields? = some job ∧
      ((∃ worker c lease, e = .claimed worker c lease ∧ job'.attempt = job.attempt ∧
          job'.claims = job.claims + 1) ∨
        (∃ runAt attempt error, e = .retryScheduled runAt attempt error ∧ job'.attempt = attempt ∧
          job'.claims = job.claims) ∨
        ∃ runAt, e = .rescheduled runAt ∧ job'.attempt = job.attempt ∧ job'.claims = 0) := by
  revert h
  fun_cases JobState.evolve st e <;> intro h
  all_goals cases h
  all_goals first | (obtain rfl := Option.some.inj hjob') | cases hjob'
  case case1 kind payload runAt attempt claims worker c lease =>
      exact ⟨_, rfl, .inl ⟨worker, c, lease, rfl, rfl, rfl⟩⟩
  case case2 kind payload _ _ runAt attempt claims worker c lease =>
      exact ⟨_, rfl, .inl ⟨worker, c, lease, rfl, rfl, rfl⟩⟩
  case case4 runAt attempt error =>
      exact ⟨_, rfl, .inr (.inl ⟨runAt, attempt, error, rfl, rfl, rfl⟩)⟩
  case case5 runAt => exact ⟨_, rfl, .inr (.inr ⟨runAt, rfl, rfl, rfl⟩)⟩

/-- The claim count of an open job is the number of its claims since it was last deferred. -/
def ClaimsCounted (log : List JobEvent) : Prop :=
  ∀ st job, jobFold log = .live st → st.fields? = some job →
    job.claims.toNat = claimsSince JobEvent.isRescheduled log

/-- The attempt of an open job is the number of retries scheduled for it, which stays below a
bound. -/
structure RetriesCounted (bound : ℕ) (log : List JobEvent) : Prop where
  retries_lt : retries log < bound
  attempt : ∀ st job, jobFold log = .live st → st.fields? = some job →
    job.attempt.toNat = retries log

/-- Every job stream holds the events of some history. -/
theorem JobHistory.exists {db : Db} (held : JobsHeld db) (id : JobId) :
    ∃ log, JobHistory db id log ∧ (log = [] ∨ ∃ r, Represents db id r ∧ r.log = log) := by
  rcases held id with habs | ⟨r, hr⟩
  · exact ⟨[], habs.stream, .inl rfl⟩
  · exact ⟨r.log, hr.stream, .inr ⟨r, hr, rfl⟩⟩

section Logs

variable {log : List JobEvent} {e : JobEvent} {bound : ℕ}

/-- The state before the last event. -/
theorem LiveLog.state_before {st' : JobState} (live : LiveLog log)
    (hst' : jobFold (log ++ [e]) = .live st') :
    ∃ st, jobFold log = .live st ∧ st.evolve e = .ok (some st') := by
  obtain ⟨st, hst⟩ := live
  exact ⟨st, hst, (liveLog_concat_iff hst).1 hst'⟩

theorem ClaimsCounted.enqueued (kind : JobKind) (payload : Json) (runAt : Instant) :
    ClaimsCounted [.enqueued kind payload runAt] := by
  rintro st job hst hjob
  cases Lifecycle.live.inj hst
  cases hjob
  rfl

theorem ClaimsCounted.concat (h : ClaimsCounted log) (live : LiveLog log)
    (hclaim : e.isClaimed → ∀ st job, jobFold log = .live st → st.fields? = some job →
      job.claims.toNat + 1 < UInt32.size) : ClaimsCounted (log ++ [e]) := by
  intro st' job' hst' hjob'
  obtain ⟨st, hst, hev⟩ := live.state_before hst'
  obtain ⟨job, hjob, ⟨worker, c, lease, rfl, -, hclaims⟩ | ⟨runAt, attempt, error, rfl, -, hclaims⟩ |
    ⟨runAt, rfl, -, hclaims⟩⟩ := evolve_fields hev hjob'
  · have hroom := hclaim rfl st job hst hjob
    rw [claimsSince_concat, hclaims, ← h st job hst hjob, UInt32.toNat_add]
    exact Nat.mod_eq_of_lt hroom
  · rw [claimsSince_concat, hclaims]
    exact h st job hst hjob
  · rw [claimsSince_concat, hclaims]
    rfl

theorem RetriesCounted.enqueued (hbound : 0 < bound) (kind : JobKind) (payload : Json)
    (runAt : Instant) : RetriesCounted bound [.enqueued kind payload runAt] := by
  refine ⟨hbound, fun st job hst hjob => ?_⟩
  cases Lifecycle.live.inj hst
  cases hjob
  rfl

theorem RetriesCounted.concat (h : RetriesCounted bound log) (live : LiveLog log)
    (hretry : ∀ runAt attempt error, e = .retryScheduled runAt attempt error →
      attempt.toNat = retries log + 1 ∧ attempt.toNat < bound) :
    RetriesCounted bound (log ++ [e]) := by
  constructor
  · rw [retries_concat]
    cases e with
    | retryScheduled runAt attempt error =>
        obtain ⟨heq, hlt⟩ := hretry runAt attempt error rfl
        exact heq ▸ hlt
    | _ => exact h.retries_lt
  · intro st' job' hst' hjob'
    obtain ⟨st, hst, hev⟩ := live.state_before hst'
    obtain ⟨job, hjob, ⟨worker, c, lease, rfl, hattempt, -⟩ |
      ⟨runAt, attempt, error, rfl, hattempt, -⟩ | ⟨runAt, rfl, hattempt, -⟩⟩ := evolve_fields hev hjob'
    · rw [retries_concat, hattempt]
      exact h.attempt st job hst hjob
    · rw [retries_concat, hattempt]
      exact (hretry runAt attempt error rfl).1
    · rw [retries_concat, hattempt]
      exact h.attempt st job hst hjob

end Logs

/-! ## What one operation appends -/

section Changes

open JobSystem

variable {K : CqrsEs} {s : JobSystem.State} {op : JobSystem.Op}

/-- A job's history stays, begins, or grows by what a claim or a settlement appends. -/
theorem JobSystem.JobChange.log_cases {db' : Db} {id : JobId} {r' : JobRecord}
    (h : JobChange K s op db' id) (hheld : JobsHeld s.db) (hr' : Represents db' id r') :
    (∃ r, Represents s.db id r ∧ r'.log = r.log) ∨
      (∃ kind payload runAt, r'.log = [.enqueued kind payload runAt]) ∨
      (∃ fault call out r, op = .claim fault call ∧ call.jobId = id ∧ Represents s.db id r ∧
        ClaimEffect call r out r') ∨
      ∃ i fault clock task r worker lease, op = .settleCommit i fault clock ∧
        s.settlements[i]? = some task ∧ task.jobId = id ∧ Represents s.db id r ∧
        r.log.getLast? = some (.claimed worker task.command.claimId lease) ∧
        r'.log = r.log ++ [task.command.event] := by
  cases h with
  | same hsame =>
      rcases hheld id with habs | ⟨r, hr⟩
      · exact absurd hr' (habs.of_same hsame).not_represents
      · exact .inl ⟨r, hr, by rw [hr'.unique (hr.of_same hsame)]⟩
  | enqueued absent rep' => exact .inr (.inl ⟨_, _, _, by rw [hr'.unique rep']; rfl⟩)
  | claimed op_eq fresh job rep answer effect rep' =>
      obtain rfl := hr'.unique rep'
      exact .inr (.inr (.inl ⟨_, _, _, _, op_eq, job, rep, effect⟩))
  | settled op_eq inFlight job rep verdict hv live last rep' =>
      exact .inr (.inr (.inr ⟨_, _, _, _, _, _, _, op_eq, inFlight, job, rep, last,
        by rw [hr'.unique rep']; rfl⟩))
  | leased _ rep _ _ rep' => exact .inl ⟨_, rep, by rw [hr'.unique rep']; rfl⟩
  | reacted _ _ _ rep rep' => exact .inl ⟨_, rep, by rw [hr'.unique rep']; rfl⟩
  | caughtUp _ _ rep rep' => exact .inl ⟨_, rep, by rw [hr'.unique rep']; rfl⟩

/-- A claim below its budget leaves room for one more. -/
theorem ClaimEffect.claims_lt {call : ClaimCall} {r r' : JobRecord} {out : ClaimOutcome WonClaim}
    (h : ClaimEffect call r out r') :
    ∃ e st job, r'.log = r.log ++ [e] ∧ jobFold r.log = .live st ∧ st.fields? = some job ∧
      (e.isClaimed → job.claims.toNat + 1 < UInt32.size) ∧ e.isRetryScheduled = false := by
  cases h with
  | @won st job leaseUntil hv live row fields runs budget lease =>
      refine ⟨call.event leaseUntil, st, job, rfl, (JobRecord.rowState_eq hv).symm.trans row, fields,
        fun _ => ?_, rfl⟩
      have hlt := UInt32.lt_iff_toNat_lt.1 budget
      have hbound := call.maxClaims.toNat_lt
      exact lt_of_le_of_lt hlt hbound
  | @abandoned st job hv live row fields runs budget =>
      exact ⟨abandonedEvent, st, job, rfl, (JobRecord.rowState_eq hv).symm.trans row, fields, nofun,
        rfl⟩

/-- Every operation keeps the claim counts. -/
theorem claimsCounted_step (inv : JobSystem.Inv s)
    (h : ∀ id r, Represents s.db id r → ClaimsCounted r.log) (op : JobSystem.Op) (id : JobId)
    (r' : JobRecord) (hr' : Represents (JobSystem.step K s op).db id r') :
    ClaimsCounted r'.log := by
  rcases (step_change inv op id (K := K)).log_cases inv.held hr' with
    ⟨r, hr, hlog⟩ | ⟨kind, payload, runAt, hlog⟩ | ⟨fault, call, out, r, -, -, hr, heffect⟩ |
    ⟨i, fault, clock, task, r, worker, lease, -, -, -, hr, -, hlog⟩
  · exact hlog ▸ h id r hr
  · exact hlog ▸ ClaimsCounted.enqueued kind payload runAt
  · obtain ⟨e, st, job, hlog, hst, hjob, hroom, -⟩ := heffect.claims_lt
    rw [hlog]
    refine (h id r hr).concat r.live fun hclaimed st' job' hst' hjob' => ?_
    obtain rfl := Lifecycle.live.inj (hst.symm.trans hst')
    obtain rfl := Option.some.inj (hjob.symm.trans hjob')
    exact hroom hclaimed
  · rw [hlog]
    refine (h id r hr).concat r.live fun hclaimed => ?_
    generalize task.command = command at hclaimed
    cases command <;> cases hclaimed

/-- Jobs are well formed and their claims are counted, in every state the system reaches. -/
theorem claimsCounted_run (K : CqrsEs) (ops : List JobSystem.Op) :
    JobSystem.Inv ((jobSystem K).run ops) ∧
      ∀ id r, Represents ((jobSystem K).run ops).db id r → ClaimsCounted r.log := by
  refine Machine.run_invariant (m := jobSystem K) (P := fun s => JobSystem.Inv s ∧
    ∀ id r, Represents s.db id r → ClaimsCounted r.log) ⟨inv_init, fun id r hr => ?_⟩
    (fun s op h => ⟨inv_step h.1 op, claimsCounted_step h.1 h.2 op⟩) ops
  exact absurd hr (⟨rfl, rfl⟩ : Absent .empty id).not_represents

/-- A claim that appends an abandonment is one that gives its job up. -/
theorem ClaimEffect.of_abandoned (inv : JobSystem.Inv s) {fault : Option SqliteJobError}
    {call : ClaimCall} {id : JobId} {log : List JobEvent} {text : String}
    (hlog : JobHistory s.db id log)
    (hdead : JobHistory (JobSystem.step K s (.claim fault call)).db id
      (log ++ [.dead .abandoned text])) :
    call.policyValid ∧ ∃ r r', Represents s.db id r ∧ r.log = log ∧
      ClaimEffect call r .abandoned r' := by
  cases step_change inv (.claim fault call) id (K := K) with
  | same h =>
      have hsame := hlog.unique (h.stream.symm.trans hdead)
      simp at hsame
  | enqueued habs hrep =>
      have hlog' := hdead.unique hrep.stream
      have hlast := congrArg List.getLast? hlog'
      rw [List.getLast?_concat] at hlast
      cases hlast
  | claimed op_eq fresh job rep answer effect rep' =>
      obtain ⟨rfl, rfl⟩ := Op.claim.inj op_eq
      obtain rfl := hlog.unique rep.stream
      have hpolicy : call.policyValid := by
        by_contra hpolicy
        rw [claimJobAs, if_neg hpolicy] at answer
        cases answer
      cases effect with
      | won hv live row fields runs budget lease =>
          cases List.append_cancel_left (hdead.unique rep'.stream)
      | abandoned hv live row fields runs budget =>
          exact ⟨hpolicy, _, _, rep, rfl, .abandoned hv live row fields runs budget⟩
  | settled op_eq => cases op_eq
  | leased op_eq => cases op_eq
  | reacted op_eq => cases op_eq
  | caughtUp op_eq => cases op_eq

/-- A claim that gives a job up found its claim count at the budget. -/
theorem ClaimEffect.abandoned_count {call : ClaimCall} {r r' : JobRecord}
    (h : ClaimEffect call r .abandoned r') (hcounted : ClaimsCounted r.log) :
    r'.log = r.log ++ [abandonedEvent] ∧
      call.maxClaims.toNat ≤ claimsSince JobEvent.isRescheduled r.log := by
  cases h with
  | @abandoned st job hv live row fields runs budget =>
      refine ⟨rfl, ?_⟩
      rw [← hcounted st job ((JobRecord.rowState_eq hv).symm.trans row) fields]
      exact UInt32.le_iff_toNat_le.1 budget

end Changes

/-! ## Settlements from handles -/

namespace JobCounters

/-- Who settles a claim, and with what: the facade's four calls, or a native worker with the result
of its run. -/
inductive Settler (Error : Type) where
  | acknowledge
  | retry (runAtMs : ℤ) (error : String)
  | defer (runAtMs : ℤ)
  | deadLetter (reason : DeadReason) (error : String)
  | native (config : JobWorkerConfig Error)
      (result : Option (Except (JobFailure Error) (JobOutcome Unit))) (now : Instant)

variable {Error : Type}

/-- The command that goes to the job's stream; none if the call is refused before. -/
def Settler.command (handle : JobClaimHandle) : Settler Error → Option JobCommand
  | acknowledge => (acknowledgeJob handle).toOption
  | retry runAtMs error => (retryJob handle runAtMs error).toOption
  | defer runAtMs => (deferJob handle runAtMs).toOption
  | deadLetter reason error => (deadLetterJob handle reason error).toOption
  | native config result now => ackCommand ⟨handle, config⟩ (ackPlan config result) now

/-- The job system, and the handles of the claims won so far. -/
structure State where
  jobs : JobSystem.State
  handles : List JobClaimHandle

/-- One operation; handles are named by their position, and may be used any number of times. -/
inductive Op (Error : Type) where
  | outside (op : JobSystem.Op)
  | claim (fault : Option SqliteJobError) (call : ClaimCall)
  | settle (i : ℕ) (settler : Settler Error)

/-- The handle a claim call returns. -/
def wonHandle : Except JobRuntimeError JobClaimResult → Option JobClaimHandle
  | .ok (.claimed handle _) => some handle
  | _ => none

/-- What an operation is to the job system. No settlement comes from outside. -/
def jobOp (s : State) : Op Error → Option JobSystem.Op
  | .outside (.settleLoad ..) => none
  | .outside op => some op
  | .claim fault call => some (.claim fault call)
  | .settle i settler => do
      let handle ← s.handles[i]?
      let command ← settler.command handle
      some (.settleLoad none handle.jobId command)

/-- The handle an operation adds. -/
def newHandle (s : State) : Op Error → Option JobClaimHandle
  | .claim fault call =>
      if call.mint ∈ s.jobs.claimIds then none else wonHandle (claimJobAs fault call s.jobs.db).1
  | _ => none

variable (K : CqrsEs)

def step (s : State) (op : Op Error) : State where
  jobs := match jobOp s op with
    | none => s.jobs
    | some op => JobSystem.step K s.jobs op
  handles := s.handles ++ (newHandle s op).toList

def machine (Error : Type) : Machine State (Op Error) := ⟨⟨(jobSystem K).init, []⟩, step K⟩

/-! ## The invariant -/

/-- A handle's claim stands in its job's stream, and the handle carries the attempt folded there. -/
structure HandleOk (bound : ℕ) (db : Db) (handle : JobClaimHandle) : Prop where
  attempt_lt : handle.attempt.toNat < bound
  claimed : ∃ i r worker lease st job, Represents db handle.jobId r ∧
    r.log[i]? = some (.claimed worker handle.claimId lease) ∧
    jobFold (r.log.take (i + 1)) = .live st ∧ st.fields? = some job ∧ job.attempt = handle.attempt

/-- A retry counts one more than the handle it comes from. -/
def RetryOk (bound : ℕ) (handle : JobClaimHandle) (command : JobCommand) : Prop :=
  ∀ claimId runAt attempt error, command = .retrySchedule claimId runAt attempt error →
    attempt.toNat = handle.attempt.toNat + 1 ∧ attempt.toNat < bound

/-- The settlement was made from the handle. -/
structure Backs (bound : ℕ) (db : Db) (task : SettleTask) (handle : JobClaimHandle) : Prop where
  ok : HandleOk bound db handle
  job : task.jobId = handle.jobId
  claim : task.command.claimId = handle.claimId
  retry : RetryOk bound handle task.command

structure Inv (bound : ℕ) (s : State) : Prop where
  jobs : JobSystem.Inv s.jobs
  logs : ∀ id r, Represents s.jobs.db id r → RetriesCounted bound r.log
  handles : ∀ handle ∈ s.handles, HandleOk bound s.jobs.db handle
  tasks : ∀ task ∈ s.jobs.settlements, ∃ handle, Backs bound s.jobs.db task handle

section Steps

variable {K : CqrsEs} {bound : ℕ}

theorem HandleOk.step {jobs : JobSystem.State} (inv : JobSystem.Inv jobs) {handle : JobClaimHandle}
    (h : HandleOk bound jobs.db handle) (op : JobSystem.Op) :
    HandleOk bound (JobSystem.step K jobs op).db handle := by
  obtain ⟨i, r, worker, lease, st, job, hr, hi, hst, hjob, hattempt⟩ := h.claimed
  obtain ⟨r', hr', hlog⟩ := (JobSystem.step_change inv op handle.jobId (K := K)).log_mono hr
  refine ⟨h.attempt_lt, i, r', worker, lease, st, job, hr', getElem?_mono hlog hi, ?_, hjob, hattempt⟩
  obtain ⟨rest, hrest⟩ := hlog
  have hlt : i + 1 ≤ r.log.length := (List.getElem?_eq_some_iff.1 hi).1
  rwa [← hrest, List.take_append_of_le_length hlt]

theorem Backs.step {jobs : JobSystem.State} (inv : JobSystem.Inv jobs) {task : SettleTask}
    {handle : JobClaimHandle} (h : Backs bound jobs.db task handle) (op : JobSystem.Op) :
    Backs bound (JobSystem.step K jobs op).db task handle :=
  ⟨h.ok.step inv op, h.job, h.claim, h.retry⟩

/-- The claim of a settlement that goes in is the last event, so its handle carries the attempt of
the whole history. -/
theorem Backs.attempt_eq {jobs : JobSystem.State} (inv : JobSystem.Inv jobs) {task : SettleTask}
    {handle : JobClaimHandle} (h : Backs bound jobs.db task handle) {r : JobRecord}
    (hr : Represents jobs.db task.jobId r) {worker : WorkerId} {lease : Instant}
    (hlast : r.log.getLast? = some (.claimed worker task.command.claimId lease))
    (hcounted : RetriesCounted bound r.log) : handle.attempt.toNat = retries r.log := by
  obtain ⟨i, r', worker', lease', st, job, hr', hi, hst, hjob, hattempt⟩ := h.ok.claimed
  rw [h.job] at hr
  obtain rfl := hr.unique hr'
  rw [List.getLast?_eq_getElem?, h.claim] at hlast
  obtain ⟨-, rfl⟩ := inv.unique ⟨r, _, _, hr, hi⟩ ⟨r, _, _, hr, hlast⟩
  rw [Nat.sub_add_cancel r.live.length_pos, List.take_length] at hst
  rw [← hattempt]
  exact hcounted.attempt st job hst hjob

/-- An operation of the job system keeps the invariant, if the settlement it loads comes from a
handle. -/
theorem Inv.jobStep (hbound : 0 < bound) {s : State} (inv : Inv bound s) (op : JobSystem.Op)
    (hload : ∀ caller jobId command, op = .settleLoad caller jobId command →
      ∃ handle ∈ s.handles, jobId = handle.jobId ∧ command.claimId = handle.claimId ∧
        RetryOk bound handle command) :
    Inv bound { s with jobs := JobSystem.step K s.jobs op } := by
  refine ⟨JobSystem.inv_step inv.jobs op, fun id r' hr' => ?_,
    fun handle hmem => (inv.handles handle hmem).step inv.jobs op, fun task hmem => ?_⟩
  · rcases (JobSystem.step_change inv.jobs op id (K := K)).log_cases inv.jobs.held hr' with
      ⟨r, hr, hlog⟩ | ⟨kind, payload, runAt, hlog⟩ | ⟨fault, call, out, r, -, -, hr, heffect⟩ |
      ⟨i, fault, clock, task, r, worker, lease, -, htask, rfl, hr, hlast, hlog⟩
    · exact hlog ▸ inv.logs id r hr
    · exact hlog ▸ RetriesCounted.enqueued hbound kind payload runAt
    · obtain ⟨e, st, job, hlog, -, -, -, hno⟩ := heffect.claims_lt
      rw [hlog]
      refine (inv.logs id r hr).concat r.live fun runAt attempt error he => ?_
      rw [he] at hno
      cases hno
    · obtain ⟨handle, hbacks⟩ := inv.tasks task (List.mem_of_getElem? htask)
      have hcounted := inv.logs task.jobId r hr
      have hattempt := hbacks.attempt_eq inv.jobs hr hlast hcounted
      rw [hlog]
      refine hcounted.concat r.live fun runAt attempt error he => ?_
      cases hcommand : task.command with
      | retrySchedule claimId runAt' attempt' error' =>
          rw [hcommand] at he
          obtain ⟨-, rfl, -⟩ := JobEvent.retryScheduled.inj he
          exact hattempt ▸ hbacks.retry _ _ _ _ hcommand
      | _ => rw [hcommand] at he; cases he
  · rcases JobSystem.step_settlements (K := K) hmem with hold | ⟨rfl, -, -⟩
    · obtain ⟨handle, hbacks⟩ := inv.tasks task hold
      exact ⟨handle, hbacks.step inv.jobs op⟩
    · obtain ⟨handle, hhandle, hjob, hclaim, hretry⟩ := hload _ _ _ rfl
      exact ⟨handle, (inv.handles handle hhandle).step inv.jobs _, hjob, hclaim, hretry⟩

/-- The handle of a won claim. -/
theorem handleOk_of_won {jobs : JobSystem.State} (inv : JobSystem.Inv jobs)
    (hlogs : ∀ id r, Represents jobs.db id r → RetriesCounted bound r.log)
    {fault : Option SqliteJobError} {call : ClaimCall} (hfresh : call.mint ∉ jobs.claimIds)
    {handle : JobClaimHandle}
    (hwon : wonHandle (claimJobAs fault call jobs.db).1 = some handle) :
    HandleOk bound (JobSystem.step K jobs (.claim fault call)).db handle := by
  rw [JobSystem.step, if_neg hfresh]
  rcases claimJobAs_cases inv.held fault call with
    ⟨hnothing, -⟩ | ⟨r, out, r', hr, hout, heffect, hrep, -⟩
  · rcases hnothing with ⟨-, h⟩ | ⟨_, -, h⟩ | h | h <;> rw [h] at hwon <;> cases hwon
  · rw [hout] at hwon
    cases heffect with
    | abandoned => cases hwon
    | @won st job leaseUntil hv live row fields runs budget lease =>
        obtain rfl := Option.some.inj hwon
        have hst : jobFold r.log = .live st := (JobRecord.rowState_eq hv).symm.trans row
        have hattempt := (hlogs _ r hr).attempt st job hst fields
        have hfold : jobFold (r.log ++ [call.event leaseUntil]) = .live (.claimed job.kind
            job.payload call.worker call.mint job.runAt job.attempt (job.claims + 1)) :=
          (liveLog_concat_iff hst).2 (evolve_claimed fields _ _ _)
        refine ⟨?_, r.log.length, _, call.worker, leaseUntil,
          .claimed job.kind job.payload call.worker call.mint job.runAt job.attempt (job.claims + 1),
          ⟨job.kind, job.payload, job.runAt, job.attempt, job.claims + 1⟩, hrep, ?_, ?_, rfl, rfl⟩
        · show job.attempt.toNat < bound
          exact hattempt ▸ (hlogs _ r hr).retries_lt
        · exact List.getElem?_concat_length ..
        · rw [JobRecord.appendWithRow_log, List.take_of_length_le (by simp)]
          exact hfold

/-- What every settlement made in an operation must do: a retry counts one more than its handle. -/
def Within (bound : ℕ) (s : State) (op : Op Error) : Prop :=
  ∀ i settler handle command, op = .settle i settler → s.handles[i]? = some handle →
    handle.attempt.toNat < bound → settler.command handle = some command →
    RetryOk bound handle command

/-- Every settlement carries the claim of its handle. -/
theorem Settler.command_claimId {settler : Settler Error} {handle : JobClaimHandle}
    {command : JobCommand} (h : settler.command handle = some command) :
    command.claimId = handle.claimId := by
  cases settler with
  | acknowledge | deadLetter =>
      obtain rfl := Option.some.inj h
      rfl
  | retry runAtMs error =>
      obtain ⟨runAt, -, hretry⟩ := Except.bind_eq_ok.1 (Except.toOption_eq_some.1 h)
      split_ifs at hretry
      obtain rfl := Except.ok.inj hretry
      rfl
  | defer runAtMs =>
      obtain ⟨runAt, -, hdefer⟩ := Except.bind_eq_ok.1 (Except.toOption_eq_some.1 h)
      obtain rfl := Except.ok.inj hdefer
      rfl
  | native config result now =>
      simp only [Settler.command, ackCommand] at h
      split at h
      · obtain rfl := Option.some.inj h
        rfl
      · obtain ⟨runAt, -, rfl⟩ := Option.map_eq_some_iff.1 h
        rfl
      · obtain rfl := Option.some.inj h
        rfl
      · split_ifs at h
        · obtain rfl := Option.some.inj h
          rfl
        · obtain ⟨runAt, -, rfl⟩ := Option.map_eq_some_iff.1 h
          rfl

/-- The settlements the job system sees are made from handles. -/
theorem jobOp_settleLoad {s : State} {op : Op Error} {caller : Option ℕ} {jobId : JobId}
    {command : JobCommand} (h : jobOp s op = some (.settleLoad caller jobId command)) :
    ∃ i settler handle, op = .settle i settler ∧ s.handles[i]? = some handle ∧
      settler.command handle = some command ∧ jobId = handle.jobId := by
  cases op with
  | outside op => cases op <;> cases h
  | claim => cases h
  | settle i settler =>
      obtain ⟨handle, hhandle, hrest⟩ := Option.bind_eq_some_iff.1 h
      obtain ⟨command', hcommand, heq⟩ := Option.bind_eq_some_iff.1 hrest
      obtain ⟨-, rfl, rfl⟩ := JobSystem.Op.settleLoad.inj (Option.some.inj heq)
      exact ⟨i, settler, handle, rfl, hhandle, hcommand, rfl⟩

theorem newHandle_eq_some {s : State} {op : Op Error} {handle : JobClaimHandle}
    (h : newHandle s op = some handle) :
    ∃ fault call, op = .claim fault call ∧ call.mint ∉ s.jobs.claimIds ∧
      wonHandle (claimJobAs fault call s.jobs.db).1 = some handle := by
  cases op with
  | claim fault call =>
      rw [newHandle] at h
      split_ifs at h with hfresh
      exact ⟨fault, call, rfl, hfresh, h⟩
  | _ => cases h

theorem inv_step (hbound : 0 < bound) {s : State} (inv : Inv bound s) (op : Op Error)
    (hop : Within bound s op) : Inv bound (step K s op) := by
  have hjobs : Inv bound { s with jobs := (step K s op).jobs } := by
    cases hjob : jobOp s op with
    | none =>
        simp only [step, hjob]
        exact inv
    | some op' =>
        simp only [step, hjob]
        refine inv.jobStep hbound op' fun caller jobId command hload => ?_
        obtain ⟨i, settler, handle, rfl, hhandle, hcommand, rfl⟩ := jobOp_settleLoad (hload ▸ hjob)
        have hmem := List.mem_of_getElem? hhandle
        exact ⟨handle, hmem, rfl, Settler.command_claimId hcommand,
          hop i settler handle command rfl hhandle (inv.handles handle hmem).attempt_lt hcommand⟩
  refine ⟨hjobs.jobs, hjobs.logs, fun handle hmem => ?_, hjobs.tasks⟩
  rcases List.mem_append.1 hmem with hold | hnew
  · exact hjobs.handles handle hold
  · obtain ⟨fault, call, rfl, hfresh, hwon⟩ := newHandle_eq_some (Option.mem_toList.1 hnew)
    exact handleOk_of_won (K := K) inv.jobs inv.logs hfresh hwon

theorem inv_run (hbound : 0 < bound) {ops : List (Op Error)}
    (hops : (machine K Error).Meets (Within bound) (machine K Error).init ops) :
    Inv bound ((machine K Error).run ops) := by
  refine Machine.run_invariant_of_meets (m := machine K Error) (P := Inv bound) ?_
    (fun s op inv hop => inv_step hbound inv op hop) hops
  refine ⟨JobSystem.inv_init, fun id r hr => ?_, List.forall_mem_nil _, List.forall_mem_nil _⟩
  exact absurd hr (⟨rfl, rfl⟩ : Absent .empty id).not_represents

end Steps

/-! ## Which settlements count right -/

/-- A native worker with a retry budget does not record a transient failure of a claim whose attempt
is the largest there is. The facade refuses such a retry itself. -/
def noWrap (s : State) : Op Error → Prop
  | .settle i (.native config result _) => ∀ handle text, s.handles[i]? = some handle →
      ackPlan config result = .failed text → config.maxAttempts ≠ 0 →
      handle.attempt.toNat + 1 < UInt32.size
  | _ => True

/-- Every settlement is a native worker's, under one retry budget. -/
def nativeOnly (maxAttempts : UInt32) (_ : State) : Op Error → Prop
  | .settle _ (.native config _ _) => config.maxAttempts = maxAttempts
  | .settle _ _ => False
  | _ => True

/-- A retry adds one to the handle's attempt; the facade checks the addition, a native worker only
compares it with its budget. -/
theorem Settler.command_retry {settler : Settler Error} {handle : JobClaimHandle} {claimId : ClaimId}
    {runAt : Instant} {attempt : UInt32} {error : String}
    (h : settler.command handle = some (.retrySchedule claimId runAt attempt error)) :
    attempt = handle.attempt + 1 ∧
      match settler with
      | .native config result _ =>
          (∃ text, ackPlan config result = .failed text) ∧ attempt < config.maxAttempts
      | _ => handle.attempt.toNat + 1 < UInt32.size := by
  cases settler with
  | acknowledge | deadLetter => cases Option.some.inj h
  | retry runAtMs error =>
      obtain ⟨runAt, -, hretry⟩ := Except.bind_eq_ok.1 (Except.toOption_eq_some.1 h)
      split_ifs at hretry with hroom
      obtain ⟨-, -, rfl, -⟩ := JobCommand.retrySchedule.inj (Except.ok.inj hretry)
      exact ⟨rfl, hroom⟩
  | defer runAtMs =>
      obtain ⟨runAt, -, hdefer⟩ := Except.bind_eq_ok.1 (Except.toOption_eq_some.1 h)
      cases Except.ok.inj hdefer
  | native config result now =>
      simp only [Settler.command, ackCommand] at h
      split at h
      · cases Option.some.inj h
      · obtain ⟨_, -, hcommand⟩ := Option.map_eq_some_iff.1 h
        cases hcommand
      · cases Option.some.inj h
      next text hplan =>
        split_ifs at h with hfinal
        · cases Option.some.inj h
        · obtain ⟨_, -, hcommand⟩ := Option.map_eq_some_iff.1 h
          obtain ⟨-, -, rfl, -⟩ := JobCommand.retrySchedule.inj hcommand
          exact ⟨rfl, ⟨text, hplan⟩, UInt32.not_le.1 hfinal⟩

theorem toNat_succ {attempt : UInt32} (h : attempt.toNat + 1 < UInt32.size) :
    (attempt + 1).toNat = attempt.toNat + 1 := by
  rw [UInt32.toNat_add]
  exact Nat.mod_eq_of_lt h

theorem within_of_noWrap {s : State} {op : Op Error} (h : noWrap s op) :
    Within UInt32.size s op := by
  rintro i settler handle command rfl hhandle - hcommand claimId runAt attempt error rfl
  obtain ⟨rfl, hroom⟩ := Settler.command_retry hcommand
  have hroom : handle.attempt.toNat + 1 < UInt32.size := by
    cases settler with
    | native config result now =>
        obtain ⟨⟨text, hplan⟩, hlt⟩ := hroom
        refine h handle text hhandle hplan fun hzero => ?_
        rw [hzero] at hlt
        exact absurd hlt UInt32.not_lt_zero
    | _ => exact hroom
  exact ⟨toNat_succ hroom, (handle.attempt + 1).toNat_lt⟩

theorem within_of_nativeOnly {s : State} {op : Op Error} {maxAttempts : UInt32}
    (h : nativeOnly maxAttempts s op) : Within maxAttempts.toNat s op := by
  rintro i settler handle command rfl hhandle hattempt hcommand claimId runAt attempt error rfl
  obtain ⟨rfl, hroom⟩ := Settler.command_retry hcommand
  have hsucc : (handle.attempt + 1).toNat = handle.attempt.toNat + 1 :=
    toNat_succ (lt_of_le_of_lt hattempt maxAttempts.toNat_lt)
  refine ⟨hsucc, ?_⟩
  cases settler with
  | native config result now =>
      rw [nativeOnly] at h
      exact UInt32.lt_iff_toNat_lt.1 (h ▸ hroom.2)
  | _ => exact h.elim

/-! ## Rounds of claiming and settling -/

section Rounds

variable {K : CqrsEs}

/-- Nothing is in flight and the job's row is up to date. -/
structure Ready (s : State) (id : JobId) (log : List JobEvent) : Prop where
  inv : JobSystem.Inv s.jobs
  rep : ∃ r, Represents s.jobs.db id r ∧ r.log = log ∧ r.version = r.log.length
  settlements : s.jobs.settlements = []
  reacts : s.jobs.reacts = []
  snapshot : ((s.jobs.db.snapshots.lookup (jobStream id)).map SnapshotRow.snapshotVersion).getD 0 ≤
    log.length

/-- Claim the job, settle the claim, and let the reactor follow. The claim's handle is the `n`th. -/
def round (n : ℕ) (call : ClaimCall) (settler : Settler Error) : List (Op Error) :=
  [.claim none call, .settle n settler, .outside (.settleCommit 0 none fun _ => 0),
    .outside (.reactLoad 0), .outside (.reactUpdate 0)]

/-- The reactor brings the row up to date. -/
theorem ready_reacted {s : State} {id : JobId} {log : List JobEvent} {e : JobEvent}
    (inv : JobSystem.Inv s.jobs) (hsettlements : s.jobs.settlements = [])
    (hreacts : s.jobs.reacts = [⟨id, e, 0, none⟩]) {r : JobRecord}
    (hr : Represents s.jobs.db id r) (hlog : r.log = log ++ [e]) (hv : r.version = log.length)
    (hsnapshot : ((s.jobs.db.snapshots.lookup (jobStream id)).map
      SnapshotRow.snapshotVersion).getD 0 ≤ r.log.length) :
    Ready ((machine K Error).exec s [.outside (.reactLoad 0), .outside (.reactUpdate 0)]) id
      (log ++ [e]) := by
  let task : JobReactTask := ⟨id, e, 0, none⟩
  let loaded : JobReactTask := ⟨id, e, 0, some (r.rowState, ⟨id, r.version⟩)⟩
  have hload : JobSystem.step K s.jobs (.reactLoad 0) = { s.jobs with reacts := [loaded] } := by
    have htask : s.jobs.reacts[0]? = some task := by rw [hreacts]; rfl
    have hnext : reactLoad jobEntity s.jobs.db.jobQueue task = some loaded := reactLoad_represented hr
    rw [JobSystem.step_reactLoad K htask, hnext, hreacts]
    rfl
  have hupdate : JobSystem.step K { s.jobs with reacts := [loaded] } (.reactUpdate 0) =
      { s.jobs with db := s.jobs.db.setRow id (projectedRow r), reacts := [] } := by
    have hlag : r.log.length = r.version + 1 := by rw [hlog, hv]; simp
    have hevent : r.log[r.version]? = some e := by rw [hlog, hv, List.getElem?_concat_length]
    have hnext : reactUpdate jobEntity s.jobs.db.jobQueue loaded (r.rowState, ⟨id, r.version⟩) =
        (none, (s.jobs.db.setRow id (projectedRow r)).jobQueue) :=
      reactUpdate_represented hr hlag hevent
    have hstep := JobSystem.step_reactUpdate K (s := { s.jobs with reacts := [loaded] })
      (i := 0) rfl rfl
    rw [hstep]
    dsimp only
    rw [hnext]
    rfl
  have hinv := JobSystem.inv_step (JobSystem.inv_step inv (.reactLoad 0) (K := K)) (.reactUpdate 0)
    (K := K)
  rw [hload, hupdate] at hinv
  have hexec : (machine K Error).exec s [.outside (.reactLoad 0), .outside (.reactUpdate 0)] =
      ⟨{ s.jobs with db := s.jobs.db.setRow id (projectedRow r), reacts := [] }, s.handles⟩ := by
    simp only [machine, Machine.exec_cons, Machine.exec_nil, step, jobOp, newHandle, hload, hupdate,
      Option.toList_none, List.append_nil]
  rw [hexec]
  exact ⟨hinv, ⟨r.project, represents_setRow_project hr, hlog, rfl⟩, hsettlements, rfl,
    hlog ▸ hsnapshot⟩

/-- The settlement of a fresh claim goes in. -/
theorem ready_settled {s : State} {id : JobId} {r : JobRecord} {settler : Settler Error}
    {command : JobCommand} {handle : JobClaimHandle} {n : ℕ} {st : JobState}
    (inv : JobSystem.Inv s.jobs) (hsettlements : s.jobs.settlements = [])
    (hreacts : s.jobs.reacts = []) (hr : Represents s.jobs.db id r)
    (hsnapshot : ((s.jobs.db.snapshots.lookup (jobStream id)).map
      SnapshotRow.snapshotVersion).getD 0 ≤ r.log.length)
    (hn : s.handles[n]? = some handle) (hid : handle.jobId = id)
    (hcommand : settler.command handle = some command) (hst : jobFold r.log = .live st)
    (hheld : st.holder = some command.claimId) (hroom : r.log.length < i64Max) :
    Ready ((machine K Error).exec s [.settle n settler, .outside (.settleCommit 0 none fun _ => 0),
      .outside (.reactLoad 0), .outside (.reactUpdate 0)]) id (r.log ++ [command.event]) := by
  subst hid
  let version := (s.jobs.db.snapshots.lookup (jobStream handle.jobId)).map SnapshotRow.snapshotVersion
  let task : SettleTask := ⟨none, handle.jobId, command, ⟨jobFold r.log, r.log.length, version⟩⟩
  have hload : JobSystem.step K s.jobs (.settleLoad none handle.jobId command) =
      { s.jobs with settlements := [task] } := by
    simp only [JobSystem.step, if_neg hr.rows_ne_nil, loadFold_represented hr, hsettlements,
      List.nil_append]
    rfl
  obtain ⟨happlied, hwrites⟩ := task.commit_applied hr rfl hst hheld hroom
    (lt_of_le_of_lt hsnapshot hroom) K fun _ => 0
  have hloaded : task.LoadedFrom r := ⟨by rw [List.take_length], r.live.length_pos, le_rfl⟩
  rcases task.commit_cases hr hloaded K none (fun _ => 0) with
    ⟨hnot, -⟩ | ⟨-, hv', live, worker, lease, hlast, hrep, -⟩
  · exact absurd happlied hnot
  have hcommit : JobSystem.step K { s.jobs with settlements := [task] }
      (.settleCommit 0 none fun _ => 0) =
        { s.jobs with
          db := (task.commit K none (fun _ => 0) s.jobs.db).2
          settlements := []
          reacts := [⟨handle.jobId, command.event, 0, none⟩] } := by
    have hstep := JobSystem.step_settleCommit K (s := { s.jobs with settlements := [task] }) (i := 0)
      rfl none (fun _ => 0)
    rw [hstep]
    dsimp only
    rw [if_pos happlied, hreacts]
    rfl
  have hinv := JobSystem.inv_step (JobSystem.inv_step inv
    (.settleLoad none handle.jobId command) (K := K)) (.settleCommit 0 none fun _ => 0) (K := K)
  rw [hload, hcommit] at hinv
  have hexec : (machine K Error).exec s [.settle n settler,
      .outside (.settleCommit 0 none fun _ => 0)] =
        ⟨{ s.jobs with
            db := (task.commit K none (fun _ => 0) s.jobs.db).2
            settlements := []
            reacts := [⟨handle.jobId, command.event, 0, none⟩] }, s.handles⟩ := by
    have hop : jobOp s (.settle n settler) = some (.settleLoad none handle.jobId command) := by
      simp only [jobOp, hn, hcommand, Option.bind_eq_bind, Option.bind_some]
    simp only [machine, Machine.exec_cons, Machine.exec_nil, step, hop, hload]
    simp only [jobOp, newHandle, hcommit, Option.toList_none, List.append_nil]
  have hbound : (((task.commit K none (fun _ => 0) s.jobs.db).2.snapshots.lookup
      (jobStream handle.jobId)).map SnapshotRow.snapshotVersion).getD 0 ≤
        (r.log ++ [command.event]).length := by
    rw [List.length_append, List.length_singleton]
    rcases hwrites with hsame | ⟨row, hrow, hnumber⟩
    · rw [hsame]
      exact hsnapshot.trans (Nat.le_succ _)
    · rw [hrow, Option.map_some, Option.getD_some, hnumber]
      exact Nat.succ_le_succ hsnapshot
  have hready : Ready ((machine K Error).exec
      ⟨{ s.jobs with
          db := (task.commit K none (fun _ => 0) s.jobs.db).2
          settlements := []
          reacts := [⟨handle.jobId, command.event, 0, none⟩] }, s.handles⟩
      [.outside (.reactLoad 0), .outside (.reactUpdate 0)]) handle.jobId
        (r.log ++ [command.event]) :=
    ready_reacted hinv rfl rfl hrep rfl hv' hbound
  rwa [← hexec, ← Machine.exec_append] at hready

/-- A due job is claimed and settled as its settler says. -/
theorem ready_round {s : State} {call : ClaimCall} {log : List JobEvent} {settler : Settler Error}
    {command : JobCommand} {st : JobState} {job : JobFields} (h : Ready s call.jobId log)
    (hst : jobFold log = .live st) (hjob : st.fields? = some job)
    (hrun : ∀ lease, runnable st lease call.nowMs) (hpolicy : call.policyValid)
    (hbudget : job.claims < call.maxClaims) (hfresh : call.mint ∉ s.jobs.claimIds)
    (hroom : log.length + 1 < i64Max)
    (hcommand : settler.command ⟨call.jobId, (log.length + 1 : ℕ), call.mint, job.attempt⟩ =
      some command) :
    ∃ lease, Ready ((machine K Error).exec s (round s.handles.length call settler)) call.jobId
      (log ++ [call.event lease] ++ [command.event]) := by
  obtain ⟨r, hr, rfl, hv⟩ := h.rep
  obtain ⟨lease, db', r', hclaim, hr', hlog', hv', hsnapshots⟩ :=
    claimJobAs_wins hr hv hst hjob (hrun _) hpolicy hbudget (by omega)
  let handle : JobClaimHandle :=
    ⟨call.jobId, (r.log.length + 1 : ℕ), call.mint, job.attempt⟩
  have hstep : step K s (.claim none call : Op Error) =
      ⟨{ s.jobs with db := db', claimIds := call.mint :: s.jobs.claimIds }, s.handles ++ [handle]⟩ := by
    simp only [step, jobOp, newHandle, JobSystem.step, if_neg hfresh, hclaim, wonHandle,
      Option.toList_some]
    rfl
  have hinv := JobSystem.inv_step h.inv (.claim none call) (K := K)
  rw [JobSystem.step, if_neg hfresh, hclaim] at hinv
  have hfold : jobFold r'.log = .live (.claimed job.kind job.payload call.worker call.mint job.runAt
      job.attempt (job.claims + 1)) := by
    rw [hlog']
    exact (liveLog_concat_iff hst).2 (evolve_claimed hjob _ _ _)
  have hlength : r'.log.length = r.log.length + 1 := by rw [hlog']; simp
  have hheld : command.claimId = call.mint := Settler.command_claimId hcommand
  have hready : Ready ((machine K Error).exec
      ⟨{ s.jobs with db := db', claimIds := call.mint :: s.jobs.claimIds }, s.handles ++ [handle]⟩
      [.settle s.handles.length settler, .outside (.settleCommit 0 none fun _ => 0),
        .outside (.reactLoad 0), .outside (.reactUpdate 0)]) call.jobId (r'.log ++ [command.event]) :=
    ready_settled hinv h.settlements h.reacts hr'
      (by rw [hlength]; exact (hsnapshots ▸ h.snapshot).trans (Nat.le_succ _))
      List.getElem?_concat_length rfl hcommand hfold (congrArg some hheld.symm) (by omega)
  refine ⟨lease, ?_⟩
  rw [← hstep, hlog'] at hready
  exact hready

end Rounds

/-! ## Overflow -/

section Overflow

theorem exists_fresh (ids : List ClaimId) : ∃ mint, mint ∉ ids := by
  obtain ⟨mint, hmint⟩ := Infinite.exists_notMem_finset ids.toFinset
  exact ⟨mint, by simpa using hmint⟩

/-- A claim at the epoch for a millisecond, under the largest budget. -/
def epochClaim (mint : ClaimId) : ClaimCall := ⟨"job", "worker", 0, 1, 4294967295, mint⟩

def epoch : Instant := .ofUInt32 0

/-- A job due at the epoch, claimed `claims` times since it was last deferred. -/
def DueJob (ops : List (Op Error)) (log : List JobEvent) (attempt claims : UInt32) : Prop :=
  Ready ((machine K Error).run ops) "job" log ∧
    jobFold log = .live (.pending "kind" .null epoch attempt claims)

/-- A claim that fails to record anything but a new due time leaves such a job. -/
theorem dueJob_round {ops : List (Op Error)} {log : List JobEvent} {attempt claims : UInt32}
    (h : DueJob K ops log attempt claims) (hclaims : claims < 4294967295)
    (hroom : log.length + 1 < i64Max) (settler : Settler Error) (event : JobEvent)
    (hcommand : ∀ handle : JobClaimHandle, handle.attempt = attempt →
      ∃ command, settler.command handle = some command ∧ command.event = event)
    {attempt' claims' : UInt32}
    (hevent : ∀ c, (JobState.claimed "kind" .null "worker" c epoch attempt (claims + 1)).evolve event =
      .ok (some (.pending "kind" .null epoch attempt' claims'))) :
    ∃ ops' claimed, claimed.isClaimed ∧
      DueJob K (ops ++ ops') (log ++ [claimed] ++ [event]) attempt' claims' := by
  obtain ⟨hready, hst⟩ := h
  obtain ⟨mint, hfresh⟩ := exists_fresh ((machine K Error).run ops).jobs.claimIds
  obtain ⟨command, hsettles, rfl⟩ :=
    hcommand ⟨"job", (log.length + 1 : ℕ), mint, attempt⟩ rfl
  have hready : Ready _ (epochClaim mint).jobId log := hready
  obtain ⟨lease, hnext⟩ := ready_round (K := K) hready hst rfl (fun _ => rfl) rfl hclaims hfresh
    hroom hsettles
  refine ⟨_, _, rfl, by rw [Machine.run_append]; exact hnext, ?_⟩
  have hclaim : jobFold (log ++ [(epochClaim mint).event lease]) =
      .live (.claimed "kind" .null "worker" mint epoch attempt (claims + 1)) :=
    (liveLog_concat_iff hst).2 rfl
  exact (liveLog_concat_iff hclaim).2 (hevent mint)

theorem dueJob_enqueued : DueJob K
    [(.outside (.enqueue none ⟨"job", "kind", .null, 0⟩) : Op Error)]
    [.enqueued "kind" .null epoch] 0 0 := by
  obtain ⟨db, henqueue, hrep, -⟩ := enqueueJob_absent (⟨rfl, rfl⟩ : Absent Db.empty "job") "kind"
    .null epoch
  have hdb : (enqueueJobPayload none ⟨"job", "kind", .null, 0⟩ Db.empty).2 = db := by
    have hpayload : enqueueJobPayload none ⟨"job", "kind", .null, 0⟩ Db.empty =
        ((enqueueJob none ((JobEvent.enqueued "kind" .null epoch).serialized "job" 1)
          (liveJson (.pending "kind" .null epoch 0 0)) Db.empty).1.mapError .backend,
        (enqueueJob none ((JobEvent.enqueued "kind" .null epoch).serialized "job" 1)
          (liveJson (.pending "kind" .null epoch 0 0)) Db.empty).2) := rfl
    rw [hpayload, henqueue]
  refine ⟨⟨JobSystem.inv_step JobSystem.inv_init (.enqueue none ⟨"job", "kind", .null, 0⟩) (K := K),
    ⟨.enqueue "kind" .null epoch, ?_, rfl, rfl⟩, rfl, rfl, Nat.zero_le _⟩, rfl⟩
  change Represents (enqueueJobPayload none ⟨"job", "kind", .null, 0⟩ Db.empty).2 "job" _
  exact hdb ▸ hrep

/-- A worker that retries a failure at once. -/
def eagerConfig : JobWorkerConfig Unit where
  maxAttempts := 5
  maxClaims := 50
  executionTimeout := "1s"
  backoff _ := 0
  retryDelay := 0
  refusedBackoff := 0
  decodes _ := true
  errorChain _ := "error"
  failureChain _ := "failure"

/-- The facade can retry a job as often as the attempt counts. -/
theorem exists_dueJob (n : ℕ) (hn : n < UInt32.size) : ∃ (ops : List (Op Error)) (log : List JobEvent),
    DueJob K ops log (.ofNat n) 0 ∧ retries log = n ∧ log.length = 4 * n + 1 := by
  induction n with
  | zero => exact ⟨_, _, dueJob_enqueued K, rfl, rfl⟩
  | succ n ih =>
      obtain ⟨ops, log, hdue, hretries, hlength⟩ := ih (Nat.lt_of_succ_lt hn)
      have hattempt : (UInt32.ofNat n).toNat = n := UInt32.toNat_ofNat_of_lt' (Nat.lt_of_succ_lt hn)
      have hroom : log.length + 4 < i64Max := by
        have : i64Max = 2 ^ 63 - 1 := rfl
        have : UInt32.size = 2 ^ 32 := rfl
        omega
      -- one claim that is retried, and one that is deferred to make room for more claims
      obtain ⟨retry, claimed, hclaimed, hretried⟩ := dueJob_round K hdue (by decide) (by omega)
        (.retry 0 "") (.retryScheduled epoch (.ofNat n + 1) "")
        (fun handle hhandle => ⟨.retrySchedule handle.claimId epoch (handle.attempt + 1) "", by
          have hfits : handle.attempt.toNat + 1 < UInt32.size := by rw [hhandle, hattempt]; exact hn
          have hretry : retryJob handle 0 "" =
              if handle.attempt.toNat + 1 < UInt32.size then
                .ok (.retrySchedule handle.claimId epoch (handle.attempt + 1) "")
              else .error .attemptExhausted := rfl
          rw [Settler.command, hretry, if_pos hfits]
          rfl, by rw [hhandle]; rfl⟩) (fun _ => rfl)
      obtain ⟨defer, claimed', hclaimed', hdeferred⟩ := dueJob_round K hretried (by decide)
        (by simp; omega) (.defer 0) (.rescheduled epoch)
        (fun handle _ => ⟨.reschedule handle.claimId epoch, rfl, rfl⟩) (fun _ => rfl)
      refine ⟨_, _, (UInt32.ofNat_add n 1).symm ▸ hdeferred, ?_, ?_⟩
      · simp only [retries_concat, hretries, JobEvent.isRetryScheduled_of_isClaimed hclaimed,
          JobEvent.isRetryScheduled_of_isClaimed hclaimed']
        rfl
      · simp
        omega

end Overflow

/-! ## What the counters count -/

section Counters

/-- The jobs of a run are those of a run of the job system. -/
theorem exists_jobSystem_run (ops : List (Op Error)) :
    ∃ ops', ((machine K Error).run ops).jobs = (jobSystem K).run ops' := by
  induction ops using List.reverseRecOn with
  | nil => exact ⟨[], rfl⟩
  | append_singleton ops op ih =>
      obtain ⟨ops', hjobs⟩ := ih
      rw [Machine.run_concat]
      change ∃ ops', (step K _ op).jobs = _
      rw [step]
      cases jobOp ((machine K Error).run ops) op with
      | none => exact ⟨ops', hjobs⟩
      | some op' => exact ⟨ops' ++ [op'], by rw [Machine.run_concat, ← hjobs]; rfl⟩

/-- **The counters count events.** The attempt counts retries as long as no native worker's retry
wraps; the claim count counts the claims since the last defer, and a job is abandoned only when it
is at the budget. Under native workers with one retry budget the retries stay below it, and the
failure that would reach it ends the job. -/
theorem counters_count_events (ops : List (Op Error)) (id : JobId) :
    ∃ log, JobHistory ((machine K Error).run ops).jobs.db id log ∧
      ((machine K Error).Meets noWrap (machine K Error).init ops →
        ∀ st job, jobFold log = .live st → st.fields? = some job →
          job.attempt.toNat = retries log) ∧
      ClaimsCounted log ∧
      (∀ fault call text, JobHistory (step K ((machine K Error).run ops)
          (.claim fault call : Op Error)).jobs.db id (log ++ [.dead .abandoned text]) →
        call.maxClaims.toNat ≤ claimsSince JobEvent.isRescheduled log) ∧
      ∀ maxAttempts, 1 ≤ maxAttempts →
        (machine K Error).Meets (nativeOnly maxAttempts) (machine K Error).init ops →
        retries log ≤ maxAttempts.toNat - 1 ∧
        ∀ handle ∈ ((machine K Error).run ops).handles, ∀ (config : JobWorkerConfig Error)
          result text now, config.maxAttempts = maxAttempts → ackPlan config result = .failed text →
          maxAttempts.toNat ≤ handle.attempt.toNat + 1 →
          (Settler.native config result now).command handle =
              some (.kill handle.claimId .retriesExhausted text) ∧
            ∀ task ∈ ((machine K Error).run ops).jobs.settlements, task.jobId = id →
              task.command = .kill handle.claimId .retriesExhausted text → ∀ fault clock,
              (task.commit K fault clock ((machine K Error).run ops).jobs.db).1 = .applied →
              JobHistory (task.commit K fault clock ((machine K Error).run ops).jobs.db).2 id
                (log ++ [.dead .retriesExhausted text]) := by
  obtain ⟨ops', hjobs⟩ := exists_jobSystem_run K ops
  obtain ⟨inv, hcounted⟩ := hjobs ▸ claimsCounted_run K ops'
  obtain ⟨log, hlog, hrep⟩ := JobHistory.exists inv.held id
  have hempty : log = [] → ∀ st, jobFold log ≠ .live st := by
    rintro rfl st h
    cases h
  refine ⟨log, hlog, fun hops st job hst hjob => ?_, fun st job hst hjob => ?_,
    fun fault call text hdead => ?_, fun maxAttempts hmax hops => ⟨?_, ?_⟩⟩
  · obtain ⟨r, hr, rfl⟩ := hrep.resolve_left fun h => hempty h st hst
    exact ((inv_run (by decide) (hops.imp fun _ _ => within_of_noWrap)).logs id r hr).attempt st job
      hst hjob
  · obtain ⟨r, hr, rfl⟩ := hrep.resolve_left fun h => hempty h st hst
    exact hcounted id r hr st job hst hjob
  · have hdead : JobHistory (JobSystem.step K ((machine K Error).run ops).jobs
        (.claim fault call)).db id (log ++ [.dead .abandoned text]) := hdead
    obtain ⟨-, r, r', hr, rfl, heffect⟩ := ClaimEffect.of_abandoned inv hlog hdead
    exact (heffect.abandoned_count (hcounted id r hr)).2
  · have hpos : 0 < maxAttempts.toNat := UInt32.le_iff_toNat_le.1 hmax
    rcases hrep with rfl | ⟨r, hr, rfl⟩
    · exact Nat.zero_le _
    · exact Nat.le_sub_one_of_lt
        ((inv_run hpos (hops.imp fun _ _ => within_of_nativeOnly)).logs id r hr).retries_lt
  · intro handle hmem config result text now hconfig hplan hlast
    have hpos : 0 < maxAttempts.toNat := UInt32.le_iff_toNat_le.1 hmax
    have hlt := ((inv_run hpos (hops.imp fun _ _ => within_of_nativeOnly)).handles handle
      hmem).attempt_lt
    have hfailed : config.maxAttempts ≤ handle.attempt + 1 := by
      rw [UInt32.le_iff_toNat_le, hconfig,
        toNat_succ (lt_of_le_of_lt (Nat.succ_le_of_lt hlt) maxAttempts.toNat_lt)]
      exact hlast
    refine ⟨?_, fun task htask hid hcommand fault clock happlied => ?_⟩
    · simp only [Settler.command, hplan, ackCommand, if_pos hfailed]
    · obtain ⟨r, hr, hload⟩ := inv.settlements task htask
      rcases SettleTask.commit_cases hr hload K fault clock with ⟨hnot, -⟩ |
        ⟨-, hv, live, worker, lease, -, hrep', -⟩
      · exact absurd happlied hnot
      · subst hid
        obtain rfl := hlog.unique hr.stream
        have hstream := hrep'.stream
        rw [JobRecord.appendEvent_log, hcommand] at hstream
        exact hstream

/-- **The attempt wraps.** Once the facade has retried a job as often as a 32-bit attempt counts, a
native worker's retry starts the count again. -/
theorem native_retry_wraps_attempt : ∃ (ops : List (Op Unit)) (log : List JobEvent) (st : JobState)
    (job : JobFields), JobHistory ((machine .atMultiples Unit).run ops).jobs.db "job" log ∧
      jobFold log = .live st ∧ st.fields? = some job ∧ job.attempt = 0 ∧
      retries log = 4294967296 := by
  obtain ⟨ops, log, hdue, hretries, hlength⟩ : ∃ (ops : List (Op Unit)) (log : List JobEvent),
      DueJob .atMultiples ops log (.ofNat 4294967295) 0 ∧ retries log = 4294967295 ∧
        log.length = 4 * 4294967295 + 1 := exists_dueJob .atMultiples 4294967295 (by decide)
  obtain ⟨retry, claimed, hclaimed, ⟨-, ⟨r, hr, hlog, -⟩, -, -, -⟩, hst⟩ :=
    dueJob_round .atMultiples hdue (by decide) (by rw [hlength]; decide)
      (.native eagerConfig none epoch) (.retryScheduled epoch 0 "job execution exceeded 1s")
      (fun handle hhandle => ⟨.retrySchedule handle.claimId epoch 0 "job execution exceeded 1s", by
        have hwraps : UInt32.ofNat 4294967295 + 1 = 0 := by decide
        have hbudget : ¬ eagerConfig.maxAttempts ≤ 0 := by decide
        simp only [Settler.command, ackPlan, ackCommand, hhandle, hwraps, if_neg hbudget]
        rfl, rfl⟩) (fun _ => rfl)
  refine ⟨_, _, _, _, hlog ▸ hr.stream, hst, rfl, rfl, ?_⟩
  rw [retries_concat, retries_concat, hretries, JobEvent.isRetryScheduled_of_isClaimed hclaimed]
  rfl

end Counters

end JobCounters

/-! ## Claims without an outcome -/

/-- Whether a retry was scheduled since the job was last deferred, or since the start. -/
def retriedSince (log : List JobEvent) : Bool :=
  (log.rtakeWhile fun e => !e.isRescheduled).any JobEvent.isRetryScheduled

theorem retriedSince_concat (log : List JobEvent) (e : JobEvent) :
    retriedSince (log ++ [e]) =
      if e.isRescheduled then false else retriedSince log || e.isRetryScheduled := by
  rw [retriedSince, List.rtakeWhile_concat]
  cases e.isRescheduled with
  | true => rfl
  | false => simp [retriedSince]

/-- Without a retry in between, the claims since the last outcome are those since the last defer. -/
theorem claimsSince_isOutcome_eq {log : List JobEvent} (h : retriedSince log = false) :
    claimsSince JobEvent.isOutcome log = claimsSince JobEvent.isRescheduled log := by
  induction log using List.reverseRecOn with
  | nil => rfl
  | append_singleton log e ih =>
      rw [retriedSince_concat] at h
      rw [claimsSince_concat, claimsSince_concat]
      cases e with
      | rescheduled => rfl
      | retryScheduled => simp [JobEvent.isRescheduled, JobEvent.isRetryScheduled] at h
      | _ =>
          simp only [JobEvent.isRescheduled, JobEvent.isRetryScheduled, Bool.or_false,
            Bool.false_eq_true, if_false] at h
          simp only [JobEvent.isOutcome, JobEvent.isRescheduled, JobEvent.isRetryScheduled,
            Bool.or_false, Bool.false_eq_true, if_false, ih h]

/-- A retry records the outcome of a claim that still counts. -/
theorem claimsSince_isOutcome_lt {log : List JobEvent} (live : LiveLog log)
    (h : retriedSince log = true) :
    claimsSince JobEvent.isOutcome log < claimsSince JobEvent.isRescheduled log := by
  induction log using List.reverseRecOn with
  | nil => cases h
  | append_singleton log e ih =>
      rw [retriedSince_concat] at h
      rw [claimsSince_concat, claimsSince_concat]
      cases e with
      | rescheduled => cases h
      | retryScheduled runAt attempt error =>
          have hne : log ≠ [] := by
            rintro rfl
            obtain ⟨e, he, henqueued⟩ := live.isEnqueued_zero
            cases he
            cases henqueued
          obtain ⟨before, last, rfl⟩ : ∃ before last, log = before ++ [last] :=
            ⟨_, _, (List.dropLast_append_getLast hne).symm⟩
          obtain ⟨worker, c, lease, hclaimed⟩ :=
            live.claimed_before (i := before.length) (e := .retryScheduled runAt attempt error)
              (by simp) rfl
          obtain rfl : last = .claimed worker c lease := by simpa using hclaimed
          simp [claimsSince_concat, JobEvent.isOutcome, JobEvent.isRescheduled,
            JobEvent.isRetryScheduled, JobEvent.isClaimed]
      | _ =>
          simp only [JobEvent.isRescheduled, JobEvent.isRetryScheduled, Bool.or_false,
            Bool.false_eq_true, if_false] at h
          have hne : log ≠ [] := by
            rintro rfl
            cases h
          simp only [JobEvent.isOutcome, JobEvent.isRescheduled, JobEvent.isRetryScheduled,
            Bool.or_false, Bool.false_eq_true, if_false]
          exact Nat.add_lt_add_right (ih (live.of_append _ hne) h) _

section Abandoned

open JobSystem

variable (K : CqrsEs)

/-- Claim the job under a budget of two claims, and retry it at once. -/
def retriedRound (mint : ClaimId) (attempt : UInt32) : List Op :=
  [.claim none ⟨"job", "worker", 0, 1, 2, mint⟩,
    .settleLoad none "job" (.retrySchedule mint (.ofUInt32 0) attempt "failed"),
    .settleCommit 0 none fun _ => 0, .reactLoad 0, .reactUpdate 0]

def retriedRun : List Op :=
  .enqueue none ⟨"job", "kind", .null, 0⟩ :: (retriedRound "a" 1 ++ retriedRound "b" 2)

def retriedLog : List JobEvent :=
  [.enqueued "kind" .null (.ofUInt32 0), .claimed "worker" "a" (.ofUInt32 1),
    .retryScheduled (.ofUInt32 0) 1 "failed", .claimed "worker" "b" (.ofUInt32 1),
    .retryScheduled (.ofUInt32 0) 2 "failed"]

/-- Claim the job under a budget of one claim and let the lease run out. -/
def crashedRun : List Op :=
  [.enqueue none ⟨"job", "kind", .null, 0⟩, .claim none ⟨"job", "worker", 0, 1, 1, "a"⟩]

def crashedLog : List JobEvent :=
  [.enqueued "kind" .null (.ofUInt32 0), .claimed "worker" "a" (.ofUInt32 1)]

end Abandoned

end EventSorcery
