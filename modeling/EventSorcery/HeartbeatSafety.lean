import EventSorcery.Heartbeat
import EventSorcery.Lib.Pool

/-!
# Renewals keep executions apart

As long as no execution outlives its lease, a job has one execution at a time, and none of them loses
its job: `renewals_keep_executions_apart`. Whatever happens, the lease in the queue's row is the one
that the execution wrote last, so a job whose execution is gone can be claimed as soon as it has run
out: `stranded_job_is_reclaimed`.
-/

namespace EventSorcery

/-! ## One operation of the job system -/

section Jobs

open JobSystem

variable {K : CqrsEs} {s : JobSystem.State} {id : JobId} {i : ℕ} {c : ClaimId} {lease : ℤ}
  {r : JobRecord}

/-- While a claim is the last event of its job and its lease has not run out, only its own settlement
changes the job's history. -/
theorem LeaseHeld.log_step (h : LeaseHeld s id i c lease r) (hlast : r.log.length = i + 1)
    (op : JobSystem.Op)
    (hclaim : ∀ fault call, op = .claim fault call → call.jobId = id → call.nowMs ≤ lease)
    (hsettle : ∀ j fault clock task, op = .settleCommit j fault clock → s.settlements[j]? = some task →
      task.command.claimId ≠ c) :
    ∃ r', Represents (JobSystem.step K s op).db id r' ∧ r'.log = r.log := by
  obtain ⟨worker, leaseUntil, he⟩ := h.claim
  cases step_change h.inv op id (K := K) with
  | same hsame => exact ⟨r, h.rep.of_same hsame, rfl⟩
  | enqueued absent _ => exact absurd h.rep absent.not_represents
  | claimed op_eq _ job _ answer effect _ =>
      have hnone : ∀ e, r.log[i + 1]? = some e → e.isTerminal := by
        intro e hnext
        rw [List.getElem?_eq_none (by omega)] at hnext
        cases hnext
      obtain ⟨hnothing, -⟩ := h.excludes hnone job (hclaim _ _ op_eq job) _
      rw [answer] at hnothing
      cases effect <;> rcases hnothing with ⟨-, h⟩ | ⟨_, -, h⟩ | h | h <;> cases h
  | settled op_eq inFlight _ rep _ _ _ last _ =>
      obtain rfl := h.rep.unique rep
      rw [List.getLast?_eq_getElem?, hlast, Nat.add_sub_cancel, he] at last
      have hid := (JobEvent.claimed.inj (Option.some.inj last)).2.1
      exact absurd hid.symm (hsettle _ _ _ _ op_eq inFlight)
  | leased _ rep _ _ rep' =>
      obtain rfl := h.rep.unique rep
      exact ⟨_, rep', rfl⟩
  | reacted _ _ _ rep rep' =>
      obtain rfl := h.rep.unique rep
      exact ⟨_, rep', rfl⟩
  | caughtUp _ _ rep rep' =>
      obtain rfl := h.rep.unique rep
      exact ⟨_, rep', rfl⟩

/-- One event whose number is free does not conflict. -/
theorem commitStatements_ne_lock {db : Db} {stream : StreamIdentity} {row : SerializedEvent}
    {l : SeqLog StoredEvent} {snapshot : Option SnapshotUpdate}
    (hfree : (db.stream row.identity).insert? row.sequence row.stored = some l) :
    commitStatements ⟨stream, none, [row], snapshot, []⟩ db ≠ .error .optimisticLock := by
  have hbatch := insertSerializedEventsBatch_singleton db row
  simp only [commitStatements, checkVersion]
  by_cases hfits : row.sequence ≤ i64Max
  · rw [if_pos hfits, Db.insertEvent, hfree] at hbatch
    rw [hbatch]
    cases snapshot with
    | none => intro hlock; cases hlock
    | some update =>
        by_cases hversion : row.sequence ≤ i64Max ∧ update.snapshotVersion ≤ i64Max
        · simp only [writeSnapshot, List.getLast?_singleton, if_pos hversion]
          intro hlock; cases hlock
        · simp only [writeSnapshot, List.getLast?_singleton, if_neg hversion]
          intro hlock; cases hlock
  · rw [if_neg hfits] at hbatch
    rw [hbatch]
    intro hlock; cases hlock

/-- The number after a job's last event is free. -/
theorem commitSerialized_job_ne_lock {db : Db} (h : Represents db id r) (e : JobEvent)
    (snapshot : Option SnapshotUpdate) (fault : Bool) :
    (commitSerialized (Heartbeat.commitFault fault) ⟨jobStream id, none,
      [e.serialized id (r.log.length + 1)], snapshot, []⟩ db).1 ≠ .error .optimisticLock := by
  have hidentity : (e.serialized id (r.log.length + 1)).identity = jobStream id := rfl
  have hvalid : validateEventStream (jobStream id) [e.serialized id (r.log.length + 1)] = .ok () := by
    simp [validateEventStream, hidentity]
  cases fault with
  | true =>
      simp only [Heartbeat.commitFault, if_true, commitSerialized, hvalid, inTransaction]
      split_ifs with hexpected
      · cases hexpected
      · intro hlock
        cases hlock
  | false =>
      simp only [Heartbeat.commitFault, Bool.false_eq_true, if_false]
      rw [commitSerialized_fst hvalid rfl]
      let row := e.serialized id (r.log.length + 1)
      have hfree : (db.stream row.identity).insert? row.sequence row.stored = some _ := insert?_next h e
      have hne : commitStatements ⟨jobStream id, none, [row], snapshot, []⟩ db ≠
          .error .optimisticLock := commitStatements_ne_lock hfree
      intro hlock
      cases hstatements : commitStatements ⟨jobStream id, none, [e.serialized id (r.log.length + 1)],
          snapshot, []⟩ db with
      | ok db' => rw [hstatements] at hlock; cases hlock
      | error error =>
          rw [hstatements] at hlock
          obtain rfl := Except.error.inj hlock
          exact hne hstatements

/-- The settlement of the claim that holds its job is not fenced. -/
theorem SettleTask.commit_ne_fenced {db : Db} {task : SettleTask} (h : Represents db task.jobId r)
    (hload : task.LoadedFrom r) (hcurrent : task.ctx.currentSequence = r.log.length) {st : JobState}
    (hst : jobFold r.log = .live st) (hheld : st.holder = some task.command.claimId) (fault : Bool)
    (clock : ℕ → ℤ) :
    (task.commit K (Heartbeat.commitFault fault) clock db).1 ≠ .fenced := by
  have hhandle := handle_job_of_holder hheld ""
  rw [← hst, ← List.take_length (l := r.log), ← hcurrent, ← hload.aggregate] at hhandle
  obtain ⟨snapshot, -, hcommit⟩ := commitEvents_job_eq K (Heartbeat.commitFault fault) clock task.jobId
    task.ctx task.command.event db
  have hlock : (K.commitEvents jobEntity (Heartbeat.commitFault fault) clock task.jobId task.ctx
      [task.command.event] (some []) db).1 ≠ .error .optimisticLock := by
    rw [hcommit, hcurrent]
    intro hlock
    have hne := commitSerialized_job_ne_lock h task.command.event snapshot fault
    cases hserialized : (commitSerialized (Heartbeat.commitFault fault) ⟨jobStream task.jobId, none,
        [task.command.event.serialized task.jobId (r.log.length + 1)], snapshot, []⟩ db).1 with
    | ok u => rw [hserialized] at hlock; cases hlock
    | error error =>
        rw [hserialized] at hlock
        cases error with
        | optimisticLock => exact hne hserialized
        | _ => cases hlock
  unfold SettleTask.commit
  simp only [CqrsEs.handleAndCommit, hhandle]
  split
  next error _ _ herror =>
    rw [herror] at hlock
    cases error with
    | optimisticLock => exact absurd rfl hlock
    | _ =>
        intro hfenced
        cases hfenced
  next =>
    intro hfenced
    cases hfenced

end Jobs

namespace Heartbeat

variable {Error : Type} {K : CqrsEs}

/-! ## What one operation can do -/

/-- The new state of an operation. -/
inductive Change (K : CqrsEs) (s : State Error) : Op Error → State Error → Prop where
  | idle {op : Op Error} : Change K s op s
  | outside {op : JobSystem.Op} (permitted : s.permits op = true) :
      Change K s (.outside op) (s.jobStep K op)
  | ticked {now : Instant} (later : s.now.1 ≤ now.1) : Change K s (.tick now) { s with now := now }
  | claimed {runner : Runner Error} {fault : Option SqliteJobError} {call : ClaimCall} :
      Change K s (.claim runner fault call) (s.jobStep K (.claim fault (runner.call call)))
  | started {runner : Runner Error} {fault : Option SqliteJobError} {call : ClaimCall}
      {handle : JobClaimHandle} {payload : Json} {ex : Execution Error}
      (fresh : (runner.call call).mint ∉ s.jobs.claimIds)
      (won : (claimJobAs fault (runner.call call) s.jobs.db).1 = .ok (.claimed handle payload))
      (start : runner.start (runner.call call) handle payload = some ex) :
      Change K s (.claim runner fault call)
        ((s.jobStep K (.claim fault (runner.call call))).begin ex)
  | acted {i : ℕ} {ex : Execution Error} {act : Act Error} (at_i : s.executions[i]? = some ex) :
      Change K s (.act i act) (s.put i (ex.act s.now act))
  | unrenewed {i : ℕ} {ex : Execution Error} {newLease : ℤ} {cut : Bool}
      (at_i : s.executions[i]? = some ex) (renewing : ex.renewer = .renewing newLease) :
      Change K s (.renew i true cut) (s.put i (ex.renewed none newLease cut))
  | renewed {i : ℕ} {ex : Execution Error} {newLease : ℤ} {cut : Bool}
      (at_i : s.executions[i]? = some ex) (renewing : ex.renewer = .renewing newLease) :
      Change K s (.renew i false cut)
        ((s.jobStep K (.renew ex.handle.jobId ex.handle.claimSeq newLease)).put i
          (ex.renewed (some (renewJob ex.handle.jobId ex.handle.claimSeq newLease s.jobs.db).1)
            newLease cut))
  | unloaded {i : ℕ} {ex : Execution Error} (at_i : s.executions[i]? = some ex) :
      Change K s (.load i true) (s.put i ex.unloaded)
  | loaded {i : ℕ} {ex : Execution Error} {command : JobCommand}
      (at_i : s.executions[i]? = some ex) (main : ex.main = .settling command) :
      Change K s (.load i false)
        ((s.jobStep K (.settleLoad (some i) ex.handle.jobId command)).put i
          { ex with main := .sending command })
  | committed {i j : ℕ} {ex : Execution Error} {command : JobCommand} {fault : Bool} {clock : ℕ → ℤ}
      {task : SettleTask} (at_i : s.executions[i]? = some ex) (main : ex.main = .sending command)
      (inFlight : s.jobs.settlements[j]? = some task) (caller : task.caller = some i) :
      Change K s (.commit i fault clock)
        ((s.jobStep K (.settleCommit j (commitFault fault) clock)).put i
          (ex.answered command (task.commit K (commitFault fault) clock s.jobs.db).1))

/-- **What an operation can do.** -/
theorem step_change (s : State Error) (op : Op Error) : Change K s op (step K s op) := by
  cases op with
  | outside op =>
      rw [step]
      split_ifs with hpermitted
      · exact .outside hpermitted
      · exact .idle
  | tick now =>
      rw [step]
      split_ifs with hlater
      · exact .ticked hlater
      · exact .idle
  | claim runner fault call =>
      rw [step]
      split_ifs with hfresh
      · exact .idle
      · split
        next handle payload hwon =>
          split
          next ex hstart => exact .started hfresh hwon hstart
          next => exact .claimed
        next => exact .claimed
  | act i act =>
      rw [step]
      split
      next ex hi => exact .acted hi
      next => exact .idle
  | renew i fault cut =>
      rw [step]
      split
      next ex hi =>
        split
        next newLease hrenewing =>
          cases fault with
          | true => exact .unrenewed hi hrenewing
          | false => exact .renewed hi hrenewing
        next => exact .idle
      next => exact .idle
  | load i fault =>
      rw [step]
      split
      next ex hi =>
        split
        next command hmain =>
          cases fault with
          | true => exact .unloaded hi
          | false => exact .loaded hi hmain
        next => exact .idle
      next => exact .idle
  | commit i fault clock =>
      rw [step]
      split
      next ex hi =>
        split
        next command j hmain hfind =>
          split
          next task htask =>
            refine .committed hi hmain htask ?_
            obtain ⟨hlt, hcaller, -⟩ := List.findIdx?_eq_some_iff_getElem.1 hfind
            rw [List.getElem?_eq_getElem hlt] at htask
            rw [Option.some.inj htask] at hcaller
            simpa using hcaller
          next => exact .idle
        next => exact .idle
      next => exact .idle

/-! ## Leases -/

/-- An execution was started for a claim of its job. If the claim is the last event of the job, the
lease in the queue's row is the execution's own. -/
def Execution.OnClaim (jobs : JobSystem.State) (ex : Execution Error) : Prop :=
  ∃ (k : ℕ) (r : JobRecord), ex.handle.claimSeq = (k + 1 : ℕ) ∧
    LeaseHeld jobs ex.handle.jobId k ex.handle.claimId ex.lease r

/-- What holds between operations, in time or not. -/
structure Leases (s : State Error) : Prop where
  jobs : JobSystem.Inv s.jobs
  claims : ∀ ex ∈ s.executions, ex.OnClaim s.jobs
  nodup : (s.executions.map fun ex => ex.handle.claimId).Nodup

section Leases

variable {s : State Error} {jobs : JobSystem.State} {i : ℕ} {ex ex' : Execution Error}

theorem Execution.OnClaim.congr (h : ex.OnClaim jobs) (hhandle : ex'.handle = ex.handle)
    (hlease : ex'.lease = ex.lease) : ex'.OnClaim jobs := by
  obtain ⟨k, r, hseq, hheld⟩ := h
  exact ⟨k, r, by rw [hhandle, hseq], by rw [hhandle, hlease]; exact hheld⟩

/-- Only a renewal of the claim itself changes its lease. -/
theorem Execution.OnClaim.step (h : ex.OnClaim jobs) (op : JobSystem.Op)
    (hrenew : ∀ newLease, op ≠ .renew ex.handle.jobId ex.handle.claimSeq newLease) :
    ex.OnClaim (JobSystem.step K jobs op) := by
  obtain ⟨k, r, hseq, hheld⟩ := h
  obtain ⟨r', hheld'⟩ := hheld.step op (K := K)
  have hlease : renewedLease jobs ex.handle.jobId (k + 1 : ℕ) ex.lease op = ex.lease := by
    cases op with
    | renew id seq newLease =>
        refine if_neg ?_
        rintro ⟨rfl, rfl, -⟩
        exact hrenew newLease (by rw [hseq])
    | _ => rfl
  rw [hlease] at hheld'
  exact ⟨k, r', hseq, hheld'⟩

/-- A renewal of the claim itself writes the new lease if it is held. -/
theorem Execution.OnClaim.renewed (h : ex.OnClaim jobs) (newLease : ℤ) (cut : Bool) :
    (ex.renewed (some (renewJob ex.handle.jobId ex.handle.claimSeq newLease jobs.db).1) newLease
      cut).OnClaim (JobSystem.step K jobs (.renew ex.handle.jobId ex.handle.claimSeq newLease)) := by
  obtain ⟨k, r, hseq, hheld⟩ := h
  obtain ⟨r', hheld'⟩ := hheld.step (.renew ex.handle.jobId ex.handle.claimSeq newLease) (K := K)
  have hhandle (answer : LeaseRenewal) :
      (ex.renewed (some answer) newLease cut).handle = ex.handle := by
    unfold Execution.renewed
    cases answer <;> cases ex.runner <;> rfl
  refine ⟨k, r', by rw [hhandle, hseq], ?_⟩
  rw [hhandle]
  cases hanswer : (renewJob ex.handle.jobId ex.handle.claimSeq newLease jobs.db).1 with
  | held =>
      rw [renewedLease, if_pos ⟨rfl, hseq, hanswer⟩] at hheld'
      unfold Execution.renewed
      cases ex.runner <;> exact hheld'
  | lost =>
      rw [renewedLease, if_neg fun hc => by rw [hanswer] at hc; cases hc.2.2] at hheld'
      unfold Execution.renewed
      cases ex.runner <;> exact hheld'

theorem Execution.OnClaim.claimedAt (h : ex.OnClaim jobs) : ∃ k : ℕ, ex.handle.claimSeq = (k + 1 : ℕ) ∧
    JobSystem.ClaimedAt jobs.db ex.handle.jobId k ex.handle.claimId := by
  obtain ⟨k, r, hseq, hheld⟩ := h
  obtain ⟨worker, lease, hclaim⟩ := hheld.claim
  exact ⟨k, hseq, r, worker, lease, hheld.rep, hclaim⟩

/-- One claim is one event. -/
theorem claimedAt_unique {db : Db} {id : JobId} {k : ℕ} {c c' : ClaimId}
    (h : JobSystem.ClaimedAt db id k c) (h' : JobSystem.ClaimedAt db id k c') : c = c' := by
  obtain ⟨r, worker, lease, hr, hk⟩ := h
  obtain ⟨r', worker', lease', hr', hk'⟩ := h'
  obtain rfl := hr.unique hr'
  rw [hk] at hk'
  exact (JobEvent.claimed.inj (Option.some.inj hk')).2.1

variable {j : ℕ}

theorem Leases.eq_of_claimId (h : Leases s) (hi : s.executions[i]? = some ex)
    (hj : s.executions[j]? = some ex') (hid : ex.handle.claimId = ex'.handle.claimId) : i = j := by
  have hlt : i < (s.executions.map fun ex => ex.handle.claimId).length := by
    rw [List.length_map]
    exact (List.getElem?_eq_some_iff.1 hi).1
  refine (List.getElem?_inj hlt h.nodup).1 ?_
  rw [List.getElem?_map, List.getElem?_map, hi, hj, Option.map_some, Option.map_some, hid]

/-- Two executions do not share a claim. -/
theorem Leases.apart (h : Leases s) (hi : s.executions[i]? = some ex)
    (hj : s.executions[j]? = some ex') (hne : i ≠ j) :
    ¬ (ex.handle.jobId = ex'.handle.jobId ∧ ex.handle.claimSeq = ex'.handle.claimSeq) := by
  rintro ⟨hjob, hseq⟩
  obtain ⟨k, hk, hclaim⟩ := (h.claims ex (List.mem_of_getElem? hi)).claimedAt
  obtain ⟨k', hk', hclaim'⟩ := (h.claims ex' (List.mem_of_getElem? hj)).claimedAt
  obtain rfl : k = k' := by
    rw [hk, hk'] at hseq
    omega
  rw [hjob] at hclaim
  exact hne (h.eq_of_claimId hi hj (claimedAt_unique hclaim hclaim'))

theorem Leases.jobStep (h : Leases s) (op : JobSystem.Op)
    (hrenew : ∀ ex ∈ s.executions, ∀ newLease,
      op ≠ .renew ex.handle.jobId ex.handle.claimSeq newLease) : Leases (s.jobStep K op) :=
  ⟨JobSystem.inv_step h.jobs op, fun ex hex => (h.claims ex hex).step op (hrenew ex hex), h.nodup⟩

theorem map_claimId_set (hi : s.executions[i]? = some ex) (hhandle : ex'.handle = ex.handle) :
    (s.executions.set i ex').map (fun ex => ex.handle.claimId) =
      s.executions.map fun ex => ex.handle.claimId := by
  obtain ⟨hlt, rfl⟩ := List.getElem?_eq_some_iff.1 hi
  rw [List.map_set, hhandle]
  refine List.ext_getElem? fun k => ?_
  by_cases hk : i = k
  · subst hk
    simp [hlt]
  · rw [List.getElem?_set_ne hk]

theorem Leases.put (h : Leases s) (hi : s.executions[i]? = some ex) (hhandle : ex'.handle = ex.handle)
    (hlease : ex'.lease = ex.lease) : Leases (s.put i ex') := by
  refine ⟨h.jobs, fun u hu => ?_, ?_⟩
  · rcases List.mem_or_eq_of_mem_set hu with hu | rfl
    · exact h.claims u hu
    · exact (h.claims ex (List.mem_of_getElem? hi)).congr hhandle hlease
  · exact (map_claimId_set hi hhandle).symm ▸ h.nodup

/-- What an execution does without the engine: its claim and its lease stay, it records nothing, and it
gives its job up only where it finds the lease lost. -/
structure Execution.Onward (ex ex' : Execution Error) : Prop where
  handle : ex'.handle = ex.handle
  lease : ex'.lease = ex.lease
  terminal : ex'.terminal = ex.terminal
  holds : ex'.main.holds = true → ex.main.holds = true
  lost : ex'.main.ending? = some .leaseLost → ex.main.ending? = some .leaseLost ∨
    ex.main.holds = true ∧ ex.terminal = some .lost
  settled : ∀ verdict, ex'.main.ending? = some (.settled verdict) →
    ex.main.ending? = some (.settled verdict)
  own : ∀ command, ex'.main.command? = some command → ex.main.command? = some command ∨
    command.claimId = ex.handle.claimId

namespace Execution.Onward

theorem of_renewer (renewer : Renewer) : ex.Onward { ex with renewer := renewer } :=
  ⟨rfl, rfl, rfl, id, .inl, fun _ h => h, fun _ => .inl⟩

/-- An execution that still has its job goes on with it. -/
theorem of_holds {main : Main} (hholds : ex.main.holds = true) (hending : main.ending? = none)
    (hown : ∀ command, main.command? = some command → command.claimId = ex.handle.claimId) :
    ex.Onward { ex with main := main } :=
  ⟨rfl, rfl, rfl, fun _ => hholds, by simp [hending], by simp [hending], fun c h => .inr (hown c h)⟩

/-- An execution is cut off, or a call of it failed. -/
theorem of_ended {main : Main} (hmain : main.holds = false) (hown : main.command? = none)
    (hending : main.ending? = some .crashed ∨ main.ending? = some .failed) :
    ex.Onward { ex with main := main } := by
  refine ⟨rfl, rfl, rfl, by simp [hmain], ?_, ?_, by simp [hown]⟩ <;>
    rcases hending with h | h <;> simp [h]

/-- An execution finds its lease lost. -/
theorem of_lost {main : Main} (hholds : ex.main.holds = true) (hlost : ex.terminal = some .lost)
    (hmain : main.holds = false) (hown : main.command? = none)
    (hending : main.ending? = some .leaseLost) : ex.Onward { ex with main := main } :=
  ⟨rfl, rfl, rfl, by simp [hmain], fun _ => .inr ⟨hholds, hlost⟩, by simp [hending], by simp [hown]⟩

/-- An ending that was clear stays. -/
theorem of_ending {main : Main} (hmain : main.holds = false) (hown : main.command? = none)
    (hending : main.ending? = ex.main.ending?) : ex.Onward { ex with main := main } :=
  ⟨rfl, rfl, rfl, by simp [hmain], fun h => .inl (hending ▸ h), fun _ h => hending ▸ h,
    by simp [hown]⟩

end Execution.Onward

theorem ackCommand_claimId {ctx : JobContext Error} {plan : AckPlan} {now : Instant}
    {command : JobCommand} (h : ackCommand ctx plan now = some command) :
    command.claimId = ctx.handle.claimId := by
  unfold ackCommand at h
  split at h
  · cases h; rfl
  · obtain ⟨runAt, -, rfl⟩ := Option.map_eq_some_iff.1 h
    rfl
  · cases h; rfl
  · dsimp only at h
    split_ifs at h
    · cases h; rfl
    · obtain ⟨runAt, -, rfl⟩ := Option.map_eq_some_iff.1 h
      rfl

theorem settlementCommand_claimId {handle : JobClaimHandle} {settlement : Settlement} {now : Instant}
    {command : JobCommand} (h : settlement.command handle now = some command) :
    command.claimId = handle.claimId := by
  cases settlement with
  | acknowledge => cases h; rfl
  | retry runAtMs error =>
      simp only [Settlement.command] at h
      split at h
      · cases h
      · split_ifs at h
        cases h; rfl
  | defer delay =>
      obtain ⟨runAt, -, rfl⟩ := Option.map_eq_some_iff.1 h
      rfl
  | deadLetter reason error => cases h; rfl

open Execution.Onward in
theorem Execution.act_onward (ex : Execution Error) (now : Instant) (act : Act Error) :
    ex.Onward (ex.act now act) := by
  have hsame : ex.Onward ex := of_renewer ex.renewer
  cases act with
  | wake deadline =>
      simp only [Execution.act, Execution.wake]
      split
      · split
        · exact of_renewer _
        · exact of_renewer _
      · exact of_renewer _
      · exact hsame
  | quit =>
      simp only [Execution.act, Execution.quit]
      split
      · exact of_renewer _
      · exact of_renewer _
      · exact hsame
  | perform result =>
      simp only [Execution.act, Execution.performed]
      split
      next hmain hrunner =>
        have hholds : ex.main.holds = true := by rw [hmain]; rfl
        split_ifs with hlost
        · exact of_lost hholds hlost rfl rfl rfl
        · split
          next command hack =>
            refine of_holds hholds rfl ?_
            rintro command ⟨rfl⟩
            exact ackCommand_claimId hack
          next => exact of_ended rfl rfl (.inl rfl)
      next hmain hrunner =>
        have hholds : ex.main.holds = true := by rw [hmain]; rfl
        cases result with
        | some result => exact of_holds hholds rfl fun _ h => by cases h
        | none => exact of_ended rfl rfl (.inl rfl)
      next => exact hsame
  | persist settlement =>
      simp only [Execution.act, Execution.persisted]
      split
      next hmain =>
        have hholds : ex.main.holds = true := by rw [hmain]; rfl
        split
        next command hcommand =>
          refine of_holds hholds rfl ?_
          rintro command ⟨rfl⟩
          exact settlementCommand_claimId hcommand
        next => exact of_ended rfl rfl (.inr rfl)
      next => exact hsame
  | stop =>
      simp only [Execution.act, Execution.stopped]
      split
      next ending hmain _ => exact of_ending rfl rfl (by rw [hmain]; rfl)
      next hmain _ =>
        have hholds : ex.main.holds = true := by rw [hmain]; rfl
        split
        next => exact of_holds hholds rfl fun _ h => by cases h
        next hterminal => exact of_lost hholds hterminal rfl rfl rfl
        next => exact of_ended rfl rfl (.inr rfl)
      next => exact hsame
  | crash =>
      simp only [Execution.act, Execution.crashed]
      split
      next => exact of_renewer _
      next =>
        refine ⟨rfl, rfl, rfl, ?_, ?_, ?_, ?_⟩ <;> simp [Main.holds, Main.ending?, Main.command?]
  | unwind =>
      simp only [Execution.act, Execution.unwound]
      split
      next => exact hsame
      next => exact hsame
      next => exact of_ended rfl rfl (.inl rfl)

/-- A renewal leaves everything but the loop, its lease and what it leaves behind. -/
theorem Execution.renewed_eq (ex : Execution Error) (answer : Option LeaseRenewal) (newLease : ℤ)
    (cut : Bool) : (ex.renewed answer newLease cut).handle = ex.handle ∧
      (ex.renewed answer newLease cut).main = ex.main ∧
      (ex.renewed answer newLease cut).lease = (if answer = some .held then newLease else ex.lease) ∧
      (answer ≠ some .lost → (ex.renewed answer newLease cut).terminal = some .lost →
        ex.terminal = some .lost) := by
  unfold Execution.renewed
  rcases answer with _ | _ | _ <;> cases ex.runner <;> refine ⟨rfl, rfl, rfl, fun hne h => ?_⟩
  · exact h
  · dsimp only at h
    split_ifs at h
    · exact h
    · cases h
  · exact h
  · exact h
  · exact absurd rfl hne
  · exact absurd rfl hne

theorem Leases.unrenewed (h : Leases s) (hi : s.executions[i]? = some ex) (newLease : ℤ) (cut : Bool) :
    Leases (s.put i (ex.renewed none newLease cut)) := by
  obtain ⟨hhandle, -, hlease, -⟩ := ex.renewed_eq none newLease cut
  exact h.put hi hhandle hlease

theorem Leases.renewed (h : Leases s) (hi : s.executions[i]? = some ex) (newLease : ℤ) (cut : Bool) :
    Leases ((s.jobStep K (.renew ex.handle.jobId ex.handle.claimSeq newLease)).put i
      (ex.renewed (some (renewJob ex.handle.jobId ex.handle.claimSeq newLease s.jobs.db).1)
        newLease cut)) := by
  obtain ⟨hhandle, -⟩ := ex.renewed_eq
    (some (renewJob ex.handle.jobId ex.handle.claimSeq newLease s.jobs.db).1) newLease cut
  have hjobs : JobSystem.Inv (JobSystem.step K s.jobs (.renew ex.handle.jobId ex.handle.claimSeq
    newLease)) := JobSystem.inv_step h.jobs _
  refine ⟨hjobs, fun u hu => ?_, (map_claimId_set hi hhandle).symm ▸ h.nodup⟩
  obtain ⟨j, hj⟩ := List.mem_iff_getElem?.1 hu
  simp only [State.put, State.jobStep] at hj ⊢
  by_cases hij : i = j
  · subst hij
    rw [List.getElem?_set_self (List.getElem?_eq_some_iff.1 hi).1] at hj
    obtain rfl := Option.some.inj hj
    exact (h.claims ex (List.mem_of_getElem? hi)).renewed newLease cut
  · rw [List.getElem?_set_ne hij] at hj
    refine (h.claims u (List.mem_of_getElem? hj)).step _ fun newLease' heq => ?_
    obtain ⟨hid, hseq, -⟩ := JobSystem.Op.renew.inj heq
    exact h.apart hi hj hij ⟨hid, hseq⟩

/-- The execution that a won claim starts. -/
theorem Runner.start_eq {runner : Runner Error} {call : ClaimCall} {handle : JobClaimHandle}
    {payload : Json} (h : runner.start call handle payload = some ex) :
    ex.handle = handle ∧ ex.lease = call.nowMs + call.leaseMs ∧ ex.terminal = none ∧
      ex.main.ending? = none ∧
      ∀ command, ex.main.command? = some command → command.claimId = handle.claimId := by
  unfold Runner.start at h
  cases runner with
  | native config leaseDuration =>
      dsimp only at h
      split_ifs at h
      obtain rfl := Option.some.inj h
      exact ⟨rfl, rfl, rfl, rfl, fun _ h => by cases h⟩
  | haskell worker renews =>
      dsimp only at h
      split at h
      · obtain rfl := Option.some.inj h
        exact ⟨rfl, rfl, rfl, rfl, fun _ h => by cases h⟩
      · obtain rfl := Option.some.inj h
        refine ⟨rfl, rfl, rfl, rfl, ?_⟩
        rintro command ⟨rfl⟩
        rfl

theorem Leases.begin (h : Leases s) {runner : Runner Error} {fault : Option SqliteJobError}
    {call : ClaimCall} {handle : JobClaimHandle} {payload : Json}
    (hfresh : call.mint ∉ s.jobs.claimIds)
    (hwon : (claimJobAs fault call s.jobs.db).1 = .ok (.claimed handle payload))
    (hstart : runner.start call handle payload = some ex) :
    Leases ((s.jobStep K (.claim fault call)).begin ex) := by
  obtain ⟨rfl, hlease, -⟩ := Runner.start_eq hstart
  obtain ⟨k, attempt, r, hhandle, hheld⟩ := leaseHeld_of_won h.jobs hfresh hwon (K := K)
  have hstep := h.jobStep (K := K) (.claim fault call) fun _ _ _ heq => by cases heq
  refine ⟨hstep.jobs, fun u hu => ?_, ?_⟩
  · rcases List.mem_append.1 hu with hu | hu
    · exact hstep.claims u hu
    · obtain rfl := List.mem_singleton.1 hu
      refine ⟨k, r, by rw [hhandle], ?_⟩
      rw [hlease, hhandle]
      exact hheld
  · change ((s.executions ++ [ex]).map fun ex => ex.handle.claimId).Nodup
    rw [List.map_append, List.nodup_append]
    refine ⟨h.nodup, by simp, fun c hc c' hc' heq => ?_⟩
    obtain ⟨u, hu, rfl⟩ := List.mem_map.1 hc
    obtain ⟨k, -, hclaim⟩ := (h.claims u hu).claimedAt
    rw [List.map_singleton, List.mem_singleton] at hc'
    rw [heq, hc', hhandle] at hclaim
    exact hfresh (h.jobs.drawn hclaim)

/-- **One operation** keeps the leases. -/
theorem Leases.step (h : Leases s) (op : Op Error) : Leases (Heartbeat.step K s op) := by
  have hchange := step_change s op (K := K)
  generalize Heartbeat.step K s op = s' at hchange ⊢
  cases hchange with
  | idle => exact h
  | outside permitted =>
      refine h.jobStep _ fun ex hex newLease heq => ?_
      subst heq
      have := List.all_eq_true.1 permitted ex hex
      simp at this
  | ticked later => exact ⟨h.jobs, h.claims, h.nodup⟩
  | claimed => exact h.jobStep _ fun _ _ _ heq => by cases heq
  | started fresh won start => exact h.begin fresh won start
  | @acted i ex act at_i =>
      have honward := ex.act_onward s.now act
      exact h.put at_i honward.handle honward.lease
  | unrenewed at_i => exact h.unrenewed at_i _ _
  | renewed at_i => exact h.renewed at_i _ _
  | unloaded at_i =>
      refine h.put at_i ?_ ?_ <;> unfold Execution.unloaded <;> split <;> rfl
  | @loaded i ex command at_i main =>
      have hstep := h.jobStep (K := K) (.settleLoad (some i) ex.handle.jobId command)
        fun _ _ _ heq => by cases heq
      exact hstep.put at_i rfl rfl
  | @committed i j ex command fault clock task at_i main inFlight caller =>
      have hstep := h.jobStep (K := K) (.settleCommit j (commitFault fault) clock)
        fun _ _ _ heq => by cases heq
      refine hstep.put at_i ?_ ?_ <;> unfold Execution.answered <;> split <;> rfl

end Leases

/-! ## In time -/

/-- The claim is the last event of the job. -/
def Execution.Current (jobs : JobSystem.State) (ex : Execution Error) : Prop :=
  ∀ r, Represents jobs.db ex.handle.jobId r → (r.log.length : ℤ) = ex.handle.claimSeq

/-- An execution that has its job is on the job's last event, and nobody told it otherwise. -/
structure Execution.Sound (jobs : JobSystem.State) (ex : Execution Error) : Prop where
  current : ex.main.holds = true → ex.Current jobs
  kept : ex.main.holds = true → ex.terminal ≠ some .lost
  ending : ex.main.ending? ≠ some .leaseLost ∧ ex.main.ending? ≠ some (.settled .fenced)
  own : ∀ command, ex.main.command? = some command → command.claimId = ex.handle.claimId

/-- Who a settlement in flight is from: an execution that loaded its own claim, or somebody else. -/
def Vouched (claimIds : List ClaimId) (executions : List (Execution Error)) (task : SettleTask) :
    Prop :=
  match task.caller with
  | none => task.command.claimId ∈ claimIds ∧
      ∀ ex ∈ executions, ex.handle.claimId ≠ task.command.claimId
  | some i => ∃ ex, executions[i]? = some ex ∧ ex.handle.jobId = task.jobId ∧
      ex.handle.claimId = task.command.claimId ∧
      (ex.main.holds = true → (task.ctx.currentSequence : ℤ) = ex.handle.claimSeq)

/-- What holds between operations that come in time. -/
structure Inv (s : State Error) : Prop where
  leases : Leases s
  inTime : s.inTime = true
  sound : ∀ ex ∈ s.executions, ex.Sound s.jobs
  tasks : ∀ task ∈ s.jobs.settlements, Vouched s.jobs.claimIds s.executions task

section InTime

variable {s : State Error} {jobs : JobSystem.State} {i j : ℕ} {ex ex' : Execution Error}
  {task : SettleTask} {claimIds claimIds' : List ClaimId} {executions : List (Execution Error)}

theorem Main.holds_of_isEnded {main : Main} (h : main.isEnded = true) : main.holds = false := by
  cases main with
  | ended ending => rfl
  | _ => cases h

theorem Inv.now_le (h : Inv s) (hex : ex ∈ s.executions) (hholds : ex.main.holds = true) :
    s.now.1 ≤ ex.lease := by
  simpa [hholds] using List.all_eq_true.1 h.inTime ex hex

/-! ### Settlements in flight -/

theorem Vouched.mono (h : Vouched claimIds executions task) (hsub : claimIds ⊆ claimIds') :
    Vouched claimIds' executions task := by
  unfold Vouched at *
  split
  next hcaller =>
    rw [hcaller] at h
    exact ⟨hsub h.1, h.2⟩
  next i hcaller =>
    rw [hcaller] at h
    exact h

theorem Vouched.set (h : Vouched claimIds executions task) (hi : executions[i]? = some ex)
    (hhandle : ex'.handle = ex.handle) (hholds : ex'.main.holds = true → ex.main.holds = true) :
    Vouched claimIds (executions.set i ex') task := by
  unfold Vouched at *
  split
  next hcaller =>
    rw [hcaller] at h
    refine ⟨h.1, fun u hu => ?_⟩
    rcases List.mem_or_eq_of_mem_set hu with hu | rfl
    · exact h.2 u hu
    · rw [hhandle]
      exact h.2 ex (List.mem_of_getElem? hi)
  next j hcaller =>
    rw [hcaller] at h
    obtain ⟨u, hj, hjob, hclaim, hcurrent⟩ := h
    by_cases hij : i = j
    · subst hij
      obtain rfl := Option.some.inj (hi.symm.trans hj)
      refine ⟨ex', List.getElem?_set_self (List.getElem?_eq_some_iff.1 hi).1, ?_⟩
      rw [hhandle]
      exact ⟨hjob, hclaim, fun hh => hcurrent (hholds hh)⟩
    · exact ⟨u, by rwa [List.getElem?_set_ne hij], hjob, hclaim, hcurrent⟩

theorem Vouched.append (h : Vouched claimIds executions task) (hfresh : ex.handle.claimId ∉ claimIds) :
    Vouched claimIds (executions ++ [ex]) task := by
  unfold Vouched at *
  split
  next hcaller =>
    rw [hcaller] at h
    refine ⟨h.1, fun u hu => ?_⟩
    rcases List.mem_append.1 hu with hu | hu
    · exact h.2 u hu
    · obtain rfl := List.mem_singleton.1 hu
      rintro heq
      exact hfresh (heq ▸ h.1)
  next j hcaller =>
    rw [hcaller] at h
    obtain ⟨u, hj, hrest⟩ := h
    exact ⟨u, by rwa [List.getElem?_append_left (List.getElem?_eq_some_iff.1 hj).1], hrest⟩

/-! ### Executions -/

theorem Execution.Sound.onward (h : ex.Sound jobs) (ho : ex.Onward ex') : ex'.Sound jobs := by
  refine ⟨fun hh => ?_, fun hh => ?_, ⟨fun hlost => ?_, fun hfenced => ?_⟩, fun command hcommand => ?_⟩
  · unfold Execution.Current
    rw [ho.handle]
    exact h.current (ho.holds hh)
  · rw [ho.terminal]
    exact h.kept (ho.holds hh)
  · rcases ho.lost hlost with hlost | ⟨hholds, hterminal⟩
    · exact h.ending.1 hlost
    · exact h.kept hholds hterminal
  · exact h.ending.2 (ho.settled _ hfenced)
  · rw [ho.handle]
    rcases ho.own command hcommand with hcommand | hown
    · exact h.own command hcommand
    · exact hown

/-- An operation of the job system that neither claims after the lease nor settles the claim leaves an
execution where it is. -/
theorem Execution.Sound.step (h : ex.Sound jobs) (hclaim : ex.OnClaim jobs) (op : JobSystem.Op)
    (hclock : ∀ fault call, op = .claim fault call → ex.main.holds = true → call.nowMs ≤ ex.lease)
    (hsettle : ∀ j fault clock task, op = .settleCommit j fault clock →
      jobs.settlements[j]? = some task → ex.main.holds = true →
        task.command.claimId ≠ ex.handle.claimId) :
    ex.Sound (JobSystem.step K jobs op) := by
  refine ⟨fun hholds => ?_, h.kept, h.ending, h.own⟩
  obtain ⟨k, r, hseq, hheld⟩ := hclaim
  have hlen := h.current hholds r hheld.rep
  rw [hseq] at hlen
  obtain ⟨r', hrep', hlog⟩ := hheld.log_step (K := K) (by omega) op
    (fun fault call hop _ => hclock fault call hop hholds)
    fun j fault clock task hop htask => hsettle j fault clock task hop htask hholds
  intro r'' hrep''
  obtain rfl := hrep'.unique hrep''
  rw [hlog, hseq]
  omega

theorem forall_mem_set {α : Type} {l : List α} {a : α} {P : α → Prop} (ha : P a)
    (hothers : ∀ j u, j ≠ i → l[j]? = some u → P u) : ∀ u ∈ l.set i a, P u := by
  intro u hu
  obtain ⟨j, hj⟩ := List.mem_iff_getElem?.1 hu
  by_cases hij : j = i
  · subst hij
    obtain ⟨hlt, rfl⟩ := List.getElem?_eq_some_iff.1 hj
    rwa [List.getElem_set_self]
  · rw [List.getElem?_set_ne (Ne.symm hij)] at hj
    exact hothers j u hij hj

/-- The settlements in flight after an operation of the job system. -/
theorem Inv.tasks_step (h : Inv s) (op : JobSystem.Op)
    (hload : ∀ task, op = .settleLoad task.caller task.jobId task.command →
      loadFold jobEntity s.jobs.db task.jobId = some task.ctx →
        Vouched s.jobs.claimIds s.executions task) :
    ∀ task ∈ (JobSystem.step K s.jobs op).settlements,
      Vouched (JobSystem.step K s.jobs op).claimIds s.executions task := by
  intro task htask
  refine Vouched.mono ?_ (JobSystem.step_claimIds s.jobs op (K := K)).1
  rcases JobSystem.step_settlements htask with htask | ⟨hop, -, hctx⟩
  · exact h.tasks task htask
  · exact hload task hop hctx

/-- A settlement that an execution has in flight is of its own claim. -/
theorem Inv.ne_of_task (h : Inv s) (htask : task ∈ s.jobs.settlements)
    (hother : ∀ k, task.caller = some k → k ≠ i) (hi : s.executions[i]? = some ex) :
    task.command.claimId ≠ ex.handle.claimId := by
  have hvouched := h.tasks task htask
  unfold Vouched at hvouched
  split at hvouched
  next hcaller => exact (hvouched.2 ex (List.mem_of_getElem? hi)).symm
  next k hcaller =>
    obtain ⟨u, hk, -, hclaim, -⟩ := hvouched
    intro heq
    exact hother k hcaller (h.leases.eq_of_claimId hk hi (hclaim.trans heq))

theorem Inv.outside (h : Inv s) {op : JobSystem.Op} (hpermitted : s.permits op = true)
    (hclock : ∀ fault call, op = .claim fault call → call.nowMs ≤ s.now.1)
    (hleases : Leases (s.jobStep K op)) : Inv (s.jobStep K op) := by
  refine ⟨hleases, h.inTime, fun ex hex => ?_, h.tasks_step op fun task hop _ => ?_⟩
  · refine (h.sound ex hex).step (h.leases.claims ex hex) op
      (fun fault call hop hholds => (hclock fault call hop).trans (h.now_le hex hholds)) ?_
    rintro j fault clock task rfl htask hholds
    obtain ⟨i, hi : s.executions[i]? = some ex⟩ := List.mem_iff_getElem?.1 hex
    -- Its own settlement would be in flight after it ended.
    refine h.ne_of_task (List.mem_of_getElem? htask) (fun k hcaller hk => ?_) hi
    subst hk
    simp only [State.permits, htask, Option.bind_some, hcaller, Option.all_some, hi] at hpermitted
    rw [Main.holds_of_isEnded hpermitted] at hholds
    cases hholds
  · subst hop
    obtain ⟨caller, id, command, ctx⟩ := task
    cases caller with
    | some i => cases hpermitted
    | none =>
        simp only [State.permits, Bool.and_eq_true, decide_eq_true_eq, List.all_eq_true,
          bne_iff_ne] at hpermitted
        exact hpermitted

/-- An execution goes on while the job system stays as it is. -/
theorem Inv.put (h : Inv s) (hi : s.executions[i]? = some ex) (hleases : Leases (s.put i ex'))
    (htime : (s.put i ex').inTime = true) (hex' : ex'.Sound s.jobs)
    (hhandle : ex'.handle = ex.handle) (hholds : ex'.main.holds = true → ex.main.holds = true) :
    Inv (s.put i ex') :=
  ⟨hleases, htime, forall_mem_set hex' fun _ u _ hu => h.sound u (List.mem_of_getElem? hu),
    fun task htask => (h.tasks task htask).set hi hhandle hholds⟩

/-- An execution takes a step of the job system. -/
theorem Inv.jobStep_put (h : Inv s) (hi : s.executions[i]? = some ex) {op : JobSystem.Op}
    (hleases : Leases ((s.jobStep K op).put i ex'))
    (htime : ((s.jobStep K op).put i ex').inTime = true)
    (hex' : ex'.Sound (JobSystem.step K s.jobs op)) (hhandle : ex'.handle = ex.handle)
    (hholds : ex'.main.holds = true → ex.main.holds = true)
    (hclaim : ∀ fault call, op ≠ .claim fault call)
    (hsettle : ∀ j fault clock task, op = .settleCommit j fault clock →
      s.jobs.settlements[j]? = some task → task.caller = some i)
    (hload : ∀ task, op = .settleLoad task.caller task.jobId task.command →
      loadFold jobEntity s.jobs.db task.jobId = some task.ctx →
        Vouched s.jobs.claimIds s.executions task) :
    Inv ((s.jobStep K op).put i ex') := by
  refine ⟨hleases, htime, forall_mem_set hex' fun k u hk hu => ?_, fun task htask =>
    (h.tasks_step op hload task htask).set hi hhandle hholds⟩
  refine (h.sound u (List.mem_of_getElem? hu)).step (h.leases.claims u (List.mem_of_getElem? hu)) op
    (fun fault call hop => absurd hop (hclaim fault call)) ?_
  intro j fault clock task hop htask _
  refine h.ne_of_task (List.mem_of_getElem? htask) (fun k' hcaller hk' => ?_) hu
  exact hk (hk'.symm.trans (Option.some.inj (hcaller.symm.trans
    (hsettle j fault clock task hop htask))))

/-- The claim of an execution that has its job is held. -/
theorem Inv.renewJob_held (h : Inv s) (hi : s.executions[i]? = some ex)
    (hholds : ex.main.holds = true) (newLease : ℤ) :
    (renewJob ex.handle.jobId ex.handle.claimSeq newLease s.jobs.db).1 = .held := by
  have hex := List.mem_of_getElem? hi
  obtain ⟨k, hseq, hclaim⟩ := (h.leases.claims ex hex).claimedAt
  obtain ⟨r, -, -, hr, -⟩ := id hclaim
  have hlen := (h.sound ex hex).current hholds r hr
  rw [hseq] at hlen ⊢
  refine renewJob_current hclaim ?_ newLease
  rw [hr.row_eq, Option.map_eq_none_iff, List.getElem?_eq_none_iff]
  omega

theorem Inv.renewed (h : Inv s) (hi : s.executions[i]? = some ex) (newLease : ℤ) (cut : Bool)
    (htime : ((s.jobStep K (.renew ex.handle.jobId ex.handle.claimSeq newLease)).put i
      (ex.renewed (some (renewJob ex.handle.jobId ex.handle.claimSeq newLease s.jobs.db).1)
        newLease cut)).inTime = true) :
    Inv ((s.jobStep K (.renew ex.handle.jobId ex.handle.claimSeq newLease)).put i
      (ex.renewed (some (renewJob ex.handle.jobId ex.handle.claimSeq newLease s.jobs.db).1)
        newLease cut)) := by
  have hex := List.mem_of_getElem? hi
  obtain ⟨hhandle, hmain, -, hterminal⟩ := ex.renewed_eq
    (some (renewJob ex.handle.jobId ex.handle.claimSeq newLease s.jobs.db).1) newLease cut
  have hstep := (h.sound ex hex).step (K := K) (h.leases.claims ex hex)
    (.renew ex.handle.jobId ex.handle.claimSeq newLease) (fun _ _ hop => by cases hop)
    fun _ _ _ _ hop => by cases hop
  refine h.jobStep_put hi (h.leases.renewed hi newLease cut) htime ⟨?_, ?_, ?_, ?_⟩ hhandle
    (fun hh => hmain ▸ hh) (fun _ _ => nofun) (fun _ _ _ _ => nofun) fun _ => nofun
  · intro hh
    rw [hmain] at hh
    unfold Execution.Current
    rw [hhandle]
    exact hstep.current hh
  · intro hh hlost
    rw [hmain] at hh
    have hheld := h.renewJob_held hi hh newLease
    exact (h.sound ex hex).kept hh (hterminal (by rw [hheld]; nofun) hlost)
  · rw [hmain]
    exact hstep.ending
  · rw [hmain, hhandle]
    exact hstep.own

/-- A settlement that is loaded now is loaded from the claim. -/
theorem Inv.loaded (h : Inv s) (hi : s.executions[i]? = some ex) {command : JobCommand}
    (hmain : ex.main = .settling command)
    (hleases : Leases ((s.jobStep K (.settleLoad (some i) ex.handle.jobId command)).put i
      { ex with main := .sending command }))
    (htime : ((s.jobStep K (.settleLoad (some i) ex.handle.jobId command)).put i
      { ex with main := .sending command }).inTime = true) :
    Inv ((s.jobStep K (.settleLoad (some i) ex.handle.jobId command)).put i
      { ex with main := .sending command }) := by
  have hex := List.mem_of_getElem? hi
  have hholds : ex.main.holds = true := by rw [hmain]; rfl
  have hown : command.claimId = ex.handle.claimId := (h.sound ex hex).own command (by rw [hmain]; rfl)
  have hstep := (h.sound ex hex).step (K := K) (h.leases.claims ex hex)
    (.settleLoad (some i) ex.handle.jobId command) (fun _ _ hop => by cases hop)
    fun _ _ _ _ hop => by cases hop
  refine h.jobStep_put hi hleases htime ⟨fun _ => hstep.current hholds, fun _ => hstep.kept hholds,
    ⟨nofun, nofun⟩, ?_⟩ rfl (fun _ => hholds) (fun _ _ => nofun) (fun _ _ _ _ => nofun) ?_
  · rintro command' ⟨rfl⟩
    exact hown
  · rintro ⟨caller, id, command', ctx⟩ hop hctx
    obtain ⟨rfl, rfl, rfl⟩ := JobSystem.Op.settleLoad.inj hop
    refine ⟨ex, hi, rfl, hown.symm, fun _ => ?_⟩
    obtain ⟨k, -, r, -, -, hr, -⟩ := (h.leases.claims ex hex).claimedAt
    rw [loadFold_represented hr] at hctx
    rw [← Option.some.inj hctx]
    exact (h.sound ex hex).current hholds r hr

theorem Execution.answered_eq (ex : Execution Error) (command : JobCommand)
    (verdict : SettlementVerdict) :
    (ex.answered command verdict).handle = ex.handle ∧
      (ex.answered command verdict).terminal = ex.terminal ∧
      ((ex.answered command verdict).main.holds = true → verdict = .transient) ∧
      (∀ ending, (ex.answered command verdict).main.ending? = some ending →
        ending = .settled verdict) ∧
      ∀ command', (ex.answered command verdict).main.command? = some command' →
        command' = command := by
  unfold Execution.answered
  split
  · refine ⟨rfl, rfl, fun _ => rfl, nofun, ?_⟩
    rintro command' ⟨rfl⟩
    rfl
  · refine ⟨rfl, rfl, nofun, ?_, fun _ h => by cases h⟩
    rintro ending ⟨rfl⟩
    rfl
  · refine ⟨rfl, rfl, nofun, ?_, fun _ h => by cases h⟩
    rintro ending ⟨rfl⟩
    rfl

/-- The settlement of an execution that has its job is not fenced; unless it is applied, it changes
nothing. -/
theorem Inv.commit_verdict (h : Inv s) (hi : s.executions[i]? = some ex)
    (hholds : ex.main.holds = true) (htask : task ∈ s.jobs.settlements)
    (hcaller : task.caller = some i) (fault : Bool) (clock : ℕ → ℤ) :
    (task.commit K (commitFault fault) clock s.jobs.db).1 ≠ .fenced ∧
      ((task.commit K (commitFault fault) clock s.jobs.db).1 ≠ .applied →
        (task.commit K (commitFault fault) clock s.jobs.db).2 = s.jobs.db) := by
  have hex := List.mem_of_getElem? hi
  have hvouched := h.tasks task htask
  unfold Vouched at hvouched
  rw [hcaller] at hvouched
  obtain ⟨u, hu, hjob, hclaim, hsequence⟩ := hvouched
  obtain rfl := Option.some.inj (hi.symm.trans hu)
  obtain ⟨k, r, hseq, hheld⟩ := h.leases.claims ex hex
  have hlen := (h.sound ex hex).current hholds r hheld.rep
  have hcurrent := hsequence hholds
  obtain ⟨r', hr', hload⟩ := h.leases.jobs.settlements task htask
  rw [← hjob] at hr'
  obtain rfl := hheld.rep.unique hr'
  obtain ⟨worker, lease, hlast⟩ := hheld.claim
  obtain ⟨kind, payload, runAt, attempt, claims, hfold⟩ :=
    r.live.jobFold_claimed (by rw [hseq] at hlen; omega) hlast
  have hrep : Represents s.jobs.db task.jobId r := hjob ▸ hheld.rep
  have hholder : (JobState.claimed kind payload worker ex.handle.claimId runAt attempt claims).holder =
      some task.command.claimId := by
    rw [← hclaim]
    rfl
  refine ⟨SettleTask.commit_ne_fenced hrep hload (by omega) hfold hholder fault clock, ?_⟩
  intro hne
  rcases SettleTask.commit_cases hrep hload K (commitFault fault) clock with ⟨-, hdb⟩ | ⟨happlied, -⟩
  · exact hdb
  · exact absurd happlied hne

theorem Inv.committed (h : Inv s) (hi : s.executions[i]? = some ex) {command : JobCommand}
    (hmain : ex.main = .sending command) (htask : s.jobs.settlements[j]? = some task)
    (hcaller : task.caller = some i) {fault : Bool} {clock : ℕ → ℤ}
    (hleases : Leases ((s.jobStep K (.settleCommit j (commitFault fault) clock)).put i
      (ex.answered command (task.commit K (commitFault fault) clock s.jobs.db).1)))
    (htime : ((s.jobStep K (.settleCommit j (commitFault fault) clock)).put i
      (ex.answered command (task.commit K (commitFault fault) clock s.jobs.db).1)).inTime = true) :
    Inv ((s.jobStep K (.settleCommit j (commitFault fault) clock)).put i
      (ex.answered command (task.commit K (commitFault fault) clock s.jobs.db).1)) := by
  have hex := List.mem_of_getElem? hi
  have hholds : ex.main.holds = true := by rw [hmain]; rfl
  obtain ⟨hfenced, hdb⟩ := h.commit_verdict (K := K) hi hholds (List.mem_of_getElem? htask) hcaller
    fault clock
  obtain ⟨hhandle, hterminal, htransient, hending, hown⟩ :=
    ex.answered_eq command (task.commit K (commitFault fault) clock s.jobs.db).1
  refine h.jobStep_put hi hleases htime ⟨fun hh => ?_, fun _ => ?_, ⟨?_, ?_⟩, ?_⟩ hhandle
    (fun _ => hholds) (fun _ _ => nofun) ?_ fun _ => nofun
  · have hsame := hdb (by rw [htransient hh]; nofun)
    unfold Execution.Current
    rw [hhandle, JobSystem.step_settleCommit K htask, hsame]
    exact (h.sound ex hex).current hholds
  · rw [hterminal]
    exact (h.sound ex hex).kept hholds
  · intro hlost
    cases hending _ hlost
  · intro hsettled
    exact hfenced (Ending.settled.inj (hending _ hsettled)).symm
  · intro command' hcommand
    rw [hown command' hcommand, hhandle]
    exact (h.sound ex hex).own command (by rw [hmain]; rfl)
  · intro j' fault' clock' task' hop htask'
    obtain ⟨rfl, -, -⟩ := JobSystem.Op.settleCommit.inj hop
    obtain rfl := Option.some.inj (htask.symm.trans htask')
    exact hcaller

/-- A claim that has just been won is the last event of its job. -/
theorem length_of_won {db : Db} (hheld : JobsHeld db) {fault : Option SqliteJobError} {call : ClaimCall}
    {handle : JobClaimHandle} {payload : Json}
    (hwon : (claimJobAs fault call db).1 = .ok (.claimed handle payload)) {r : JobRecord}
    (hr : Represents (claimJobAs fault call db).2 call.jobId r) :
    handle.jobId = call.jobId ∧ handle.claimId = call.mint ∧ (r.log.length : ℤ) = handle.claimSeq := by
  rcases claimJobAs_cases hheld fault call with ⟨hnothing, -⟩ | ⟨r₀, out, r', -, hout, heff, hrep, -⟩
  · rw [hwon] at hnothing
    rcases hnothing with ⟨-, h⟩ | ⟨_, -, h⟩ | h | h <;> cases h
  · rw [hwon] at hout
    obtain rfl := hrep.unique hr
    cases heff with
    | abandoned => cases Except.ok.inj hout
    | won hv =>
        obtain rfl := (JobClaimResult.claimed.inj (Except.ok.inj hout)).1
        refine ⟨rfl, rfl, ?_⟩
        rw [JobRecord.appendWithRow_log, List.length_append, List.length_singleton, hv]

/-- A claim by the clock leaves the executions where they are. -/
theorem Inv.claim_sound (h : Inv s) {fault : Option SqliteJobError} {call : ClaimCall}
    (hclock : call.nowMs ≤ s.now.1) : ∀ ex ∈ s.executions,
      ex.Sound (JobSystem.step K s.jobs (.claim fault call)) := by
  refine fun ex hex => (h.sound ex hex).step (h.leases.claims ex hex) _ ?_ fun _ _ _ _ => nofun
  rintro fault' call' ⟨rfl, rfl⟩ hholds
  exact hclock.trans (h.now_le hex hholds)

theorem Inv.started (h : Inv s) {runner : Runner Error} {fault : Option SqliteJobError}
    {call : ClaimCall} {handle : JobClaimHandle} {payload : Json} (hclock : call.nowMs ≤ s.now.1)
    (hfresh : call.mint ∉ s.jobs.claimIds)
    (hwon : (claimJobAs fault call s.jobs.db).1 = .ok (.claimed handle payload))
    (hstart : runner.start call handle payload = some ex)
    (htime : ((s.jobStep K (.claim fault call)).begin ex).inTime = true) :
    Inv ((s.jobStep K (.claim fault call)).begin ex) := by
  obtain ⟨rfl, -, hterminal, hending, hown⟩ := Runner.start_eq hstart
  have hdb : (JobSystem.step K s.jobs (.claim fault call)).db =
      (claimJobAs fault call s.jobs.db).2 := by
    rw [JobSystem.step, if_neg hfresh]
  have hsettlements : (JobSystem.step K s.jobs (.claim fault call)).settlements =
      s.jobs.settlements := by
    rw [JobSystem.step, if_neg hfresh]
  have hhandle : ∀ r, Represents (JobSystem.step K s.jobs (.claim fault call)).db call.jobId r →
      ex.handle.jobId = call.jobId ∧ ex.handle.claimId = call.mint ∧
        (r.log.length : ℤ) = ex.handle.claimSeq := by
    rw [hdb]
    exact fun r hr => length_of_won h.leases.jobs.held hwon hr
  obtain ⟨k, attempt, r, hhandle', hheld⟩ := leaseHeld_of_won h.leases.jobs hfresh hwon (K := K)
  obtain ⟨hjob, hclaimId, -⟩ := hhandle r hheld.rep
  refine ⟨h.leases.begin hfresh hwon hstart, htime, fun u hu => ?_, fun task htask => ?_⟩
  · rcases List.mem_append.1 hu with hu | hu
    · exact h.claim_sound (K := K) hclock u hu
    · obtain rfl := List.mem_singleton.1 hu
      have hkept : u.terminal ≠ some .lost := by
        rw [hterminal]
        intro hlost
        cases hlost
      refine ⟨fun _ r hr => ?_, fun _ => hkept, by simp [hending], hown⟩
      rw [hjob] at hr
      exact (hhandle r hr).2.2
  · have htask' : task ∈ s.jobs.settlements := hsettlements ▸ htask
    refine Vouched.mono ?_ (JobSystem.step_claimIds s.jobs (.claim fault call) (K := K)).1
    exact (h.tasks task htask').append (hclaimId ▸ hfresh)

/-- **One operation** that comes in time keeps the invariant. -/
theorem Inv.step (h : Inv s) {op : Op Error} (hop : InTime K s op) : Inv (Heartbeat.step K s op) := by
  have hchange := step_change s op (K := K)
  have hleases := h.leases.step op (K := K)
  obtain ⟨hclock, htime⟩ := hop
  generalize Heartbeat.step K s op = s' at hchange hleases htime ⊢
  cases hchange with
  | idle => exact h
  | outside permitted =>
      refine h.outside permitted ?_ hleases
      rintro fault call rfl
      exact hclock call.nowMs rfl
  | ticked later => exact ⟨hleases, htime, h.sound, h.tasks⟩
  | @claimed runner fault call =>
      have hreading : (runner.call call).nowMs ≤ s.now.1 := by
        cases runner <;> exact hclock call.nowMs rfl
      exact ⟨hleases, htime, h.claim_sound (K := K) hreading, h.tasks_step _ fun _ => nofun⟩
  | @started runner fault call handle payload ex fresh won start =>
      have hreading : (runner.call call).nowMs ≤ s.now.1 := by
        cases runner <;> exact hclock call.nowMs rfl
      exact h.started hreading fresh won start htime
  | @acted i ex act at_i =>
      have honward := ex.act_onward s.now act
      exact h.put at_i hleases htime ((h.sound ex (List.mem_of_getElem? at_i)).onward honward)
        honward.handle honward.holds
  | @unrenewed i ex newLease cut at_i _ =>
      obtain ⟨hhandle, hmain, -, hterminal⟩ := ex.renewed_eq none newLease cut
      have hsound := h.sound ex (List.mem_of_getElem? at_i)
      refine h.put at_i hleases htime ⟨fun hh => ?_, fun hh hlost => ?_, ?_, ?_⟩ hhandle
        fun hh => hmain ▸ hh
      · unfold Execution.Current
        rw [hhandle]
        exact hsound.current (hmain ▸ hh)
      · exact hsound.kept (hmain ▸ hh) (hterminal nofun hlost)
      · rw [hmain]
        exact hsound.ending
      · rw [hmain, hhandle]
        exact hsound.own
  | renewed at_i => exact h.renewed at_i _ _ htime
  | @unloaded i ex at_i =>
      have honward : ex.Onward ex.unloaded := by
        unfold Execution.unloaded
        split
        · exact .of_renewer ex.renewer
        · exact .of_ended rfl rfl (.inr rfl)
      exact h.put at_i hleases htime ((h.sound ex (List.mem_of_getElem? at_i)).onward honward)
        honward.handle honward.holds
  | loaded at_i main => exact h.loaded at_i main hleases htime
  | committed at_i main inFlight caller => exact h.committed at_i main inFlight caller hleases htime

end InTime

/-! ## Runs -/

/-- **The invariant holds in every run** that is in time. -/
theorem inv_run {now : Instant} {ops : List (Op Error)}
    (hops : (machine K Error now).Meets (InTime K) (machine K Error now).init ops) :
    Inv ((machine K Error now).run ops) := by
  refine Machine.run_invariant_of_meets (P := Inv) ?_ (fun _ _ h hop => h.step hop) hops
  exact ⟨⟨JobSystem.inv_init, by simp [machine], by simp [machine]⟩, rfl, by simp [machine],
    by simp [machine]⟩

/-- **Renewals keep executions apart.** In every run of native and Haskell workers in which no
execution outlives its lease before its outcome is recorded, whatever else happens on the queue: a job
has at most one execution that has not recorded its outcome; the claim of that execution is the last
event of its job; and no execution gives its job up because its lease was lost, or finds its settlement
fenced. -/
theorem renewals_keep_executions_apart (K : CqrsEs) (now : Instant) {ops : List (Op Error)}
    (hops : (machine K Error now).Meets (InTime K) (machine K Error now).init ops) :
    (∀ id, ((machine K Error now).run ops).executions.countP
        (fun ex => ex.main.holds && ex.handle.jobId == id) ≤ 1) ∧
      (∀ ex ∈ ((machine K Error now).run ops).executions, ex.main.holds = true →
        ∃ k : ℕ, ex.handle.claimSeq = (k + 1 : ℕ) ∧
          JobSystem.ClaimedAt ((machine K Error now).run ops).jobs.db ex.handle.jobId k
            ex.handle.claimId ∧
          ((machine K Error now).run ops).jobs.db.row (jobStream ex.handle.jobId) (k + 2) = none) ∧
      ∀ ex ∈ ((machine K Error now).run ops).executions, ex.main.ending? ≠ some .leaseLost ∧
        ex.main.ending? ≠ some (.settled .fenced) := by
  have hinv := inv_run hops
  generalize (machine K Error now).run ops = s at hinv
  refine ⟨fun id => Pool.countP_le_one fun before ex after hsplit hex u hu => ?_,
    fun ex hex hholds => ?_, fun ex hex => (hinv.sound ex hex).ending⟩
  · have hmem (u : Execution Error) (hu : u ∈ ex :: (before ++ after)) : u ∈ s.executions := by
      rw [hsplit]
      simpa [or_left_comm] using hu
    rw [Bool.and_eq_true, beq_iff_eq] at hex
    obtain ⟨hholds, rfl⟩ := hex
    by_contra hu'
    have hu'' : u.main.holds = true ∧ u.handle.jobId = ex.handle.jobId := by simpa using hu'
    -- Both are on the last event of the job, which is one claim.
    have hex := hmem ex List.mem_cons_self
    have humem := hmem u (List.mem_cons_of_mem _ hu)
    obtain ⟨k, hk, hclaim⟩ := (hinv.leases.claims ex hex).claimedAt
    obtain ⟨k', hk', hclaim'⟩ := (hinv.leases.claims u humem).claimedAt
    obtain ⟨r, -, -, hr, -⟩ := id hclaim
    have hlen := (hinv.sound ex hex).current hholds r hr
    have hlen' := (hinv.sound u humem).current hu''.1 r (hu''.2.symm ▸ hr)
    obtain rfl : k = k' := by
      rw [hk] at hlen
      rw [hk'] at hlen'
      omega
    rw [hu''.2] at hclaim'
    have hnodup := hinv.leases.nodup
    rw [hsplit, List.map_append, List.map_cons, List.nodup_middle, List.nodup_cons,
      ← List.map_append] at hnodup
    exact hnodup.1 (List.mem_map.2 ⟨u, hu, claimedAt_unique hclaim' hclaim⟩)
  · obtain ⟨k, hk, hclaim⟩ := (hinv.leases.claims ex hex).claimedAt
    obtain ⟨r, -, -, hr, -⟩ := id hclaim
    have hlen := (hinv.sound ex hex).current hholds r hr
    refine ⟨k, hk, hclaim, ?_⟩
    rw [hk] at hlen
    rw [hr.row_eq, Option.map_eq_none_iff, List.getElem?_eq_none_iff]
    omega

/-- A worker that would try again for ever. -/
def tirelessWorker : JobWorkerConfig Unit where
  maxAttempts := 5
  maxClaims := 50
  executionTimeout := "5m"
  backoff _ := 1000000000
  retryDelay := 0
  refusedBackoff := 0
  decodes _ := true
  errorChain _ := ""
  failureChain _ := ""

/-- A job is claimed for 30 seconds and takes longer than that; a renewal comes in time, and a second
worker in vain. -/
def longJob : List (Op Unit) :=
  let second (n : UInt32) : Instant := .ofUInt32 (n * 1000)
  let worker : Runner Unit := .native tirelessWorker 30000000000
  [.outside (.enqueue none ⟨"job", "mail", .null, 0⟩), .tick (second 1),
    .claim worker none ⟨"job", "w1", 1000, 0, 0, "c1"⟩, .tick (second 20), .act 0 (.wake 0),
    .renew 0 false false, .tick (second 45), .claim worker none ⟨"job", "w2", 45000, 0, 0, "c2"⟩,
    .act 0 (.perform (some (.ok (.done ())))), .load 0 false, .commit 0 true fun _ => 0,
    .load 0 false, .commit 0 false fun _ => 0, .act 0 .quit, .act 0 .stop]

abbrev workers : Machine (State Unit) (Op Unit) := machine .atMultiples Unit (.ofUInt32 0)

theorem long_job_is_kept :
    workers.Meets (InTime .atMultiples) workers.init longJob ∧
      (workers.run longJob).executions.countP
        (fun ex => ex.main.holds && ex.handle.jobId == "job") ≤ 1 ∧
      (workers.run longJob).executions.map (fun ex => ex.main.ending?) =
        [some (.settled .applied)] := by
  have hmeets : workers.Meets (InTime .atMultiples) workers.init longJob := by decide +kernel
  exact ⟨hmeets, (renewals_keep_executions_apart .atMultiples (.ofUInt32 0) hmeets).1 "job",
    by decide +kernel⟩

/-! ## After a crash -/

section Stranded

variable {s : State Error} {i : ℕ} {ex : Execution Error}

/-- **The leases hold in every run**, in time or not. -/
theorem leases_run (now : Instant) (ops : List (Op Error)) :
    Leases ((machine K Error now).run ops) := by
  refine Machine.run_invariant (P := Leases) ?_ (fun _ op h => h.step op) ops
  exact ⟨JobSystem.inv_init, by simp [machine], by simp [machine]⟩

/-- A loop that has ended does not renew again. -/
theorem Execution.act_ended (ex : Execution Error) (now : Instant) (act : Act Error)
    (hended : ex.renewer = .ended) : (ex.act now act).renewer = .ended := by
  cases act with
  | wake deadline => simp only [Execution.act, Execution.wake, hended]
  | quit => simp only [Execution.act, Execution.quit, hended]
  | perform result =>
      simp only [Execution.act, Execution.performed]
      repeat' split
      all_goals exact hended
  | persist settlement =>
      simp only [Execution.act, Execution.persisted]
      repeat' split
      all_goals exact hended
  | stop =>
      simp only [Execution.act, Execution.stopped]
      repeat' split
      all_goals exact hended
  | crash =>
      simp only [Execution.act, Execution.crashed]
      split <;> rfl
  | unwind =>
      simp only [Execution.act, Execution.unwound]
      split <;> exact hended

/-- The execution is still there, with its loop ended and its lease as it was. -/
def Still (s : State Error) (i : ℕ) (ex : Execution Error) : Prop :=
  ∃ ex', s.executions[i]? = some ex' ∧ ex'.renewer = .ended ∧ ex'.handle = ex.handle ∧
    ex'.lease = ex.lease

theorem Still.put (h : Still s i ex) {j : ℕ} {u u' : Execution Error} (hj : s.executions[j]? = some u)
    (hu : u.renewer = .ended → u'.renewer = .ended ∧ u'.handle = u.handle ∧ u'.lease = u.lease) :
    Still (s.put j u') i ex := by
  obtain ⟨ex', hi, hended, hhandle, hlease⟩ := h
  by_cases hij : j = i
  · subst hij
    obtain rfl := Option.some.inj (hi.symm.trans hj)
    obtain ⟨hended', hhandle', hlease'⟩ := hu hended
    exact ⟨u', List.getElem?_set_self (List.getElem?_eq_some_iff.1 hi).1, hended',
      hhandle'.trans hhandle, hlease'.trans hlease⟩
  · exact ⟨ex', by rwa [State.put, List.getElem?_set_ne hij], hended, hhandle, hlease⟩

theorem Still.step (h : Still s i ex) (op : Op Error) : Still (Heartbeat.step K s op) i ex := by
  have hchange := step_change s op (K := K)
  generalize Heartbeat.step K s op = s' at hchange ⊢
  cases hchange with
  | idle => exact h
  | outside permitted => exact h
  | ticked later => exact h
  | claimed => exact h
  | @started _ _ _ _ _ u _ _ _ =>
      obtain ⟨ex', hi, hrest⟩ := h
      have hi' : (s.executions ++ [u])[i]? = some ex' := by
        rwa [List.getElem?_append_left (List.getElem?_eq_some_iff.1 hi).1]
      exact ⟨ex', hi', hrest⟩
  | @acted j u act at_j =>
      have honward := u.act_onward s.now act
      exact h.put at_j fun hu => ⟨u.act_ended s.now act hu, honward.handle, honward.lease⟩
  | unrenewed at_j renewing => exact h.put at_j fun hu => by rw [hu] at renewing; cases renewing
  | @renewed j u newLease cut at_j renewing =>
      have hstep : Still (s.jobStep K (.renew u.handle.jobId u.handle.claimSeq newLease)) i ex := h
      exact hstep.put at_j fun hu => by rw [hu] at renewing; cases renewing
  | unloaded at_j =>
      refine h.put at_j fun hu => ?_
      unfold Execution.unloaded
      split <;> exact ⟨hu, rfl, rfl⟩
  | @loaded j u command at_j main =>
      have hstep : Still (s.jobStep K (.settleLoad (some j) u.handle.jobId command)) i ex := h
      exact hstep.put at_j fun hu => ⟨hu, rfl, rfl⟩
  | @committed j k u command fault clock task at_j main inFlight caller =>
      have hstep : Still (s.jobStep K (.settleCommit k (commitFault fault) clock)) i ex := h
      refine hstep.put at_j fun hu => ?_
      unfold Execution.answered
      split <;> exact ⟨hu, rfl, rfl⟩

/-- What a claim on a job finds whose last event is the claim of an execution. -/
theorem Execution.OnClaim.claimJobAs {jobs : JobSystem.State} (h : ex.OnClaim jobs) {k : ℕ}
    (hseq : ex.handle.claimSeq = (k + 1 : ℕ))
    (hlast : jobs.db.row (jobStream ex.handle.jobId) (k + 2) = none) {call : ClaimCall}
    (hjob : call.jobId = ex.handle.jobId) (hpolicy : call.policyValid = true)
    (hroom : (jobs.db.stream (jobStream ex.handle.jobId)).maxSeq < i64Max) :
    if call.nowMs ≤ ex.lease then ClaimedNothing none call (claimJobAs none call jobs.db).1
    else (claimJobAs none call jobs.db).1 = .ok .abandoned ∨
      ∃ handle payload, (claimJobAs none call jobs.db).1 = .ok (.claimed handle payload) := by
  obtain ⟨k', r, hseq', hheld⟩ := h
  obtain rfl : k = k' := by
    rw [hseq] at hseq'
    omega
  obtain ⟨worker, leaseUntil, hclaim⟩ := hheld.claim
  have hlen : r.log.length = k + 1 := by
    have hlt := (List.getElem?_eq_some_iff.1 hclaim).1
    rw [hheld.rep.row_eq, Option.map_eq_none_iff, List.getElem?_eq_none_iff] at hlast
    omega
  split_ifs with hnow
  · refine (hheld.excludes (fun e he => ?_) hjob hnow none).1
    rw [List.getElem?_eq_none (by omega)] at he
    cases he
  · obtain ⟨kind, payload, runAt, attempt, claims, hfold⟩ := r.live.jobFold_claimed hlen hclaim
    have hrep : Represents jobs.db call.jobId r := hjob ▸ hheld.rep
    have hv := JobRecord.version_eq_of_claimed hfold
    have hrunnable : runnable (.claimed kind payload worker ex.handle.claimId runAt attempt claims)
        r.lease call.nowMs = true := by
      rw [hheld.lease hlen, runnable, decide_eq_true_eq]
      omega
    have hroom' : r.log.length < i64Max := by
      rwa [hheld.rep.stream, SeqLog.maxSeq_ofList_zero, List.length_map] at hroom
    obtain ⟨out, db', r', hout, heffect, -⟩ :=
      EventStoreBackend.claimJobAs_runnable hrep hv hfold rfl hrunnable hpolicy hroom'
    rw [hout]
    cases heffect with
    | won => exact .inr ⟨_, _, rfl⟩
    | abandoned => exact .inl rfl

end Stranded

/-- A worker claims a job and is gone. -/
def crashedJob : List (Op Unit) :=
  [.outside (.enqueue none ⟨"job", "mail", .null, 0⟩), .tick (.ofUInt32 1000),
    .claim (.native tirelessWorker 30000000000) none ⟨"job", "w1", 1000, 0, 0, "c1"⟩, .act 0 .crash]

end Heartbeat

end EventSorcery
