import EventSorcery.JobQueue

/-!
# The job runtime

The calls workers make: enqueue a payload, claim a job under a policy, settle a claim. A settlement
is a command on the job aggregate, so it loads the fold of the stream, decides on it, and commits at
the number after it; the two halves are separate steps here (`loadFold`, `SettleTask.commit`), since
anything may happen in between. The second part says what the settlement, the queue's reactor and
startup catch-up do to a represented job.
-/

namespace EventSorcery

/-- Failures of the runtime's calls. -/
inductive JobRuntimeError where
  | backend (error : SqliteJobError)
  | aggregate
  | settlementRefused (jobId : JobId)
  | invalidInstant (millis : ℤ)
  | attemptExhausted
  | invalidClaimPolicy
  deriving DecidableEq, Repr

def JobRuntimeError.ofStore : JobStoreError → JobRuntimeError
  | .invalidInstant millis => .invalidInstant millis
  | .encode | .delayOverflow => .aggregate

/-- Enqueue a payload in a transaction of its own. -/
def enqueueJobPayload (fault : Option SqliteJobError) (request : EnqueueRequest) (db : Db) :
    Except JobRuntimeError Unit × Db :=
  match enqueuedEvent request, pendingSeedPayload request with
  | .error error, _ | .ok _, .error error => (.error (.ofStore error), db)
  | .ok event, .ok projection =>
      let (out, db') := enqueueJob fault event projection db
      (out.mapError .backend, db')

/-! ## Claims -/

/-- What a worker keeps of a won claim. -/
structure JobClaimHandle where
  jobId : JobId
  claimSeq : ℤ
  claimId : ClaimId
  attempt : UInt32
  deriving DecidableEq, Repr

inductive JobClaimResult where
  | claimed (handle : JobClaimHandle) (payload : Json)
  | abandoned
  | contended
  | skipped
  deriving DecidableEq

def JobClaimResult.ofOutcome (jobId : JobId) : ClaimOutcome WonClaim → JobClaimResult
  | .won won => .claimed ⟨jobId, won.claimSeq, won.claimId, won.attempt⟩ won.args
  | .abandoned => .abandoned
  | .contended => .contended
  | .skip => .skipped

/-- Whether a call's lease is positive and representable and its claim budget is not zero. -/
def ClaimCall.policyValid (call : ClaimCall) : Bool :=
  0 < call.leaseMs && call.maxClaims ≠ 0 &&
    (checkedAddI64 call.nowMs call.leaseMs).any fun millis => InstantRange millis

/-- The claim behind every worker: check the policy, then run the claim transaction. -/
def claimJobAs (fault : Option SqliteJobError) (call : ClaimCall) (db : Db) :
    Except JobRuntimeError JobClaimResult × Db :=
  if call.policyValid then
    let (out, db') := call.run fault db
    ((out.mapError .backend).map (.ofOutcome call.jobId), db')
  else (.error .invalidClaimPolicy, db)

/-! ## Settlements -/

section Framework

variable {Entity Event Command Error : Type} (E : EventSourced Entity Event Command Error)

/-- Load the fold of a stream. -/
def loadFold (db : Db) (id : String) : Option (AggregateContext Entity Event Error) :=
  (applyPayloads E .uninitialized (db.stream (E.stream id)).values).map fun lifecycle =>
    ⟨lifecycle, (db.stream (E.stream id)).maxSeq,
      (db.snapshots.lookup (E.stream id)).map SnapshotRow.snapshotVersion⟩

end Framework

/-- How a settlement ends. -/
inductive SettlementVerdict where
  | applied
  | fenced
  | transient
  | rejected
  deriving DecidableEq, Repr

/-- The domain's fence and the stream's conflict are one answer. -/
def classifySettlement {α : Type} :
    Except (SendError JobState JobEvent JobError) α → SettlementVerdict
  | .ok _ => .applied
  | .error (.userError (.apply .fenced)) | .error .aggregateConflict => .fenced
  | .error .databaseConnection => .transient
  | .error _ => .rejected

/-- What a settlement call that did not fail returns. -/
inductive JobSettlementResult where
  | applied
  | fenced
  deriving DecidableEq, Repr

/-- What the settlement call returns. -/
def SettlementVerdict.result (jobId : JobId) :
    SettlementVerdict → Except JobRuntimeError JobSettlementResult
  | .applied => .ok .applied
  | .fenced => .ok .fenced
  | .transient => .error .aggregate
  | .rejected => .error (.settlementRefused jobId)

theorem SettlementVerdict.result_eq_applied {jobId : JobId} {verdict : SettlementVerdict} :
    verdict.result jobId = .ok .applied ↔ verdict = .applied := by
  cases verdict <;> simp [SettlementVerdict.result]

/-- A settlement that has loaded its job, with the execution it comes from, if a worker's. -/
structure SettleTask where
  caller : Option ℕ
  jobId : JobId
  command : JobCommand
  ctx : AggregateContext JobState JobEvent JobError

/-- Decide on the loaded job and commit. -/
def SettleTask.commit (K : CqrsEs) (fault : Option EngineError) (clock : ℕ → ℤ) (task : SettleTask)
    (db : Db) : SettlementVerdict × Db :=
  let (out, db') := K.handleAndCommit jobEntity fault clock task.jobId task.ctx task.command "" db
  (classifySettlement out, db')

theorem SettleTask.commit_snd (K : CqrsEs) (fault : Option EngineError) (clock : ℕ → ℤ)
    (task : SettleTask) (db : Db) : (task.commit K fault clock db).2 =
      (K.handleAndCommit jobEntity fault clock task.jobId task.ctx task.command "" db).2 := rfl

theorem classifySettlement_eq_applied {α : Type}
    {out : Except (SendError JobState JobEvent JobError) α} :
    classifySettlement out = .applied ↔ ∃ a, out = .ok a := by
  unfold classifySettlement
  split <;> simp

/-! ## Enqueues and claims on represented jobs -/

/-- **An enqueue** is refused and changes nothing, or adds one new job. -/
theorem enqueueJobPayload_cases {db : Db} (hheld : JobsHeld db) (fault : Option SqliteJobError)
    (request : EnqueueRequest) :
    (∃ error, (enqueueJobPayload fault request db).1 = .error error) ∧
        (enqueueJobPayload fault request db).2 = db ∨
      ∃ runAt, Absent db request.jobId ∧ (enqueueJobPayload fault request db).1 = .ok () ∧
        Represents (enqueueJobPayload fault request db).2 request.jobId
          (.enqueue request.kind request.payload runAt) ∧
        ∀ id' ≠ request.jobId, SameJob db (enqueueJobPayload fault request db).2 id' := by
  unfold enqueueJobPayload enqueuedEvent pendingSeedPayload
  cases hinst : instantFromMillis request.runAtMs with
  | error error => exact .inl ⟨⟨_, rfl⟩, rfl⟩
  | ok runAt =>
      cases fault with
      | some error => exact .inl ⟨⟨_, rfl⟩, rfl⟩
      | none =>
          simp only [bind, Except.bind]
          rcases hheld request.jobId with habs | ⟨r, hr⟩
          · obtain ⟨db', henq, hrep, hsame⟩ :=
              enqueueJob_absent habs request.kind request.payload runAt
            rw [henq]
            exact .inr ⟨runAt, habs, rfl, hrep, hsame⟩
          · rw [enqueueJob_represented hr]
            exact .inl ⟨⟨_, rfl⟩, rfl⟩

/-- A claim call that answers without a claim: refused, lost the race, nothing to do, or a storage
fault. -/
def ClaimedNothing (fault : Option SqliteJobError) (call : ClaimCall)
    (out : Except JobRuntimeError JobClaimResult) : Prop :=
  (¬ call.policyValid ∧ out = .error .invalidClaimPolicy) ∨
    (∃ error, fault = some error ∧ out = .error (.backend error)) ∨
    out = .ok .contended ∨ out = .ok .skipped

theorem NothingClaimed.claimedNothing {fault : Option SqliteJobError}
    {out : Except SqliteJobError (ClaimOutcome WonClaim)} (h : NothingClaimed fault out)
    (call : ClaimCall) :
    ClaimedNothing fault call ((out.mapError JobRuntimeError.backend).map (.ofOutcome call.jobId)) := by
  rcases h with ⟨error, hfault, rfl⟩ | rfl | rfl
  · exact .inr (.inl ⟨error, hfault, rfl⟩)
  · exact .inr (.inr (.inl rfl))
  · exact .inr (.inr (.inr rfl))

/-- **A claim** changes nothing, or wins or abandons the job as the row says. -/
theorem claimJobAs_cases {db : Db} (hheld : JobsHeld db) (fault : Option SqliteJobError)
    (call : ClaimCall) :
    ClaimedNothing fault call (claimJobAs fault call db).1 ∧ (claimJobAs fault call db).2 = db ∨
      ∃ r out r', Represents db call.jobId r ∧
        (claimJobAs fault call db).1 = .ok (.ofOutcome call.jobId out) ∧
        ClaimEffect call r out r' ∧ Represents (claimJobAs fault call db).2 call.jobId r' ∧
        ∀ id' ≠ call.jobId, SameJob db (claimJobAs fault call db).2 id' := by
  unfold claimJobAs
  split_ifs with hpolicy
  · rcases hheld call.jobId with habs | ⟨r, hr⟩
    · obtain ⟨hnone, hdb⟩ := call.run_absent habs fault
      exact .inl ⟨hnone.claimedNothing _, hdb⟩
    · rcases call.run_cases hr fault with ⟨hnone, hdb⟩ | ⟨out, r', hout, heff, hrep, hsame⟩
      · exact .inl ⟨hnone.claimedNothing _, hdb⟩
      · refine .inr ⟨r, out, r', hr, ?_, heff, hrep, hsame⟩
        change ((call.run fault db).1.mapError _).map _ = _
        rw [hout]
        rfl
  · exact .inl ⟨.inl ⟨hpolicy, rfl⟩, rfl⟩

/-! ## Settlements on represented jobs -/

/-- The claim that holds a job. -/
def JobState.holder : JobState → Option ClaimId
  | .claimed _ _ _ c _ _ _ => some c
  | _ => none

theorem transition_eq (st : JobState) (command : JobCommand) :
    st.transition command =
      if st.holder = some command.claimId then .ok (.events [command.event])
      else .error .fenced := by
  cases st <;> simp [JobState.transition, JobState.holder]

/-- A settlement the held job accepts answers with its one event and dispatches nothing. -/
theorem handle_job_eq_ok {st : JobState} {command : JobCommand} {mint : JobId}
    {events : List JobEvent} {scope : PendingScope}
    (h : Lifecycle.handle jobEntity (.live st) command mint (some []) = (.ok events, scope)) :
    events = [command.event] ∧ scope = some [] ∧ st.holder = some command.claimId := by
  have hdec : Lifecycle.decision jobEntity (.live st) command mint =
      (st.transition command).mapError .apply := rfl
  unfold Lifecycle.handle at h
  rw [hdec, transition_eq] at h
  split_ifs at h with hheld
  · obtain ⟨hev, rfl⟩ := Prod.mk.inj h
    refine ⟨?_, rfl, hheld⟩
    cases hw : Lifecycle.writeAll jobEntity (.live st) [command.event] with
    | error error => rw [hw] at hev; cases hev
    | ok u => rw [hw] at hev; exact (Except.ok.inj hev).symm
  · cases (Prod.mk.inj h).1

theorem holder_eq_some {st : JobState} {c : ClaimId} (h : st.holder = some c) :
    ∃ kind payload worker runAt attempt claims,
      st = .claimed kind payload worker c runAt attempt claims := by
  cases st with
  | claimed kind payload worker c' runAt attempt claims =>
      obtain rfl := Option.some.inj h
      exact ⟨_, _, _, _, _, _, rfl⟩
  | _ => cases h

/-- A held job evolves by every outcome. -/
theorem evolve_command {st : JobState} (command : JobCommand)
    (h : st.holder = some command.claimId) : ∃ st', st.evolve command.event = .ok (some st') := by
  obtain ⟨kind, payload, worker, runAt, attempt, claims, rfl⟩ := holder_eq_some h
  cases command <;> exact ⟨_, rfl⟩

theorem claimId?_command (command : JobCommand) : command.event.claimId? = none := by
  cases command <;> rfl

/-- A commit of one job event and no jobs, at the number after `ctx`: the number was free, and the
queue is as it was. -/
theorem commitEvents_job_ok {K : CqrsEs} {fault : Option EngineError} {clock : ℕ → ℤ} {id : JobId}
    {ctx : AggregateContext JobState JobEvent JobError} {e : JobEvent} {db : Db}
    (h : (K.commitEvents jobEntity fault clock id ctx [e] (some []) db).1 = .ok ()) :
    ctx.currentSequence + 1 ≤ i64Max ∧
      ∃ l, (db.stream (jobStream id)).insert? (ctx.currentSequence + 1) e.stored = some l ∧
        (K.commitEvents jobEntity fault clock id ctx [e] (some []) db).2.2.stream =
          Function.update db.stream (jobStream id) l ∧
        (K.commitEvents jobEntity fault clock id ctx [e] (some []) db).2.2.jobQueue =
          db.jobQueue := by
  obtain ⟨-, requests, count, hprep, hcommit⟩ := persist_ok h
  obtain ⟨rfl, -⟩ := Prod.mk.inj (Except.ok.inj hprep)
  obtain ⟨-, -, db₁, db₂, hins, hsnap, hjobs⟩ := commitSerialized_ok (congrArg Prod.fst hcommit)
  have hdb : (K.commitEvents jobEntity fault clock id ctx [e] (some []) db).2.2 = db₂ := by
    have := Except.ok.inj hjobs
    rw [hcommit] at this
    exact this.symm
  obtain ⟨hstream, hqueue, -⟩ := writeSnapshot_eq_ok hsnap
  rw [hdb, hstream, hqueue]
  -- The batch is one row: it fits the column and its number is free.
  change insertSerializedEventsBatch db [e.serialized id (ctx.currentSequence + 1)] = _ at hins
  rw [insertSerializedEventsBatch_singleton] at hins
  split_ifs at hins with hb
  unfold Db.insertEvent at hins
  split at hins
  · cases hins
  next l hl =>
    obtain rfl := Except.ok.inj hins
    exact ⟨hb, l, hl, db.stream_setStream _ l, rfl⟩

/-- A settlement's load is still a prefix of its job's history. -/
structure SettleTask.LoadedFrom (task : SettleTask) (r : JobRecord) : Prop where
  aggregate : task.ctx.aggregate = jobFold (r.log.take task.ctx.currentSequence)
  pos : 0 < task.ctx.currentSequence
  le : task.ctx.currentSequence ≤ r.log.length

theorem SettleTask.LoadedFrom.mono {task : SettleTask} {r r' : JobRecord}
    (h : task.LoadedFrom r) (hlog : r.log <+: r'.log) : task.LoadedFrom r' := by
  obtain ⟨rest, hrest⟩ := hlog
  refine ⟨?_, h.pos, h.le.trans (by rw [← hrest]; simp)⟩
  rw [h.aggregate, ← hrest, List.take_append_of_le_length h.le]

theorem stored_eq : jobEntity.stored = JobEvent.stored := rfl

/-- Loading a represented job gives its whole history. -/
theorem loadFold_represented {db : Db} {id : JobId} {r : JobRecord} (h : Represents db id r) :
    loadFold jobEntity db id = some ⟨jobFold r.log, r.log.length,
      (db.snapshots.lookup (jobStream id)).map SnapshotRow.snapshotVersion⟩ := by
  have hs : jobEntity.stream id = jobStream id := rfl
  rw [loadFold, hs, h.stream, SeqLog.values_ofList, ← stored_eq, applyPayloads_stored,
    SeqLog.maxSeq_ofList_zero, List.length_map]
  rfl

/-- **A settlement's commit** answers something else than `Applied` and changes nothing, or the load
was current, the claim it carries is the last event, and exactly its outcome goes in after it. -/
theorem SettleTask.commit_cases {db : Db} {task : SettleTask} {r : JobRecord}
    (h : Represents db task.jobId r) (hload : task.LoadedFrom r) (K : CqrsEs)
    (fault : Option EngineError) (clock : ℕ → ℤ) :
    (task.commit K fault clock db).1 ≠ .applied ∧ (task.commit K fault clock db).2 = db ∨
      (task.commit K fault clock db).1 = .applied ∧
        ∃ (hv : r.version = r.log.length) (live : LiveLog (r.log ++ [task.command.event]))
          (worker : WorkerId) (lease : Instant),
          r.log.getLast? = some (.claimed worker task.command.claimId lease) ∧
          Represents (task.commit K fault clock db).2 task.jobId
            (r.appendEvent task.command.event hv live (claimId?_command _)) ∧
          ∀ id' ≠ task.jobId, SameJob db (task.commit K fault clock db).2 id' := by
  cases hout : (K.handleAndCommit jobEntity fault clock task.jobId task.ctx task.command "" db).1 with
  | error error =>
      refine .inl ⟨fun happ => ?_, handleAndCommit_error hout⟩
      obtain ⟨a, ha⟩ := classifySettlement_eq_applied.1 happ
      cases hout.symm.trans ha
  | ok events =>
      refine .inr ⟨classifySettlement_eq_applied.2 ⟨events, hout⟩, ?_⟩
      obtain ⟨scope, hhandle, hcommit, hdb⟩ := handleAndCommit_ok hout
      obtain ⟨st, hst⟩ := r.live.take hload.pos
      rw [hload.aggregate, hst] at hhandle
      obtain ⟨rfl, rfl, hheld⟩ := handle_job_eq_ok hhandle
      obtain ⟨hb, l, hl, hstream, hqueue⟩ := commitEvents_job_ok hcommit
      -- Had anything been appended since the load, the number would be taken.
      have hcur : task.ctx.currentSequence = r.log.length := by
        refine le_antisymm hload.le (not_lt.1 fun hlt => ?_)
        rw [insert?_taken h (Nat.succ_pos _) hlt] at hl
        cases hl
      rw [hcur, List.take_length] at hst
      rw [hcur, insert?_next h] at hl
      obtain ⟨kind, payload, worker, runAt, attempt, claims, rfl⟩ := holder_eq_some hheld
      have hv : r.version = r.log.length := JobRecord.version_eq_of_claimed hst
      obtain ⟨st', hev⟩ := evolve_command task.command hheld
      have hpos := r.live.length_pos
      obtain ⟨lease, hlast⟩ := r.live.claimed_last (i := r.log.length - 1) (by omega)
        (by rwa [Nat.sub_add_cancel hpos, List.take_length])
      refine ⟨hv, .of_eq ((liveLog_concat_iff hst).2 hev), worker, lease,
        by rw [List.getLast?_eq_getElem?, hlast], ⟨?_, ?_, ?_⟩, fun id' hne => ⟨?_, ?_⟩⟩
      · rw [SettleTask.commit_snd, hdb, hstream, Function.update_self]
        exact (Option.some.inj hl).symm
      · rw [SettleTask.commit_snd, hdb, hqueue, h.row]
        simp [JobRecord.rowState, hv]
      · simpa [← hcur] using hb
      · rw [SettleTask.commit_snd, hdb, hstream,
          Function.update_of_ne fun heq => hne (jobStream_inj.1 heq)]
      · rw [SettleTask.commit_snd, hdb, hqueue]

end EventSorcery
