import EventSorcery.JobPoll
import EventSorcery.JobSafety
import EventSorcery.Store

/-!
# Calls on jobs that succeed

The case lemmas about claims and settlements say what a call did when it changed something. Here are
the converses: a claim on a runnable job within its budget wins, and a settlement of the claim that
holds the job is applied, unless the storage fails or a number has run out.
-/

namespace EventSorcery

/-! ## Claims -/

/-- A claim on a runnable job whose row is up to date wins it. -/
theorem claimJobAs_wins {db : Db} {call : ClaimCall} {r : JobRecord}
    (h : Represents db call.jobId r) (hv : r.version = r.log.length) {st : JobState}
    {job : JobFields} (hst : jobFold r.log = .live st) (hjob : st.fields? = some job)
    (hrun : runnable st r.lease call.nowMs) (hpolicy : call.policyValid)
    (hbudget : job.claims < call.maxClaims) (hroom : r.log.length < i64Max) :
    ∃ (lease : Instant) (db' : Db) (r' : JobRecord), claimJobAs none call db =
        (.ok (.claimed ⟨call.jobId, (r.log.length + 1 : ℕ), call.mint, job.attempt⟩ job.payload),
          db') ∧
      Represents db' call.jobId r' ∧ r'.log = r.log ++ [call.event lease] ∧
      r'.version = r'.log.length ∧ db'.snapshots = db.snapshots := by
  have hrow : r.rowState = .live st := (JobRecord.rowState_eq hv).trans hst
  have hread := readJobProjection_represented h hrow
  have hskip : call.plan (some ⟨r.version, liveJson st, r.lease⟩) ≠ .skip := fun hskip =>
    (call.plan_eq_skip_iff hpolicy hjob r.lease (Int.natCast_nonneg _) (by omega)).1 hskip hrun
  rcases call.plan_live st r.lease (show r.version ≤ i64Max by omega) with
    hskip' | ⟨hb, job', hjob', -, ⟨hspent, -⟩ | ⟨-, lease, -, hplan⟩⟩
  · exact absurd hskip' hskip
  · obtain rfl := Option.some.inj (hjob.symm.trans hjob')
    exact absurd hbudget (UInt32.not_lt.2 hspent)
  · obtain rfl := Option.some.inj (hjob.symm.trans hjob')
    have hfold : jobFold (r.log ++ [call.event lease]) = .live (.claimed job.kind job.payload
        call.worker call.mint job.runAt job.attempt (job.claims + 1)) :=
      (liveLog_concat_iff hst).2 (evolve_claimed hjob _ _ _)
    have hrep := represents_appendWithRow db call.jobId (some lease.1) hv hfold hb
    refine ⟨lease, _, _, ?_, hrep, rfl, ?_, rfl⟩
    · rw [claimJobAs, if_pos hpolicy, ClaimCall.run, claimJob_claim (hread ▸ hplan),
        appendJobEvent_represented h, if_pos hb, if_pos hv, hv]
      rfl
    · simp [JobRecord.appendWithRow, hv]

/-! ## Settlements -/

/-- The job has a number left for one more event, and its snapshot one for the next. -/
def JobRoom (db : Db) (id : JobId) : Prop :=
  (db.stream (jobStream id)).maxSeq < i64Max ∧
    ((db.snapshots.lookup (jobStream id)).map SnapshotRow.snapshotVersion).getD 0 < i64Max

instance (db : Db) (id : JobId) : Decidable (JobRoom db id) := inferInstanceAs (Decidable (_ ∧ _))

theorem JobRoom.length_lt {db : Db} {id : JobId} {r : JobRecord} (h : JobRoom db id)
    (hr : Represents db id r) : r.log.length < i64Max := by
  have hmax := h.1
  rwa [hr.stream, SeqLog.maxSeq_ofList_zero, List.length_map] at hmax

/-- A job loads whole, with a snapshot that leaves room for the next one. -/
theorem loadAggregate_job {db : Db} {id : JobId} {r : JobRecord} (hr : Represents db id r)
    (hsound : ∀ row, db.snapshots.lookup (jobStream id) = some row → SnapshotSound jobEntity r.log row)
    (hroom : JobRoom db id) :
    ∃ version, loadAggregate jobEntity db id = .ok ⟨jobFold r.log, r.log.length, version⟩ ∧
      version.getD 0 < i64Max := by
  obtain ⟨version, hload⟩ : ∃ version, loadAggregate jobEntity db id =
      .ok ⟨jobFold r.log, r.log.length, version⟩ := loadAggregate_retain rfl hr.stream hsound
  refine ⟨version, hload, ?_⟩
  cases version with
  | none => exact (Nat.zero_le _).trans_lt hroom.2
  | some version =>
      obtain ⟨row, hrow, rfl⟩ := loadAggregate_snapshot hload version rfl
      have hlookup : db.snapshots.lookup (jobStream id) = some row := hrow
      have hversion := hroom.2
      rwa [hlookup] at hversion

/-- The claim that holds a job is heard. -/
theorem handle_job_of_holder {st : JobState} {command : JobCommand}
    (h : st.holder = some command.claimId) (mint : JobId) :
    Lifecycle.handle jobEntity (.live st) command mint (some []) =
      (.ok [command.event], some []) := by
  have hdecision : Lifecycle.decision jobEntity (.live st) command mint =
      .ok (.events [command.event]) := by
    change (st.transition command).mapError _ = _
    rw [transition_eq, if_pos h]
    rfl
  obtain ⟨st', hev⟩ := evolve_command command h
  have happly : Lifecycle.apply jobEntity (.live st) command.event = .live st' :=
    (Lifecycle.apply_live_eq_live jobEntity).2 hev
  simp only [Lifecycle.handle, hdecision, Lifecycle.writeAll, happly]
  rfl

/-- Any other claim is fenced. -/
theorem handle_job_of_not_holder {st : JobState} {command : JobCommand}
    (h : st.holder ≠ some command.claimId) (mint : JobId) :
    (Lifecycle.handle jobEntity (.live st) command mint (some [])).1 =
      .error (.apply .fenced) := by
  have hdecision : Lifecycle.decision jobEntity (.live st) command mint = .error (.apply .fenced) := by
    change (st.transition command).mapError _ = _
    rw [transition_eq, if_neg h]
    rfl
  simp only [Lifecycle.handle, hdecision]

/-- A commit without an expected version ends as its statements do. -/
theorem commitSerialized_fst {request : CommitRequest} {db : Db}
    (hstream : validateEventStream request.stream request.events = .ok ())
    (hexpected : request.expectedVersion = none) :
    (commitSerialized none request db).1 = (commitStatements request db).map fun _ => () := by
  simp only [commitSerialized, hstream, hexpected, Option.any_none, Bool.false_eq_true, if_false,
    inTransaction]
  cases commitStatements request db <;> rfl

/-- A commit of one job event asks the engine for the event, and for a snapshot numbered after the one
that was loaded or none. -/
theorem commitEvents_job_eq (K : CqrsEs) (fault : Option EngineError) (clock : ℕ → ℤ) (id : JobId)
    (ctx : AggregateContext JobState JobEvent JobError) (e : JobEvent) (db : Db) :
    ∃ snapshot : Option SnapshotUpdate,
      (∀ s ∈ snapshot, s.snapshotVersion = ctx.currentSnapshot.getD 0 + 1) ∧
        (K.commitEvents jobEntity fault clock id ctx [e] (some []) db).1 =
          (commitSerialized fault ⟨jobStream id, none,
            [e.serialized id (ctx.currentSequence + 1)], snapshot, []⟩ db).1.mapError .ofEngine := by
  let row := e.serialized id (ctx.currentSequence + 1)
  have hpersist (update : Option (String × SnapshotUpdate)) (hid : ∀ u ∈ update, u.1 = id) :
      (persist fault clock jobAggregateType [row] update (some []) db).1 =
        (commitSerialized fault ⟨jobStream id, none, [row], update.map Prod.snd, []⟩ db).1.mapError
          .ofEngine := by
    have hstream : (⟨jobAggregateType, persistedAggregateId [row] update⟩ : StreamIdentity) =
        jobStream id := by
      cases update with
      | none => rfl
      | some u => exact congrArg (StreamIdentity.mk jobAggregateType) (hid u rfl)
    have hprepared : preparePending clock (some []) = .ok ([], some 0) := rfl
    have hplain : ¬ ([row].any fun e => reservesEnginePayload e.metadata) := Bool.false_ne_true
    have hevents : ¬ (update.isSome ∧ [row] = []) := fun h => List.cons_ne_nil _ _ h.2
    simp only [persist, hprepared, if_neg hevents, commit, hstream, if_neg hplain]
    rcases commitSerialized fault ⟨jobStream id, none, [row], update.map Prod.snd, []⟩ db with
      ⟨error | _, db'⟩ <;> rfl
  refine ⟨_, ?_, hpersist _ ?_⟩
  · intro s hs
    obtain ⟨u, hu, rfl⟩ := Option.mem_map.1 hs
    split_ifs at hu
    · cases hu
    · obtain rfl := Option.some.inj hu
      rfl
  · intro u hu
    split_ifs at hu
    · cases hu
    · obtain rfl := Option.some.inj hu
      rfl

/-- What becomes of one event at the number after those that were loaded. -/
theorem commitSerialized_job {db : Db} {id : JobId} {r : JobRecord} (h : Represents db id r)
    (hroom : r.log.length < i64Max) {n : ℕ} (hn : n ≤ r.log.length)
    {snapshot : Option SnapshotUpdate} (hsnapshot : ∀ s ∈ snapshot, s.snapshotVersion ≤ i64Max)
    (e : JobEvent) :
    (commitSerialized none ⟨jobStream id, none, [e.serialized id (n + 1)], snapshot, []⟩ db).1 =
      if n = r.log.length then .ok () else .error .optimisticLock := by
  let row := e.serialized id (n + 1)
  have hvalid : validateEventStream (jobStream id) [row] = .ok () := by
    have hidentity : row.identity = jobStream id := rfl
    simp [validateEventStream, hidentity]
  have hfits : row.sequence ≤ i64Max := Nat.succ_le_of_lt (hn.trans_lt hroom)
  have hbatch : insertSerializedEventsBatch db [row] = db.insertEvent row := by
    rw [insertSerializedEventsBatch_singleton, if_pos hfits]
  split_ifs with hcurrent
  · subst hcurrent
    obtain ⟨db₁, hins⟩ : ∃ db₁, insertSerializedEventsBatch db [row] = .ok db₁ := by
      have hnext : (db.stream row.identity).insert? row.sequence row.stored = _ := insert?_next h e
      rw [hbatch, Db.insertEvent, hnext]
      exact ⟨_, rfl⟩
    obtain ⟨db₂, hwrite⟩ : ∃ db₂, writeSnapshot db₁ (jobStream id) [row] snapshot = .ok db₂ := by
      cases snapshot with
      | none => exact ⟨db₁, rfl⟩
      | some s => exact ⟨_, if_pos ⟨hfits, hsnapshot s rfl⟩⟩
    have hstatements : commitStatements ⟨jobStream id, none, [row], snapshot, []⟩ db = .ok db₂ := by
      simp only [commitStatements, checkVersion, hins]
      change (writeSnapshot db₁ (jobStream id) [row] snapshot >>= fun db =>
        [].foldlM seedJob db) = _
      rw [hwrite]
      rfl
    rw [commitSerialized_fst hvalid rfl, hstatements]
    rfl
  · have htaken : insertSerializedEventsBatch db [row] = .error .optimisticLock := by
      have hnone : (db.stream row.identity).insert? row.sequence row.stored = none :=
        insert?_taken h (Nat.succ_pos _) (Nat.succ_le_of_lt (lt_of_le_of_ne hn hcurrent)) _
      rw [hbatch, Db.insertEvent, hnone]
    have hstatements : commitStatements ⟨jobStream id, none, [row], snapshot, []⟩ db =
        .error .optimisticLock := by
      simp only [commitStatements, checkVersion, htaken]
      rfl
    rw [commitSerialized_fst hvalid rfl, hstatements]
    rfl

/-- One event at the next number of a job's stream goes in. -/
theorem commitEvents_job_of_room {db : Db} {id : JobId} {r : JobRecord} (h : Represents db id r)
    {version : Option ℕ} (hroom : r.log.length < i64Max) (hversion : version.getD 0 < i64Max)
    (K : CqrsEs) (clock : ℕ → ℤ) (e : JobEvent) :
    (K.commitEvents jobEntity none clock id ⟨jobFold r.log, r.log.length, version⟩ [e] (some [])
      db).1 = .ok () := by
  obtain ⟨snapshot, hsnapshot, hcommit⟩ := commitEvents_job_eq K none clock id
    ⟨jobFold r.log, r.log.length, version⟩ e db
  rw [hcommit, commitSerialized_job h hroom le_rfl (fun s hs => by rw [hsnapshot s hs]; exact hversion),
    if_pos rfl]
  rfl

/-- A settlement of the claim that holds the job is applied; it writes no snapshot, or one numbered
after the snapshot it loaded. -/
theorem SettleTask.commit_applied {db : Db} {task : SettleTask} {r : JobRecord}
    (h : Represents db task.jobId r) {version : Option ℕ}
    (hctx : task.ctx = ⟨jobFold r.log, r.log.length, version⟩) {st : JobState}
    (hst : jobFold r.log = .live st) (hheld : st.holder = some task.command.claimId)
    (hroom : r.log.length < i64Max) (hversion : version.getD 0 < i64Max) (K : CqrsEs)
    (clock : ℕ → ℤ) :
    (task.commit K none clock db).1 = .applied ∧
      ((task.commit K none clock db).2.snapshots.lookup (jobStream task.jobId) =
          db.snapshots.lookup (jobStream task.jobId) ∨
        ∃ row, (task.commit K none clock db).2.snapshots.lookup (jobStream task.jobId) = some row ∧
          row.snapshotVersion = version.getD 0 + 1) := by
  have hevents := commitEvents_job_of_room h hroom hversion K clock task.command.event
  have hhandle := handle_job_of_holder hheld ""
  rw [← hst] at hhandle
  have hout : K.handleAndCommit jobEntity none clock task.jobId task.ctx task.command "" db =
      (.ok [task.command.event], (K.commitEvents jobEntity none clock task.jobId
        ⟨jobFold r.log, r.log.length, version⟩ [task.command.event] (some []) db).2.2) := by
    simp only [CqrsEs.handleAndCommit, hctx, hhandle]
    split
    next hc => rw [hc] at hevents; cases hevents
    next hc => rw [hc]
  refine ⟨classifySettlement_eq_applied.2 ⟨_, congrArg Prod.fst hout⟩, ?_⟩
  have heffect := commitEvents_ok (E := jobEntity) (fun _ h => (List.not_mem_nil h).elim) hevents
  have hsnapshot := heffect.snapshot
  rw [SettleTask.commit_snd, hout]
  dsimp only at hsnapshot
  split_ifs at hsnapshot with hk
  · exact .inl hsnapshot
  · exact .inr ⟨_, hsnapshot, rfl⟩

/-- A settlement that loaded its job at any time is applied or fenced, unless the storage fails or a
number has run out. -/
theorem SettleTask.commit_verdict {db : Db} {task : SettleTask} {r : JobRecord}
    (h : Represents db task.jobId r) (hload : task.LoadedFrom r) (hroom : r.log.length < i64Max)
    (hversion : task.ctx.currentSnapshot.getD 0 < i64Max) (K : CqrsEs)
    {fault : Option EngineError} (hfault : ∀ error ∈ fault, error = .sql) (clock : ℕ → ℤ) :
    (task.commit K fault clock db).1 = .applied ∨ (task.commit K fault clock db).1 = .fenced ∨
      (task.commit K fault clock db).1 = .transient ∧ fault.isSome := by
  obtain ⟨st, hst⟩ := r.live.take hload.pos
  unfold SettleTask.commit
  dsimp only
  by_cases hheld : st.holder = some task.command.claimId
  · have hhandle := handle_job_of_holder hheld ""
    rw [← hst, ← hload.aggregate] at hhandle
    obtain ⟨snapshot, hsnapshot, hcommit⟩ := commitEvents_job_eq K fault clock task.jobId task.ctx
      task.command.event db
    simp only [CqrsEs.handleAndCommit, hhandle]
    cases fault with
    | none =>
        rw [commitSerialized_job h hroom hload.le
          (fun s hs => by rw [hsnapshot s hs]; exact hversion)] at hcommit
        split_ifs at hcommit with hcurrent
        · left
          split
          next herror => rw [herror] at hcommit; cases hcommit
          · rfl
        · right; left
          split
          next herror =>
            rw [herror] at hcommit
            obtain rfl := Except.error.inj hcommit
            rfl
          next hok => rw [hok] at hcommit; cases hcommit
    | some error =>
        obtain rfl := hfault error rfl
        have hsql : (commitSerialized (some .sql) ⟨jobStream task.jobId, none,
            [task.command.event.serialized task.jobId (task.ctx.currentSequence + 1)], snapshot, []⟩
            db).1 = .error .sql := by
          have hidentity : (task.command.event.serialized task.jobId
            (task.ctx.currentSequence + 1)).identity = jobStream task.jobId := rfl
          simp [commitSerialized, validateEventStream, hidentity, inTransaction]
        rw [hsql] at hcommit
        right; right
        split
        next herror =>
          rw [herror] at hcommit
          obtain rfl := Except.error.inj hcommit
          exact ⟨rfl, rfl⟩
        next hok => rw [hok] at hcommit; cases hcommit
  · have hhandle := handle_job_of_not_holder hheld ""
    rw [← hst, ← hload.aggregate] at hhandle
    right; left
    unfold CqrsEs.handleAndCommit
    split
    next herror =>
      rw [herror] at hhandle
      obtain rfl := Except.error.inj hhandle
      rfl
    next hok => rw [hok] at hhandle; cases hhandle

end EventSorcery
