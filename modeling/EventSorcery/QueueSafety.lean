import EventSorcery.JobSafety

/-!
# Safety of the job queue

What every run of the job system guarantees about queue rows: a row is the fold of all but at most
one of its job's events, a job whose row is behind cannot be claimed, and the lease column gives a
claim exclusive hold of its job.
-/

namespace EventSorcery

open JobSystem

/-! ## Rows follow their streams -/

/-- A claim on a job whose row is behind does nothing, and says so. -/
theorem claimJobAs_of_lag {db : Db} (hheld : JobsHeld db) {call : ClaimCall} {r : JobRecord}
    (hr : Represents db call.jobId r) (hlag : r.log.length = r.version + 1)
    (fault : Option SqliteJobError) :
    ClaimedNothing fault call (claimJobAs fault call db).1 ∧ (claimJobAs fault call db).2 = db := by
  rcases claimJobAs_cases hheld fault call with hnothing | ⟨r', out, r'', hr', -, heff, -⟩
  · exact hnothing
  · obtain rfl := hr.unique hr'
    have := heff.log_eq.1
    omega

/-- A job's row: the fold of the first `version` events, which is all or all but the last of them. -/
structure RowFollows (db : Db) (id : JobId) (log : List JobEvent) (version : ℕ) (st : JobState)
    (lease : Option ℤ) : Prop where
  stream : db.stream (jobStream id) = SeqLog.ofList 0 (log.map JobEvent.stored)
  nonempty : log ≠ []
  row : db.jobQueue.lookup id = some ⟨version, liveJson st, lease⟩
  fold : jobFold (log.take version) = .live st
  lag : log.length = version ∨ log.length = version + 1

theorem Represents.rowFollows {db : Db} {id : JobId} {r : JobRecord} (h : Represents db id r)
    {st : JobState} (hst : r.rowState = .live st) :
    RowFollows db id r.log r.version st r.lease := by
  have hlag := r.lag
  have hle := r.version_le
  exact ⟨h.stream, r.live.ne_nil, by rw [h.row, hst]; rfl, hst, by omega⟩

/-- While a row is behind: no claim does anything, and no operation touches the job, lease aside,
except the one that brings its row up to date. -/
structure StuckUntilProjected (K : CqrsEs) (s : State) (id : JobId) (log : List JobEvent)
    (version : ℕ) (st : JobState) : Prop where
  claim : ∀ fault call, call.jobId = id → (claimJobAs fault call s.db).2 = s.db ∧
    (fault = none → call.policyValid → (claimJobAs fault call s.db).1 = .ok .skipped ∨
      (claimJobAs fault call s.db).1 = .ok .contended)
  step : ∀ op, (∃ lease, RowFollows (step K s op).db id log version st lease) ∨
    ((∃ i, op = .reactUpdate i) ∨ ∃ n, op = .catchUp n) ∧
      ∃ st' lease, RowFollows (step K s op).db id log log.length st' lease

theorem stuck_of_lag {K : CqrsEs} {s : State} (inv : Inv s) {id : JobId} {r : JobRecord}
    (hr : Represents s.db id r) {st : JobState} (hst : r.rowState = .live st)
    (hlag : r.log.length = r.version + 1) : StuckUntilProjected K s id r.log r.version st := by
  refine ⟨fun fault call hid => ?_, fun op => ?_⟩
  · subst hid
    obtain ⟨hnothing, hdb⟩ := claimJobAs_of_lag inv.held hr hlag fault
    refine ⟨hdb, fun hfault hpolicy => ?_⟩
    rcases hnothing with ⟨hinvalid, -⟩ | ⟨error, hsome, -⟩ | hout | hout
    · exact absurd hpolicy hinvalid
    · rw [hfault] at hsome
      cases hsome
    · exact .inr hout
    · exact .inl hout
  · rcases (step_change inv op id (K := K)).of_lag hr hlag with ⟨lease, hrep⟩ | ⟨hrep, hop⟩
    · exact .inl ⟨lease, hrep.rowFollows (r := r.withLease lease) hst⟩
    · refine .inr ⟨?_, ?_⟩
      · rcases hop with ⟨i, _, hop, -⟩ | ⟨hop, -⟩
        · exact .inl ⟨i, hop⟩
        · exact .inr hop
      · obtain ⟨st', hst'⟩ := r.project.rowState_live
        exact ⟨st', _, hrep.rowFollows hst'⟩

/-- **Queue rows follow their streams.** In every reachable state a job has no events and no row, or
its row is the fold of its events up to the row's version, which lags by at most one; while it lags,
the job is stuck until its row is brought up to date; and a startup catch-up succeeds and brings
every row up to date. -/
theorem queue_rows_follow_streams (K : CqrsEs) (ops : List Op) :
    let s := (jobSystem K).run ops
    (∀ id, (s.db.stream (jobStream id) = SeqLog.empty ∧ s.db.jobQueue.lookup id = none) ∨
      ∃ log version st lease, RowFollows s.db id log version st lease ∧
        (log.length = version + 1 → StuckUntilProjected K s id log version st)) ∧
    ∃ view, catchUp jobEntity s.db s.db.jobQueue = (.ok (), view) ∧
      ∀ id log version st lease, RowFollows s.db id log version st lease →
        ∃ st', RowFollows (s.db.withQueue view) id log log.length st' lease := by
  have inv := jobSystem_inv K ops
  refine ⟨fun id => ?_, ?_⟩
  · rcases inv.held id with habs | ⟨r, hr⟩
    · exact .inl ⟨habs.stream, habs.row⟩
    · obtain ⟨st, hst⟩ := r.rowState_live
      exact .inr ⟨r.log, r.version, st, r.lease, hr.rowFollows hst, stuck_of_lag inv hr hst⟩
  · obtain ⟨view, hcatch, hview⟩ := catchUp_held inv.held
    refine ⟨view, hcatch, fun id log version st lease hfollows => ?_⟩
    rcases inv.held id with habs | ⟨r, hr⟩
    · have := habs.row.symm.trans hfollows.row
      cases this
    · obtain ⟨st', hst'⟩ := r.project.rowState_live
      have hlog : r.log = log := stored_injective.list_map (by
        rw [← SeqLog.values_ofList 0 (r.log.map _), ← SeqLog.values_ofList 0 (log.map _),
          ← hr.stream, ← hfollows.stream])
      have hlease : r.lease = lease :=
        (ViewRow.mk.inj (Option.some.inj (hr.row.symm.trans hfollows.row))).2.2
      exact ⟨st', hlog ▸ hlease ▸ (hview id r hr).rowFollows hst'⟩

end EventSorcery
