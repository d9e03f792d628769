import EventSorcery.JobRuntime

/-!
# The queue projection on represented jobs

The reactor and catch-up fold into a job's row the events it misses. On a represented job that is
`JobRecord.project`: the row becomes the full fold, its lease column stays.
-/

namespace EventSorcery

theorem ofJson_rowState (r : JobRecord) :
    Lifecycle.ofJson jobEntity (r.rowState.toJson jobEntity) = some r.rowState := by
  obtain ⟨st, hst⟩ := r.rowState_live
  rw [hst]
  exact ofJson_liveJson st

theorem loadWithContext_represented {db : Db} {id : JobId} {r : JobRecord} (h : Represents db id r) :
    loadWithContext jobEntity db.jobQueue id = .ok (some (r.rowState, ⟨id, r.version⟩)) := by
  rw [loadWithContext, h.row]
  simp only [ofJson_rowState]

/-- A row that holds the full fold of its job. -/
def projectedRow (r : JobRecord) : ViewRow :=
  ⟨r.log.length, (jobFold r.log).toJson jobEntity, r.lease⟩

theorem represents_setRow_project {db : Db} {id : JobId} {r : JobRecord} (h : Represents db id r) :
    Represents (db.setRow id (projectedRow r)) id r.project := by
  refine ⟨h.stream, ?_, h.bounded⟩
  rw [Db.lookup_jobQueue_setRow, if_pos rfl, JobRecord.rowState_eq rfl]
  rfl

/-! ## The reactor -/

abbrev JobReactTask := ReactTask JobState JobEvent JobError

/-- Replace the queue table. -/
def Db.withQueue (db : Db) (view : ViewTable) : Db := { db with jobQueue := view }

theorem reactLoad_represented {db : Db} {task : JobReactTask} {r : JobRecord}
    (h : Represents db task.viewId r) :
    reactLoad jobEntity db.jobQueue task =
      some { task with loaded := some (r.rowState, ⟨task.viewId, r.version⟩) } := by
  rw [reactLoad, loadWithContext_represented h]

/-- The reactor's update of the event the row misses brings the row up to date. -/
theorem reactUpdate_represented {db : Db} {task : JobReactTask} {r : JobRecord}
    (h : Represents db task.viewId r) (hlag : r.log.length = r.version + 1)
    (hev : r.log[r.version]? = some task.event) :
    reactUpdate jobEntity db.jobQueue task (r.rowState, ⟨task.viewId, r.version⟩) =
      (none, (db.setRow task.viewId (projectedRow r)).jobQueue) := by
  have hfold : Lifecycle.apply jobEntity r.rowState task.event = jobFold r.log := by
    have hlog : r.log.take r.version ++ [task.event] = r.log := by
      calc r.log.take r.version ++ [task.event]
          = r.log.take (r.version + 1) := by rw [List.take_add_one, hev]; rfl
        _ = r.log := by rw [← hlag, List.take_length]
    rw [JobRecord.rowState, ← jobFold_concat, hlog]
  have hpos := r.version_pos
  have hb := h.bounded
  have hwrap : wrapI64 ((r.version : ℤ) + 1) = r.log.length := by
    rw [wrapI64_of_le (by omega) (by omega), hlag]
    norm_cast
  rw [reactUpdate, updateView]
  simp only [hfold]
  rw [if_neg (by omega), h.row]
  simp only [if_true, hwrap]
  rfl

/-! ## Catch-up -/

/-- Replaying what the row misses gives the full fold. -/
theorem replayMissedEvents_represented {db : Db} {id : JobId} {r : JobRecord}
    (h : Represents db id r) :
    replayMissedEvents jobEntity (db.stream (jobEntity.stream id)) db.jobQueue id r.version
        r.log.length =
      .ok (db.setRow id (projectedRow r)).jobQueue := by
  have hs : jobEntity.stream id = jobStream id := rfl
  have hmissed : (((db.stream (jobStream id)).rows.filter
      fun x => decide ((r.version : ℤ) < x.1)).map Prod.snd) =
        (r.log.drop r.version).map jobEntity.stored := by
    have hafter := SeqLog.after_ofList 0 r.version (r.log.map JobEvent.stored)
    rw [SeqLog.after, Nat.zero_add] at hafter
    simp only [h.stream, Nat.cast_lt]
    rw [hafter, SeqLog.map_snd_rowsFrom, List.map_drop, stored_eq]
  rw [replayMissedEvents, loadWithContext_represented h, hs]
  simp only [hmissed, applyPayloads_stored]
  rw [JobRecord.rowState, jobFold, Lifecycle.applyAll_replay_take_drop, h.row]
  rfl

/-- Catch-up of jobs that are each behind: their rows hold the full folds, no other job changes. -/
theorem catchUpLoop_represented (db : Db) (items : List (String × Option ℤ × ℕ))
    (hnodup : (items.map Prod.fst).Nodup)
    (hitems : ∀ item ∈ items, ∃ r, Represents db item.1 r ∧
      item.2 = (some (r.version : ℤ), r.log.length)) :
    ∃ view, catchUpLoop jobEntity db items db.jobQueue = (.ok (), view) ∧
      (∀ item ∈ items, ∀ r, Represents db item.1 r →
        Represents (db.withQueue view) item.1 r.project) ∧
      ∀ id, id ∉ items.map Prod.fst → SameJob db (db.withQueue view) id := by
  induction items generalizing db with
  | nil => exact ⟨_, rfl, by simp, fun id _ => .refl db id⟩
  | cons item items ih =>
      obtain ⟨id, version, maxSeq⟩ := item
      obtain ⟨r, hr, heq⟩ := hitems _ List.mem_cons_self
      obtain ⟨rfl, rfl⟩ := Prod.mk.inj heq
      rw [List.map_cons, List.nodup_cons] at hnodup
      have hne : ∀ item ∈ items, item.1 ≠ id := fun item hmem heq =>
        hnodup.1 (List.mem_map.2 ⟨item, hmem, heq⟩)
      obtain ⟨view, hloop, hproj, hsame⟩ := ih (db.setRow id (projectedRow r)) hnodup.2
        fun item hmem => by
          obtain ⟨r', hr', heq'⟩ := hitems item (List.mem_cons_of_mem _ hmem)
          exact ⟨r', hr'.of_same (sameJob_setRow (hne item hmem) _), heq'⟩
      refine ⟨view, ?_, fun item hmem r' hr' => ?_, fun id' hid' => ?_⟩
      · rw [catchUpLoop, Option.getD_some, replayMissedEvents_represented hr]
        rwa [catchUpLoop_congr jobEntity (db.stream_setRow id _)] at hloop
      · rcases List.mem_cons.1 hmem with rfl | hmem
        · obtain rfl := hr.unique hr'
          exact (represents_setRow_project hr).of_same (hsame _ hnodup.1)
        · exact hproj item hmem r' (hr'.of_same (sameJob_setRow (hne item hmem) _))
      · rw [List.map_cons, List.mem_cons, not_or] at hid'
        exact (sameJob_setRow hid'.1 _).trans (hsame id' hid'.2)

theorem Represents.rows_ne_nil {db : Db} {id : JobId} {r : JobRecord} (h : Represents db id r) :
    (db.stream (jobStream id)).rows ≠ [] := by
  rw [h.stream]
  obtain ⟨e, log, hlog⟩ := List.exists_cons_of_ne_nil r.live.ne_nil
  simp [hlog, SeqLog.rowsFrom]

/-- Every listed aggregate is a job, listed with its row's version and its history's length. -/
theorem staleAggregates_represented {db : Db} (hheld : JobsHeld db)
    {item : String × Option ℤ × ℕ} (h : item ∈ staleAggregates jobEntity db.events db.jobQueue) :
    ∃ r, Represents db item.1 r ∧ item.2 = (some (r.version : ℤ), r.log.length) := by
  obtain ⟨⟨s, log⟩, hmem, hitem⟩ := List.mem_filterMap.1 h
  obtain ⟨hs, hrows, heq⟩ := staleAggregate_eq_some jobEntity hitem
  obtain rfl := stream_of_mem_events hmem
  dsimp only at hs
  subst hs
  rcases hheld item.1 with habs | ⟨r, hr⟩
  · exact absurd (congrArg SeqLog.rows habs.stream) hrows
  · refine ⟨r, hr, heq.trans ?_⟩
    rw [hr.row]
    change (_, (db.stream (jobStream item.1)).maxSeq) = _
    rw [hr.stream, SeqLog.maxSeq_ofList_zero, List.length_map]
    rfl

/-- A job that is not listed is up to date. -/
theorem Represents.version_eq_of_not_stale {db : Db} {id : JobId} {r : JobRecord}
    (h : Represents db id r)
    (hid : id ∉ (staleAggregates jobEntity db.events db.jobQueue).map Prod.fst) :
    r.version = r.log.length := by
  refine le_antisymm r.version_le (not_lt.1 fun hlt => hid ?_)
  have hmax : (db.stream (jobStream id)).maxSeq = r.log.length := by
    rw [h.stream, SeqLog.maxSeq_ofList_zero, List.length_map]
  refine List.mem_map.2 ⟨(id, some (r.version : ℤ), r.log.length), List.mem_filterMap.2
    ⟨_, mem_events_of_stream h.rows_ne_nil, ?_⟩, rfl⟩
  unfold staleAggregate
  rw [if_pos ⟨rfl, h.rows_ne_nil⟩]
  have hrow : db.jobQueue.lookup (jobStream id).aggregateId = _ := h.row
  rw [hrow, hmax]
  exact if_pos (Int.ofNat_lt.2 hlt)

/-- **Catch-up of the first `n` stale jobs** succeeds; each job is as it was or has its full fold in
its row. -/
theorem catchUpLoop_held {db : Db} (hheld : JobsHeld db) (n : ℕ) :
    ∃ view, catchUpLoop jobEntity db ((staleAggregates jobEntity db.events db.jobQueue).take n)
        db.jobQueue = (.ok (), view) ∧
      ∀ id, SameJob db (db.withQueue view) id ∨
        ∃ r, Represents db id r ∧ Represents (db.withQueue view) id r.project := by
  obtain ⟨view, hloop, hproj, hsame⟩ := catchUpLoop_represented db
    ((staleAggregates jobEntity db.events db.jobQueue).take n)
    ((nodup_staleAggregates jobEntity _ _).sublist ((List.take_sublist n _).map _))
    fun item hmem => staleAggregates_represented hheld (List.mem_of_mem_take hmem)
  refine ⟨view, hloop, fun id => ?_⟩
  by_cases hid : id ∈
      ((staleAggregates jobEntity db.events db.jobQueue).take n).map Prod.fst
  · obtain ⟨item, hmem, rfl⟩ := List.mem_map.1 hid
    obtain ⟨r, hr, -⟩ := staleAggregates_represented hheld (List.mem_of_mem_take hmem)
    exact .inr ⟨r, hr, hproj item hmem r hr⟩
  · exact .inl (hsame id hid)

/-- **A whole catch-up** brings every job up to date. -/
theorem catchUp_held {db : Db} (hheld : JobsHeld db) :
    ∃ view, catchUp jobEntity db db.jobQueue = (.ok (), view) ∧
      ∀ id r, Represents db id r → Represents (db.withQueue view) id r.project := by
  obtain ⟨view, hloop, hproj, hsame⟩ := catchUpLoop_represented db
    (staleAggregates jobEntity db.events db.jobQueue) (nodup_staleAggregates jobEntity _ _)
    fun item hmem => staleAggregates_represented hheld hmem
  refine ⟨view, hloop, fun id r hr => ?_⟩
  by_cases hid : id ∈ (staleAggregates jobEntity db.events db.jobQueue).map Prod.fst
  · obtain ⟨item, hmem, rfl⟩ := List.mem_map.1 hid
    exact hproj item hmem r hr
  · have hv := hr.version_eq_of_not_stale hid
    have hr' := hr.of_same (hsame id hid)
    exact ⟨hr'.stream, by rw [hr'.row, JobRecord.rowState_eq hv, hv,
      JobRecord.rowState_eq rfl]; rfl, hr'.bounded⟩

end EventSorcery
