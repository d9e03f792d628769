import EventSorcery.JobProjection
import EventSorcery.Lib.Machine

/-!
# Every interleaving of job operations

The state is the database, the settlements and reactor calls in flight, and the claim ids drawn so
far. One operation is one transaction or one read: a settlement is a load and a later commit, a
reactor call a load and a later update, each of which may be cut off or never happen. `JobChange`
says what one operation can do to one job; the invariant and every later result about runs come from
it.
-/

namespace EventSorcery

namespace JobSystem

/-- Put the continuation of a task in flight in its place, or drop it. -/
def resume {α : Type} (tasks : List α) (i : ℕ) : Option α → List α
  | some task => tasks.set i task
  | none => tasks.eraseIdx i

structure State where
  db : Db
  settlements : List SettleTask
  reacts : List JobReactTask
  claimIds : List ClaimId

/-- One operation. Settlements and reactor calls in flight are named by their position. -/
inductive Op where
  | enqueue (fault : Option SqliteJobError) (request : EnqueueRequest)
  | commit (fault : Option EngineError) (request : CommitRequest)
  | commitOpaque (fault : Option EngineError) (request : OpaqueCommitRequest)
  | claim (fault : Option SqliteJobError) (call : ClaimCall)
  | renew (jobId : JobId) (claimSeq newLeaseUntilMs : ℤ)
  | settleLoad (caller : Option ℕ) (jobId : JobId) (command : JobCommand)
  | settleCommit (i : ℕ) (fault : Option EngineError) (clock : ℕ → ℤ)
  | settleAbandon (i : ℕ)
  | reactLoad (i : ℕ)
  | reactUpdate (i : ℕ)
  | reactBusy (i : ℕ)
  | reactAbandon (i : ℕ)
  | catchUp (n : ℕ)

variable (K : CqrsEs)

/-- What an operation does; one that is not enabled does nothing. Commits here are on streams other
than jobs' own, a claim draws a claim id nobody has drawn before, settlements name enqueued jobs,
and catch-up of the first `n` stale jobs runs while nothing is in flight. -/
def step (s : State) : Op → State
  | .enqueue fault request => { s with db := (enqueueJobPayload fault request s.db).2 }
  | .commit fault request =>
      if request.stream.aggregateType = jobAggregateType then s
      else { s with db := (EventSorcery.commit fault request s.db).2 }
  | .commitOpaque fault request =>
      if request.stream.aggregateType = jobAggregateType then s
      else { s with db := (EventSorcery.commitOpaque fault request s.db).2 }
  | .claim fault call =>
      if call.mint ∈ s.claimIds then s
      else { s with db := (claimJobAs fault call s.db).2, claimIds := call.mint :: s.claimIds }
  | .renew jobId claimSeq newLease => { s with db := (renewJob jobId claimSeq newLease s.db).2 }
  | .settleLoad caller jobId command =>
      if (s.db.stream (jobStream jobId)).rows = [] then s
      else
        match loadFold jobEntity s.db jobId with
        | none => s
        | some ctx => { s with settlements := s.settlements ++ [⟨caller, jobId, command, ctx⟩] }
  | .settleCommit i fault clock =>
      match s.settlements[i]? with
      | none => s
      | some task =>
          let settled := task.commit K fault clock s.db
          { s with
            db := settled.2
            settlements := s.settlements.eraseIdx i
            -- The store hands the committed event to the queue's reactor.
            reacts := if settled.1 = .applied then
                s.reacts ++ [⟨task.jobId, task.command.event, 0, none⟩]
              else s.reacts }
  | .settleAbandon i => { s with settlements := s.settlements.eraseIdx i }
  | .reactLoad i =>
      match s.reacts[i]? with
      | none => s
      | some task =>
          let next := EventSorcery.reactLoad jobEntity s.db.jobQueue task
          { s with reacts := resume s.reacts i next }
  | .reactUpdate i =>
      match s.reacts[i]? with
      | none => s
      | some task =>
          match task.loaded with
          | none => s
          | some loaded =>
              let updated := EventSorcery.reactUpdate jobEntity s.db.jobQueue task loaded
              { s with db := s.db.withQueue updated.2, reacts := resume s.reacts i updated.1 }
  | .reactBusy i =>
      match s.reacts[i]? with
      | none => s
      | some task => { s with reacts := resume s.reacts i task.retry }
  | .reactAbandon i => { s with reacts := s.reacts.eraseIdx i }
  | .catchUp n =>
      if s.settlements = [] ∧ s.reacts = [] then
        { s with db := s.db.withQueue (catchUpLoop jobEntity s.db
            ((staleAggregates jobEntity s.db.events s.db.jobQueue).take n) s.db.jobQueue).2 }
      else s

section Enabled

variable {s : State} {i : ℕ}

theorem step_settleCommit {task : SettleTask} (h : s.settlements[i]? = some task)
    (fault : Option EngineError) (clock : ℕ → ℤ) :
    step K s (.settleCommit i fault clock) =
      { s with
        db := (task.commit K fault clock s.db).2
        settlements := s.settlements.eraseIdx i
        reacts := if (task.commit K fault clock s.db).1 = .applied then
            s.reacts ++ [⟨task.jobId, task.command.event, 0, none⟩]
          else s.reacts } := by
  rw [step, h]

theorem step_reactLoad {task : JobReactTask} (h : s.reacts[i]? = some task) :
    step K s (.reactLoad i) =
      { s with reacts := resume s.reacts i (reactLoad jobEntity s.db.jobQueue task) } := by
  rw [step, h]

theorem step_reactUpdate {task : JobReactTask} {loaded : JobLifecycle × ViewContext}
    (h : s.reacts[i]? = some task) (hloaded : task.loaded = some loaded) :
    step K s (.reactUpdate i) =
      { s with
        db := s.db.withQueue (reactUpdate jobEntity s.db.jobQueue task loaded).2
        reacts := resume s.reacts i (reactUpdate jobEntity s.db.jobQueue task loaded).1 } := by
  simp only [step, h, hloaded]

end Enabled

/-! ## The invariant -/

/-- A reactor call in flight is for the one event its job's row misses, and what it has loaded is
still there. -/
structure Awaits (task : JobReactTask) (r : JobRecord) : Prop where
  lag : r.log.length = r.version + 1
  event : r.log[r.version]? = some task.event
  loaded : ∀ loaded, task.loaded = some loaded →
    loaded = (r.rowState, ⟨task.viewId, (r.version : ℤ)⟩)

/-- The event after the first `i` events of the job is the claim `c`. -/
def ClaimedAt (db : Db) (id : JobId) (i : ℕ) (c : ClaimId) : Prop :=
  ∃ r worker lease, Represents db id r ∧ r.log[i]? = some (.claimed worker c lease)

/-- What holds between operations. -/
structure Inv (s : State) : Prop where
  held : JobsHeld s.db
  settlements : ∀ task ∈ s.settlements, ∃ r, Represents s.db task.jobId r ∧ task.LoadedFrom r
  nodup : (s.reacts.map ReactTask.viewId).Nodup
  reacts : ∀ task ∈ s.reacts, ∃ r, Represents s.db task.viewId r ∧ Awaits task r
  drawn : ∀ {id i c}, ClaimedAt s.db id i c → c ∈ s.claimIds
  unique : ∀ {id id' i i' c}, ClaimedAt s.db id i c → ClaimedAt s.db id' i' c → id = id' ∧ i = i'

theorem inv_init : Inv ⟨.empty, [], [], []⟩ := by
  have habs : ∀ id, Absent .empty id := fun id => ⟨rfl, rfl⟩
  have hclaim : ∀ {id i c}, ¬ ClaimedAt .empty id i c := fun ⟨_, _, _, hr, _⟩ =>
    (habs _).not_represents hr
  exact ⟨fun id => .inl (habs id), by simp, by simp, by simp, fun h => absurd h hclaim,
    fun h => absurd h hclaim⟩

/-! ## What one operation does to one job -/

/-- The change of the job `id` by the operation `op` from the state `s` to the database `db'`. -/
inductive JobChange (s : State) (op : Op) (db' : Db) (id : JobId) : Prop where
  | same (h : SameJob s.db db' id)
  | enqueued {kind : JobKind} {payload : Json} {runAt : Instant} (absent : Absent s.db id)
      (rep' : Represents db' id (.enqueue kind payload runAt))
  | claimed {fault : Option SqliteJobError} {call : ClaimCall} {r r' : JobRecord}
      {out : ClaimOutcome WonClaim} (op_eq : op = .claim fault call)
      (fresh : call.mint ∉ s.claimIds) (job : call.jobId = id) (rep : Represents s.db id r)
      (answer : (claimJobAs fault call s.db).1 = .ok (.ofOutcome call.jobId out))
      (effect : ClaimEffect call r out r') (rep' : Represents db' id r')
  | settled {i : ℕ} {fault : Option EngineError} {clock : ℕ → ℤ} {task : SettleTask}
      {r : JobRecord} {worker : WorkerId} {lease : Instant}
      (op_eq : op = .settleCommit i fault clock) (inFlight : s.settlements[i]? = some task)
      (job : task.jobId = id) (rep : Represents s.db id r)
      (verdict : (task.commit K fault clock s.db).1 = .applied)
      (hv : r.version = r.log.length) (live : LiveLog (r.log ++ [task.command.event]))
      (last : r.log.getLast? = some (.claimed worker task.command.claimId lease))
      (rep' : Represents db' id
        (r.appendEvent task.command.event hv live (claimId?_command task.command)))
  | leased {claimSeq newLease : ℤ} {r : JobRecord} {st : JobState}
      (op_eq : op = .renew id claimSeq newLease) (rep : Represents s.db id r)
      (row : r.rowState = .live st) (held : (r.version : ℤ) = claimSeq ∧ st.status = .claimed)
      (rep' : Represents db' id (r.withLease (some newLease)))
  | reacted {i : ℕ} {task : JobReactTask} {r : JobRecord} (op_eq : op = .reactUpdate i)
      (inFlight : s.reacts[i]? = some task) (job : task.viewId = id) (rep : Represents s.db id r)
      (rep' : Represents db' id r.project)
  | caughtUp {n : ℕ} {r : JobRecord} (op_eq : op = .catchUp n)
      (idle : s.settlements = [] ∧ s.reacts = []) (rep : Represents s.db id r)
      (rep' : Represents db' id r.project)

variable {K}

theorem jobChange_of_jobs {s : State} {op : Op} {db' : Db} {id : JobId}
    (h : SameJob s.db db' id ∨ ∃ kind payload runAt, Absent s.db id ∧
      Represents db' id (.enqueue kind payload runAt)) : JobChange K s op db' id := by
  rcases h with hsame | ⟨kind, payload, runAt, habs, hrep⟩
  · exact .same hsame
  · exact .enqueued habs hrep

/-- The reactor's update of a task in flight. -/
theorem reactUpdate_of_inv {s : State} (inv : Inv s) {i : ℕ} {task : JobReactTask}
    {loaded : JobLifecycle × ViewContext} (htask : s.reacts[i]? = some task)
    (hloaded : task.loaded = some loaded) :
    ∃ r, Represents s.db task.viewId r ∧ r.log.length = r.version + 1 ∧
      reactUpdate jobEntity s.db.jobQueue task loaded =
        (none, (s.db.setRow task.viewId (projectedRow r)).jobQueue) := by
  obtain ⟨r, hr, hawait⟩ := inv.reacts task (List.mem_of_getElem? htask)
  obtain rfl := hawait.loaded loaded hloaded
  exact ⟨r, hr, hawait.lag, reactUpdate_represented hr hawait.lag hawait.event⟩

/-- **What an operation can do to a job.** -/
theorem step_change {s : State} (inv : Inv s) (op : Op) (id : JobId) :
    JobChange K s op (step K s op).db id := by
  cases op with
  | enqueue fault request =>
      rcases enqueueJobPayload_cases inv.held fault request with
        ⟨-, hdb⟩ | ⟨runAt, habs, -, hrep, hsame⟩
      · exact .same (by rw [step, hdb]; exact .refl _ _)
      · by_cases hid : id = request.jobId
        · subst hid
          exact .enqueued habs hrep
        · exact .same (hsame id hid)
  | commit fault request =>
      rw [step]
      split_ifs with hs
      · exact .same (.refl _ _)
      · exact jobChange_of_jobs (commit_jobs inv.held hs fault id)
  | commitOpaque fault request =>
      rw [step]
      split_ifs with hs
      · exact .same (.refl _ _)
      · exact jobChange_of_jobs (commitOpaque_jobs inv.held hs fault id)
  | claim fault call =>
      rw [step]
      split_ifs with hfresh
      · exact .same (.refl _ _)
      · rcases claimJobAs_cases inv.held fault call with
          ⟨-, hdb⟩ | ⟨r, out, r', hr, hout, heff, hrep, hsame⟩
        · exact .same (by rw [hdb]; exact .refl _ _)
        · by_cases hid : id = call.jobId
          · subst hid
            exact .claimed rfl hfresh rfl hr hout heff hrep
          · exact .same (hsame id hid)
  | renew jobId claimSeq newLease =>
      rw [step]
      rcases inv.held jobId with habs | ⟨r, hr⟩
      · exact .same (by rw [renewJob_absent habs]; exact .refl _ _)
      · obtain ⟨st, hst⟩ := r.rowState_live
        rcases renewJob_represented hr hst claimSeq newLease with
          ⟨hheld, -, hrep, hsame⟩ | ⟨-, hlost⟩
        · by_cases hid : id = jobId
          · subst hid
            exact .leased rfl hr hst hheld hrep
          · exact .same (hsame id hid)
        · exact .same (by rw [hlost]; exact .refl _ _)
  | settleLoad caller jobId command =>
      rw [step]
      split_ifs
      · exact .same (.refl _ _)
      · split <;> exact .same (.refl _ _)
  | settleCommit i fault clock =>
      rw [step]
      split
      · exact .same (.refl _ _)
      next task htask =>
        dsimp only
        obtain ⟨r, hr, hload⟩ := inv.settlements task (List.mem_of_getElem? htask)
        rcases task.commit_cases hr hload K fault clock with
          ⟨-, hdb⟩ | ⟨hverdict, hv, live, worker, lease, hlast, hrep, hsame⟩
        · exact .same (by rw [hdb]; exact .refl _ _)
        · by_cases hid : id = task.jobId
          · subst hid
            exact .settled rfl htask rfl hr hverdict hv live hlast hrep
          · exact .same (hsame id hid)
  | settleAbandon i => exact .same (.refl _ _)
  | reactLoad i => rw [step]; split <;> exact .same (.refl _ _)
  | reactUpdate i =>
      rw [step]
      split
      · exact .same (.refl _ _)
      next task htask =>
        split
        · exact .same (.refl _ _)
        next loaded hloaded =>
          obtain ⟨r, hr, -, heq⟩ := reactUpdate_of_inv inv htask hloaded
          simp only [heq]
          by_cases hid : id = task.viewId
          · subst hid
            exact .reacted rfl htask rfl hr (represents_setRow_project hr)
          · exact .same (sameJob_setRow hid _)
  | reactBusy i => rw [step]; split <;> exact .same (.refl _ _)
  | reactAbandon i => exact .same (.refl _ _)
  | catchUp n =>
      rw [step]
      split_ifs with hidle
      · obtain ⟨view, hloop, hview⟩ := catchUpLoop_held inv.held n
        rw [hloop]
        rcases hview id with hsame | ⟨r, hr, hrep⟩
        · exact .same hsame
        · exact .caughtUp rfl hidle hr hrep
      · exact .same (.refl _ _)

/-! ## What one operation keeps of one job -/

theorem JobChange.held {s : State} {op : Op} {db' : Db} {id : JobId} (h : JobChange K s op db' id)
    (hheld : JobsHeld s.db) : Absent db' id ∨ ∃ r, Represents db' id r := by
  cases h with
  | same hsame =>
      exact (hheld id).imp (fun habs => habs.of_same hsame) fun ⟨r, hr⟩ => ⟨r, hr.of_same hsame⟩
  | enqueued _ rep' => exact .inr ⟨_, rep'⟩
  | claimed _ _ _ _ _ _ rep' => exact .inr ⟨_, rep'⟩
  | settled _ _ _ _ _ _ _ _ rep' => exact .inr ⟨_, rep'⟩
  | leased _ _ _ _ rep' => exact .inr ⟨_, rep'⟩
  | reacted _ _ _ _ rep' => exact .inr ⟨_, rep'⟩
  | caughtUp _ _ _ rep' => exact .inr ⟨_, rep'⟩

/-- Histories only grow. -/
theorem JobChange.log_mono {s : State} {op : Op} {db' : Db} {id : JobId} {r : JobRecord}
    (h : JobChange K s op db' id) (hr : Represents s.db id r) :
    ∃ r', Represents db' id r' ∧ r.log <+: r'.log := by
  cases h with
  | same hsame => exact ⟨r, hr.of_same hsame, List.prefix_rfl⟩
  | enqueued absent _ => exact absurd hr absent.not_represents
  | claimed _ _ _ rep _ effect rep' =>
      obtain rfl := hr.unique rep
      obtain ⟨-, e, hlog, -⟩ := effect.log_eq
      exact ⟨_, rep', by rw [hlog]; exact List.prefix_append _ _⟩
  | settled _ _ _ rep _ _ _ _ rep' =>
      obtain rfl := hr.unique rep
      exact ⟨_, rep', List.prefix_append _ _⟩
  | leased _ rep _ _ rep' =>
      obtain rfl := hr.unique rep
      exact ⟨_, rep', List.prefix_rfl⟩
  | reacted _ _ _ rep rep' =>
      obtain rfl := hr.unique rep
      exact ⟨_, rep', List.prefix_rfl⟩
  | caughtUp _ _ rep rep' =>
      obtain rfl := hr.unique rep
      exact ⟨_, rep', List.prefix_rfl⟩

/-- A claim that is there now was there before, or this operation is the one that won it. -/
theorem JobChange.claimedAt {s : State} {op : Op} {db' : Db} {id : JobId} {i : ℕ} {c : ClaimId}
    (h : JobChange K s op db' id) (hc : ClaimedAt db' id i c) :
    ClaimedAt s.db id i c ∨ ∃ fault call r, op = .claim fault call ∧ call.mint ∉ s.claimIds ∧
      call.jobId = id ∧ call.mint = c ∧ Represents s.db id r ∧ i = r.log.length := by
  obtain ⟨r', worker, lease, hr', hi⟩ := hc
  -- An event past the old history is the appended one.
  have happ : ∀ {r : JobRecord} {e : JobEvent}, Represents s.db id r → r'.log = r.log ++ [e] →
      ClaimedAt s.db id i c ∨ i = r.log.length ∧ e = .claimed worker c lease := by
    intro r e hr hlog
    rw [hlog] at hi
    rcases Nat.lt_trichotomy i r.log.length with hlt | heq | hgt
    · exact .inl ⟨r, worker, lease, hr, by rwa [List.getElem?_append_left hlt] at hi⟩
    · rw [heq, List.getElem?_concat_length] at hi
      exact .inr ⟨heq, Option.some.inj hi⟩
    · rw [List.getElem?_eq_none (by simp; omega)] at hi
      cases hi
  cases h with
  | same hsame =>
      exact .inl ⟨r', worker, lease, ⟨hsame.stream ▸ hr'.stream, hsame.row ▸ hr'.row,
        hr'.bounded⟩, hi⟩
  | enqueued _ rep' =>
      obtain rfl := hr'.unique rep'
      rw [JobRecord.enqueue_log, List.getElem?_singleton] at hi
      split_ifs at hi
      cases Option.some.inj hi
  | claimed op_eq fresh job rep _ effect rep' =>
      obtain rfl := hr'.unique rep'
      obtain ⟨-, e, hlog, hev⟩ := effect.log_eq
      rcases happ rep hlog with hold | ⟨rfl, rfl⟩
      · exact .inl hold
      · rcases hev with ⟨lease', heq⟩ | heq
        · exact .inr ⟨_, _, _, op_eq, fresh, job, (JobEvent.claimed.inj heq).2.1.symm, rep, rfl⟩
        · cases heq
  | @settled _ _ _ task _ _ _ _ _ _ rep _ _ _ _ rep' =>
      obtain rfl := hr'.unique rep'
      rcases happ rep rfl with hold | ⟨rfl, heq⟩
      · exact .inl hold
      · have hnone := claimId?_command task.command
        rw [heq] at hnone
        cases hnone
  | leased _ rep _ _ rep' =>
      obtain rfl := hr'.unique rep'
      exact .inl ⟨_, worker, lease, rep, hi⟩
  | reacted _ _ _ rep rep' =>
      obtain rfl := hr'.unique rep'
      exact .inl ⟨_, worker, lease, rep, hi⟩
  | caughtUp _ _ rep rep' =>
      obtain rfl := hr'.unique rep'
      exact .inl ⟨_, worker, lease, rep, hi⟩

/-- A job whose row is behind stays as it is, lease aside, until the row is brought up to date. -/
theorem JobChange.of_lag {s : State} {op : Op} {db' : Db} {id : JobId} {r : JobRecord}
    (h : JobChange K s op db' id) (hr : Represents s.db id r) (hlag : r.log.length = r.version + 1) :
    (∃ lease, Represents db' id (r.withLease lease)) ∨
      Represents db' id r.project ∧
        ((∃ i task, op = .reactUpdate i ∧ s.reacts[i]? = some task ∧ task.viewId = id) ∨
          (∃ n, op = .catchUp n) ∧ s.reacts = []) := by
  cases h with
  | same hsame => exact .inl ⟨r.lease, hr.of_same hsame⟩
  | enqueued absent _ => exact absurd hr absent.not_represents
  | claimed _ _ _ rep _ effect _ =>
      obtain rfl := hr.unique rep
      have := effect.log_eq.1
      omega
  | settled _ _ _ rep _ hv _ _ _ =>
      obtain rfl := hr.unique rep
      omega
  | leased _ rep _ _ rep' =>
      obtain rfl := hr.unique rep
      exact .inl ⟨_, rep'⟩
  | reacted op_eq inFlight job rep rep' =>
      obtain rfl := hr.unique rep
      exact .inr ⟨rep', .inl ⟨_, _, op_eq, inFlight, job⟩⟩
  | caughtUp op_eq idle rep rep' =>
      obtain rfl := hr.unique rep
      exact .inr ⟨rep', .inr ⟨⟨_, op_eq⟩, idle.2⟩⟩

theorem Awaits.withLease {task : JobReactTask} {r : JobRecord} (h : Awaits task r)
    (lease : Option ℤ) : Awaits task (r.withLease lease) :=
  ⟨h.lag, h.event, h.loaded⟩

/-- A reactor call stays the call for the one event its row misses, unless the operation is the
update of a call for the same job. -/
theorem JobChange.awaits {s : State} {op : Op} {db' : Db} {task : JobReactTask}
    (h : JobChange K s op db' task.viewId)
    (htask : ∃ r, Represents s.db task.viewId r ∧ Awaits task r) (hin : s.reacts ≠ [])
    (hother : ∀ i task', op = .reactUpdate i → s.reacts[i]? = some task' →
      task'.viewId ≠ task.viewId) :
    ∃ r, Represents db' task.viewId r ∧ Awaits task r := by
  obtain ⟨r, hr, hawait⟩ := htask
  rcases h.of_lag hr hawait.lag with ⟨lease, hrep⟩ | ⟨-, ⟨i, task', hop, hi, hid⟩ | ⟨-, hnil⟩⟩
  · exact ⟨_, hrep, hawait.withLease lease⟩
  · exact absurd hid (hother i task' hop hi)
  · exact absurd hnil hin

/-! ## What one operation does to the calls in flight -/

theorem step_settlements {s : State} {op : Op} {task : SettleTask}
    (h : task ∈ (step K s op).settlements) :
    task ∈ s.settlements ∨ op = .settleLoad task.caller task.jobId task.command ∧
      (s.db.stream (jobStream task.jobId)).rows ≠ [] ∧
      loadFold jobEntity s.db task.jobId = some task.ctx := by
  cases op with
  | settleLoad caller jobId command =>
      rw [step] at h
      split_ifs at h with hrows
      · exact .inl h
      · split at h
        · exact .inl h
        next ctx hload =>
          rcases List.mem_append.1 h with h | h
          · exact .inl h
          · obtain rfl := List.mem_singleton.1 h
            exact .inr ⟨rfl, hrows, hload⟩
  | settleCommit i fault clock =>
      rw [step] at h
      split at h
      · exact .inl h
      · exact .inl (List.mem_of_mem_eraseIdx h)
  | settleAbandon i => exact .inl (List.mem_of_mem_eraseIdx h)
  | enqueue fault request => exact .inl h
  | commit fault request => rw [step] at h; split_ifs at h <;> exact .inl h
  | commitOpaque fault request => rw [step] at h; split_ifs at h <;> exact .inl h
  | claim fault call => rw [step] at h; split_ifs at h <;> exact .inl h
  | renew jobId claimSeq newLease => exact .inl h
  | reactLoad i => rw [step] at h; split at h <;> exact .inl h
  | reactUpdate i =>
      rw [step] at h
      split at h
      · exact .inl h
      · split at h <;> exact .inl h
  | reactBusy i => rw [step] at h; split at h <;> exact .inl h
  | reactAbandon i => exact .inl h
  | catchUp n => rw [step] at h; split_ifs at h <;> exact .inl h

theorem step_claimIds (s : State) (op : Op) :
    s.claimIds ⊆ (step K s op).claimIds ∧
      ∀ fault call, op = .claim fault call → call.mint ∈ (step K s op).claimIds := by
  cases op with
  | claim fault call =>
      rw [step]
      split_ifs with hfresh
      · exact ⟨List.Subset.refl _, fun _ _ h => by obtain ⟨-, rfl⟩ := Op.claim.inj h; exact hfresh⟩
      · exact ⟨List.subset_cons_self _ _, fun _ _ h => by
          obtain ⟨-, rfl⟩ := Op.claim.inj h; exact List.mem_cons_self⟩
  | settleLoad caller jobId command =>
      refine ⟨?_, fun _ _ h => by cases h⟩
      rw [step]
      split_ifs
      · exact List.Subset.refl _
      · split <;> exact List.Subset.refl _
  | reactUpdate i =>
      refine ⟨?_, fun _ _ h => by cases h⟩
      rw [step]
      split
      · exact List.Subset.refl _
      · split <;> exact List.Subset.refl _
  | enqueue | renew | settleAbandon | reactAbandon =>
      exact ⟨List.Subset.refl _, fun _ _ h => by cases h⟩
  | commit | commitOpaque | settleCommit | reactLoad | reactBusy | catchUp =>
      refine ⟨?_, fun _ _ h => by cases h⟩
      rw [step]
      split <;> exact List.Subset.refl _

section Resume

variable {α β : Type} {tasks : List α} {i : ℕ} {t : α} {next : Option α} {f : α → β}

theorem mem_resume (h : t ∈ resume tasks i next) : t ∈ tasks ∨ next = some t := by
  cases next with
  | none => exact .inl (List.mem_of_mem_eraseIdx h)
  | some t' => exact (List.mem_or_eq_of_mem_set h).imp id fun heq => by rw [heq]

/-- A continuation keeps its task's key, so distinct keys stay distinct. -/
theorem nodup_resume (h : (tasks.map f).Nodup) (hi : tasks[i]? = some t)
    (hnext : ∀ t', next = some t' → f t' = f t) : ((resume tasks i next).map f).Nodup := by
  cases next with
  | none => exact h.sublist ((List.eraseIdx_sublist tasks i).map f)
  | some t' =>
      have hset : (tasks.set i t').map f = tasks.map f := by
        rw [List.map_set, hnext t' rfl]
        refine List.ext_getElem? fun j => ?_
        rw [List.getElem?_set, List.getElem?_map]
        split_ifs with hj hlt
        · rw [← hj, hi]; rfl
        · rw [← hj, List.getElem?_eq_none (by simpa using hlt)]; rfl
        · rfl
      exact hset ▸ h

/-- Distinct keys: one task per key. -/
theorem index_unique (h : (tasks.map f).Nodup) {j : ℕ} {t' : α} (hi : tasks[i]? = some t)
    (hj : tasks[j]? = some t') (heq : f t = f t') : i = j := by
  refine (List.getElem?_inj (l := tasks.map f) ?_ h).1 ?_
  · rw [List.length_map]
    exact (List.getElem?_eq_some_iff.1 hi).1
  · rw [List.getElem?_map, List.getElem?_map, hi, hj, Option.map_some, Option.map_some, heq]

/-- What is left after a task is dropped has other keys. -/
theorem ne_of_mem_eraseIdx (h : (tasks.map f).Nodup) (hi : tasks[i]? = some t) {t' : α}
    (hmem : t' ∈ tasks.eraseIdx i) : f t' ≠ f t := by
  intro heq
  obtain ⟨j, hne, hj⟩ := List.mem_eraseIdx_iff_getElem?.1 hmem
  exact hne (index_unique h hj hi heq)

end Resume

/-- The reactor calls wait for the one event their row misses, one call per job. -/
def ReactsAwait (db : Db) (reacts : List JobReactTask) : Prop :=
  (reacts.map ReactTask.viewId).Nodup ∧
    ∀ task ∈ reacts, ∃ r, Represents db task.viewId r ∧ Awaits task r

section Reacts

variable {db : Db} {reacts : List JobReactTask} {i : ℕ} {task : JobReactTask} {r : JobRecord}

/-- A call that goes on waits for the same event of the same job. -/
theorem ReactsAwait.resume (h : ReactsAwait db reacts) (htask : reacts[i]? = some task)
    (hr : Represents db task.viewId r) {next : Option JobReactTask}
    (hnext : ∀ task', next = some task' → task'.viewId = task.viewId ∧ Awaits task' r) :
    ReactsAwait db (resume reacts i next) := by
  refine ⟨nodup_resume h.1 htask fun task' heq => (hnext task' heq).1, fun task' hmem => ?_⟩
  rcases mem_resume hmem with hmem | heq
  · exact h.2 task' hmem
  · obtain ⟨hid, hawait⟩ := hnext task' heq
    exact ⟨r, hid ▸ hr, hawait⟩

/-- No call is in flight for a job whose row is up to date, so that a new one is its only one. -/
theorem ReactsAwait.append (h : ReactsAwait db reacts)
    (hnew : task.viewId ∉ reacts.map ReactTask.viewId) (hr : Represents db task.viewId r)
    (hawait : Awaits task r) : ReactsAwait db (reacts ++ [task]) := by
  refine ⟨?_, fun task' hmem => ?_⟩
  · rw [List.map_append, List.map_singleton, ← List.concat_eq_append]
    exact h.1.concat hnew
  · rcases List.mem_append.1 hmem with hmem | hmem
    · exact h.2 task' hmem
    · obtain rfl := List.mem_singleton.1 hmem
      exact ⟨r, hr, hawait⟩

theorem retry_eq_some {task' : JobReactTask} (h : task.retry = some task') :
    task' = { task with attempt := task.attempt + 1, loaded := none } := by
  unfold ReactTask.retry at h
  split_ifs at h
  exact (Option.some.inj h).symm

end Reacts

section StepReacts

variable {s : State} (inv : Inv s)

include inv

theorem Inv.reactsAwait : ReactsAwait s.db s.reacts := ⟨inv.nodup, inv.reacts⟩

/-- Only the reactor's own update brings a row up to date while a call is in flight. -/
theorem reactsAwait_of_other {op : Op} (hop : ∀ i, op ≠ .reactUpdate i) :
    ReactsAwait (step K s op).db s.reacts :=
  ⟨inv.nodup, fun task hmem =>
    (step_change inv op task.viewId).awaits (inv.reacts task hmem) (List.ne_nil_of_mem hmem)
      fun i _ heq => absurd heq (hop i)⟩

theorem reactsAwait_settleCommit (i : ℕ) (fault : Option EngineError) (clock : ℕ → ℤ) :
    ReactsAwait (step K s (.settleCommit i fault clock)).db
      (step K s (.settleCommit i fault clock)).reacts := by
  have hkeep : ReactsAwait (step K s (.settleCommit i fault clock)).db s.reacts :=
    reactsAwait_of_other inv (by simp)
  cases htask : s.settlements[i]? with
  | none =>
      rw [step, htask] at hkeep ⊢
      exact hkeep
  | some task =>
      rw [step_settleCommit K htask] at hkeep ⊢
      obtain ⟨r, hr, hload⟩ := inv.settlements task (List.mem_of_getElem? htask)
      rcases task.commit_cases hr hload K fault clock with
        ⟨hne, -⟩ | ⟨happ, hv, live, worker, lease, hlast, hrep, -⟩
      · rwa [if_neg hne]
      · rw [if_pos happ]
        refine hkeep.append (fun hmem => ?_) hrep ⟨by simp [hv], ?_, fun _ h => by cases h⟩
        · obtain ⟨other, hother, hid⟩ := List.mem_map.1 hmem
          obtain ⟨r', hr', hawait⟩ := inv.reacts other hother
          have hid : other.viewId = task.jobId := hid
          obtain rfl : r = r' := hr.unique (hid ▸ hr')
          have := hawait.lag
          omega
        · rw [JobRecord.appendEvent_log, JobRecord.appendEvent_version, hv,
            List.getElem?_concat_length]

theorem reactsAwait_reactLoad (i : ℕ) :
    ReactsAwait (step K s (.reactLoad i)).db (step K s (.reactLoad i)).reacts := by
  cases htask : s.reacts[i]? with
  | none =>
      rw [step, htask]
      exact inv.reactsAwait
  | some task =>
      obtain ⟨r, hr, hawait⟩ := inv.reacts task (List.mem_of_getElem? htask)
      rw [step_reactLoad K htask, reactLoad_represented hr]
      dsimp only
      refine inv.reactsAwait.resume htask hr fun task' heq => ?_
      obtain rfl := Option.some.inj heq
      exact ⟨rfl, hawait.lag, hawait.event, fun _ hl => (Option.some.inj hl).symm⟩

theorem reactsAwait_reactUpdate (i : ℕ) :
    ReactsAwait (step K s (.reactUpdate i)).db (step K s (.reactUpdate i)).reacts := by
  cases htask : s.reacts[i]? with
  | none =>
      rw [step, htask]
      exact inv.reactsAwait
  | some task =>
      cases hloaded : task.loaded with
      | none =>
          simp only [step, htask, hloaded]
          exact inv.reactsAwait
      | some loaded =>
          have hchange := fun id => step_change inv (K := K) (.reactUpdate i) id
          obtain ⟨r, -, -, heq⟩ := reactUpdate_of_inv inv htask hloaded
          rw [step_reactUpdate K htask hloaded, heq] at hchange ⊢
          dsimp only
          refine ⟨nodup_resume inv.nodup htask (by simp), fun other hmem => ?_⟩
          -- The call that is done leaves; the others are of other jobs.
          have hne : other.viewId ≠ task.viewId := ne_of_mem_eraseIdx inv.nodup htask hmem
          have hmem := List.mem_of_mem_eraseIdx hmem
          refine (hchange other.viewId).awaits (inv.reacts other hmem) (List.ne_nil_of_mem hmem) ?_
          rintro j task' hop hj
          obtain rfl := Op.reactUpdate.inj hop
          rw [htask] at hj
          obtain rfl := Option.some.inj hj
          exact hne.symm

theorem reactsAwait_reactBusy (i : ℕ) :
    ReactsAwait (step K s (.reactBusy i)).db (step K s (.reactBusy i)).reacts := by
  cases htask : s.reacts[i]? with
  | none =>
      rw [step, htask]
      exact inv.reactsAwait
  | some task =>
      obtain ⟨r, hr, hawait⟩ := inv.reacts task (List.mem_of_getElem? htask)
      rw [step, htask]
      dsimp only
      refine inv.reactsAwait.resume htask hr fun task' heq => ?_
      rw [retry_eq_some heq]
      exact ⟨rfl, hawait.lag, hawait.event, fun _ hl => by cases hl⟩

/-- The reactor calls in flight still wait for the one event their row misses, one per job. -/
theorem step_reacts (op : Op) : ReactsAwait (step K s op).db (step K s op).reacts := by
  have hsame (heq : (step K s op).reacts = s.reacts) (hop : ∀ i, op ≠ .reactUpdate i) :
      ReactsAwait (step K s op).db (step K s op).reacts :=
    heq ▸ reactsAwait_of_other inv hop
  cases op with
  | settleCommit i fault clock => exact reactsAwait_settleCommit inv i fault clock
  | reactLoad i => exact reactsAwait_reactLoad inv i
  | reactUpdate i => exact reactsAwait_reactUpdate inv i
  | reactBusy i => exact reactsAwait_reactBusy inv i
  | reactAbandon i =>
      exact ⟨inv.nodup.sublist ((List.eraseIdx_sublist _ i).map _),
        fun task hmem => inv.reacts task (List.mem_of_mem_eraseIdx hmem)⟩
  | enqueue | renew | settleAbandon => exact hsame rfl (by simp)
  | commit | commitOpaque | claim | catchUp => exact hsame (by rw [step]; split <;> rfl) (by simp)
  | settleLoad =>
      refine hsame ?_ (by simp)
      rw [step]
      split_ifs
      · rfl
      · split <;> rfl

end StepReacts

theorem inv_step {s : State} (inv : Inv s) (op : Op) : Inv (step K s op) := by
  have hchange := step_change inv (K := K) op
  obtain ⟨hsub, hmint⟩ := step_claimIds s op (K := K)
  obtain ⟨hnodup, hreacts⟩ := step_reacts inv op (K := K)
  refine ⟨fun id => (hchange id).held inv.held, fun task hmem => ?_, hnodup, hreacts,
    fun {id i c} hc => ?_, fun {id id' i i' c} hat hat' => ?_⟩
  · rcases step_settlements hmem with hmem | ⟨-, hrows, hload⟩
    · obtain ⟨r, hr, hfrom⟩ := inv.settlements task hmem
      obtain ⟨r', hr', hlog⟩ := (hchange task.jobId).log_mono hr
      exact ⟨r', hr', hfrom.mono hlog⟩
    · rcases inv.held task.jobId with habs | ⟨r, hr⟩
      · exact absurd (congrArg SeqLog.rows habs.stream) hrows
      · obtain ⟨r', hr', hlog⟩ := (hchange task.jobId).log_mono hr
        rw [loadFold_represented hr] at hload
        have hctx := Option.some.inj hload
        have hfrom : task.LoadedFrom r :=
          ⟨by rw [← hctx, List.take_length], by rw [← hctx]; exact r.live.length_pos,
            by rw [← hctx]⟩
        exact ⟨r', hr', hfrom.mono hlog⟩
  · rcases (hchange id).claimedAt hc with hold | ⟨fault, call, r, hop, -, -, rfl, -⟩
    · exact hsub (inv.drawn hold)
    · exact hmint fault call hop
  · rcases (hchange id).claimedAt hat with hold | ⟨fault, call, r, hop, hfresh, hid, hc, hr, hi⟩ <;>
      rcases (hchange id').claimedAt hat' with
        hold' | ⟨fault', call', r', hop', hfresh', hid', hc', hr', hi'⟩
    · exact inv.unique hold hold'
    · exact absurd (inv.drawn hold) (hc' ▸ hfresh')
    · exact absurd (inv.drawn hold') (hc ▸ hfresh)
    · obtain ⟨-, rfl⟩ := Op.claim.inj (hop.symm.trans hop')
      obtain rfl : id = id' := hid.symm.trans hid'
      obtain rfl := hr.unique hr'
      exact ⟨rfl, hi.trans hi'.symm⟩

end JobSystem

/-- Every interleaving of job operations on a fresh database. -/
def jobSystem (K : CqrsEs) : Machine JobSystem.State JobSystem.Op :=
  ⟨⟨.empty, [], [], []⟩, JobSystem.step K⟩

/-- **The invariant holds in every reachable state.** -/
theorem jobSystem_inv (K : CqrsEs) (ops : List JobSystem.Op) :
    JobSystem.Inv ((jobSystem K).run ops) :=
  Machine.run_invariant (m := jobSystem K) (P := JobSystem.Inv) JobSystem.inv_init
    (fun _ op inv => JobSystem.inv_step inv op) ops

end EventSorcery
