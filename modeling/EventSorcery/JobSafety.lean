import EventSorcery.JobSystem

/-!
# Safety of job streams

What every run of the job system guarantees about streams: their shape, which settlement wrote which
outcome, and that a settlement answers `Applied` exactly when its outcome went in.
-/

namespace EventSorcery

open JobSystem

/-! ## Growing histories -/

/-- Along a run a job's history only grows. -/
theorem log_mono_exec {K : CqrsEs} {s : State} (inv : Inv s) {id : JobId} {r : JobRecord}
    (hr : Represents s.db id r) (ops : List Op) :
    ∃ r', Represents ((jobSystem K).exec s ops).db id r' ∧ r.log <+: r'.log := by
  refine (Machine.exec_invariant (m := jobSystem K)
    (P := fun t => Inv t ∧ ∃ r', Represents t.db id r' ∧ r.log <+: r'.log) ?_
    ⟨inv, r, hr, List.prefix_rfl⟩ ops).2
  rintro t op ⟨inv, r', hr', hlog⟩
  obtain ⟨r'', hr'', hlog'⟩ := (step_change inv op id (K := K)).log_mono hr'
  exact ⟨inv_step inv op, r'', hr'', hlog.trans hlog'⟩

/-- A settlement of the run wrote the outcome of `task` at number `q` of the job's stream. -/
def WrittenBySettlement (K : CqrsEs) (ops : List Op) (id : JobId) (q : ℕ) (task : SettleTask) :
    Prop :=
  ∃ before i fault clock after, ops = before ++ .settleCommit i fault clock :: after ∧
    ((jobSystem K).run before).settlements[i]? = some task ∧ task.jobId = id ∧
    ((jobSystem K).run before).db.row (jobStream id) q = none ∧
    ((jobSystem K).run (before ++ [.settleCommit i fault clock])).db.row (jobStream id) q =
      some task.command.event.stored

/-- A claim of the run wrote the event at number `q` of the job's stream. -/
def WrittenByClaim (K : CqrsEs) (ops : List Op) (id : JobId) (q : ℕ) (call : ClaimCall) : Prop :=
  ∃ before fault after, ops = before ++ .claim fault call :: after ∧ call.jobId = id ∧
    ((jobSystem K).run before).db.row (jobStream id) q = none ∧
    ((jobSystem K).run (before ++ [.claim fault call])).db.row (jobStream id) q ≠ none

/-- A prefix of a list agrees with it wherever it is defined. -/
theorem getElem?_mono {α : Type} {l l' : List α} (h : l <+: l') {k : ℕ} {a : α}
    (hk : l[k]? = some a) : l'[k]? = some a := by
  obtain ⟨rest, rfl⟩ := h
  rw [List.getElem?_append_left (List.getElem?_eq_some_iff.1 hk).1, hk]

/-- A claim stays where it is. -/
theorem claimedAt_step {K : CqrsEs} {s : State} (inv : Inv s) {id : JobId} {i : ℕ} {c : ClaimId}
    (h : ClaimedAt s.db id i c) (op : Op) : ClaimedAt (step K s op).db id i c := by
  obtain ⟨r, worker, lease, hr, hi⟩ := h
  obtain ⟨r', hr', hlog⟩ := (step_change inv op id (K := K)).log_mono hr
  exact ⟨r', worker, lease, hr', getElem?_mono hlog hi⟩

/-- Where an appended event lands. -/
theorem getElem?_concat_of_none {α : Type} {l : List α} {a b : α} {k : ℕ} (hk : l[k]? = none)
    (h : (l ++ [a])[k]? = some b) : k = l.length ∧ a = b := by
  have hlen := (List.getElem?_eq_some_iff.1 h).1
  rw [List.getElem?_eq_none_iff] at hk
  rw [List.length_append, List.length_singleton] at hlen
  obtain rfl : k = l.length := by omega
  rw [List.getElem?_concat_length] at h
  exact ⟨rfl, Option.some.inj h⟩

/-- An event that one operation wrote: it enqueues the job, or settles the claim right before it, or
comes from a claim. -/
theorem JobSystem.JobChange.written {K : CqrsEs} {s : State} {op : Op} {db' : Db} {id : JobId}
    {r' : JobRecord} {k : ℕ} {e : JobEvent} (h : JobChange K s op db' id)
    (hnone : s.db.row (jobStream id) (k + 1) = none) (hr' : Represents db' id r')
    (he : r'.log[k]? = some e) :
    (k = 0 ∧ e.isEnqueued) ∨
      (∃ i fault clock task worker lease, op = .settleCommit i fault clock ∧
        s.settlements[i]? = some task ∧ task.jobId = id ∧ e = task.command.event ∧ 0 < k ∧
        r'.log[k - 1]? = some (.claimed worker task.command.claimId lease)) ∨
      ∃ fault call, op = .claim fault call ∧ call.jobId = id ∧
        ((∃ lease, e = call.event lease) ∨ e = abandonedEvent) := by
  -- An operation that keeps the history wrote nothing.
  have hkept : ∀ {r : JobRecord}, Represents s.db id r → r'.log = r.log → False := by
    intro r hr hlog
    rw [hr.row_eq, ← hlog, he] at hnone
    cases hnone
  have happended : ∀ {r : JobRecord} {e'}, Represents s.db id r → r'.log = r.log ++ [e'] →
      k = r.log.length ∧ e' = e := by
    intro r e' hr hlog
    refine getElem?_concat_of_none ?_ (hlog ▸ he)
    rw [hr.row_eq] at hnone
    simpa using hnone
  cases h with
  | same hsame =>
      have hrow : db'.row (jobStream id) (k + 1) = none := by
        rw [Db.row, hsame.stream]
        exact hnone
      rw [hr'.row_eq, he] at hrow
      cases hrow
  | enqueued absent rep' =>
      obtain rfl := hr'.unique rep'
      have hk := (List.getElem?_eq_some_iff.1 he).1
      obtain rfl : k = 0 := by simpa using hk
      obtain rfl := Option.some.inj he
      exact .inl ⟨rfl, rfl⟩
  | claimed op_eq fresh job rep answer effect rep' =>
      obtain rfl := hr'.unique rep'
      obtain ⟨-, e', hlog, hev⟩ := effect.log_eq
      obtain ⟨-, rfl⟩ := happended rep hlog
      exact .inr (.inr ⟨_, _, op_eq, job, hev⟩)
  | @settled i fault clock task r worker lease op_eq inFlight job rep _ hv live last rep' =>
      obtain rfl := hr'.unique rep'
      obtain ⟨rfl, rfl⟩ := happended rep rfl
      have hpos := r.live.length_pos
      refine .inr (.inl ⟨i, fault, clock, task, worker, lease, op_eq, inFlight, job, rfl, hpos, ?_⟩)
      rw [JobRecord.appendEvent_log, List.getElem?_append_left (by omega),
        ← List.getLast?_eq_getElem?, last]
  | leased _ rep _ _ rep' => exact (hkept rep (by rw [hr'.unique rep']; rfl)).elim
  | reacted _ _ _ rep rep' => exact (hkept rep (by rw [hr'.unique rep']; rfl)).elim
  | caughtUp _ _ rep rep' => exact (hkept rep (by rw [hr'.unique rep']; rfl)).elim

/-- **Who wrote an event.** The first event of a job enqueued it; every later one was written by a
settlement right after the claim it carries, or by a claim. -/
theorem event_writer (K : CqrsEs) (ops : List Op) {id : JobId} {r : JobRecord}
    (hr : Represents ((jobSystem K).run ops).db id r) {k : ℕ} {e : JobEvent}
    (he : r.log[k]? = some e) :
    (k = 0 ∧ e.isEnqueued) ∨
      (∃ task worker lease, WrittenBySettlement K ops id (k + 1) task ∧ e = task.command.event ∧
        0 < k ∧ r.log[k - 1]? = some (.claimed worker task.command.claimId lease)) ∨
      ∃ call, WrittenByClaim K ops id (k + 1) call ∧
        ((∃ lease, e = call.event lease) ∨ e = abandonedEvent) := by
  have hinit : ¬ (jobSystem K).init.db.row (jobStream id) (k + 1) ≠ none := by
    simp [jobSystem, Db.row]
  obtain ⟨before, op, after, rfl, hnone, hsome⟩ :=
    Machine.run_first (m := jobSystem K) (P := fun s => s.db.row (jobStream id) (k + 1) ≠ none)
      hinit ops (by rw [hr.row_eq, he]; simp)
  have hnone := not_not.1 hnone
  have inv := jobSystem_inv K (before ++ [op])
  rw [← Machine.run_concat] at hsome
  -- The record right after the writing step is a prefix of the final one.
  obtain ⟨r', hr', hlog⟩ : ∃ r', Represents ((jobSystem K).run (before ++ [op])).db id r' ∧
      r'.log <+: r.log := by
    rcases inv.held id with habs | ⟨r', hr'⟩
    · exact absurd (habs.row_eq _) hsome
    · obtain ⟨r'', hr'', hlog⟩ := log_mono_exec inv hr' after (K := K)
      rw [← Machine.run_append, List.append_assoc] at hr''
      exact ⟨r', hr', hr.unique hr'' ▸ hlog⟩
  obtain ⟨e', he'⟩ : ∃ e', r'.log[k]? = some e' := by
    rw [hr'.row_eq] at hsome
    exact Option.ne_none_iff_exists'.1 fun h => hsome (by rw [h]; rfl)
  obtain rfl : e = e' := Option.some.inj (he.symm.trans (getElem?_mono hlog he'))
  have hrow : ((jobSystem K).run (before ++ [op])).db.row (jobStream id) (k + 1) = some e.stored := by
    rw [hr'.row_eq, he']
    rfl
  have hchange := step_change (jobSystem_inv K before) op id (K := K)
  have hrun : (jobSystem K).run (before ++ [op]) = step K ((jobSystem K).run before) op :=
    Machine.run_concat _ _ _
  rcases hchange.written hnone (hrun ▸ hr') he' with
    henq | ⟨i, fault, clock, task, worker, lease, rfl, hin, hid, rfl, hpos, hclaim⟩ |
      ⟨fault, call, rfl, hid, hev⟩
  · exact .inl henq
  · exact .inr (.inl ⟨task, worker, lease,
      ⟨before, i, fault, clock, after, rfl, hin, hid, hnone, hrow⟩, rfl, hpos,
      getElem?_mono hlog hclaim⟩)
  · exact .inr (.inr ⟨call, ⟨before, fault, after, rfl, hid, hnone, hsome⟩, hev⟩)

/-- What a settlement wrote stands right after the claim it carries. -/
theorem WrittenBySettlement.claimed_before {K : CqrsEs} {ops : List Op} {id : JobId} {q : ℕ}
    {task : SettleTask} (h : WrittenBySettlement K ops id q task) :
    ∃ k r worker lease, q = k + 2 ∧ Represents ((jobSystem K).run ops).db id r ∧
      r.log[k + 1]? = some task.command.event ∧
      r.log[k]? = some (.claimed worker task.command.claimId lease) := by
  obtain ⟨before, i, fault, clock, after, rfl, hin, hid, hnone, hsome⟩ := h
  have inv := jobSystem_inv K (before ++ [.settleCommit i fault clock])
  obtain ⟨r', hr'⟩ : ∃ r', Represents
      ((jobSystem K).run (before ++ [.settleCommit i fault clock])).db id r' := by
    rcases inv.held id with habs | hr'
    · rw [habs.row_eq] at hsome
      cases hsome
    · exact hr'
  obtain ⟨k, rfl⟩ : ∃ k, q = k + 1 := by
    cases q with
    | zero =>
        rw [Db.row, hr'.stream, SeqLog.get?_ofList, if_neg (lt_irrefl 0)] at hsome
        cases hsome
    | succ k => exact ⟨k, rfl⟩
  have he : r'.log[k]? = some task.command.event := by
    rw [hr'.row_eq, Option.map_eq_some_iff] at hsome
    obtain ⟨e, he, heq⟩ := hsome
    rw [he, stored_injective heq]
  obtain ⟨r, hr, hlog⟩ := log_mono_exec inv hr' after (K := K)
  rw [← Machine.run_append, List.append_assoc] at hr
  have hchange := step_change (jobSystem_inv K before) (.settleCommit i fault clock) id (K := K)
  rw [Machine.run_concat] at hr'
  rcases hchange.written hnone hr' he with
    ⟨-, henq⟩ | ⟨i', fault', clock', task', worker, lease, hop, hin', -, -, hpos, hclaim⟩ |
      ⟨fault', call, hop, -⟩
  · generalize task.command = command at henq
    cases command <;> cases henq
  · obtain ⟨rfl, -, -⟩ := Op.settleCommit.inj hop
    obtain rfl : task = task' := Option.some.inj (hin.symm.trans hin')
    obtain ⟨k, rfl⟩ := Nat.exists_eq_add_of_lt hpos
    rw [Nat.zero_add] at he hclaim hnone
    exact ⟨k, r, worker, lease, by omega, hr, getElem?_mono hlog he,
      getElem?_mono hlog hclaim⟩
  · cases hop

/-! ## The result -/

/-- What a run makes of one job's stream. -/
structure StreamSafe (K : CqrsEs) (ops : List Op) (id : JobId) (log : List JobEvent) : Prop where
  /-- Sequence 1 is `Enqueued`, and no other event is. -/
  enqueued_first : ∃ kind payload runAt, log[0]? = some (.enqueued kind payload runAt)
  enqueued_once : ∀ k e, log[k]? = some e → e.isEnqueued → k = 0
  /-- A success, retry, defer, or whatever a settlement wrote, was written by a settlement that
  carries the claim right before it. -/
  outcome : ∀ k e, log[k]? = some e →
    (e.isSettlementOnly ∨ ∃ task, WrittenBySettlement K ops id (k + 1) task) →
    ∃ task worker lease, WrittenBySettlement K ops id (k + 1) task ∧ task.command.event = e ∧
      0 < k ∧ log[k - 1]? = some (.claimed worker task.command.claimId lease)
  /-- Nothing follows a `Succeeded` or `Dead` event. -/
  terminal_last : ∀ k e, log[k]? = some e → e.isTerminal → k + 1 = log.length
  live : ∃ st, jobFold log = .live st

theorem streamSafe_of_represents {K : CqrsEs} {ops : List Op} {id : JobId} {r : JobRecord}
    (hr : Represents ((jobSystem K).run ops).db id r) : StreamSafe K ops id r.log := by
  refine ⟨?_, fun k e he henq => r.live.eq_zero_of_isEnqueued he henq, fun k e he hout => ?_,
    fun k e he ht => r.live.eq_length_of_isTerminal he ht, r.live⟩
  · obtain ⟨e, he, henq⟩ := r.live.isEnqueued_zero
    cases e with
    | enqueued kind payload runAt => exact ⟨kind, payload, runAt, he⟩
    | _ => cases henq
  · rcases hout with hset | ⟨task, hwritten⟩
    · rcases event_writer K ops hr he with
        ⟨-, henq⟩ | ⟨task, worker, lease, hwritten, rfl, hpos, hclaim⟩ | ⟨call, -, ⟨lease, rfl⟩ | rfl⟩
      · cases e <;> simp [JobEvent.isEnqueued, JobEvent.isSettlementOnly] at henq hset
      · exact ⟨task, worker, lease, hwritten, rfl, hpos, hclaim⟩
      · cases hset
      · cases hset
    · obtain ⟨j, r', worker, lease, hk, hr', hev, hclaim⟩ := hwritten.claimed_before
      obtain rfl := hr.unique hr'
      obtain rfl : k = j + 1 := by omega
      exact ⟨task, worker, lease, hwritten, Option.some.inj (hev.symm.trans he), Nat.succ_pos j,
        hclaim⟩

/-- Two settlements that carry one claim id wrote one event. -/
theorem settlement_outcome_unique {K : CqrsEs} {ops : List Op} {id id' : JobId} {q q' : ℕ}
    {task task' : SettleTask} (h : WrittenBySettlement K ops id q task)
    (h' : WrittenBySettlement K ops id' q' task')
    (hc : task.command.claimId = task'.command.claimId) : id = id' ∧ q = q' := by
  obtain ⟨k, r, worker, lease, rfl, hr, -, hclaim⟩ := h.claimed_before
  obtain ⟨k', r', worker', lease', rfl, hr', -, hclaim'⟩ := h'.claimed_before
  obtain ⟨hid, hk⟩ := (jobSystem_inv K ops).unique ⟨r, worker, lease, hr, hclaim⟩
    ⟨r', worker', lease', hr', hc ▸ hclaim'⟩
  exact ⟨hid, by omega⟩

/-- A settlement is applied exactly when its outcome goes in. -/
theorem applied_iff_written {K : CqrsEs} {s : State} (inv : Inv s) {i : ℕ} {task : SettleTask}
    (hin : s.settlements[i]? = some task) (fault : Option EngineError) (clock : ℕ → ℤ) :
    (task.commit K fault clock s.db).1.result task.jobId = .ok .applied ↔
      ∃ q, s.db.row (jobStream task.jobId) q = none ∧
        (step K s (.settleCommit i fault clock)).db.row (jobStream task.jobId) q =
          some task.command.event.stored := by
  rw [SettlementVerdict.result_eq_applied, step_settleCommit K hin]
  obtain ⟨r, hr, hload⟩ := inv.settlements task (List.mem_of_getElem? hin)
  rcases task.commit_cases hr hload K fault clock with
    ⟨hne, hdb⟩ | ⟨happ, hv, live, worker, lease, -, hrep, -⟩
  · refine iff_of_false hne ?_
    rintro ⟨q, hnone, hsome⟩
    rw [hdb, hnone] at hsome
    cases hsome
  · refine iff_of_true happ ⟨r.log.length + 1, ?_, ?_⟩
    · rw [hr.row_eq, List.getElem?_eq_none le_rfl]
      rfl
    · rw [hrep.row_eq, JobRecord.appendEvent_log, List.getElem?_concat_length]
      rfl

/-- **Job streams are safe under every interleaving.** In every run, each job's stream is empty or
holds, under the numbers 1, 2, ..., a history as `StreamSafe` says; a claim id has at most one
outcome in all streams; and a settlement in flight answers `Applied` exactly when its commit adds
its outcome event. -/
theorem job_streams_safe (K : CqrsEs) (ops : List Op) :
    let s := (jobSystem K).run ops
    (∀ id, s.db.stream (jobStream id) = SeqLog.empty ∨
      ∃ log, s.db.stream (jobStream id) = SeqLog.ofList 0 (log.map JobEvent.stored) ∧
        StreamSafe K ops id log) ∧
    (∀ id id' q q' task task', WrittenBySettlement K ops id q task →
      WrittenBySettlement K ops id' q' task' →
      task.command.claimId = task'.command.claimId → id = id' ∧ q = q') ∧
    ∀ i fault clock task, s.settlements[i]? = some task →
      ((task.commit K fault clock s.db).1.result task.jobId = .ok .applied ↔
        ∃ q, s.db.row (jobStream task.jobId) q = none ∧
          (step K s (.settleCommit i fault clock)).db.row (jobStream task.jobId) q =
            some task.command.event.stored) := by
  have inv := jobSystem_inv K ops
  refine ⟨fun id => ?_, fun id id' q q' task task' h h' hc => settlement_outcome_unique h h' hc,
    fun i fault clock task hin => applied_iff_written inv hin fault clock⟩
  rcases inv.held id with habs | ⟨r, hr⟩
  · exact .inl habs.stream
  · exact .inr ⟨r.log, hr.stream, streamSafe_of_represents hr⟩

end EventSorcery
