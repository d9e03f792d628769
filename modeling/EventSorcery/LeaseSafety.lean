import EventSorcery.QueueSafety

/-!
# Leases

The lease of a claim lives only in the lease column of the queue row: the claim writes it, its
renewals replace it, and the projection keeps whatever it finds. While the claim is the last event
of its job, the column holds the claim's own latest lease, so no other claim gets through before it
runs out.
-/

namespace EventSorcery

open JobSystem

/-- The lease of the claim at `claimSeq` after one operation: a renewal that held replaced it. -/
def renewedLease (s : State) (id : JobId) (claimSeq lease : ℤ) : Op → ℤ
  | .renew jobId seq newLease =>
      if jobId = id ∧ seq = claimSeq ∧ (renewJob jobId seq newLease s.db).1 = .held then newLease
      else lease
  | _ => lease

/-- The lease of the claim at `claimSeq` along a run: what it was, or what its latest renewal that
held wrote. -/
def currentLease (K : CqrsEs) (id : JobId) (claimSeq : ℤ) : State → ℤ → List Op → ℤ
  | _, lease, [] => lease
  | s, lease, op :: ops =>
      currentLease K id claimSeq (step K s op) (renewedLease s id claimSeq lease op) ops

/-- The claim `c` is at position `i` of its job's history; if nothing follows it, the row's lease
column holds `lease`. -/
structure LeaseHeld (s : State) (id : JobId) (i : ℕ) (c : ClaimId) (lease : ℤ) (r : JobRecord) :
    Prop where
  inv : Inv s
  rep : Represents s.db id r
  claim : ∃ worker leaseUntil, r.log[i]? = some (.claimed worker c leaseUntil)
  lease : r.log.length = i + 1 → r.lease = some lease

/-- After a claim the job is claimed. -/
theorem LiveLog.jobFold_claimed {log : List JobEvent} (h : LiveLog log) {i : ℕ}
    (hi : log.length = i + 1) {worker : WorkerId} {c : ClaimId} {lease : Instant}
    (he : log[i]? = some (.claimed worker c lease)) :
    ∃ kind payload runAt attempt claims,
      jobFold log = .live (.claimed kind payload worker c runAt attempt claims) := by
  have hpos : 0 < i := by
    rcases Nat.eq_zero_or_pos i with rfl | hpos
    · obtain ⟨e, he₀, henq⟩ := h.isEnqueued_zero
      rw [he] at he₀
      obtain rfl := Option.some.inj he₀
      cases henq
    · exact hpos
  obtain ⟨st, st', -, hev, hst'⟩ := h.step hpos he
  rw [← hi, List.take_length] at hst'
  cases st with
  | pending | claimed => cases hev; exact ⟨_, _, _, _, _, hst'⟩
  | done | dead => cases hev

theorem LeaseHeld.version_eq {s : State} {id : JobId} {i : ℕ} {c : ClaimId} {lease : ℤ}
    {r : JobRecord} (h : LeaseHeld s id i c lease r) (hi : r.log.length = i + 1) :
    r.version = i + 1 ∧ ∃ kind payload worker runAt attempt claims,
      r.rowState = .live (.claimed kind payload worker c runAt attempt claims) := by
  obtain ⟨worker, leaseUntil, he⟩ := h.claim
  obtain ⟨kind, payload, runAt, attempt, claims, hfold⟩ := r.live.jobFold_claimed hi he
  have hv := JobRecord.version_eq_of_claimed hfold
  exact ⟨hv.trans hi, kind, payload, worker, runAt, attempt, claims,
    (JobRecord.rowState_eq hv).trans hfold⟩

theorem renewedLease_of_ne {s : State} {id : JobId} {claimSeq lease : ℤ} {op : Op}
    (h : ∀ seq newLease, op ≠ .renew id seq newLease) :
    renewedLease s id claimSeq lease op = lease := by
  cases op with
  | renew jobId seq newLease =>
      exact if_neg fun hc => h seq newLease (by rw [hc.1])
  | _ => rfl

/-- One operation keeps the lease of the claim. -/
theorem LeaseHeld.step {K : CqrsEs} {s : State} {id : JobId} {i : ℕ} {c : ClaimId} {lease : ℤ}
    {r : JobRecord} (h : LeaseHeld s id i c lease r) (op : Op) :
    ∃ r', LeaseHeld (JobSystem.step K s op) id i c (renewedLease s id (i + 1 : ℕ) lease op) r' := by
  have inv' := inv_step h.inv op (K := K)
  obtain ⟨worker, leaseUntil, he⟩ := h.claim
  by_cases hop : ∃ seq newLease, op = .renew id seq newLease
  · obtain ⟨seq, newLease, rfl⟩ := hop
    obtain ⟨st, hst⟩ := r.rowState_live
    rcases renewJob_represented h.rep hst seq newLease with
      ⟨⟨hseq, -⟩, hheld, hrep, -⟩ | ⟨-, hlost⟩
    · refine ⟨_, inv', hrep, ⟨worker, leaseUntil, he⟩, fun hi => ?_⟩
      rw [renewedLease, if_pos ⟨rfl, by rw [← hseq, (h.version_eq hi).1], hheld⟩]
      rfl
    · have hdb : (JobSystem.step K s (.renew id seq newLease)).db = s.db := by
        rw [JobSystem.step, hlost]
      refine ⟨r, inv', hdb ▸ h.rep, ⟨worker, leaseUntil, he⟩, fun hi => ?_⟩
      rw [renewedLease, if_neg fun hc => by rw [hlost] at hc; cases hc.2.2]
      exact h.lease hi
  · push Not at hop
    rw [renewedLease_of_ne hop]
    have hlen := (List.getElem?_eq_some_iff.1 he).1
    cases step_change h.inv op id (K := K) with
    | same hsame => exact ⟨r, inv', h.rep.of_same hsame, ⟨worker, leaseUntil, he⟩, h.lease⟩
    | enqueued absent _ => exact absurd h.rep absent.not_represents
    | claimed _ _ _ rep _ effect rep' =>
        obtain rfl := h.rep.unique rep
        obtain ⟨-, e, hlog, -⟩ := effect.log_eq
        refine ⟨_, inv', rep', ⟨worker, leaseUntil, ?_⟩, fun hi => ?_⟩
        · rw [hlog, List.getElem?_append_left hlen, he]
        · rw [hlog, List.length_append, List.length_singleton] at hi
          omega
    | settled _ _ _ rep _ _ _ _ rep' =>
        obtain rfl := h.rep.unique rep
        refine ⟨_, inv', rep', ⟨worker, leaseUntil, ?_⟩, fun hi => ?_⟩
        · rw [JobRecord.appendEvent_log, List.getElem?_append_left hlen, he]
        · rw [JobRecord.appendEvent_log, List.length_append, List.length_singleton] at hi
          omega
    | leased op_eq _ _ _ _ => exact absurd op_eq (hop _ _)
    | reacted _ _ _ rep rep' =>
        obtain rfl := h.rep.unique rep
        exact ⟨_, inv', rep', ⟨worker, leaseUntil, he⟩, h.lease⟩
    | caughtUp _ _ rep rep' =>
        obtain rfl := h.rep.unique rep
        exact ⟨_, inv', rep', ⟨worker, leaseUntil, he⟩, h.lease⟩

/-- A run keeps it. -/
theorem LeaseHeld.exec {K : CqrsEs} {s : State} {id : JobId} {i : ℕ} {c : ClaimId} {lease : ℤ}
    {r : JobRecord} (h : LeaseHeld s id i c lease r) (ops : List Op) :
    ∃ r', LeaseHeld ((jobSystem K).exec s ops) id i c
      (currentLease K id (i + 1 : ℕ) s lease ops) r' := by
  induction ops generalizing s lease r with
  | nil => exact ⟨r, h⟩
  | cons op ops ih =>
      obtain ⟨r', h'⟩ := h.step op (K := K)
      exact ih h'

/-- A won claim starts out with the lease it asked for. -/
theorem leaseHeld_of_won {K : CqrsEs} {s : State} (inv : Inv s) {fault : Option SqliteJobError}
    {call : ClaimCall} {handle : JobClaimHandle} {payload : Json} (hfresh : call.mint ∉ s.claimIds)
    (hwon : (claimJobAs fault call s.db).1 = .ok (.claimed handle payload)) :
    ∃ i attempt r, handle = ⟨call.jobId, (i + 1 : ℕ), call.mint, attempt⟩ ∧
      LeaseHeld (JobSystem.step K s (.claim fault call)) call.jobId i call.mint
        (call.nowMs + call.leaseMs) r := by
  have hstep : JobSystem.step K s (.claim fault call) =
      { s with db := (claimJobAs fault call s.db).2, claimIds := call.mint :: s.claimIds } := by
    rw [JobSystem.step, if_neg hfresh]
  rcases claimJobAs_cases inv.held fault call with
    ⟨hnothing, -⟩ | ⟨r, out, r', hr, hout, heff, hrep, -⟩
  · rw [hwon] at hnothing
    rcases hnothing with ⟨-, h⟩ | ⟨_, -, h⟩ | h | h <;> cases h
  · rw [hwon] at hout
    cases heff with
    | abandoned => cases Except.ok.inj hout
    | @won st job leaseUntil hv live row fields runs budget lease =>
        have hhandle := (JobClaimResult.claimed.inj (Except.ok.inj hout)).1
        refine ⟨r.log.length, job.attempt, _, by rw [hhandle, hv], inv_step inv _,
          by rw [hstep]; exact hrep, ⟨call.worker, leaseUntil, ?_⟩, fun _ => ?_⟩
        · rw [JobRecord.appendWithRow_log, List.getElem?_concat_length]
          rfl
        · rw [JobRecord.appendWithRow_lease, lease]

/-- While nothing follows the claim, or what follows it ended the job, no claim gets through before
its lease runs out. -/
theorem LeaseHeld.excludes {s : State} {id : JobId} {i : ℕ} {c : ClaimId} {lease : ℤ}
    {r : JobRecord} (h : LeaseHeld s id i c lease r)
    (hnext : ∀ e, r.log[i + 1]? = some e → e.isTerminal) {call : ClaimCall} (hid : call.jobId = id)
    (hnow : call.nowMs ≤ lease) (fault : Option SqliteJobError) :
    ClaimedNothing fault call (claimJobAs fault call s.db).1 ∧
      (claimJobAs fault call s.db).2 = s.db := by
  subst hid
  rcases claimJobAs_cases h.inv.held fault call with hnothing | ⟨r₀, out, r', hr, -, heff, -⟩
  · exact hnothing
  obtain rfl := h.rep.unique hr
  exfalso
  obtain ⟨hv, e, hlog, -⟩ := heff.log_eq
  obtain ⟨worker, leaseUntil, he⟩ := h.claim
  have hlen := (List.getElem?_eq_some_iff.1 he).1
  cases hnext' : r.log[i + 1]? with
  | some e' =>
      -- The job has ended: nothing can follow.
      have hlt := (List.getElem?_eq_some_iff.1 hnext').1
      have := r'.live.eq_length_of_isTerminal (i := i + 1)
        (by rw [hlog, List.getElem?_append_left hlt, hnext']) (hnext e' hnext')
      rw [hlog, List.length_append, List.length_singleton] at this
      omega
  | none =>
      -- The claim holds the job and its lease has not run out.
      have hi : r.log.length = i + 1 := by
        rw [List.getElem?_eq_none_iff] at hnext'
        omega
      obtain ⟨-, kind, payload, worker', runAt, attempt, claims, hrow⟩ := h.version_eq hi
      have hruns : ∃ st, r.rowState = .live st ∧ runnable st r.lease call.nowMs := by
        cases heff with
        | won _ _ row _ runs => exact ⟨_, row, runs⟩
        | abandoned _ _ row _ runs => exact ⟨_, row, runs⟩
      obtain ⟨st, hst, hruns⟩ := hruns
      obtain rfl := Lifecycle.live.inj (hrow.symm.trans hst)
      rw [h.lease hi, runnable, decide_eq_true_eq] at hruns
      omega

/-- A renewal by the claim that is the last event of its job holds. -/
theorem renewJob_current {s : State} {id : JobId} {i : ℕ} {c : ClaimId}
    (hclaim : ClaimedAt s.db id i c) (hlast : s.db.row (jobStream id) (i + 2) = none)
    (newLease : ℤ) : (renewJob id (i + 1 : ℕ) newLease s.db).1 = .held := by
  obtain ⟨r, worker, leaseUntil, hr, he⟩ := hclaim
  rw [hr.row_eq, Option.map_eq_none_iff, List.getElem?_eq_none_iff] at hlast
  have hlen := (List.getElem?_eq_some_iff.1 he).1
  obtain ⟨kind, payload, runAt, attempt, claims, hfold⟩ :=
    r.live.jobFold_claimed (by omega) he
  have hv := JobRecord.version_eq_of_claimed hfold
  rcases renewJob_represented hr ((JobRecord.rowState_eq hv).trans hfold) (i + 1 : ℕ) newLease with
    ⟨-, hheld, -⟩ | ⟨hnot, -⟩
  · exact hheld
  · exact absurd ⟨by rw [hv]; congr 1; omega, rfl⟩ hnot

/-- A renewal by a claim that a later claim superseded is lost. -/
theorem renewJob_superseded {s : State} {id : JobId} {i j : ℕ} {c' : ClaimId}
    (hlater : ClaimedAt s.db id j c') (hij : i < j) (newLease : ℤ) :
    renewJob id (i + 1 : ℕ) newLease s.db = (.lost, s.db) := by
  obtain ⟨r, worker, leaseUntil, hr, he⟩ := hlater
  have hlen := (List.getElem?_eq_some_iff.1 he).1
  obtain ⟨st, hst⟩ := r.rowState_live
  rcases renewJob_represented hr hst (i + 1 : ℕ) newLease with ⟨⟨hseq, -⟩, -⟩ | ⟨-, hlost⟩
  · -- The row has folded at least up to the later claim.
    have hv : i + 1 = r.version := (Int.ofNat_inj.1 hseq).symm
    have hlag := r.lag
    have hjv : j = r.version := by omega
    have := r.behind _ (hjv ▸ he)
    cases this
  · exact hlost

/-- **Leases exclude.** After a claim wins, and until its outcome is recorded or a later claim
supersedes it, a claim call on the same job whose clock is not past the claim's current lease does
nothing. A renewal holds for the claim that is the last event of its job, is lost for one that a
later claim superseded, and never changes an event or a row's version or payload. -/
theorem leases_exclude (K : CqrsEs) :
    (∀ before fault call handle payload after fault' call',
      let s := (jobSystem K).run before
      let ops := before ++ .claim fault call :: after
      let s' := (jobSystem K).run ops
      call.mint ∉ s.claimIds →
      (claimJobAs fault call s.db).1 = .ok (.claimed handle payload) →
      (∀ q task, WrittenBySettlement K ops call.jobId q task →
        task.command.claimId ≠ call.mint) →
      (∀ (i : ℕ) c, handle.claimSeq ≤ i → ¬ ClaimedAt s'.db call.jobId i c) →
      call'.jobId = call.jobId →
      call'.nowMs ≤ currentLease K call.jobId handle.claimSeq (step K s (.claim fault call))
        (call.nowMs + call.leaseMs) after →
      ClaimedNothing fault' call' (claimJobAs fault' call' s'.db).1 ∧
        (claimJobAs fault' call' s'.db).2 = s'.db) ∧
    ∀ ops, let s := (jobSystem K).run ops
      (∀ id i c newLease, ClaimedAt s.db id i c → s.db.row (jobStream id) (i + 2) = none →
        (renewJob id (i + 1 : ℕ) newLease s.db).1 = .held) ∧
      (∀ id i c j c' newLease, ClaimedAt s.db id i c → ClaimedAt s.db id j c' → i < j →
        renewJob id (i + 1 : ℕ) newLease s.db = (.lost, s.db)) ∧
      ∀ id claimSeq newLease, (renewJob id claimSeq newLease s.db).2.events = s.db.events ∧
        ∀ id', ((renewJob id claimSeq newLease s.db).2.jobQueue.lookup id').map
            (fun row => (row.version, row.payload)) =
          (s.db.jobQueue.lookup id').map fun row => (row.version, row.payload) := by
  refine ⟨?_, fun ops => ?_⟩
  · intro before fault call handle payload after fault' call' s ops s' hfresh hwon houtcome hlater
      hid hnow
    obtain ⟨i, attempt, r, hhandle, hheld⟩ :=
      leaseHeld_of_won (jobSystem_inv K before) hfresh hwon (K := K)
    obtain ⟨r', hheld'⟩ := hheld.exec after (K := K)
    have hrun : s' = (jobSystem K).exec (step K s (.claim fault call)) after := by
      rw [show s' = _ from (jobSystem K).run_append before _]
      rfl
    rw [← hrun] at hheld'
    rw [hhandle] at hnow hlater
    refine hheld'.excludes (fun e he => ?_) hid hnow fault'
    obtain ⟨worker, leaseUntil, hclaim⟩ := hheld'.claim
    rcases event_writer K ops hheld'.rep he with
      ⟨h0, -⟩ | ⟨task, worker', lease', hwritten, -, -, hbefore⟩ | ⟨call'', -, ⟨lease', rfl⟩ | rfl⟩
    · omega
    · rw [Nat.add_sub_cancel, hclaim] at hbefore
      exact absurd (JobEvent.claimed.inj (Option.some.inj hbefore)).2.1.symm (houtcome _ _ hwritten)
    · exact absurd ⟨r', _, _, hheld'.rep, he⟩ (hlater (i + 1) call''.mint (by norm_cast))
    · rfl
  · exact ⟨fun id i c newLease hclaim hlast => renewJob_current hclaim hlast newLease,
      fun id i c j c' newLease _ hlater hij => renewJob_superseded hlater hij newLease,
      fun id claimSeq newLease => ⟨(renewJob_frame id claimSeq newLease _).1,
        (renewJob_frame id claimSeq newLease _).2.2⟩⟩

/-! ## A superseded claim's lease binds nobody

The lease of a claim that ran out and was taken over is overwritten. If the clocks of two workers
disagree, a third claim may come with a time before the first claim's lease and win. -/

/-- The first claim holds the job until 100. -/
def firstClaim : ClaimCall := ⟨"j", "w", 0, 100, 5, "c1"⟩

/-- At 200 a second claim takes the job over, and defers it to time 0. -/
def takeOver : List Op :=
  [.claim none ⟨"j", "w", 200, 1, 5, "c2"⟩,
    .settleLoad none "j" (.reschedule "c2" (.ofUInt32 0)), .settleCommit 0 none fun _ => 0,
    .reactLoad 0, .reactUpdate 0]

/-- Without "or a later claim supersedes it" the exclusion fails. -/
theorem superseded_lease_binds_nobody : ¬ ∀ before fault call handle payload after fault' call',
    let s := (jobSystem .atMultiples).run before
    let ops := before ++ .claim fault call :: after
    let s' := (jobSystem .atMultiples).run ops
    call.mint ∉ s.claimIds →
    (claimJobAs fault call s.db).1 = .ok (.claimed handle payload) →
    (∀ q task, WrittenBySettlement .atMultiples ops call.jobId q task →
      task.command.claimId ≠ call.mint) →
    call'.jobId = call.jobId →
    call'.nowMs ≤ currentLease .atMultiples call.jobId handle.claimSeq
      (step .atMultiples s (.claim fault call)) (call.nowMs + call.leaseMs) after →
    ClaimedNothing fault' call' (claimJobAs fault' call' s'.db).1 := by
  intro h
  have hnothing := h [.enqueue none ⟨"j", "k", .null, 0⟩] none firstClaim _ _ takeOver none
    ⟨"j", "w", 50, 1, 5, "c3"⟩ (by decide) rfl ?_ rfl (by decide)
  · rcases hnothing with ⟨hpolicy, -⟩ | ⟨error, hfault, -⟩ | hout | hout
    · exact absurd (by decide) hpolicy
    · cases hfault
    · cases hout
    · cases hout
  · intro q task hwritten hc
    obtain ⟨k, r, worker, lease, -, hr, hev, hclaim⟩ := hwritten.claimed_before
    have hlog : r.log = [.enqueued "k" .null (.ofUInt32 0), .claimed "w" "c1" (.ofUInt32 100),
        .claimed "w" "c2" (.ofUInt32 201), .rescheduled (.ofUInt32 0)] := by
      refine stored_injective.list_map ?_
      rw [← SeqLog.values_ofList 0 (r.log.map _), ← hr.stream]
      rfl
    rw [hlog, hc] at hclaim
    rw [hlog] at hev
    -- The claim `c1` stands at position 1 only, and the event after it is a claim.
    rcases k with _ | _ | _ | _ | k
    · cases hclaim
    · have := claimId?_command task.command
      rw [← Option.some.inj hev] at this
      cases this
    · exact absurd (JobEvent.claimed.inj (Option.some.inj hclaim)).2.1 (by decide)
    · cases hclaim
    · cases hclaim

end EventSorcery
