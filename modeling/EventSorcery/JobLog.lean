import EventSorcery.Job

/-!
# Histories of a job

What a job's stream looks like, from the one fact that it folds to a live job: it starts with
`Enqueued` and has no other, an outcome directly follows the claim it settles, and nothing follows
a terminal event. A `JobRecord` is a history together with how much of it the queue row has
folded and the row's lease; it is the abstract job the tables refine.
-/

namespace EventSorcery

/-- The fold of a job's events. -/
def jobFold (log : List JobEvent) : JobLifecycle := Lifecycle.replay jobEntity log

/-- A history that folds to a live job. -/
def LiveLog (log : List JobEvent) : Prop := ∃ st, jobFold log = .live st

/-- `Succeeded` and `Dead` end a job. -/
def JobEvent.isTerminal : JobEvent → Bool
  | succeeded | dead _ _ => true
  | _ => false

def JobEvent.isEnqueued : JobEvent → Bool
  | enqueued .. => true
  | _ => false

/-- The claim id of a `Claimed` event. -/
def JobEvent.claimId? : JobEvent → Option ClaimId
  | claimed _ c _ => some c
  | _ => none

/-- Events only a settlement of a held claim writes. -/
def JobEvent.isSettlementOnly : JobEvent → Bool
  | succeeded | retryScheduled .. | rescheduled _ => true
  | _ => false

theorem jobFold_concat (log : List JobEvent) (e : JobEvent) :
    jobFold (log ++ [e]) = Lifecycle.apply jobEntity (jobFold log) e :=
  Lifecycle.replay_concat _ _ _

theorem LiveLog.of_eq {log : List JobEvent} {st : JobState} (h : jobFold log = .live st) :
    LiveLog log := ⟨st, h⟩

theorem jobFold_enqueued (kind : JobKind) (payload : Json) (runAt : Instant) :
    jobFold [.enqueued kind payload runAt] = .live (.pending kind payload runAt 0 0) := rfl

theorem not_liveLog_nil : ¬ LiveLog [] := fun ⟨_, h⟩ => by cases h

theorem LiveLog.ne_nil {log : List JobEvent} (h : LiveLog log) : log ≠ [] :=
  fun hnil => not_liveLog_nil (hnil ▸ h)

theorem LiveLog.length_pos {log : List JobEvent} (h : LiveLog log) : 0 < log.length :=
  List.length_pos_iff.2 h.ne_nil

/-- A live history extends by an event exactly as its state evolves. -/
theorem liveLog_concat_iff {log : List JobEvent} {e : JobEvent} {st st' : JobState}
    (h : jobFold log = .live st) :
    jobFold (log ++ [e]) = .live st' ↔ st.evolve e = .ok (some st') := by
  rw [jobFold_concat, h]
  exact Lifecycle.apply_live_eq_live jobEntity

/-- Every nonempty prefix of a live history is live. -/
theorem LiveLog.of_append {log : List JobEvent} (rest : List JobEvent)
    (h : LiveLog (log ++ rest)) (hne : log ≠ []) : LiveLog log := by
  obtain ⟨st, hst⟩ := h
  have hok : (jobFold log).isFailed = false := by
    refine Lifecycle.not_isFailed_of_append jobEntity rest ?_
    change (jobFold (log ++ rest)).isFailed = false
    rw [hst]; rfl
  obtain rfl | ⟨init, e, rfl⟩ := log.eq_nil_or_concat'
  · exact absurd rfl hne
  cases hf : jobFold (init ++ [e]) with
  | uninitialized => exact absurd (jobFold_concat init e ▸ hf) (Lifecycle.apply_ne_uninitialized _ _ _)
  | live st' => exact ⟨st', hf⟩
  | failed error last => rw [hf] at hok; cases hok

theorem LiveLog.take {log : List JobEvent} (h : LiveLog log) {k : ℕ} (hk : 0 < k) :
    LiveLog (log.take k) := by
  refine LiveLog.of_append (log.drop k) (by rwa [List.take_append_drop]) ?_
  have := h.length_pos
  exact List.ne_nil_of_length_pos (by rw [List.length_take]; omega)

/-- The first event of a live history is the one that enqueues the job. -/
theorem LiveLog.originate {log : List JobEvent} (h : LiveLog log) :
    ∃ e st, log[0]? = some e ∧ JobState.originate e = some st ∧
      jobFold (log.take 1) = .live st := by
  obtain ⟨st, hst⟩ := h.take (k := 1) one_pos
  cases log with
  | nil => exact absurd h not_liveLog_nil
  | cons e log =>
      refine ⟨e, st, rfl, (Lifecycle.apply_uninitialized_eq_live jobEntity).1 hst, hst⟩

/-- Every later event of a live history is one the state before it evolves by. -/
theorem LiveLog.step {log : List JobEvent} (h : LiveLog log) {i : ℕ} (hi : 0 < i) {e : JobEvent}
    (he : log[i]? = some e) :
    ∃ st st', jobFold (log.take i) = .live st ∧ st.evolve e = .ok (some st') ∧
      jobFold (log.take (i + 1)) = .live st' := by
  obtain ⟨st, hst⟩ := h.take hi
  obtain ⟨st', hst'⟩ := h.take (k := i + 1) (by omega)
  have hsplit : log.take (i + 1) = log.take i ++ [e] := by
    rw [List.take_add_one, he]; rfl
  exact ⟨st, st', hst, (liveLog_concat_iff hst).1 (hsplit ▸ hst'), hst'⟩

/-- The first event enqueues the job. -/
theorem LiveLog.isEnqueued_zero {log : List JobEvent} (h : LiveLog log) :
    ∃ e, log[0]? = some e ∧ e.isEnqueued := by
  obtain ⟨e, st, he, ho, -⟩ := h.originate
  refine ⟨e, he, ?_⟩
  cases e <;> first | rfl | nomatch ho

/-- No later event enqueues it again. -/
theorem LiveLog.eq_zero_of_isEnqueued {log : List JobEvent} (h : LiveLog log) {i : ℕ}
    {e : JobEvent} (he : log[i]? = some e) (henq : e.isEnqueued) : i = 0 := by
  by_contra hi
  obtain ⟨st, st', -, hev, -⟩ := h.step (Nat.pos_of_ne_zero hi) he
  cases e with
  | enqueued kind payload runAt => cases st <;> cases hev
  | _ => cases henq

theorem evolve_of_terminal {st st' : JobState} {e : JobEvent} (he : e.isTerminal)
    (h : st.evolve e = .ok (some st')) (e' : JobEvent) : st'.evolve e' = .ok none := by
  cases e with
  | succeeded => cases st <;> cases h; rfl
  | dead reason error => cases st <;> cases h <;> rfl
  | _ => cases he

/-- Nothing follows a `Succeeded` or `Dead` event. -/
theorem LiveLog.eq_length_of_isTerminal {log : List JobEvent} (h : LiveLog log) {i : ℕ}
    {e : JobEvent} (he : log[i]? = some e) (ht : e.isTerminal) : i + 1 = log.length := by
  have hi : i < log.length := (List.getElem?_eq_some_iff.1 he).1
  rcases Nat.eq_zero_or_pos i with rfl | hpos
  · obtain ⟨e₀, he₀, henq⟩ := h.isEnqueued_zero
    obtain rfl : e₀ = e := Option.some.inj (he₀.symm.trans he)
    cases e₀ <;> simp [JobEvent.isTerminal, JobEvent.isEnqueued] at ht henq
  · by_contra hne
    obtain ⟨st, st', -, hev, hst'⟩ := h.step hpos he
    obtain ⟨t, t', ht', hev', -⟩ :=
      h.step (Nat.succ_pos i) (List.getElem?_eq_getElem (show i + 1 < log.length by omega))
    obtain rfl : st' = t := by rw [hst'] at ht'; exact Lifecycle.live.inj ht'
    rw [evolve_of_terminal ht hev] at hev'
    cases hev'

/-- A state is claimed only right after the claim that holds it. -/
theorem LiveLog.claimed_last {log : List JobEvent} (h : LiveLog log) {i : ℕ} {kind : JobKind}
    {payload : Json} {worker : WorkerId} {c : ClaimId} {runAt : Instant} {attempt claims : UInt32}
    (hi : i + 1 ≤ log.length)
    (hst : jobFold (log.take (i + 1)) = .live (.claimed kind payload worker c runAt attempt claims)) :
    ∃ lease, log[i]? = some (.claimed worker c lease) := by
  have he := List.getElem?_eq_getElem (show i < log.length by omega)
  rcases Nat.eq_zero_or_pos i with rfl | hpos
  · obtain ⟨e, st, -, ho, hst₀⟩ := h.originate
    rw [zero_add] at hst
    obtain rfl := Lifecycle.live.inj (hst₀.symm.trans hst)
    cases e <;> cases ho
  · obtain ⟨st, st', -, hev, hst'⟩ := h.step hpos he
    obtain rfl := Lifecycle.live.inj (hst'.symm.trans hst)
    rw [he]
    cases hlog : log[i] with
    | claimed w c' lease => rw [hlog] at hev; cases st <;> cases hev <;> exact ⟨_, rfl⟩
    | _ => rw [hlog] at hev; cases st <;> cases hev

theorem evolve_isSettlementOnly {st st' : JobState} {e : JobEvent} (he : e.isSettlementOnly)
    (h : st.evolve e = .ok (some st')) :
    ∃ kind payload worker c runAt attempt claims,
      st = .claimed kind payload worker c runAt attempt claims := by
  cases st with
  | claimed kind payload worker c runAt attempt claims => exact ⟨_, _, _, _, _, _, _, rfl⟩
  | _ => cases e <;> simp [JobEvent.isSettlementOnly, JobState.evolve] at he h

/-- A success, retry or defer directly follows a `Claimed` event. -/
theorem LiveLog.claimed_before {log : List JobEvent} (h : LiveLog log) {i : ℕ} {e : JobEvent}
    (he : log[i + 1]? = some e) (hs : e.isSettlementOnly) :
    ∃ worker c lease, log[i]? = some (.claimed worker c lease) := by
  obtain ⟨st, st', hst, hev, -⟩ := h.step (Nat.succ_pos i) he
  obtain ⟨kind, payload, worker, c, runAt, attempt, claims, rfl⟩ := evolve_isSettlementOnly hs hev
  have := (List.getElem?_eq_some_iff.1 he).1
  obtain ⟨lease, hl⟩ := h.claimed_last (by omega) hst
  exact ⟨worker, c, lease, hl⟩

/-! ## The abstract job -/

/-- A job's history, how many of its events the queue row has folded, and the row's lease. The row
is at most one event behind, and the event it has not folded is never a claim: claims write their
row together with their event. -/
@[ext]
structure JobRecord where
  log : List JobEvent
  version : ℕ
  lease : Option ℤ
  live : LiveLog log
  version_pos : 0 < version
  version_le : version ≤ log.length
  lag : log.length ≤ version + 1
  behind : ∀ e, log[version]? = some e → e.claimId? = none

namespace JobRecord

/-- The state the queue row holds. -/
def rowState (r : JobRecord) : JobLifecycle := jobFold (r.log.take r.version)

theorem rowState_live (r : JobRecord) : ∃ st, r.rowState = .live st := r.live.take r.version_pos

/-- A row that is up to date holds the whole fold. -/
theorem rowState_eq {r : JobRecord} (h : r.version = r.log.length) : r.rowState = jobFold r.log := by
  rw [rowState, h, List.take_length]

/-- While a claim holds the job, its row is up to date. -/
theorem version_eq_of_claimed {r : JobRecord} {kind : JobKind} {payload : Json} {worker : WorkerId}
    {c : ClaimId} {runAt : Instant} {attempt claims : UInt32}
    (h : jobFold r.log = .live (.claimed kind payload worker c runAt attempt claims)) :
    r.version = r.log.length := by
  have hpos := r.live.length_pos
  obtain ⟨lease, hl⟩ := r.live.claimed_last (i := r.log.length - 1) (by omega)
    (by rwa [show r.log.length - 1 + 1 = r.log.length by omega, List.take_length])
  have hle := r.version_le
  have hlag := r.lag
  by_contra hne
  rw [show r.log.length - 1 = r.version by omega] at hl
  cases r.behind _ hl

/-- A new job. -/
@[simps]
def enqueue (kind : JobKind) (payload : Json) (runAt : Instant) : JobRecord where
  log := [.enqueued kind payload runAt]
  version := 1
  lease := none
  live := LiveLog.of_eq (jobFold_enqueued kind payload runAt)
  version_pos := one_pos
  version_le := le_rfl
  lag := by simp
  behind e h := by simp at h

/-- Append an event together with its row, as claims do. -/
@[simps]
def appendWithRow (r : JobRecord) (e : JobEvent) (lease : Option ℤ)
    (hv : r.version = r.log.length) (live : LiveLog (r.log ++ [e])) : JobRecord where
  log := r.log ++ [e]
  version := r.version + 1
  lease := lease
  live := live
  version_pos := Nat.succ_pos _
  version_le := by simp [hv]
  lag := by simp [hv]
  behind e' h := by simp [hv] at h

/-- Append an event without its row, as settlements do. -/
@[simps]
def appendEvent (r : JobRecord) (e : JobEvent) (hv : r.version = r.log.length)
    (live : LiveLog (r.log ++ [e])) (he : e.claimId? = none) : JobRecord where
  log := r.log ++ [e]
  version := r.version
  lease := r.lease
  live := live
  version_pos := r.version_pos
  version_le := by simp [hv]
  lag := by simp [hv]
  behind e' h := by
    rw [hv, List.getElem?_concat_length] at h
    exact Option.some.inj h ▸ he

/-- Write the lease column. -/
@[simps]
def withLease (r : JobRecord) (lease : Option ℤ) : JobRecord := { r with lease := lease }

/-- Fold the whole history into the row; the lease column stays. -/
@[simps]
def project (r : JobRecord) : JobRecord where
  log := r.log
  version := r.log.length
  lease := r.lease
  live := r.live
  version_pos := r.live.length_pos
  version_le := le_rfl
  lag := Nat.le_succ _
  behind e h := by simp at h

end JobRecord

end EventSorcery
