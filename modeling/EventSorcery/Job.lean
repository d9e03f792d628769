import EventSorcery.Entity
import EventSorcery.Storage

/-!
# The job aggregate

A durable job is an event-sourced entity whose stream has the aggregate type `job`. This module has
its events and states with their JSON forms, the fold, the commands that settle a claim, and the
decision a claim makes from the job's queue row (`planClaim`).
-/

namespace EventSorcery

abbrev JobKind := String

abbrev WorkerId := String

/-- Identity of one claim attempt. -/
abbrev ClaimId := String

/-! ## Instants -/

/-- The milliseconds since the epoch that a UTC date-time can represent. -/
def InstantRange (ms : ℤ) : Prop := -8334601228800000 ≤ ms ∧ ms ≤ 8210266876799999

instance (ms : ℤ) : Decidable (InstantRange ms) :=
  inferInstanceAs (Decidable (_ ≤ _ ∧ _ ≤ _))

/-- A representable instant, in milliseconds. -/
def Instant := { ms : ℤ // InstantRange ms }
  deriving DecidableEq

theorem instantRange_of_lt {n : ℕ} (h : n < 2 ^ 32) : InstantRange n := by
  unfold InstantRange
  omega

/-- Errors building enqueue payloads. -/
inductive JobStoreError where
  | encode
  | delayOverflow
  | invalidInstant (ms : ℤ)
  deriving DecidableEq, Repr

def instantFromMillis (ms : ℤ) : Except JobStoreError Instant :=
  if h : InstantRange ms then .ok ⟨ms, h⟩ else .error (.invalidInstant ms)

namespace Instant

/-- A time within seven weeks after the epoch. -/
def ofUInt32 (ms : UInt32) : Instant :=
  ⟨ms.toNat, instantRange_of_lt ms.toNat_lt⟩

def toJson (t : Instant) : Json := .int t.1

def ofJson (j : Json) : Option Instant :=
  j.asInt?.bind fun ms => (instantFromMillis ms).toOption

@[simp] theorem ofJson_toJson (t : Instant) : ofJson t.toJson = some t := by
  simp only [ofJson, toJson, Json.asInt?_int, Option.bind_some, instantFromMillis, dif_pos t.2]
  rfl

end Instant

/-! ## Events, states and commands -/

/-- Why a job was dead-lettered. -/
inductive DeadReason where
  | retriesExhausted
  | rejected
  | undecodable
  | abandoned
  deriving DecidableEq, Repr

/-- A transition in a durable job's life. -/
inductive JobEvent where
  | enqueued (kind : JobKind) (payload : Json) (runAt : Instant)
  | claimed (worker : WorkerId) (claimId : ClaimId) (leaseUntil : Instant)
  | succeeded
  | retryScheduled (runAt : Instant) (attempt : UInt32) (error : String)
  | rescheduled (runAt : Instant)
  | dead (reason : DeadReason) (error : String)

/-- The folded state of a job. The live lease is not part of it. -/
inductive JobState where
  | pending (kind : JobKind) (payload : Json) (runAt : Instant) (attempt claims : UInt32)
  | claimed (kind : JobKind) (payload : Json) (worker : WorkerId) (claimId : ClaimId)
      (runAt : Instant) (attempt claims : UInt32)
  | done
  | dead (reason : DeadReason)

/-- The settlement of a claim. -/
inductive JobCommand where
  | succeed (claimId : ClaimId)
  | retrySchedule (claimId : ClaimId) (runAt : Instant) (attempt : UInt32) (error : String)
  | reschedule (claimId : ClaimId) (runAt : Instant)
  | kill (claimId : ClaimId) (reason : DeadReason) (error : String)

/-- The one domain error of a job command: the claim does not own the job. -/
inductive JobError where
  | fenced
  deriving DecidableEq, Repr

def JobCommand.claimId : JobCommand → ClaimId
  | succeed c | retrySchedule c _ _ _ | reschedule c _ | kill c _ _ => c

/-- The event a command records when its claim owns the job. -/
def JobCommand.event : JobCommand → JobEvent
  | succeed _ => .succeeded
  | retrySchedule _ runAt attempt error => .retryScheduled runAt attempt error
  | reschedule _ runAt => .rescheduled runAt
  | kill _ reason error => .dead reason error

def JobEvent.typeName : JobEvent → String
  | enqueued .. => "JobEnqueued"
  | claimed .. => "JobClaimed"
  | succeeded => "JobSucceeded"
  | retryScheduled .. => "JobRetryScheduled"
  | rescheduled .. => "JobRescheduled"
  | dead .. => "JobDead"

/-! ## JSON forms -/

namespace DeadReason

def toJson : DeadReason → Json
  | retriesExhausted => .str "RetriesExhausted"
  | rejected => .str "Rejected"
  | undecodable => .str "Undecodable"
  | abandoned => .str "Abandoned"

def ofJson : Json → Option DeadReason
  | .str s =>
      if s = "RetriesExhausted" then some retriesExhausted
      else if s = "Rejected" then some rejected
      else if s = "Undecodable" then some undecodable
      else if s = "Abandoned" then some abandoned
      else none
  | _ => none

@[simp] theorem ofJson_toJson (r : DeadReason) : ofJson r.toJson = some r := by
  cases r <;> simp [toJson, ofJson]

end DeadReason

namespace JobEvent

def toJson : JobEvent → Json
  | enqueued kind payload runAt =>
      .tagged "Enqueued" (.obj [("kind", .str kind), ("payload", payload), ("run_at", runAt.toJson)])
  | claimed worker claimId leaseUntil =>
      .tagged "Claimed" (.obj [("worker", .str worker), ("claim_id", .str claimId),
        ("lease_until", leaseUntil.toJson)])
  | succeeded => .str "Succeeded"
  | retryScheduled runAt attempt error =>
      .tagged "RetryScheduled" (.obj [("run_at", runAt.toJson), ("attempt", .int attempt.toNat),
        ("error", .str error)])
  | rescheduled runAt => .tagged "Rescheduled" (.obj [("run_at", runAt.toJson)])
  | dead reason error => .tagged "Dead" (.obj [("reason", reason.toJson), ("error", .str error)])

def ofJson : Json → Option JobEvent
  | .str s => if s = "Succeeded" then some succeeded else none
  | .obj [(tag, c)] =>
      if tag = "Enqueued" then do
        some (enqueued (← (c.field? "kind").bind Json.asStr?) (← c.field? "payload")
          (← (c.field? "run_at").bind Instant.ofJson))
      else if tag = "Claimed" then do
        some (claimed (← (c.field? "worker").bind Json.asStr?)
          (← (c.field? "claim_id").bind Json.asStr?)
          (← (c.field? "lease_until").bind Instant.ofJson))
      else if tag = "RetryScheduled" then do
        some (retryScheduled (← (c.field? "run_at").bind Instant.ofJson)
          (← (c.field? "attempt").bind Json.asUInt32?) (← (c.field? "error").bind Json.asStr?))
      else if tag = "Rescheduled" then do
        some (rescheduled (← (c.field? "run_at").bind Instant.ofJson))
      else if tag = "Dead" then do
        some (dead (← (c.field? "reason").bind DeadReason.ofJson)
          (← (c.field? "error").bind Json.asStr?))
      else none
  | _ => none

@[simp] theorem ofJson_toJson (e : JobEvent) : ofJson e.toJson = some e := by
  cases e <;> simp [toJson, ofJson, Json.tagged]

def codec : Codec JobEvent := ⟨toJson, ofJson, ofJson_toJson⟩

end JobEvent

namespace JobState

def toJson : JobState → Json
  | pending kind payload runAt attempt claims =>
      .tagged "Pending" (.obj [("kind", .str kind), ("payload", payload), ("run_at", runAt.toJson),
        ("attempt", .int attempt.toNat), ("claims", .int claims.toNat)])
  | claimed kind payload worker claimId runAt attempt claims =>
      .tagged "Claimed" (.obj [("kind", .str kind), ("payload", payload), ("worker", .str worker),
        ("claim_id", .str claimId), ("run_at", runAt.toJson), ("attempt", .int attempt.toNat),
        ("claims", .int claims.toNat)])
  | done => .str "Done"
  | dead reason => .tagged "Dead" (.obj [("reason", reason.toJson)])

def ofJson : Json → Option JobState
  | .str s => if s = "Done" then some done else none
  | .obj [(tag, c)] =>
      if tag = "Pending" then do
        some (pending (← (c.field? "kind").bind Json.asStr?) (← c.field? "payload")
          (← (c.field? "run_at").bind Instant.ofJson) (← (c.field? "attempt").bind Json.asUInt32?)
          (← (c.field? "claims").bind Json.asUInt32?))
      else if tag = "Claimed" then do
        some (claimed (← (c.field? "kind").bind Json.asStr?) (← c.field? "payload")
          (← (c.field? "worker").bind Json.asStr?) (← (c.field? "claim_id").bind Json.asStr?)
          (← (c.field? "run_at").bind Instant.ofJson) (← (c.field? "attempt").bind Json.asUInt32?)
          (← (c.field? "claims").bind Json.asUInt32?))
      else if tag = "Dead" then do some (dead (← (c.field? "reason").bind DeadReason.ofJson))
      else none
  | _ => none

@[simp] theorem ofJson_toJson (s : JobState) : ofJson s.toJson = some s := by
  cases s <;> simp [toJson, ofJson, Json.tagged]

end JobState

/-! ## The fold and the handlers -/

namespace JobState

def originate : JobEvent → Option JobState
  | .enqueued kind payload runAt => some (pending kind payload runAt 0 0)
  | _ => none

/-- A claim or re-claim counts the claim and keeps the attempt; a defer resets the claim count; any
event a state does not expect is refused. -/
def evolve : JobState → JobEvent → Except JobError (Option JobState)
  | pending kind payload runAt attempt claims, .claimed worker claimId _
  | claimed kind payload _ _ runAt attempt claims, .claimed worker claimId _ =>
      .ok (some (claimed kind payload worker claimId runAt attempt (claims + 1)))
  | claimed .., .succeeded => .ok (some done)
  | claimed kind payload _ _ _ _ claims, .retryScheduled runAt attempt _ =>
      .ok (some (pending kind payload runAt attempt claims))
  | claimed kind payload _ _ _ attempt _, .rescheduled runAt =>
      .ok (some (pending kind payload runAt attempt 0))
  | pending .., .dead reason _ | claimed .., .dead reason _ => .ok (some (dead reason))
  | _, _ => .ok none

/-- A settlement is refused unless its claim holds the job; otherwise it records one event. -/
def transition : JobState → JobCommand → Except JobError (Effect JobEvent)
  | claimed _ _ _ held _ _ _, command =>
      if held = command.claimId then .ok (.events [command.event]) else .error .fenced
  | _, _ => .error .fenced

end JobState

def jobAggregateType : String := "job"

def jobEventVersion : String := "1.0"

/-- The job entity: no handler draws a job id, and settling a job that does not exist is a no-op. -/
def jobEntity : EventSourced JobState JobEvent JobCommand JobError where
  aggregateType := jobAggregateType
  snapshotSize := 10
  compactionPolicy := .retain
  originate := JobState.originate
  evolve := JobState.evolve
  initializeWith _ _ := .ok (.events [])
  transition state command _ := state.transition command
  eventType := JobEvent.typeName
  eventVersion _ := jobEventVersion
  eventCodec := JobEvent.codec
  encodeEntity := JobState.toJson
  decodeEntity := JobState.ofJson
  decodeEntity_encodeEntity e e' h := by simpa [eq_comm] using h
  encodeError _ := .str "Fenced"
  decodeError
    | .str s => if s = "Fenced" then some .fenced else none
    | _ => none

/-- The stored form of a job. -/
abbrev JobLifecycle := Lifecycle JobState JobEvent JobError

/-- The stream of a job. -/
def jobStream (id : JobId) : StreamIdentity := ⟨jobAggregateType, id⟩

/-- The row a job event is stored as. -/
def JobEvent.stored (e : JobEvent) : StoredEvent := ⟨e.typeName, jobEventVersion, e.toJson, .obj []⟩

/-- Serialize an event for a job's stream. -/
def JobEvent.serialized (e : JobEvent) (id : JobId) (sequence : ℕ) : SerializedEvent :=
  e.stored.serialized (jobStream id) sequence

@[simp] theorem JobEvent.sequence_serialized (e : JobEvent) (id : JobId) (q : ℕ) :
    (e.serialized id q).sequence = q := rfl

/-- The stored form of a live job. -/
def liveJson (s : JobState) : Json := Lifecycle.toJson jobEntity (.live s)

@[simp] theorem ofJson_liveJson (s : JobState) :
    Lifecycle.ofJson jobEntity (liveJson s) = some (.live s) := by
  simp [liveJson, jobEntity]

/-! ## Enqueueing -/

/-- A fully resolved enqueue. -/
structure EnqueueRequest where
  jobId : JobId
  kind : JobKind
  payload : Json
  runAtMs : ℤ

/-- The `Enqueued` event of a request, at sequence 1 of the job's stream. -/
def enqueuedEvent (request : EnqueueRequest) : Except JobStoreError SerializedEvent := do
  let runAt ← instantFromMillis request.runAtMs
  .ok ((JobEvent.enqueued request.kind request.payload runAt).serialized request.jobId 1)

/-- The payload of the queue row a request seeds. -/
def pendingSeedPayload (request : EnqueueRequest) : Except JobStoreError Json := do
  let runAt ← instantFromMillis request.runAtMs
  .ok (liveJson (.pending request.kind request.payload runAt 0 0))

/-! ## Claiming -/

/-- The queue row a claim re-reads inside its transaction. -/
structure ClaimRead where
  version : ℤ
  payload : Json
  leaseUntilMs : Option ℤ

/-- What a claim decides from the row. -/
inductive ClaimDecision (Won : Type) where
  | claim (event : SerializedEvent) (payload : Json) (leaseUntilMs : ℤ) (won : Won)
  | abandon (event : SerializedEvent) (payload : Json)
  | skip

/-- What a won claim hands to its worker. -/
structure WonClaim where
  claimSeq : ℤ
  claimId : ClaimId
  attempt : UInt32
  args : Json

/-- Signed 64-bit wrap-around. -/
def wrapI64 (x : ℤ) : ℤ := (x + 2 ^ 63) % 2 ^ 64 - 2 ^ 63

/-- Signed 64-bit addition that fails on overflow. -/
def checkedAddI64 (a b : ℤ) : Option ℤ :=
  if -2 ^ 63 ≤ a + b ∧ a + b ≤ 2 ^ 63 - 1 then some (a + b) else none

/-- Whether a row may be claimed: a pending job by its due time, a claimed one by the lease
column, where an empty column means reclaimable. -/
def runnable (state : JobState) (leaseUntilMs : Option ℤ) (nowMs : ℤ) : Bool :=
  match state with
  | .pending _ _ runAt _ _ => runAt.1 ≤ nowMs
  | .claimed .. =>
      match leaseUntilMs with
      | none => true
      | some lease => lease < nowMs
  | .done | .dead _ => false

/-- Dead-letter a job whose claim budget is spent. -/
def planAbandon (jobId : JobId) (claimSeq : ℕ) : ClaimDecision WonClaim :=
  .abandon ((JobEvent.dead .abandoned "claim budget exhausted").serialized jobId claimSeq)
    (liveJson (.dead .abandoned))

/-- What a state that is still open carries. -/
structure JobFields where
  kind : JobKind
  payload : Json
  runAt : Instant
  attempt : UInt32
  claims : UInt32

def JobState.fields? : JobState → Option JobFields
  | .pending kind payload runAt attempt claims
  | .claimed kind payload _ _ runAt attempt claims => some ⟨kind, payload, runAt, attempt, claims⟩
  | .done | .dead _ => none

/-- The claim of a runnable job. -/
def planClaimRunnable (jobId : JobId) (version : ℤ) (job : JobFields) (worker : WorkerId)
    (nowMs leaseMs : ℤ) (maxClaims : UInt32) (mint : ClaimId) : ClaimDecision WonClaim :=
  let claimSeq := wrapI64 (version + 1)
  if claimSeq < 0 then .skip
  else if maxClaims ≤ job.claims then planAbandon jobId claimSeq.toNat
  else
    match checkedAddI64 nowMs leaseMs with
    | none => .skip
    | some leaseUntilMs =>
        match instantFromMillis leaseUntilMs with
        | .error _ => .skip
        | .ok leaseUntil =>
            .claim ((JobEvent.claimed worker mint leaseUntil).serialized jobId claimSeq.toNat)
              (liveJson (.claimed job.kind job.payload worker mint job.runAt job.attempt
                (job.claims + 1)))
              leaseUntilMs ⟨claimSeq, mint, job.attempt, job.payload⟩

/-- What a claim call does with the row it read; `mint` is the fresh claim id it would use. -/
def planClaim (jobId : JobId) (read : Option ClaimRead) (worker : WorkerId) (nowMs leaseMs : ℤ)
    (maxClaims : UInt32) (mint : ClaimId) : ClaimDecision WonClaim :=
  match read with
  | none => .skip
  | some read =>
      match Lifecycle.ofJson jobEntity read.payload with
      | some (.live state) =>
          if runnable state read.leaseUntilMs nowMs then
            match state.fields? with
            | some job =>
                planClaimRunnable jobId read.version job worker nowMs leaseMs maxClaims mint
            | none => .skip
          else .skip
      | _ => .skip

/-- A claim call: who claims which job, when, for how long, under which claim budget, and the
fresh claim id it would use. -/
structure ClaimCall where
  jobId : JobId
  worker : WorkerId
  nowMs : ℤ
  leaseMs : ℤ
  maxClaims : UInt32
  mint : ClaimId
  deriving DecidableEq, Repr

def ClaimCall.plan (call : ClaimCall) (read : Option ClaimRead) : ClaimDecision WonClaim :=
  planClaim call.jobId read call.worker call.nowMs call.leaseMs call.maxClaims call.mint

/-- The event a won claim records. -/
def ClaimCall.event (call : ClaimCall) (leaseUntil : Instant) : JobEvent :=
  .claimed call.worker call.mint leaseUntil

/-- The event an abandoning claim records. -/
def abandonedEvent : JobEvent := .dead .abandoned "claim budget exhausted"

theorem wrapI64_of_le {x : ℤ} (h₀ : 0 ≤ x) (h : x ≤ i64Max) : wrapI64 x = x := by
  have : (i64Max : ℤ) = 2 ^ 63 - 1 := rfl
  unfold wrapI64
  omega

theorem wrapI64_succ_i64Max : wrapI64 (i64Max + 1) < 0 := by decide

/-- The lease instant of a claim, when there is one, is `now + lease`. -/
theorem checkedAddI64_eq_some {a b c : ℤ} (h : checkedAddI64 a b = some c) : c = a + b := by
  unfold checkedAddI64 at h
  split_ifs at h
  exact (Option.some.inj h).symm

theorem instantFromMillis_eq_ok {ms : ℤ} {t : Instant} (h : instantFromMillis ms = .ok t) :
    t.1 = ms := by
  unfold instantFromMillis at h
  split_ifs at h
  exact (congrArg Subtype.val (Except.ok.inj h)).symm

/-- What a claim call decides from the row of a live job with a version in range. -/
theorem ClaimCall.plan_live (call : ClaimCall) (st : JobState) (lease : Option ℤ) {version : ℕ}
    (hv : version ≤ i64Max) :
    call.plan (some ⟨version, liveJson st, lease⟩) = .skip ∨
      version + 1 ≤ i64Max ∧ ∃ job, st.fields? = some job ∧ runnable st lease call.nowMs ∧
        (call.maxClaims ≤ job.claims ∧
            call.plan (some ⟨version, liveJson st, lease⟩) = .abandon
              (abandonedEvent.serialized call.jobId (version + 1)) (liveJson (.dead .abandoned)) ∨
          job.claims < call.maxClaims ∧ ∃ leaseUntil : Instant,
            leaseUntil.1 = call.nowMs + call.leaseMs ∧
            call.plan (some ⟨version, liveJson st, lease⟩) = .claim
              ((call.event leaseUntil).serialized call.jobId (version + 1))
              (liveJson (.claimed job.kind job.payload call.worker call.mint job.runAt job.attempt
                (job.claims + 1)))
              leaseUntil.1 ⟨(version + 1 : ℕ), call.mint, job.attempt, job.payload⟩) := by
  unfold ClaimCall.plan planClaim
  simp only [ofJson_liveJson]
  by_cases hrun : runnable st lease call.nowMs
  · rw [if_pos hrun]
    cases hjob : st.fields? with
    | none => exact .inl rfl
    | some job =>
        simp only
        unfold planClaimRunnable
        rcases Nat.lt_or_ge version i64Max with hlt | hge
        · have hseq : wrapI64 ((version : ℤ) + 1) = (version + 1 : ℕ) := by
            rw [wrapI64_of_le (by omega) (by omega)]; norm_cast
          simp only [hseq]
          rw [if_neg (by omega), Int.toNat_natCast]
          by_cases hclaims : call.maxClaims ≤ job.claims
          · rw [if_pos hclaims]
            exact .inr ⟨hlt, job, rfl, hrun, .inl ⟨hclaims, rfl⟩⟩
          · rw [if_neg hclaims]
            cases hadd : checkedAddI64 call.nowMs call.leaseMs with
            | none => exact .inl rfl
            | some leaseUntilMs =>
                cases hinst : instantFromMillis leaseUntilMs with
                | error e => exact .inl (by simp [hinst])
                | ok leaseUntil =>
                    have hms := instantFromMillis_eq_ok hinst
                    refine .inr ⟨hlt, job, rfl, hrun, .inr ⟨UInt32.not_le.1 hclaims, leaseUntil,
                      hms.trans (checkedAddI64_eq_some hadd), ?_⟩⟩
                    simp [hinst, hms, ClaimCall.event]
        · obtain rfl : version = i64Max := le_antisymm hv hge
          exact .inl (if_pos wrapI64_succ_i64Max)
  · exact .inl (if_neg hrun)

end EventSorcery
