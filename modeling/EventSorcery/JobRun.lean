import EventSorcery.AbiSafety
import EventSorcery.ClaimRegistry
import EventSorcery.JobCounters
import EventSorcery.Lib.Cbor

/-!
# One run of a Haskell worker

`runJobOnceWith` executes a job it has claimed and settles the claim by one call of the C ABI, which
looks the claim up under its token. The run is given what the claim call answered, what the execution
did, and the stores that its own calls meet: other calls may have changed them in between. While the
claim holds the job, the run appends the outcome that its execution calls for exactly when the ABI
still knows the token and takes the text of the failure: `run_appends_outcome_iff`.
-/

namespace EventSorcery

/-- The database and the registry of tokens, as the calls on a claim see them. -/
structure ClaimStore where
  db : Db
  registry : ClaimRegistry

namespace JobRun

/-! ## Settlement calls -/

/-- The settlement calls of the bindings. -/
inductive SettlementCall where
  | acknowledge
  | retry (runAtMs : ℤ) (error : String)
  | defer (runAtMs : ℤ)
  | deadLetter (reason : DeadReason) (error : String)

def deadReasonTag : DeadReason → UInt8
  | .retriesExhausted => 0
  | .rejected => 1
  | .undecodable => 2
  | .abandoned => 3

namespace SettlementCall

/-- What the ABI checks of the request before it looks at the token. -/
def validate : SettlementCall → Except AbiError Unit
  | .acknowledge | .defer _ => requireVersion 1
  | .retry _ error => do
      requireVersion 1
      requireErrorTextLimit error.utf8ByteSize
  | .deadLetter reason error => do
      requireVersion 1
      requireErrorTextLimit error.utf8ByteSize
      (deadReason (deadReasonTag reason)).map fun _ => ()

def command (handle : JobClaimHandle) : SettlementCall → Except JobRuntimeError JobCommand
  | .acknowledge => acknowledgeJob handle
  | .retry runAtMs error => retryJob handle runAtMs error
  | .defer runAtMs => deferJob handle runAtMs
  | .deadLetter reason error => deadLetterJob handle reason error

/-- The instant that the call names. -/
def instant? : SettlementCall → Option ℤ
  | .retry runAtMs _ | .defer runAtMs => some runAtMs
  | .acknowledge | .deadLetter _ _ => none

def text? : SettlementCall → Option String
  | .retry _ error | .deadLetter _ error => some error
  | .acknowledge | .defer _ => none

end SettlementCall

section Calls

variable (K : CqrsEs) (env : SettleEnv) (token : ClaimToken) (s : ClaimStore)

/-- The token is taken out of circulation while the claim is settled, and is available again if that
fails. -/
def settleClaim (call : SettlementCall) : Except AbiError JobSettlementResult × ClaimStore :=
  match call.validate with
  | .error error => (.error error, s)
  | .ok () =>
      match s.registry.beginSettlement token with
      | .error error => (.error error, s)
      | .ok (handle, registry) =>
          let settled := settleClaimWith K env handle (.ok ()) (call.command handle) s.db
          match settled.1 with
          | .error error => (.error error, ⟨settled.2, registry.dropOperation .settling token⟩)
          | .ok result => (.ok result, ⟨settled.2, registry.retireClaim token⟩)

def renewClaim (newLeaseUntilMs : ℤ) : Except AbiError LeaseRenewal × ClaimStore :=
  match s.registry.beginRenewal token with
  | .error error => (.error error, s)
  | .ok (handle, registry) =>
      let renewed := renewJob handle.jobId handle.claimSeq newLeaseUntilMs s.db
      match renewed.1 with
      | .lost => (.ok .lost, ⟨renewed.2, registry.retireClaim token⟩)
      | .held =>
          match registry.completeRenewal token newLeaseUntilMs with
          | .error error => (.error error, ⟨renewed.2, registry.dropOperation .renewing token⟩)
          | .ok registry => (.ok .held, ⟨renewed.2, registry⟩)

end Calls

/-! ## The worker -/

/-- What became of a verdict that was offered to the origin. -/
inductive VerdictDelivery where
  | accepted
  | deferred (runAtMs : ℤ)

inductive JobOutcome (Output : Type) where
  | done (output : Output)
  | deferred (runAtMs : ℤ)

/-- How a verdict is offered before it is settled. What the strategy does before a job is given up has
no answer. -/
structure SettlementStrategy (Job Output Error : Type) where
  beforeSuccess : JobId → Job → UInt32 → Output → VerdictDelivery
  beforeRejection : JobId → Job → UInt32 → Error → VerdictDelivery

structure JobWorker (Job Error : Type) where
  attemptLimit : UInt32
  attemptLimit_pos : 0 < attemptLimit
  retryAt : UInt32 → ℤ
  decodeJob : List UInt8 → Except String Job
  renderJobError : Job → Error → String

inductive JobRunResult (Output Error : Type) where
  | succeeded (output : Output)
  | deferredUntil (runAtMs : ℤ)
  | retryScheduled (attempt : UInt32) (runAtMs : ℤ) (failure : Error)
  | rejected (failure : Error)
  | retriesExhausted (attempt : UInt32) (failure : Error)
  | abandoned
  | contended
  | skipped
  | fenced

inductive JobRunError where
  | engineFailed (error : AbiError)
  | decodeFailed (jobId : JobId) (cause : String)

/-- What a job's execution did: its result, and the stores in which its lease was to be renewed, each
with the lease asked for. A worker without a renewal schedule renews nothing. -/
structure Execution (Output Error : Type) where
  result : Except (JobFailure Error) (JobOutcome Output)
  renewals : List (ClaimStore × ℤ)

inductive RenewalTerminal where
  | lost
  | failed (error : AbiError)

/-- Renew until a renewal is not granted. -/
def renewUntilTerminal (token : ClaimToken) : List (ClaimStore × ℤ) → Option RenewalTerminal
  | [] => none
  | (s, newLease) :: rest =>
      match (renewClaim token s newLease).1 with
      | .error error => some (.failed error)
      | .ok .lost => some .lost
      | .ok .held => renewUntilTerminal token rest

section Run

variable {Job Output Error : Type} (strategy : SettlementStrategy Job Output Error)
  (worker : JobWorker Job Error)

def retryBudgetExhausted (limit attempt : UInt32) : Bool := limit ≤ attempt

def persistSuccess (output : Output) :
    VerdictDelivery → SettlementCall × JobRunResult Output Error
  | .accepted => (.acknowledge, .succeeded output)
  | .deferred runAt => (.defer runAt, .deferredUntil runAt)

def persistRejection (job : Job) (failure : Error) :
    VerdictDelivery → SettlementCall × JobRunResult Output Error
  | .accepted => (.deadLetter .rejected (worker.renderJobError job failure), .rejected failure)
  | .deferred runAt => (.defer runAt, .deferredUntil runAt)

def persistTransientFailure (job : Job) (attempt : UInt32) (failure : Error) :
    SettlementCall × JobRunResult Output Error :=
  let next := nextAttempt attempt
  let failureText := worker.renderJobError job failure
  if retryBudgetExhausted worker.attemptLimit next then
    (.deadLetter .retriesExhausted failureText, .retriesExhausted next failure)
  else
    let runAt := worker.retryAt next
    (.retry runAt failureText, .retryScheduled next runAt failure)

/-- How an execution is settled, and what the run answers if the settlement is applied. -/
def persistExecution (jobId : JobId) (job : Job) (attempt : UInt32) :
    Except (JobFailure Error) (JobOutcome Output) → SettlementCall × JobRunResult Output Error
  | .ok (.done output) =>
      persistSuccess output (strategy.beforeSuccess jobId job (nextAttempt attempt) output)
  | .ok (.deferred runAt) => (.defer runAt, .deferredUntil runAt)
  | .error (.terminal failure) =>
      persistRejection worker job failure
        (strategy.beforeRejection jobId job (nextAttempt attempt) failure)
  | .error (.transient failure) => persistTransientFailure worker job attempt failure

def settlementResult (result : JobRunResult Output Error) :
    Except AbiError JobSettlementResult → Except JobRunError (JobRunResult Output Error)
  | .error error => .error (.engineFailed error)
  | .ok .applied => .ok result
  | .ok .fenced => .ok .fenced

def undecodableResult (jobId : JobId) (cause : String) :
    Except AbiError JobSettlementResult → Except JobRunError (JobRunResult Output Error)
  | .error error => .error (.engineFailed error)
  | .ok .applied => .error (.decodeFailed jobId cause)
  | .ok .fenced => .ok .fenced

/-- One run: `claimed` is the answer of the claim call, `execute` what the execution of a job does, and
`s` the store that the settlement meets. -/
def runJobOnceWith (K : CqrsEs) (env : SettleEnv) (token : ClaimToken)
    (claimed : Except AbiError ClaimAnswer) (execute : Job → Execution Output Error)
    (s : ClaimStore) : Except JobRunError (JobRunResult Output Error) × ClaimStore :=
  match claimed with
  | .error error => (.error (.engineFailed error), s)
  | .ok .abandoned => (.ok .abandoned, s)
  | .ok .contended => (.ok .contended, s)
  | .ok .skipped => (.ok .skipped, s)
  | .ok (.claimed handle payload) =>
      match worker.decodeJob payload with
      | .error cause =>
          let settled := settleClaim K env token s (.deadLetter .undecodable cause)
          (undecodableResult handle.jobId cause settled.1, settled.2)
      | .ok job =>
          let execution := execute job
          match renewUntilTerminal token execution.renewals with
          | some .lost => (.ok .fenced, s)
          | some (.failed error) => (.error (.engineFailed error), s)
          | none =>
              let persisted :=
                persistExecution strategy worker handle.jobId job handle.attempt execution.result
              let settled := settleClaim K env token s persisted.1
              (settlementResult persisted.2 settled.1, settled.2)

/-! ## What a run is to append -/

/-- The event that a finished execution calls for. -/
def OutcomeOf (handle : JobClaimHandle) (job : Job) (e : JobEvent) :
    Except (JobFailure Error) (JobOutcome Output) → Prop
  | .ok (.done output) =>
      match strategy.beforeSuccess handle.jobId job (nextAttempt handle.attempt) output with
      | .accepted => e = .succeeded
      | .deferred runAtMs => ∃ runAt : Instant, runAt.1 = runAtMs ∧ e = .rescheduled runAt
  | .ok (.deferred runAtMs) => ∃ runAt : Instant, runAt.1 = runAtMs ∧ e = .rescheduled runAt
  | .error (.terminal failure) =>
      match strategy.beforeRejection handle.jobId job (nextAttempt handle.attempt) failure with
      | .accepted => e = .dead .rejected (worker.renderJobError job failure)
      | .deferred runAtMs => ∃ runAt : Instant, runAt.1 = runAtMs ∧ e = .rescheduled runAt
  | .error (.transient failure) =>
      if handle.attempt.toNat + 1 < worker.attemptLimit.toNat then
        ∃ runAt : Instant, runAt.1 = worker.retryAt (handle.attempt + 1) ∧
          e = .retryScheduled runAt (handle.attempt + 1) (worker.renderJobError job failure)
      else e = .dead .retriesExhausted (worker.renderJobError job failure)

/-- The event that a run calls for. -/
def ExpectedOutcome (handle : JobClaimHandle) (payload : List UInt8)
    (execute : Job → Execution Output Error) (e : JobEvent) : Prop :=
  match worker.decodeJob payload with
  | .error cause => e = .dead .undecodable cause
  | .ok job => OutcomeOf strategy worker handle job e (execute job).result

/-- The text of the failure that a run reports, if it reports one. -/
def reportedText (handle : JobClaimHandle) (payload : List UInt8)
    (execute : Job → Execution Output Error) : Option String :=
  match worker.decodeJob payload with
  | .error cause => some cause
  | .ok job =>
      match (execute job).result with
      | .ok _ => none
      | .error (.transient failure) => some (worker.renderJobError job failure)
      | .error (.terminal failure) =>
          match strategy.beforeRejection handle.jobId job (nextAttempt handle.attempt) failure with
          | .accepted => some (worker.renderJobError job failure)
          | .deferred _ => none

/-- The instant that a run puts its job off to, if it does. -/
def namedInstant (handle : JobClaimHandle) (payload : List UInt8)
    (execute : Job → Execution Output Error) : Option ℤ :=
  match worker.decodeJob payload with
  | .error _ => none
  | .ok job =>
      match (execute job).result with
      | .ok (.done output) =>
          match strategy.beforeSuccess handle.jobId job (nextAttempt handle.attempt) output with
          | .accepted => none
          | .deferred runAt => some runAt
      | .ok (.deferred runAt) => some runAt
      | .error (.terminal failure) =>
          match strategy.beforeRejection handle.jobId job (nextAttempt handle.attempt) failure with
          | .accepted => none
          | .deferred runAt => some runAt
      | .error (.transient _) =>
          if handle.attempt.toNat + 1 < worker.attemptLimit.toNat then
            some (worker.retryAt (handle.attempt + 1))
          else none

/-! ## The settlement of a run -/

/-- The call by which a run settles its claim, if its lease was renewed. -/
def settlementCall (handle : JobClaimHandle) (payload : List UInt8)
    (execute : Job → Execution Output Error) : SettlementCall :=
  match worker.decodeJob payload with
  | .error cause => .deadLetter .undecodable cause
  | .ok job =>
      (persistExecution strategy worker handle.jobId job handle.attempt (execute job).result).1

variable {strategy worker} {handle : JobClaimHandle} {payload : List UInt8}
  {execute : Job → Execution Output Error}

/-- Below the limit the counter does not saturate. -/
theorem nextAttempt_of_lt {limit attempt : UInt32} (h : attempt.toNat + 1 < limit.toNat) :
    nextAttempt attempt = attempt + 1 ∧ (attempt + 1).toNat = attempt.toNat + 1 := by
  have hlimit := limit.toNat_lt
  have hsum : (attempt + 1).toNat = attempt.toNat + 1 := by
    rw [UInt32.toNat_add, UInt32.toNat_one, Nat.mod_eq_of_lt (h.trans hlimit)]
  refine ⟨if_neg fun hzero => ?_, hsum⟩
  rw [hzero] at hsum
  exact absurd hsum.symm (Nat.succ_ne_zero _)

theorem retryBudgetExhausted_nextAttempt (limit attempt : UInt32) :
    retryBudgetExhausted limit (nextAttempt attempt) = true ↔
      ¬ attempt.toNat + 1 < limit.toNat := by
  rw [retryBudgetExhausted, decide_eq_true_iff, UInt32.le_iff_toNat_le]
  by_cases h : attempt.toNat + 1 < limit.toNat
  · obtain ⟨hnext, hsum⟩ := nextAttempt_of_lt h
    rw [hnext, hsum]
    omega
  · refine iff_of_true ?_ h
    have hlimit := limit.toNat_lt
    unfold nextAttempt
    split_ifs with hzero
    · have hsum := congrArg UInt32.toNat hzero
      rw [UInt32.toNat_add, UInt32.toNat_one, UInt32.toNat_zero] at hsum
      have hattempt := attempt.toNat_lt
      omega
    · have hlt : attempt.toNat + 1 < 2 ^ 32 := by
        by_contra hge
        have hattempt := attempt.toNat_lt
        have hlast : attempt.toNat + 1 = 2 ^ 32 := by omega
        refine hzero (UInt32.toNat_inj.1 ?_)
        rw [UInt32.toNat_add, UInt32.toNat_one, hlast]
        rfl
      rw [UInt32.toNat_add, UInt32.toNat_one, Nat.mod_eq_of_lt hlt]
      omega

/-- The settlement of a transient failure. -/
theorem persistTransientFailure_eq (job : Job) (attempt : UInt32) (failure : Error) :
    (persistTransientFailure worker job attempt failure :
        SettlementCall × JobRunResult Output Error).1 =
      if attempt.toNat + 1 < worker.attemptLimit.toNat then
        .retry (worker.retryAt (attempt + 1)) (worker.renderJobError job failure)
      else .deadLetter .retriesExhausted (worker.renderJobError job failure) := by
  unfold persistTransientFailure
  dsimp only
  by_cases h : attempt.toNat + 1 < worker.attemptLimit.toNat
  · rw [if_neg fun hex => (retryBudgetExhausted_nextAttempt _ _).1 hex h, if_pos h,
      (nextAttempt_of_lt h).1]
  · rw [if_pos ((retryBudgetExhausted_nextAttempt _ _).2 h), if_neg h]

theorem deferJob_eq {runAtMs : ℤ} (h : InstantRange runAtMs) :
    deferJob handle runAtMs = .ok (.reschedule handle.claimId ⟨runAtMs, h⟩) := by
  simp only [deferJob, instantFromMillis, dif_pos h]
  rfl

theorem retryJob_eq {runAtMs : ℤ} (h : InstantRange runAtMs) (error : String)
    (hattempt : handle.attempt.toNat + 1 < UInt32.size) :
    retryJob handle runAtMs error =
      .ok (.retrySchedule handle.claimId ⟨runAtMs, h⟩ (handle.attempt + 1) error) := by
  simp only [retryJob, instantFromMillis, dif_pos h, if_pos hattempt]
  rfl

/-- What a settlement call is to carry: these texts and instants, and the command for an event. -/
structure Carries (handle : JobClaimHandle) (call : SettlementCall) (text : Option String)
    (instant : Option ℤ) (outcome : JobEvent → Prop) : Prop where
  text_eq : call.text? = text
  instant_eq : call.instant? = instant
  command : (∀ runAtMs ∈ instant, InstantRange runAtMs) →
    ∃ command, call.command handle = .ok command ∧ command.claimId = handle.claimId ∧
      outcome command.event

theorem Carries.defer (handle : JobClaimHandle) (runAtMs : ℤ) :
    Carries handle (.defer runAtMs) none (some runAtMs)
      fun e => ∃ runAt : Instant, runAt.1 = runAtMs ∧ e = .rescheduled runAt :=
  ⟨rfl, rfl, fun h => ⟨_, deferJob_eq (h runAtMs rfl), rfl, _, rfl, rfl⟩⟩

theorem Carries.deadLetter (handle : JobClaimHandle) (reason : DeadReason) (error : String) :
    Carries handle (.deadLetter reason error) (some error) none fun e => e = .dead reason error :=
  ⟨rfl, rfl, fun _ => ⟨_, rfl, rfl, rfl⟩⟩

theorem Carries.acknowledge (handle : JobClaimHandle) :
    Carries handle .acknowledge none none fun e => e = .succeeded :=
  ⟨rfl, rfl, fun _ => ⟨_, rfl, rfl, rfl⟩⟩

theorem Carries.retry {limit : UInt32} (h : handle.attempt.toNat + 1 < limit.toNat) (runAtMs : ℤ)
    (error : String) :
    Carries handle (.retry runAtMs error) (some error) (some runAtMs)
      fun e => ∃ runAt : Instant, runAt.1 = runAtMs ∧
        e = .retryScheduled runAt (handle.attempt + 1) error :=
  ⟨rfl, rfl, fun hrange =>
    ⟨_, retryJob_eq (hrange runAtMs rfl) error (h.trans limit.toNat_lt), rfl, _, rfl, rfl⟩⟩

/-- **The settlement that a run makes** carries the outcome that its execution calls for. -/
theorem carries_settlementCall (strategy : SettlementStrategy Job Output Error)
    (worker : JobWorker Job Error) (handle : JobClaimHandle) (payload : List UInt8)
    (execute : Job → Execution Output Error) :
    Carries handle (settlementCall strategy worker handle payload execute)
      (reportedText strategy worker handle payload execute)
      (namedInstant strategy worker handle payload execute)
      (ExpectedOutcome strategy worker handle payload execute) := by
  unfold settlementCall reportedText namedInstant ExpectedOutcome
  cases worker.decodeJob payload with
  | error cause => exact .deadLetter handle .undecodable cause
  | ok job =>
      dsimp only [persistExecution, OutcomeOf]
      cases (execute job).result with
      | ok outcome =>
          cases outcome with
          | done output =>
              dsimp only
              cases strategy.beforeSuccess handle.jobId job (nextAttempt handle.attempt) output with
              | accepted => exact .acknowledge handle
              | deferred runAt => exact .defer handle runAt
          | deferred runAt => exact .defer handle runAt
      | error failure =>
          cases failure with
          | transient failure =>
              dsimp only
              rw [persistTransientFailure_eq]
              split_ifs with hlimit
              · exact .retry hlimit _ _
              · exact .deadLetter handle .retriesExhausted _
          | terminal failure =>
              dsimp only
              cases strategy.beforeRejection handle.jobId job (nextAttempt handle.attempt) failure with
              | accepted => exact .deadLetter handle .rejected _
              | deferred runAt => exact .defer handle runAt

/-- The ABI takes a request whose text is not too long. -/
theorem validate_eq_ok {call : SettlementCall} :
    call.validate = .ok () ↔ ∀ text ∈ call.text?, text.utf8ByteSize ≤ maxErrorTextBytes := by
  have hlimit : ∀ error : String, requireErrorTextLimit error.utf8ByteSize = .ok () ↔
      error.utf8ByteSize ≤ maxErrorTextBytes := by
    intro error
    unfold requireErrorTextLimit requireLimit
    split_ifs with h <;> simp [h]
  cases call with
  | acknowledge => exact iff_of_true rfl nofun
  | defer runAtMs => exact iff_of_true rfl nofun
  | retry runAtMs error =>
      refine (hlimit error).trans ⟨fun h text htext => ?_, fun h => h error rfl⟩
      exact Option.some.inj htext ▸ h
  | deadLetter reason error =>
      have htag : (deadReason (deadReasonTag reason)).map (fun _ => ()) = .ok () := by
        cases reason <;> rfl
      have hvalidate : (SettlementCall.deadLetter reason error).validate = .ok () ↔
          requireErrorTextLimit error.utf8ByteSize = .ok () := by
        change (requireErrorTextLimit error.utf8ByteSize >>= fun _ => _) = _ ↔ _
        rw [Except.bind_eq_ok]
        exact ⟨fun ⟨_, h, _⟩ => h, fun h => ⟨(), h, htag⟩⟩
      refine hvalidate.trans ((hlimit error).trans ⟨fun h text htext => ?_, fun h => h error rfl⟩)
      exact Option.some.inj htext ▸ h

end Run

/-! ## The store while the claim holds its job -/

/-- The claim holds the job, whose history is `log`, and what is retained under the token is this
claim. -/
structure Holds (handle : JobClaimHandle) (token : ClaimToken) (log : List JobEvent)
    (s : ClaimStore) : Prop where
  intact : EngineIntact s.db
  history : JobHistory s.db handle.jobId log
  claimSeq : log.length = handle.claimSeq
  holder : ∃ st, jobFold log = .live st ∧ st.holder = some handle.claimId
  retained : ∀ claim, s.registry.retained.lookup token = some claim → claim.handle = handle

section Holds

variable {handle : JobClaimHandle} {token : ClaimToken} {log : List JobEvent} {s : ClaimStore}

theorem Holds.represents (h : Holds handle token log s) :
    ∃ r, Represents s.db handle.jobId r ∧ r.log = log := by
  obtain ⟨log', hlog', hnil | hrep⟩ := JobHistory.exists h.intact.held handle.jobId
  · obtain ⟨st, hst, -⟩ := h.holder
    rw [h.history.unique hlog', hnil] at hst
    cases hst
  · rwa [h.history.unique hlog']

theorem beginOperation_available {state : ClaimState} {claim : RetainedClaim}
    (hclaim : s.registry.retained.lookup token = some claim) (hstate : claim.state = .available) :
    s.registry.beginOperation state token = .ok (claim.handle,
      { s.registry with retained := s.registry.retained.insert token { claim with state } }) := by
  have hfilter : (s.registry.retained.lookup token).filter (fun c => c.state = .available) =
      some claim := Option.filter_eq_some_iff.2 ⟨hclaim, decide_eq_true hstate⟩
  simp only [ClaimRegistry.beginOperation, hfilter]

/-- A renewal is granted if the token is available, and only then. -/
theorem Holds.renewClaim_eq_held (h : Holds handle token log s) (newLease : ℤ) :
    (renewClaim token s newLease).1 = .ok .held ↔ s.registry.stateOf token = some .available := by
  refine ⟨fun hheld => ?_, fun havailable => ?_⟩
  · unfold renewClaim at hheld
    split at hheld
    · cases hheld
    next hbegin =>
      obtain ⟨claim, hclaim, hstate, -⟩ := ClaimRegistry.beginOperation_eq_ok hbegin
      exact ClaimRegistry.stateOf_eq_some.2 ⟨claim, hclaim, hstate⟩
  · obtain ⟨claim, hclaim, hstate⟩ := ClaimRegistry.stateOf_eq_some.1 havailable
    obtain ⟨r, hr, rfl⟩ := h.represents
    obtain ⟨st, hst, hholder⟩ := h.holder
    have hclaimed : st.status = .claimed ∧ r.version = r.log.length := by
      cases st with
      | claimed => exact ⟨rfl, JobRecord.version_eq_of_claimed hst⟩
      | _ => cases hholder
    have hrow : r.rowState = .live st := (JobRecord.rowState_eq hclaimed.2).trans hst
    have hrenewed : (renewJob handle.jobId handle.claimSeq newLease s.db).1 = .held := by
      rcases renewJob_represented hr hrow handle.claimSeq newLease with ⟨-, hheld, -⟩ | ⟨hnot, -⟩
      · exact hheld
      · exact absurd ⟨hclaimed.2 ▸ h.claimSeq, hclaimed.1⟩ hnot
    have hcomplete : ∀ registry : ClaimRegistry, registry.retained.lookup token =
        some { claim with state := .renewing } →
          ∃ registry', registry.completeRenewal token newLease = .ok registry' :=
      fun registry hlookup =>
        ⟨_, ClaimRegistry.completeRenewal_of_lookup hlookup rfl newLease⟩
    obtain ⟨registry, hregistry⟩ := hcomplete
      { s.registry with
        retained := s.registry.retained.insert token { claim with state := .renewing } }
      (AList.lookup_insert _)
    rw [renewClaim, ClaimRegistry.beginRenewal, beginOperation_available hclaim hstate]
    dsimp only
    rw [hregistry, h.retained claim hclaim, hrenewed]

theorem renewUntilTerminal_eq_none {renewals : List (ClaimStore × ℤ)}
    (h : ∀ renewal ∈ renewals, Holds handle token log renewal.1) :
    renewUntilTerminal token renewals = none ↔
      ∀ renewal ∈ renewals, renewal.1.registry.stateOf token = some .available := by
  induction renewals with
  | nil => exact iff_of_true rfl nofun
  | cons renewal rest ih =>
      have hgranted := (h renewal List.mem_cons_self).renewClaim_eq_held renewal.2
      rw [List.forall_mem_cons, ← hgranted, ← ih fun r hr => h r (List.mem_cons_of_mem _ hr),
        renewUntilTerminal]
      split
      next herror => rw [herror]; simp
      next hlost => rw [hlost]; simp
      next hheld => rw [hheld]; simp

/-- A settlement of the claim that holds the job appends its event. -/
theorem Holds.settleJob (h : Holds handle token log s) (hroom : JobRoom s.db handle.jobId)
    {command : JobCommand} (hcommand : command.claimId = handle.claimId) (K : CqrsEs)
    {env : SettleEnv} (hfault : env.fault = none) :
    (settleJob K env handle.jobId command s.db).1 = .ok .applied ∧
      JobHistory (settleJob K env handle.jobId command s.db).2 handle.jobId
        (log ++ [command.event]) := by
  obtain ⟨r, hr, rfl⟩ := h.represents
  obtain ⟨st, hst, hholder⟩ := h.holder
  obtain ⟨version, hload, hversion⟩ := loadAggregate_job hr (h.intact.sound _ _ hr.stream) hroom
  let task : SettleTask := ⟨none, handle.jobId, command, ⟨jobFold r.log, r.log.length, version⟩⟩
  have hsent : sendAlone K jobEntity env.fault env.clock handle.jobId command "" s.db =
      K.handleAndCommit jobEntity none env.clock handle.jobId task.ctx command "" s.db := by
    rw [sendAlone, hload, hfault]
  obtain ⟨happlied, -⟩ := task.commit_applied hr rfl hst
    (hholder.trans (congrArg some hcommand.symm)) (hroom.length_lt hr) hversion K env.clock
  have hloaded : task.LoadedFrom r := ⟨by rw [List.take_length], r.live.length_pos, le_rfl⟩
  rcases task.commit_settled hr hloaded K none env.clock with ⟨hne, -⟩ | ⟨hok, r', hsettled⟩
  · exact absurd happlied hne
  · have hlog : JobHistory (K.handleAndCommit jobEntity none env.clock handle.jobId task.ctx command
        "" s.db).2 handle.jobId (r.log ++ [command.event]) := hsettled.log ▸ hsettled.rep'.stream
    have hresult : (K.handleAndCommit jobEntity none env.clock handle.jobId task.ctx command ""
        s.db).1 = .ok [command.event] := hok
    unfold EventSorcery.settleJob
    dsimp only
    rw [hsent, hresult]
    refine ⟨rfl, ?_⟩
    dsimp only
    split_ifs <;> exact hlog

/-- A won claim holds its job when its token is issued. -/
theorem holds_of_claimed {db : Db} (hdb : EngineIntact db) {fault : Option SqliteJobError}
    {call : ClaimCall} {payload : Json}
    (hwon : (claimJobAs fault call db).1 = .ok (.claimed handle payload)) (registry : ClaimRegistry)
    (token : ClaimToken) (leaseUntilMs : ℤ) :
    ∃ log, Holds handle token log
      ⟨(claimJobAs fault call db).2, registry.issue token handle leaseUntilMs⟩ := by
  have hstep := hdb.claimJobAs fault call
  rcases claimJobAs_cases hdb.held fault call with
    ⟨hnothing, -⟩ | ⟨r, out, r', -, hout, heffect, hrep, -⟩
  · rw [hwon] at hnothing
    rcases hnothing with ⟨-, hout⟩ | ⟨_, -, hout⟩ | hout | hout <;> cases hout
  · rw [hwon] at hout
    cases heffect with
    | abandoned => cases hout
    | @won st job leaseUntil hv live hrow hjob hrun hbudget hlease =>
        obtain ⟨rfl, -⟩ := JobClaimResult.claimed.inj (Except.ok.inj hout)
        have hfold := (liveLog_concat_iff ((JobRecord.rowState_eq hv).symm.trans hrow)).2
          (evolve_claimed hjob call.worker call.mint leaseUntil)
        refine ⟨_, hstep.intact, hrep.stream, ?_, ⟨_, hfold, rfl⟩, fun claim hclaim => ?_⟩
        · simp [JobRecord.appendWithRow, hv]
        · rw [ClaimRegistry.issue, ClaimRegistry.releaseReservation, AList.lookup_insert] at hclaim
          exact Option.some.inj hclaim ▸ rfl

theorem settleClaim_refused {call : SettlementCall} (K : CqrsEs) (env : SettleEnv)
    (h : ¬ (s.registry.stateOf token = some .available ∧ call.validate = .ok ())) :
    (settleClaim K env token s call).2 = s := by
  unfold settleClaim
  split
  · rfl
  next hvalid =>
    split
    · rfl
    next hbegin =>
      obtain ⟨claim, hclaim, hstate, -⟩ := ClaimRegistry.beginOperation_eq_ok hbegin
      exact absurd ⟨ClaimRegistry.stateOf_eq_some.2 ⟨claim, hclaim, hstate⟩, hvalid⟩ h

/-- A request that the ABI takes settles the claim, if the engine can make its command. -/
theorem Holds.settleClaim (h : Holds handle token log s) (hroom : JobRoom s.db handle.jobId)
    {call : SettlementCall} (havailable : s.registry.stateOf token = some .available)
    (hvalid : call.validate = .ok ()) {command : JobCommand}
    (hcommand : call.command handle = .ok command) (hclaimId : command.claimId = handle.claimId)
    (K : CqrsEs) {env : SettleEnv} (hfault : env.fault = none) :
    JobHistory (settleClaim K env token s call).2.db handle.jobId (log ++ [command.event]) := by
  obtain ⟨claim, hclaim, hstate⟩ := ClaimRegistry.stateOf_eq_some.1 havailable
  obtain ⟨happlied, hhistory⟩ := h.settleJob hroom hclaimId K hfault
  unfold JobRun.settleClaim
  rw [hvalid, ClaimRegistry.beginSettlement, beginOperation_available hclaim hstate,
    h.retained claim hclaim]
  simp only [settleClaimWith, hcommand, happlied]
  exact hhistory

end Holds

section Theorem

variable {Job Output Error : Type} {handle : JobClaimHandle} {token : ClaimToken}

/-- Every renewal of the run was granted. -/
def Renewed (worker : JobWorker Job Error) (token : ClaimToken) (payload : List UInt8)
    (execute : Job → Execution Output Error) : Prop :=
  ∀ job, worker.decodeJob payload = .ok job →
    renewUntilTerminal token (execute job).renewals = none

/-- What a run that won its claim makes of the store. -/
theorem runJobOnceWith_store (K : CqrsEs) (env : SettleEnv)
    (strategy : SettlementStrategy Job Output Error) (worker : JobWorker Job Error)
    (handle : JobClaimHandle) (payload : List UInt8) (execute : Job → Execution Output Error)
    (token : ClaimToken) (s : ClaimStore) :
    (Renewed worker token payload execute →
      (runJobOnceWith strategy worker K env token (.ok (.claimed handle payload)) execute s).2 =
        (settleClaim K env token s (settlementCall strategy worker handle payload execute)).2) ∧
    (¬ Renewed worker token payload execute →
      (runJobOnceWith strategy worker K env token (.ok (.claimed handle payload)) execute s).2 =
        s) := by
  unfold runJobOnceWith settlementCall Renewed
  dsimp only
  cases worker.decodeJob payload with
  | error cause => exact ⟨fun _ => rfl, fun h => absurd nofun h⟩
  | ok job =>
      dsimp only
      cases hterminal : renewUntilTerminal token (execute job).renewals with
      | none =>
          refine ⟨fun _ => rfl, fun h => absurd ?_ h⟩
          rintro job' hjob
          rwa [← Except.ok.inj hjob]
      | some terminal =>
          refine ⟨fun h => ?_, fun _ => by cases terminal <;> rfl⟩
          rw [h job rfl] at hterminal
          cases hterminal

/-- **What a run appends.** A run of any Haskell worker whose claim holds the job at each of its calls,
without a storage fault and with instants that can be represented, appends to the job's history the
one event its execution calls for, if the token is available at each call and the text of the failure
is at most 4096 bytes, and only then. -/
theorem run_appends_outcome_iff (K : CqrsEs) {env : SettleEnv} (hfault : env.fault = none)
    (strategy : SettlementStrategy Job Output Error) (worker : JobWorker Job Error)
    (payload : List UInt8) (execute : Job → Execution Output Error) {log : List JobEvent}
    {s : ClaimStore}
    (hs : Holds handle token log s)
    (hrenewals : ∀ job, worker.decodeJob payload = .ok job →
      ∀ renewal ∈ (execute job).renewals, Holds handle token log renewal.1)
    (hroom : JobRoom s.db handle.jobId)
    (hinstant : ∀ runAtMs ∈ namedInstant strategy worker handle payload execute,
      InstantRange runAtMs) :
    (∃ e, ExpectedOutcome strategy worker handle payload execute e ∧
      JobHistory (runJobOnceWith strategy worker K env token (.ok (.claimed handle payload)) execute
        s).2.db handle.jobId (log ++ [e])) ↔
      (∀ job, worker.decodeJob payload = .ok job → ∀ renewal ∈ (execute job).renewals,
        renewal.1.registry.stateOf token = some .available) ∧
      s.registry.stateOf token = some .available ∧
      ∀ text ∈ reportedText strategy worker handle payload execute,
        text.utf8ByteSize ≤ maxErrorTextBytes := by
  have hcarries := carries_settlementCall strategy worker handle payload execute
  have hstore := runJobOnceWith_store K env strategy worker handle payload execute token s
  have hrenewed : Renewed worker token payload execute ↔
      ∀ job, worker.decodeJob payload = .ok job → ∀ renewal ∈ (execute job).renewals,
        renewal.1.registry.stateOf token = some .available :=
    forall_congr' fun job => forall_congr' fun hjob => renewUntilTerminal_eq_none (hrenewals job hjob)
  have hunchanged : ∀ e, ¬ JobHistory s.db handle.jobId (log ++ [e]) := fun e he =>
    absurd (congrArg List.length (hs.history.unique he)) (by simp)
  rw [← hrenewed, ← hcarries.text_eq, ← validate_eq_ok]
  refine ⟨fun ⟨e, _, hhistory⟩ => ?_, fun ⟨hgranted, havailable, hvalid⟩ => ?_⟩
  · by_cases hgranted : Renewed worker token payload execute
    · refine ⟨hgranted, by_contra fun hrefused => hunchanged e ?_⟩
      rwa [hstore.1 hgranted, settleClaim_refused K env hrefused] at hhistory
    · rw [hstore.2 hgranted] at hhistory
      exact absurd hhistory (hunchanged e)
  · obtain ⟨command, hcommand, hclaimId, hexpected⟩ := hcarries.command hinstant
    refine ⟨command.event, hexpected, ?_⟩
    rw [hstore.1 hgranted]
    exact hs.settleClaim hroom havailable hvalid hcommand hclaimId K hfault

end Theorem

/-- Verdicts need no delivery. -/
def genericSettlement {Job Output Error : Type} : SettlementStrategy Job Output Error :=
  ⟨fun _ _ _ _ => .accepted, fun _ _ _ _ => .accepted⟩

/-- A worker that makes up to three attempts and reports every failure with one text. -/
def reportingWorker (text : String) : JobWorker Unit Unit :=
  ⟨3, by decide, fun _ => 100, fun _ => .ok (), fun _ _ => text⟩

def claimedToken : ClaimToken := Vector.replicate 16 7

def claimedHandle : JobClaimHandle := ⟨"j", 2, "c", 0⟩

/-- A database with one job, which was claimed. -/
def claimedDb : Db :=
  (claimJobAs none ⟨"j", "w", 5, 10, 3, "c"⟩
    (enqueueJobPayload none ⟨"j", "mail", .arr [], 0⟩ .empty).2).2

def claimedStore : ClaimStore :=
  ⟨claimedDb, (⟨∅, 0⟩ : ClaimRegistry).issue claimedToken claimedHandle 15⟩

theorem holds_claimedStore : ∃ log, Holds claimedHandle claimedToken log claimedStore := by
  have hqueued : EngineIntact (enqueueJobPayload none ⟨"j", "mail", .arr [], 0⟩ .empty).2 :=
    (AbiSystem.intact_empty.write (.of_only
      (enqueueJobPayload_grows AbiSystem.intact_empty.held none _)
      (enqueueJobPayload_only none _ _))).intact
  have hwon : (claimJobAs none ⟨"j", "w", 5, 10, 3, "c"⟩
      (enqueueJobPayload none ⟨"j", "mail", .arr [], 0⟩ .empty).2).1 =
        .ok (.claimed claimedHandle (.arr [])) := by decide +kernel
  exact holds_of_claimed hqueued hwon _ claimedToken 15

/-- The job fails for now, after its lease was renewed once. -/
def failsForNow : Unit → Execution Unit Unit :=
  fun _ => ⟨.error (.transient ()), [(claimedStore, 20)]⟩

/-- One run of the worker for the claim. -/
def failedRun (text : String) : Except JobRunError (JobRunResult Unit Unit) × ClaimStore :=
  runJobOnceWith genericSettlement (reportingWorker text) .atMultiples ⟨none, fun _ => 0, true⟩
    claimedToken (.ok (.claimed claimedHandle [])) failsForNow claimedStore

theorem short_failure_is_appended : ∃ log e, Holds claimedHandle claimedToken log claimedStore ∧
    ExpectedOutcome genericSettlement (reportingWorker "down") claimedHandle [] failsForNow e ∧
    JobHistory (failedRun "down").2.db "j" (log ++ [e]) := by
  obtain ⟨log, hholds⟩ := holds_claimedStore
  have havailable : claimedStore.registry.stateOf claimedToken = some .available := by decide +kernel
  have hfault : (⟨none, fun _ => 0, true⟩ : SettleEnv).fault = none := rfl
  have hrun := (run_appends_outcome_iff .atMultiples hfault genericSettlement (reportingWorker "down")
    [] failsForNow hholds (fun _ _ => List.forall_mem_singleton.2 hholds) (by decide +kernel)
    (fun runAtMs h => Option.some.inj h ▸ by decide)).2
    ⟨fun _ _ => List.forall_mem_singleton.2 havailable, havailable,
      fun text h => Option.some.inj h ▸ by decide⟩
  obtain ⟨e, hexpected, hhistory⟩ := hrun
  exact ⟨log, e, hholds, hexpected, hhistory⟩

/-- The text of the failure is one byte too long. The ABI refuses the settlement, and the job that was
executed is left without an outcome. -/
theorem long_failure_is_not_appended : ∃ log, Holds claimedHandle claimedToken log claimedStore ∧
    claimedStore.registry.stateOf claimedToken = some .available ∧
    (failedRun (String.ofList (List.replicate 4097 'a'))).2 = claimedStore ∧
    ¬ ∃ e, JobHistory (failedRun (String.ofList (List.replicate 4097 'a'))).2.db "j"
      (log ++ [e]) := by
  obtain ⟨log, hholds⟩ := holds_claimedStore
  have havailable : claimedStore.registry.stateOf claimedToken = some .available := by decide +kernel
  have hsize := Cbor.utf8ByteSize_ofList_replicate (c := 'a') (by decide) 4097
  generalize String.ofList (List.replicate 4097 'a') = text at hsize
  have hstore := runJobOnceWith_store .atMultiples ⟨none, fun _ => 0, true⟩ genericSettlement
    (reportingWorker text) claimedHandle [] failsForNow claimedToken claimedStore
  have hrenewed : Renewed (reportingWorker text) claimedToken [] failsForNow := fun _ _ =>
    (renewUntilTerminal_eq_none (List.forall_mem_singleton.2 hholds)).2
      (List.forall_mem_singleton.2 havailable)
  have hinvalid : ¬ ∀ t ∈ (settlementCall genericSettlement (reportingWorker text) claimedHandle []
      failsForNow).text?, t.utf8ByteSize ≤ maxErrorTextBytes := by
    rw [(carries_settlementCall _ _ _ _ _).text_eq]
    intro h
    have hle := h text rfl
    rw [hsize] at hle
    exact absurd hle (by decide)
  have hsame : (failedRun text).2 = claimedStore :=
    (hstore.1 hrenewed).trans (settleClaim_refused _ _ fun h => hinvalid (validate_eq_ok.1 h.2))
  refine ⟨log, hholds, havailable, hsame, fun ⟨e, he⟩ => ?_⟩
  rw [hsame] at he
  exact absurd (congrArg List.length (hholds.history.unique he)) (by simp)

end JobRun

end EventSorcery
