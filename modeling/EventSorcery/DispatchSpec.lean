import EventSorcery.Dispatch

/-!
# What an execution can do

The calls an execution may make, and the settlements it may end in, whatever its calls are answered
and wherever they are cut off. `Allowed` is the routing of submissions; `Settles` ties every
settlement to the verdicts delivered before it.
-/

namespace EventSorcery

open Process

variable {Output Error : Type}

/-! ## Verdicts in a history -/

/-- Verdicts that are delivered until their origin takes them: a confirmation, or a rejection. -/
def DispatchOutcome.isSettled : DispatchOutcome Output Error → Bool
  | .confirmed .. => true
  | .failed _ (.rejected _) _ => true
  | .failed _ (.deadLettered _ _) _ => false

/-- A confirmation of the job was delivered. -/
def Confirmed (id : JobId) (done : History Output Error) : Prop :=
  ∃ output attempts, (⟨.deliver (.confirmed id output attempts), some (.ok ())⟩ :
    Answered (WorkerCall Output Error) fun c => Option c.Answer) ∈ done

/-- A rejection of the job was delivered. -/
def RejectionDelivered (id : JobId) (done : History Output Error) : Prop :=
  ∃ error attempts, (⟨.deliver (.failed id (.rejected error) attempts), some (.ok ())⟩ :
    Answered (WorkerCall Output Error) fun c => Option c.Answer) ∈ done

/-- A failure verdict of the job was under way. -/
def FailureAttempted (id : JobId) (done : History Output Error) : Prop :=
  ∃ failure attempts answer, (⟨.deliver (.failed id failure attempts), answer⟩ :
    Answered (WorkerCall Output Error) fun c => Option c.Answer) ∈ done

/-- The delivery of a confirmation or rejection failed. -/
def VerdictUndelivered (done : History Output Error) : Prop :=
  ∃ outcome error, outcome.isSettled ∧ (⟨.deliver outcome, some (.error error)⟩ :
    Answered (WorkerCall Output Error) fun c => Option c.Answer) ∈ done

/-- Calls of a job's body after which no failure is delivered if they are cut off. -/
def WorkerCall.isUntold : WorkerCall Output Error → Bool
  | .submit | .reconcile => true
  | .deliver (.confirmed ..) => true
  | .deliver (.failed ..) => false
  | .leaseLost => false

/-- A call of the body other than the delivery of a failure was cut off. -/
def CutShort (done : History Output Error) : Prop :=
  ∃ c : WorkerCall Output Error, c.isUntold ∧
    (⟨c, none⟩ : Answered (WorkerCall Output Error) fun c => Option c.Answer) ∈ done

/-- An answer that says the job failed for now. -/
def WorkerCall.isTransient : ∀ c : WorkerCall Output Error, Option c.Answer → Bool
  | .submit, some (.error (.transient _)) => true
  | .reconcile, some (.error (.transient _)) => true
  | _, _ => false

/-- The job failed for now. -/
def FailedTransiently (done : History Output Error) : Prop :=
  ∃ call ∈ done, call.1.isTransient call.2

theorem RejectionDelivered.failureAttempted {id : JobId} {done : History Output Error}
    (h : RejectionDelivered id done) : FailureAttempted id done := by
  obtain ⟨error, attempts, h⟩ := h
  exact ⟨_, _, _, h⟩

/-! ## Calls and settlements -/

/-- When an execution makes a call: a first execution submits at once, every other reconciles first
and submits only if the answer was that nothing had been submitted. Verdicts are for its own job. -/
def Allowed (handle : JobClaimHandle) (done : History Output Error) :
    WorkerCall Output Error → Prop
  | .submit =>
      if handle.isFirstExecution then done = [] else done = [⟨.reconcile, some (.ok .notSubmitted)⟩]
  | .reconcile => handle.isFirstExecution = false ∧ done = []
  | .deliver outcome => outcome.jobId = handle.jobId
  | .leaseLost => True

theorem allowed_submit_first {handle : JobClaimHandle} (h : handle.isFirstExecution) :
    Allowed handle ([] : History Output Error) .submit := by
  simp [Allowed, h]

theorem allowed_submit_reconciled {handle : JobClaimHandle} (h : handle.isFirstExecution = false) :
    Allowed handle ([⟨.reconcile, some (.ok .notSubmitted)⟩] : History Output Error) .submit := by
  simp [Allowed, h]

/-- Why a dead letter was written without telling the origin first: the native worker's last attempt
was cut short, or it was given no attempts and the job failed for now; the Haskell worker could not
decode the job. -/
def Excused (worker : Worker Error) (handle : JobClaimHandle) (done : History Output Error)
    (reason : DeadReason) : Prop :=
  match worker with
  | .native config => config.maxAttempts ≤ handle.attempt + 1 ∧ CutShort done ∨
      config.maxAttempts = 0 ∧ FailedTransiently done
  | .haskell _ => reason = .undecodable

/-- What a settlement says about the calls before it; it carries the claim it was started for. -/
structure Settles (worker : Worker Error) (handle : JobClaimHandle) (done : History Output Error)
    (command : JobCommand) : Prop where
  claim : command.claimId = handle.claimId
  succeeded : command.event = .succeeded → Confirmed handle.jobId done
  rejected : ∀ error, command.event = .dead .rejected error → RejectionDelivered handle.jobId done
  deferred : VerdictUndelivered done → ∃ runAt, command.event = .rescheduled runAt
  dead : ∀ reason error, command.event = .dead reason error →
    FailureAttempted handle.jobId done ∨ Excused worker handle done reason

/-- What an execution may end with. -/
def Ends (worker : Worker Error) (handle : JobClaimHandle) (done : History Output Error)
    (result : Option Settle) : Prop :=
  ∀ settle ∈ result, ∀ now command, settle now = some command → Settles worker handle done command

/-! ## The native worker -/

/-- A call of a job's body: an allowed one, with no verdict undelivered so far. -/
def InBody (handle : JobClaimHandle) (done : History Output Error) (c : WorkerCall Output Error) :
    Prop :=
  Allowed handle done c ∧ ¬ VerdictUndelivered done ∧ c ≠ .leaseLost

/-- What the result of a job's body says about its calls. -/
def Concluded (ctx : JobContext Error) (done : History Output Error) :
    Option (Except (JobFailure Error) (JobOutcome Unit)) → Prop
  | some (.ok (.done ())) => Confirmed ctx.handle.jobId done ∧ ¬ VerdictUndelivered done
  | some (.ok (.defer _)) => True
  | some (.error (.terminal _)) =>
      RejectionDelivered ctx.handle.jobId done ∧ ¬ VerdictUndelivered done
  | some (.error (.transient _)) => ¬ VerdictUndelivered done ∧ FailedTransiently done ∧
      (ctx.isFinalAttempt → FailureAttempted ctx.handle.jobId done)
  | none => ¬ VerdictUndelivered done ∧ (FailureAttempted ctx.handle.jobId done ∨ CutShort done)

theorem verdictUndelivered_append {done : History Output Error}
    {call : Answered (WorkerCall Output Error) fun c => Option c.Answer}
    (h : VerdictUndelivered (done ++ [call])) :
    VerdictUndelivered done ∨ ∃ outcome error, outcome.isSettled ∧
      call = ⟨.deliver outcome, some (.error error)⟩ := by
  obtain ⟨outcome, error, hs, hmem⟩ := h
  rcases List.mem_append.1 hmem with hmem | hmem
  · exact .inl ⟨outcome, error, hs, hmem⟩
  · exact .inr ⟨outcome, error, hs, (List.mem_singleton.1 hmem).symm⟩

/-- A call without an answer, and an answer to anything but a verdict, leaves no verdict
undelivered. -/
theorem not_verdictUndelivered_append {done : History Output Error} {c : WorkerCall Output Error}
    {answer : Option c.Answer} (h : ¬ VerdictUndelivered done)
    (hcall : ∀ outcome error, outcome.isSettled →
      (⟨c, answer⟩ : Answered (WorkerCall Output Error) fun c => Option c.Answer) ≠
        ⟨.deliver outcome, some (.error error)⟩) :
    ¬ VerdictUndelivered (done ++ [⟨c, answer⟩]) := by
  intro hund
  rcases verdictUndelivered_append hund with hund | ⟨outcome, error, hs, heq⟩
  · exact h hund
  · exact hcall outcome error hs heq

theorem not_verdictUndelivered_nil : ¬ VerdictUndelivered ([] : History Output Error) := by
  rintro ⟨outcome, error, -, hmem⟩
  cases hmem

/-- Only a delivery can leave a verdict undelivered. -/
theorem not_verdictUndelivered_call
    {done : List (Answered (WorkerCall Output Error) WorkerCall.Answer)}
    {c : WorkerCall Output Error} {answer : c.Answer} (hc : ∀ outcome, c ≠ .deliver outcome)
    (h : ¬ VerdictUndelivered (uncut done)) :
    ¬ VerdictUndelivered (uncut (done ++ [⟨c, answer⟩])) := by
  rw [uncut_concat]
  refine not_verdictUndelivered_append h fun outcome error _ heq => ?_
  exact hc outcome (congrArg Sigma.fst heq)

theorem FailedTransiently.mono {done done' : History Output Error} (h : FailedTransiently done)
    (hsub : done ⊆ done') : FailedTransiently done' := by
  obtain ⟨call, hmem, hcall⟩ := h
  exact ⟨call, hsub hmem, hcall⟩

theorem failedTransiently_submit
    {done : List (Answered (WorkerCall Output Error) WorkerCall.Answer)} {error : Error} :
    FailedTransiently (uncut (done ++ [⟨.submit, (.error (.transient error) : Except _ _)⟩]) :
      History Output Error) := by
  rw [uncut_concat]
  exact ⟨_, List.mem_append_right _ (List.mem_singleton.2 rfl), rfl⟩

/-- Delivering the verdict of an outcome. -/
theorem conclude_spec (ctx : JobContext Error)
    {done : List (Answered (WorkerCall Output Error) WorkerCall.Answer)}
    (hclean : ¬ VerdictUndelivered (uncut done))
    {outcome : Except (JobFailure Error) (JobOutcome Output)}
    (hfailed : ∀ error, outcome = .error (.transient error) → FailedTransiently (uncut done)) :
    Spec (fun done c => InBody ctx.handle (uncut done) c)
      (fun done r => Concluded ctx (uncut done) (some r)) done (ctx.conclude outcome) := by
  have hlast : ∀ (c : WorkerCall Output Error) (a : c.Answer),
      (⟨c, some a⟩ : Answered (WorkerCall Output Error) fun c => Option c.Answer) ∈
        uncut (done ++ [⟨c, a⟩]) := fun c a => by
    rw [uncut_concat]
    exact List.mem_append_right _ (List.mem_singleton.2 rfl)
  have hok : ∀ outcome : DispatchOutcome Output Error,
      ¬ VerdictUndelivered (uncut (done ++ [⟨.deliver outcome, (.ok () : Except _ _)⟩])) := by
    intro outcome
    rw [uncut_concat]
    refine not_verdictUndelivered_append hclean fun outcome' error _ heq => ?_
    cases heq
  rcases outcome with (error | error) | (output | delay)
  · rw [JobContext.conclude]
    split_ifs with hfinal
    · refine spec_call.2 ⟨⟨rfl, hclean, by simp⟩, fun answer => ⟨?_, ?_, fun _ => ?_⟩⟩
      · rw [uncut_concat]
        refine not_verdictUndelivered_append hclean fun outcome error hs heq => ?_
        cases heq
        cases hs
      · rw [uncut_concat]
        exact (hfailed error rfl).mono (List.subset_append_left _ _)
      · exact ⟨_, _, _, hlast _ answer⟩
    · exact ⟨hclean, hfailed error rfl, fun h => absurd h hfinal⟩
  · refine spec_call.2 ⟨⟨rfl, hclean, by simp⟩, fun answer => ?_⟩
    rcases answer with deliveryError | ⟨⟩
    · exact trivial
    · exact ⟨⟨_, _, hlast (.deliver _) (.ok ())⟩, hok _⟩
  · refine spec_call.2 ⟨⟨rfl, hclean, by simp⟩, fun answer => ?_⟩
    rcases answer with deliveryError | ⟨⟩
    · exact trivial
    · exact ⟨⟨_, _, hlast (.deliver _) (.ok ())⟩, hok _⟩
  · exact trivial

theorem perform_spec (ctx : JobContext Error) :
    Spec (fun done c => InBody ctx.handle (uncut done) c)
      (fun done r => Concluded ctx (uncut done) (some r)) []
      (ctx.perform : Program Output Error _) := by
  have hnil : ¬ VerdictUndelivered (uncut
      ([] : List (Answered (WorkerCall Output Error) WorkerCall.Answer))) :=
    not_verdictUndelivered_nil
  rw [JobContext.perform]
  split_ifs with hfirst
  · refine spec_call.2 ⟨⟨allowed_submit_first hfirst, hnil, by simp⟩, fun answer => ?_⟩
    refine conclude_spec ctx (not_verdictUndelivered_call (by simp) hnil) ?_
    rintro error rfl
    exact failedTransiently_submit
  · have hlater : ctx.handle.isFirstExecution = false := Bool.not_eq_true _ ▸ hfirst
    have hrec : ∀ a, ¬ VerdictUndelivered (uncut ([] ++ [⟨.reconcile, a⟩] :
        List (Answered (WorkerCall Output Error) WorkerCall.Answer))) :=
      fun a => not_verdictUndelivered_call (by simp) hnil
    refine spec_call.2 ⟨⟨⟨hlater, rfl⟩, hnil, by simp⟩, fun answer => ?_⟩
    rcases answer with failure | (output | - | delay)
    · refine conclude_spec ctx (hrec _) ?_
      rintro error heq
      obtain rfl := Except.error.inj heq
      exact ⟨_, List.mem_singleton.2 rfl, rfl⟩
    · exact conclude_spec ctx (hrec _) fun error heq => by cases heq
    · refine spec_call.2 ⟨⟨allowed_submit_reconciled hlater, hrec _, by simp⟩, fun answer => ?_⟩
      refine conclude_spec ctx (not_verdictUndelivered_call (by simp) (hrec _)) ?_
      rintro error rfl
      exact failedTransiently_submit
    · exact trivial

section Append

variable {done done' : History Output Error} {id : JobId}

theorem Confirmed.mono (h : Confirmed id done) (hsub : done ⊆ done') : Confirmed id done' := by
  obtain ⟨output, attempts, hmem⟩ := h
  exact ⟨output, attempts, hsub hmem⟩

theorem RejectionDelivered.mono (h : RejectionDelivered id done) (hsub : done ⊆ done') :
    RejectionDelivered id done' := by
  obtain ⟨error, attempts, hmem⟩ := h
  exact ⟨error, attempts, hsub hmem⟩

theorem FailureAttempted.mono (h : FailureAttempted id done) (hsub : done ⊆ done') :
    FailureAttempted id done' := by
  obtain ⟨failure, attempts, answer, hmem⟩ := h
  exact ⟨failure, attempts, answer, hsub hmem⟩

theorem CutShort.mono (h : CutShort done) (hsub : done ⊆ done') : CutShort done' := by
  obtain ⟨c, hc, hmem⟩ := h
  exact ⟨c, hc, hsub hmem⟩

/-- Looking at the lease changes nothing about the verdicts. -/
theorem Settles.leaseLost {worker : Worker Error} {handle : JobClaimHandle} {command : JobCommand}
    (h : Settles worker handle done command) (answer : Option Bool) :
    Settles worker handle (done ++ [⟨.leaseLost, answer⟩]) command := by
  have hsub := List.subset_append_left done [⟨.leaseLost, answer⟩]
  refine ⟨h.claim, fun hs => (h.succeeded hs).mono hsub,
    fun error he => (h.rejected error he).mono hsub, fun hund => h.deferred ?_, fun reason error he => ?_⟩
  · by_contra hclean
    refine not_verdictUndelivered_append hclean (fun outcome error _ heq => ?_) hund
    cases heq
  · refine (h.dead reason error he).imp (fun hf => hf.mono hsub) fun hex => ?_
    cases worker with
    | native config =>
        exact hex.imp (fun hcut => ⟨hcut.1, hcut.2.mono hsub⟩) fun hzero =>
          ⟨hzero.1, hzero.2.mono hsub⟩
    | haskell worker => exact hex

end Append

/-- The command for a result is one its calls allow. -/
theorem ackCommand_settles (ctx : JobContext Error) {done : History Output Error}
    {result : Option (Except (JobFailure Error) (JobOutcome Unit))} (h : Concluded ctx done result)
    {now : Instant} {command : JobCommand}
    (hcommand : ackCommand ctx (ackPlan ctx.config result) now = some command) :
    Settles (.native ctx.config) ctx.handle done command := by
  -- A failure that does not end the job is scheduled again; one that does ends its last attempt.
  have hfailed : ∀ text, ¬ VerdictUndelivered done →
      (ctx.isFinalAttempt ∨ ¬ FailedTransiently done →
        FailureAttempted ctx.handle.jobId done ∨ CutShort done) →
      ackCommand ctx (.failed text) now = some command →
      Settles (.native ctx.config) ctx.handle done command := by
    intro text hclean hfinal hcmd
    simp only [ackCommand] at hcmd
    split_ifs at hcmd with hlast
    · obtain rfl := Option.some.inj hcmd
      refine ⟨rfl, (fun h => by cases h), (fun _ h => by cases h), fun h => absurd h hclean, ?_⟩
      intro reason error _
      by_cases hzero : ctx.config.maxAttempts = 0 ∧ FailedTransiently done
      · exact .inr (.inr hzero)
      · refine (hfinal ?_).imp id fun hcut => .inl ⟨hlast, hcut⟩
        refine or_iff_not_imp_right.2 fun hfailed => ?_
        have hpos : 0 < ctx.config.maxAttempts :=
          UInt32.pos_iff_ne_zero.2 fun h => hzero ⟨h, not_not.1 hfailed⟩
        simp [JobContext.isFinalAttempt, hpos, hlast]
    · obtain ⟨runAt, -, rfl⟩ := Option.map_eq_some_iff.1 hcmd
      exact ⟨rfl, (fun h => by cases h), (fun _ h => by cases h), fun h => absurd h hclean,
        (fun _ _ h => by cases h)⟩
  rcases result with _ | (error | error) | (⟨⟩ | delay)
  · exact hfailed _ h.1 (fun _ => h.2) hcommand
  · refine hfailed _ h.1 (fun hfinal => .inl (h.2.2 ?_)) hcommand
    exact hfinal.resolve_right (not_not.2 h.2.1)
  · obtain rfl := Option.some.inj hcommand
    exact ⟨rfl, (fun h => by cases h), fun _ _ => h.1, fun hund => absurd hund h.2,
      fun _ _ _ => .inl h.1.failureAttempted⟩
  · obtain rfl := Option.some.inj hcommand
    exact ⟨rfl, fun _ => h.1, (fun _ h => by cases h), fun hund => absurd hund h.2,
      (fun _ _ h => by cases h)⟩
  · obtain ⟨runAt, -, rfl⟩ := Option.map_eq_some_iff.1 hcommand
    exact ⟨rfl, (fun h => by cases h), (fun _ h => by cases h), fun _ => ⟨runAt, rfl⟩,
      (fun _ _ h => by cases h)⟩

/-- **An execution by the native worker.** -/
theorem JobContext.run_spec (ctx : JobContext Error) :
    Spec (Allowed ctx.handle) (Ends (.native ctx.config) ctx.handle) []
      (ctx.run : Interruptible Output Error _) := by
  have hbody : Spec (InBody ctx.handle) (Concluded ctx) []
      (ctx.perform : Program Output Error _).interruptible := by
    refine (perform_spec ctx).interruptible [] fun done c hc => ⟨?_, ?_⟩
    · exact not_verdictUndelivered_append hc.2.1 fun outcome error _ heq => by cases heq
    · have hmem : (⟨c, none⟩ : Answered (WorkerCall Output Error) fun c => Option c.Answer) ∈
          done ++ [⟨c, none⟩] := List.mem_append_right _ (List.mem_singleton.2 rfl)
      rcases c with - | - | (⟨id, output, attempts⟩ | ⟨id, failure, attempts⟩) | -
      · exact .inr ⟨_, rfl, hmem⟩
      · exact .inr ⟨_, rfl, hmem⟩
      · exact .inr ⟨_, rfl, hmem⟩
      · obtain rfl : id = ctx.handle.jobId := hc.1
        exact .inl ⟨_, _, _, hmem⟩
      · exact absurd rfl hc.2.2
  refine Spec.bind (hbody.mono (fun _ _ h => h.1) fun done result hres => ?_)
  refine spec_call.2 ⟨trivial, fun answer => ?_⟩
  rcases answer with _ | _ | _
  · exact fun settle h => by cases h
  · intro settle hsettle now command hcommand
    obtain rfl := Option.mem_some_iff.1 hsettle
    exact (ackCommand_settles ctx hres hcommand).leaseLost _
  · exact fun settle h => by cases h

/-! ## The Haskell worker -/

/-- The route survives the C ABI. -/
theorem decodeExecutionRoute_hasPriorExecution (handle : JobClaimHandle) :
    decodeExecutionRoute handle.hasPriorExecution =
      some (if handle.isFirstExecution then .submitExecution else .reconcileExecution) := by
  unfold decodeExecutionRoute JobClaimHandle.hasPriorExecution
  cases handle.isFirstExecution <;> rfl

theorem executeDurableJob_spec (handle : JobClaimHandle) :
    Spec (fun done c => InBody handle (uncut done) c)
      (fun done _ => ¬ VerdictUndelivered (uncut done)) []
      (executeDurableJob (if handle.isFirstExecution then .submitExecution else .reconcileExecution)
        : Program Output Error _) := by
  have hnil : ¬ VerdictUndelivered (uncut
      ([] : List (Answered (WorkerCall Output Error) WorkerCall.Answer))) :=
    not_verdictUndelivered_nil
  cases hfirst : handle.isFirstExecution with
  | true =>
      refine spec_call.2 ⟨⟨allowed_submit_first hfirst, hnil, by simp⟩, fun answer => ?_⟩
      exact not_verdictUndelivered_call (by simp) hnil
  | false =>
      have hrec : ∀ a, ¬ VerdictUndelivered (uncut ([] ++ [⟨.reconcile, a⟩] :
          List (Answered (WorkerCall Output Error) WorkerCall.Answer))) :=
        fun a => not_verdictUndelivered_call (by simp) hnil
      refine spec_call.2 ⟨⟨⟨hfirst, rfl⟩, hnil, by simp⟩, fun answer => ?_⟩
      rcases answer with failure | (output | - | delay)
      · exact hrec _
      · exact hrec _
      · refine spec_call.2 ⟨⟨allowed_submit_reconciled hfirst, hrec _, by simp⟩, fun answer => ?_⟩
        exact not_verdictUndelivered_call (by simp) (hrec _)
      · exact hrec _

/-- Delivering the verdict of an outcome and settling it, after the calls `base`. -/
theorem persistExecution_spec (worker : HaskellWorker Error) (now : ℤ) (handle : JobClaimHandle)
    {base : History Output Error} (hclean : ¬ VerdictUndelivered base)
    (outcome : Except (JobFailure Error) (JobOutcome Output)) :
    Spec (fun done c => Allowed handle (base ++ uncut done) c)
      (fun done settlement => ∀ now command, Settlement.command handle settlement now = some command →
        Settles (.haskell worker) handle (base ++ uncut done) command) []
      (worker.persistExecution now handle outcome) := by
  have hlast : ∀ (c : WorkerCall Output Error) (a : c.Answer),
      (⟨c, some a⟩ : Answered (WorkerCall Output Error) fun c => Option c.Answer) ∈
        base ++ uncut ([] ++ [⟨c, a⟩]) := fun c a =>
    List.mem_append_right _ (List.mem_singleton.2 rfl)
  have hok : ∀ outcome : DispatchOutcome Output Error,
      ¬ VerdictUndelivered (base ++ uncut ([] ++ [⟨.deliver outcome, .ok ()⟩])) := by
    intro outcome
    refine not_verdictUndelivered_append hclean fun outcome' error _ heq => ?_
    cases heq
  have hdefer : ∀ (delay : Deferral) (done : History Output Error) now command,
      Settlement.command handle (.defer delay) now = some command →
        Settles (.haskell worker) handle done command := by
    intro delay done now command hcommand
    obtain ⟨runAt, -, rfl⟩ := Option.map_eq_some_iff.1 hcommand
    exact ⟨rfl, (fun h => by cases h), (fun _ h => by cases h), fun _ => ⟨runAt, rfl⟩,
      (fun _ _ h => by cases h)⟩
  rcases outcome with (failure | failure) | (output | delay)
  · rw [HaskellWorker.persistExecution]
    split_ifs with hlimit
    · refine spec_call.2 ⟨rfl, fun answer now command hcommand => ?_⟩
      obtain rfl := Option.some.inj hcommand
      refine ⟨rfl, (fun h => by cases h), (fun _ h => by cases h), fun hund => ?_, fun _ _ _ =>
        .inl ⟨_, _, _, hlast _ answer⟩⟩
      refine absurd hund (not_verdictUndelivered_append hclean fun outcome error hs heq => ?_)
      cases heq
      cases hs
    · intro now command hcommand
      simp only [Settlement.command] at hcommand
      split at hcommand
      next => cases hcommand
      next runAt _ =>
        split_ifs at hcommand
        obtain rfl := Option.some.inj hcommand
        refine ⟨rfl, (fun h => by cases h), (fun _ h => by cases h), fun hund => ?_,
          (fun _ _ h => by cases h)⟩
        rw [uncut, List.map_nil, List.append_nil] at hund
        exact absurd hund hclean
  · refine spec_call.2 ⟨rfl, fun answer => ?_⟩
    rcases answer with error | ⟨⟩
    · exact fun now command hcommand => hdefer _ _ _ _ hcommand
    · intro now command hcommand
      obtain rfl := Option.some.inj hcommand
      exact ⟨rfl, (fun h => by cases h), fun _ _ => ⟨_, _, hlast (.deliver _) (.ok ())⟩,
        fun hund => absurd hund (hok _), fun _ _ _ => .inl ⟨_, _, _, hlast (.deliver _) (.ok ())⟩⟩
  · refine spec_call.2 ⟨rfl, fun answer => ?_⟩
    rcases answer with error | ⟨⟩
    · exact fun now command hcommand => hdefer _ _ _ _ hcommand
    · intro now command hcommand
      obtain rfl := Option.some.inj hcommand
      exact ⟨rfl, fun _ => ⟨_, _, hlast (.deliver _) (.ok ())⟩, (fun _ h => by cases h),
        fun hund => absurd hund (hok _), (fun _ _ h => by cases h)⟩
  · exact fun now command hcommand => hdefer _ _ _ _ hcommand

/-- **An execution by the Haskell worker.** -/
theorem HaskellWorker.run_spec (worker : HaskellWorker Error) (now : ℤ) (handle : JobClaimHandle) :
    Spec (Allowed handle) (Ends (.haskell worker) handle) []
      (worker.run now handle
        (if handle.isFirstExecution then .submitExecution else .reconcileExecution) :
        Interruptible Output Error _) := by
  have hexec : Spec (InBody handle) (fun done _ => ¬ VerdictUndelivered done) []
      (executeDurableJob (if handle.isFirstExecution then .submitExecution else .reconcileExecution)
        : Program Output Error _).interruptible := by
    refine Spec.interruptible (G := InBody handle) (Q := fun done _ => ¬ VerdictUndelivered done) []
      (executeDurableJob_spec handle) fun done c hc => ?_
    exact not_verdictUndelivered_append hc.2.1 fun outcome error _ heq => by cases heq
  refine Spec.bind (hexec.mono (fun _ _ h => h.1) fun done result hclean => ?_)
  cases result with
  | none => exact fun settle h => by cases h
  | some result =>
      refine spec_call.2 ⟨trivial, fun answer => ?_⟩
      rcases answer with _ | _ | _
      · exact fun settle h => by cases h
      · have hclean' : ¬ VerdictUndelivered (done ++ [⟨.leaseLost, some false⟩]) :=
          not_verdictUndelivered_append hclean fun outcome error _ heq => by cases heq
        have hpersist := Spec.interruptible (G := Allowed handle)
          (Q := fun done settlement => ∀ s ∈ settlement, ∀ now command,
            Settlement.command handle s now = some command →
              Settles (.haskell worker) handle done command)
          (done ++ [⟨.leaseLost, some false⟩])
          ((persistExecution_spec worker now handle hclean' result).mono (fun _ _ h => h)
            fun done s hs s' hs' => Option.mem_some_iff.1 hs' ▸ hs)
          fun _ _ _ s h => by cases h
        rw [uncut, List.map_nil, List.append_nil] at hpersist
        refine Spec.bind (hpersist.mono (fun _ _ h => h) fun done settlement h => ?_)
        intro settle hsettle now command hcommand
        obtain ⟨s, hs, rfl⟩ := Option.map_eq_some_iff.1 hsettle
        exact h s hs now command hcommand
      · exact fun settle h => by cases h

/-! ## Every worker -/

/-- **What an execution can do**, whichever worker runs it. -/
theorem Worker.start_spec {worker : Worker Error} {now : ℤ} {handle : JobClaimHandle}
    {payload : Json} {p : Interruptible Output Error (Option Settle)}
    (h : worker.start now handle payload = some p) :
    Spec (Allowed handle) (Ends worker handle) [] p := by
  unfold Worker.start at h
  cases worker with
  | native config =>
      simp only at h
      split_ifs at h
      obtain rfl := Option.some.inj h
      exact JobContext.run_spec ⟨handle, config⟩
  | haskell worker =>
      rw [decodeExecutionRoute_hasPriorExecution] at h
      simp only at h
      split at h
      next cause _ =>
        obtain rfl := Option.some.inj h
        intro settle hsettle now command hcommand
        obtain rfl := Option.mem_some_iff.1 hsettle
        obtain rfl := Option.some.inj hcommand
        refine ⟨rfl, (fun h => by cases h), (fun _ h => by cases h), fun hund => ?_, fun _ _ h => ?_⟩
        · exact absurd hund not_verdictUndelivered_nil
        · exact .inr (JobEvent.dead.inj h).1.symm
      next =>
        obtain rfl := Option.some.inj h
        exact worker.run_spec now handle

end EventSorcery
