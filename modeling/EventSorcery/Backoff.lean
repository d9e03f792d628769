import Mathlib

/-!
# Retries with exponential backoff

`retry_with_backoff` calls an attempt until it succeeds, fails for good or has been retried often
enough, and sleeps in between. What the attempt answers is a stream of results; a stream may end, and
then the call after its last result never completes. The schedule of calls and sleeps is compared with
the product of base and power in `retry_follows_schedule_iff`.
-/

namespace EventSorcery

namespace Backoff

/-! ## Delays -/

def checkedPowTwo (exponent : UInt32) : Option UInt64 :=
  if 2 ^ exponent.toNat < UInt64.size then some (UInt64.ofNat (2 ^ exponent.toNat)) else none

def checkedMul (a b : UInt64) : Option UInt64 :=
  if a.toNat * b.toNat < UInt64.size then some (a * b) else none

def backoffDelayMs (attempt : UInt32) (baseDelayMs maxDelayMs : UInt64) : UInt64 :=
  match (checkedPowTwo attempt).bind fun multiplier => checkedMul baseDelayMs multiplier with
  | none => maxDelayMs
  | some computed => min computed maxDelayMs

/-- The delay that the schedule asks for, in unbounded arithmetic. -/
def scheduledDelay (attempt : ℕ) (baseDelayMs maxDelayMs : UInt64) : ℕ :=
  min (baseDelayMs.toNat * 2 ^ attempt) maxDelayMs.toNat

variable {attempt : UInt32} {base cap : UInt64}

theorem checkedPowTwo_of_lt (h : attempt.toNat < 64) :
    ∃ power, checkedPowTwo attempt = some power ∧ power.toNat = 2 ^ attempt.toNat := by
  have hlt : 2 ^ attempt.toNat < UInt64.size := Nat.pow_lt_pow_right (by decide) h
  refine ⟨UInt64.ofNat (2 ^ attempt.toNat), if_pos hlt, ?_⟩
  exact UInt64.toNat_ofNat_of_lt' hlt

theorem checkedPowTwo_of_le (h : 64 ≤ attempt.toNat) : checkedPowTwo attempt = none :=
  if_neg (Nat.not_lt.2 (Nat.pow_le_pow_right (by decide) h))

theorem toNat_min (a b : UInt64) : (min a b).toNat = min a.toNat b.toNat := by
  change (if a ≤ b then a else b).toNat = _
  split_ifs with h
  · exact (Nat.min_eq_left (UInt64.le_iff_toNat_le.1 h)).symm
  · exact (Nat.min_eq_right (Nat.le_of_not_le fun hle => h (UInt64.le_iff_toNat_le.2 hle))).symm

/-- While the power fits, a product that does not is above every delay. -/
theorem backoffDelayMs_of_lt (h : attempt.toNat < 64) :
    (backoffDelayMs attempt base cap).toNat = scheduledDelay attempt.toNat base cap := by
  obtain ⟨power, hpower, hvalue⟩ := checkedPowTwo_of_lt h
  have hcap := cap.toNat_lt
  unfold backoffDelayMs scheduledDelay checkedMul
  rw [hpower, Option.bind_some, hvalue]
  split_ifs with hfits
  · dsimp only
    rw [toNat_min, UInt64.toNat_mul, hvalue, Nat.mod_eq_of_lt hfits]
  · dsimp only
    rw [min_eq_right (hcap.le.trans (Nat.not_lt.1 hfits))]

/-- Beyond that the delay is the longest one. -/
theorem backoffDelayMs_of_le (h : 64 ≤ attempt.toNat) : backoffDelayMs attempt base cap = cap := by
  rw [backoffDelayMs, checkedPowTwo_of_le h, Option.bind_none]

theorem backoffDelayMs_eq_iff (attempt : UInt32) (base cap : UInt64) :
    (backoffDelayMs attempt base cap).toNat = scheduledDelay attempt.toNat base cap ↔
      base ≠ 0 ∨ cap = 0 ∨ attempt.toNat < 64 := by
  rcases Nat.lt_or_ge attempt.toNat 64 with h | h
  · exact iff_of_true (backoffDelayMs_of_lt h) (.inr (.inr h))
  · rw [backoffDelayMs_of_le h, scheduledDelay]
    by_cases hbase : base = 0
    · subst hbase
      rw [UInt64.toNat_zero, Nat.zero_mul, Nat.zero_min, ← UInt64.toNat_zero, UInt64.toNat_inj]
      exact ⟨fun hcap => .inr (.inl hcap), fun hor => hor.elim (absurd rfl ·)
        (·.elim id fun hlt => absurd hlt (Nat.not_lt.2 h))⟩
    · refine iff_of_true (min_eq_right ?_).symm (.inl hbase)
      have hpos : 0 < base.toNat := Nat.pos_of_ne_zero fun hzero =>
        hbase (UInt64.toNat_inj.1 hzero)
      calc cap.toNat ≤ 2 ^ 64 := cap.toNat_lt.le
        _ ≤ 2 ^ attempt.toNat := Nat.pow_le_pow_right (by decide) h
        _ ≤ base.toNat * 2 ^ attempt.toNat := Nat.le_mul_of_pos_left _ hpos

/-! ## The loop -/

/-- What a run did: how often it called the attempt, how long it slept after each call but the last,
and what it returned, if it did. -/
structure Run (Output Error : Type) where
  calls : ℕ
  sleeps : List UInt64
  result : Option (Except Error Output)

section Loop

variable {Output Error : Type} (maxAttempts : UInt32) (baseDelayMs maxDelayMs : UInt64)
  (shouldRetry : Error → Bool) (results : ℕ → Option (Except Error Output))

/-- The loop from a value of its counter on, when the attempt was called `called` times. -/
def retryLoop (attempt : UInt32) (called : ℕ) : Run Output Error :=
  match results called with
  | none => ⟨1, [], none⟩
  | some (.ok output) => ⟨1, [], some (.ok output)⟩
  | some (.error error) =>
      if attempt < maxAttempts ∧ shouldRetry error then
        let delayMs := backoffDelayMs attempt baseDelayMs maxDelayMs
        let rest := retryLoop (attempt + 1) (called + 1)
        ⟨rest.calls + 1, delayMs :: rest.sleeps, rest.result⟩
      else ⟨1, [], some (.error error)⟩
termination_by maxAttempts.toNat - attempt.toNat
decreasing_by
  rename_i hretry
  have hlt := UInt32.lt_iff_toNat_lt.1 hretry.1
  have hmax := maxAttempts.toNat_lt
  rw [UInt32.toNat_add, UInt32.toNat_one, Nat.mod_eq_of_lt (by omega)]
  omega

def retryWithBackoff : Run Output Error :=
  retryLoop maxAttempts baseDelayMs maxDelayMs shouldRetry results 0 0

/-- The result ends the loop, whatever the counter says. -/
def Stops (shouldRetry : Error → Bool) : Option (Except Error Output) → Prop
  | some (.ok _) => True
  | some (.error error) => shouldRetry error = false
  | none => False

/-- The calls at which the loop has no reason to go on: the last retry, and the results that are a
success or an error that is not retried. -/
def lastCalls : Set ℕ := {i | i = maxAttempts.toNat ∨ Stops shouldRetry (results i)}

/-- The run calls the attempt up to call `k`, returns what that call gives and sleeps the scheduled
delays in between. -/
def FollowsSchedule (k : ℕ) : Prop :=
  let run := retryWithBackoff maxAttempts baseDelayMs maxDelayMs shouldRetry results
  run.calls = k + 1 ∧ run.result = results k ∧
    run.sleeps.map UInt64.toNat =
      (List.range k).map fun i => scheduledDelay i baseDelayMs maxDelayMs

variable {maxAttempts baseDelayMs maxDelayMs shouldRetry results}

/-- The loop returns at the last call. -/
theorem retryLoop_of_last {attempt : UInt32}
    (hend : attempt.toNat ∈ lastCalls maxAttempts shouldRetry results) :
    retryLoop maxAttempts baseDelayMs maxDelayMs shouldRetry results attempt attempt.toNat =
      ⟨1, [], results attempt.toNat⟩ := by
  unfold retryLoop
  split
  next hnone => rw [hnone]
  next output hok => rw [hok]
  next error herror =>
    refine (if_neg fun hretry => ?_).trans (by rw [herror])
    rcases hend with hmax | hstops
    · exact absurd (UInt32.lt_iff_toNat_lt.1 hretry.1) (by omega)
    · rw [herror] at hstops
      exact absurd hretry.2 (by rw [hstops]; decide)

/-- Before it, the loop sleeps and goes on. -/
theorem retryLoop_of_not_last {attempt : UInt32} (hlt : attempt < maxAttempts)
    (hgo : attempt.toNat ∉ lastCalls maxAttempts shouldRetry results)
    (hsome : (results attempt.toNat).isSome) :
    let rest := retryLoop maxAttempts baseDelayMs maxDelayMs shouldRetry results (attempt + 1)
      (attempt.toNat + 1)
    retryLoop maxAttempts baseDelayMs maxDelayMs shouldRetry results attempt attempt.toNat =
      ⟨rest.calls + 1, backoffDelayMs attempt baseDelayMs maxDelayMs :: rest.sleeps,
        rest.result⟩ := by
  intro rest
  rw [retryLoop]
  split
  next hnone => rw [hnone] at hsome; cases hsome
  next output hok => exact absurd (.inr (by rw [hok]; trivial)) hgo
  next error herror =>
    have hretry : shouldRetry error = true := by
      by_contra hnot
      exact hgo (.inr (by rw [herror]; exact eq_false_of_ne_true hnot))
    exact if_pos ⟨hlt, hretry⟩

theorem toNat_add_one {attempt : UInt32} (hlt : attempt < maxAttempts) :
    (attempt + 1).toNat = attempt.toNat + 1 := by
  have hle := UInt32.lt_iff_toNat_lt.1 hlt
  have hmax := maxAttempts.toNat_lt
  rw [UInt32.toNat_add, UInt32.toNat_one, Nat.mod_eq_of_lt (by omega)]

/-- The whole loop: by induction on the number of retries that are left until the last call. -/
theorem retryLoop_eq {k : ℕ} (hk : IsLeast (lastCalls maxAttempts shouldRetry results) k)
    (hstream : ∀ i < k, (results i).isSome) (n : ℕ) (attempt : UInt32) (hn : attempt.toNat + n = k) :
    retryLoop maxAttempts baseDelayMs maxDelayMs shouldRetry results attempt attempt.toNat =
      ⟨n + 1, (List.range' attempt.toNat n).map
        fun i => backoffDelayMs (UInt32.ofNat i) baseDelayMs maxDelayMs, results k⟩ := by
  induction n generalizing attempt with
  | zero =>
      obtain rfl : attempt.toNat = k := hn
      exact retryLoop_of_last hk.1
  | succ n ih =>
      have hbefore : attempt.toNat < k := by omega
      have hlt : attempt < maxAttempts := by
        have hle : k ≤ maxAttempts.toNat := hk.2 (.inl rfl)
        exact UInt32.lt_iff_toNat_lt.2 (hbefore.trans_le hle)
      have hgo : attempt.toNat ∉ lastCalls maxAttempts shouldRetry results := fun hmem =>
        absurd (hk.2 hmem) (Nat.not_le.2 hbefore)
      have hnext := toNat_add_one hlt
      have hrest := ih (attempt + 1) (by omega)
      rw [hnext] at hrest
      rw [retryLoop_of_not_last hlt hgo (hstream _ hbefore), hrest, List.range'_succ, List.map_cons,
        UInt32.ofNat_toNat]

/-- The run makes the calls up to the last one and returns its result; between them it sleeps as
`backoffDelayMs` says. -/
theorem retryWithBackoff_eq {k : ℕ} (hk : IsLeast (lastCalls maxAttempts shouldRetry results) k)
    (hstream : ∀ i < k, (results i).isSome) :
    retryWithBackoff maxAttempts baseDelayMs maxDelayMs shouldRetry results =
      ⟨k + 1, (List.range k).map
        fun i => backoffDelayMs (UInt32.ofNat i) baseDelayMs maxDelayMs, results k⟩ := by
  rw [List.range_eq_range']
  exact retryLoop_eq hk hstream k 0 (Nat.zero_add k)

/-- **The schedule of retries.** For every limit, base and longest delay and every stream of results
that reaches the last call `k`, the run makes `k + 1` calls, returns the result of call `k` and sleeps
the scheduled delays, unless the base is zero, delays are allowed and more than 64 of them are made. -/
theorem retry_follows_schedule_iff (maxAttempts : UInt32) (baseDelayMs maxDelayMs : UInt64)
    (shouldRetry : Error → Bool) (results : ℕ → Option (Except Error Output)) {k : ℕ}
    (hk : IsLeast (lastCalls maxAttempts shouldRetry results) k)
    (hstream : ∀ i ≤ k, (results i).isSome) :
    FollowsSchedule maxAttempts baseDelayMs maxDelayMs shouldRetry results k ↔
      baseDelayMs ≠ 0 ∨ maxDelayMs = 0 ∨ k ≤ 64 := by
  have hmax : k ≤ maxAttempts.toNat := hk.2 (.inl rfl)
  have hindex : ∀ i < k, (UInt32.ofNat i).toNat = i := fun i hi =>
    UInt32.toNat_ofNat_of_lt' (hi.trans (hmax.trans_lt maxAttempts.toNat_lt))
  have hdelay : ∀ i < k, (backoffDelayMs (UInt32.ofNat i) baseDelayMs maxDelayMs).toNat =
      scheduledDelay i baseDelayMs maxDelayMs ↔ baseDelayMs ≠ 0 ∨ maxDelayMs = 0 ∨ i < 64 := by
    intro i hi
    have heq := backoffDelayMs_eq_iff (UInt32.ofNat i) baseDelayMs maxDelayMs
    rwa [hindex i hi] at heq
  unfold FollowsSchedule
  rw [retryWithBackoff_eq hk fun i hi => hstream i hi.le]
  dsimp only
  rw [List.map_map, List.map_inj_left]
  simp only [List.mem_range, Function.comp_apply, true_and]
  constructor
  · intro hall
    by_cases hle : k ≤ 64
    · exact .inr (.inr hle)
    · have hlast := (hdelay 64 (Nat.not_le.1 hle)).1 (hall 64 (Nat.not_le.1 hle))
      exact hlast.imp_right (Or.imp_right fun hlt => absurd hlt (lt_irrefl _))
  · intro hcond i hi
    exact (hdelay i hi).2 (hcond.imp_right (Or.imp_right fun hle => hi.trans_le hle))

end Loop

/-- An attempt that fails every time, with an error that is retried. -/
def busy : ℕ → Option (Except Unit Unit) := fun _ => some (.error ())

theorem isLeast_lastCalls_busy (maxAttempts : UInt32) :
    IsLeast (lastCalls maxAttempts (fun _ => true) busy) maxAttempts.toNat := by
  refine ⟨.inl rfl, ?_⟩
  rintro i (rfl | hstops)
  · exact le_rfl
  · cases hstops

/-- The default schedule is kept. -/
theorem default_schedule_is_followed : FollowsSchedule 10 10 1000 (fun _ => true) busy 10 :=
  (retry_follows_schedule_iff 10 10 1000 (fun _ => true) busy (isLeast_lastCalls_busy 10)
    fun _ _ => rfl).2 (.inl (by decide))

example : ((List.range 10).map fun i => scheduledDelay i 10 1000).sum = 4270 := by decide

/-- With no base delay the retries follow each other without a pause, until the 65th waits for the
longest delay. -/
theorem long_retry_without_base_delay_sleeps :
    (retryWithBackoff 65 0 1000 (fun _ => true) busy).sleeps[64]? = some 1000 ∧
      scheduledDelay 64 0 1000 = 0 ∧ ¬ FollowsSchedule 65 0 1000 (fun _ => true) busy 65 := by
  have hrun : retryWithBackoff 65 0 1000 (fun _ => true) busy = _ :=
    retryWithBackoff_eq (isLeast_lastCalls_busy 65) fun _ _ => rfl
  have hsleep : (retryWithBackoff 65 0 1000 (fun _ => true) busy).sleeps[64]? = some 1000 := by
    rw [hrun]
    decide
  refine ⟨hsleep, by decide, fun hfollows => ?_⟩
  have hscheduled := congrArg (·[64]?) hfollows.2.2
  simp only [List.getElem?_map, hsleep] at hscheduled
  revert hscheduled
  decide

end Backoff

end EventSorcery
