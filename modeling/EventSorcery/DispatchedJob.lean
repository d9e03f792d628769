import EventSorcery.Dispatch
import EventSorcery.Lib.Machine

/-!
# The dispatch an origin entity tracks

An entity that dispatches a job keeps a small machine beside its own state: idle, one job in flight,
or settled. A command either dispatches a job or brings a verdict; an accepted command's events are
folded back into the machine. The machine is written twice, in the native library and in the Haskell
binding, and this module holds both. What a history looks like follows from one fact: the emitted
events replay.
-/

namespace EventSorcery

/-- Where a dispatch stands. -/
inductive DispatchedJob (Output Error : Type) where
  | idle
  | inFlight (jobId : JobId)
  | confirmed (jobId : JobId) (output : Output) (attempts : UInt32)
  | failed (jobId : JobId) (failure : DispatchFailure Error) (attempts : UInt32)
  deriving DecidableEq

inductive DispatchEvent (Job Output Error : Type) where
  | dispatched (jobId : JobId) (job : Job)
  | confirmed (jobId : JobId) (output : Output) (attempts : UInt32)
  | failed (jobId : JobId) (failure : DispatchFailure Error) (attempts : UInt32)
  deriving DecidableEq

/-- A command the dispatch guard refused. -/
inductive DispatchRefused where
  | inFlight
  | alreadyConfirmed
  | outcomeMismatch
  deriving DecidableEq

/-- An event that cannot follow from the current state. -/
inductive DispatchReplay where
  | dispatchReplay
  deriving DecidableEq

/-- A job to kick off: the event that records it, once the store has minted its id. -/
abbrev JobDispatch (Job Output Error : Type) := JobId → DispatchEvent Job Output Error

variable {Job Output Error : Type}

def kick (job : Job) : JobDispatch Job Output Error := fun jobId => .dispatched jobId job

/-! ## The native machine -/

namespace DispatchedJob

def dispatch (state : DispatchedJob Output Error) (job : Job) :
    Except DispatchRefused (JobDispatch Job Output Error) :=
  match state with
  | .idle | .failed .. => .ok (kick job)
  | .inFlight _ => .error .inFlight
  | .confirmed .. => .error .alreadyConfirmed

def settle (state : DispatchedJob Output Error) (outcome : DispatchOutcome Output Error) :
    Except DispatchRefused (List (DispatchEvent Job Output Error)) :=
  match state, outcome with
  | .inFlight jobId, .confirmed settled output attempts =>
      if jobId = settled then .ok [.confirmed settled output attempts]
      else .error .outcomeMismatch
  | .inFlight jobId, .failed settled failure attempts =>
      if jobId = settled then .ok [.failed settled failure attempts]
      else .error .outcomeMismatch
  | .confirmed existing _ _, .confirmed settled _ _ =>
      if existing = settled then .ok [] else .error .outcomeMismatch
  | .failed existing _ _, .failed settled _ _ =>
      if existing = settled then .ok [] else .error .outcomeMismatch
  | .idle, .confirmed .. | .idle, .failed .. | .confirmed .., .failed ..
  | .failed .., .confirmed .. => .error .outcomeMismatch

def evolve (state : DispatchedJob Output Error) (event : DispatchEvent Job Output Error) :
    Except DispatchReplay (DispatchedJob Output Error) :=
  match state, event with
  | .idle, .dispatched jobId _ | .failed .., .dispatched jobId _ => .ok (.inFlight jobId)
  | .inFlight jobId, .confirmed settled output attempts =>
      if jobId = settled then .ok (.confirmed settled output attempts)
      else .error .dispatchReplay
  | .inFlight jobId, .failed settled failure attempts =>
      if jobId = settled then .ok (.failed settled failure attempts) else .error .dispatchReplay
  | _, _ => .error .dispatchReplay

end DispatchedJob

/-! ## The Haskell machine -/

namespace Binding

def guardDispatch (state : DispatchedJob Output Error) (job : Job) :
    Except DispatchRefused (JobDispatch Job Output Error) :=
  match state with
  | .idle => .ok (kick job)
  | .failed .. => .ok (kick job)
  | .inFlight _ => .error .inFlight
  | .confirmed .. => .error .alreadyConfirmed

-- A guard that fails falls through to the last alternative.
def settleDispatch (state : DispatchedJob Output Error) (outcome : DispatchOutcome Output Error) :
    Except DispatchRefused (List (DispatchEvent Job Output Error)) :=
  let otherwise := .error .outcomeMismatch
  match state, outcome with
  | .inFlight identifier, .confirmed jobId output attempts =>
      if identifier = jobId then .ok [.confirmed jobId output attempts] else otherwise
  | .inFlight identifier, .failed jobId failure attempts =>
      if identifier = jobId then .ok [.failed jobId failure attempts] else otherwise
  | .confirmed identifier _ _, .confirmed jobId _ _ =>
      if identifier = jobId then .ok [] else otherwise
  | .failed identifier _ _, .failed jobId _ _ =>
      if identifier = jobId then .ok [] else otherwise
  | _, _ => otherwise

def evolveDispatch (state : DispatchedJob Output Error)
    (event : DispatchEvent Job Output Error) :
    Except DispatchReplay (DispatchedJob Output Error) :=
  let otherwise := .error .dispatchReplay
  match state, event with
  | .idle, .dispatched identifier _ => .ok (.inFlight identifier)
  | .failed .., .dispatched identifier _ => .ok (.inFlight identifier)
  | .inFlight identifier, .confirmed jobId output attempts =>
      if identifier = jobId then .ok (.confirmed jobId output attempts) else otherwise
  | .inFlight identifier, .failed jobId failure attempts =>
      if identifier = jobId then .ok (.failed jobId failure attempts) else otherwise
  | _, _ => otherwise

end Binding

/-! ## Histories of commands -/

/-- The two places the machine is written in. -/
inductive DispatchImpl where
  | native
  | haskell
  deriving DecidableEq

/-- A dispatch with the id its job will get, or a delivered verdict. -/
inductive DispatchCommand (Job Output Error : Type) where
  | dispatch (jobId : JobId) (job : Job)
  | settle (outcome : DispatchOutcome Output Error)

/-- The machine after some commands, with what they emitted and were answered. -/
structure DispatchHistory (Job Output Error : Type) where
  state : Except DispatchReplay (DispatchedJob Output Error)
  emitted : List (DispatchEvent Job Output Error)
  answers : List (Except DispatchRefused (List (DispatchEvent Job Output Error)))

namespace DispatchImpl

def dispatch : DispatchImpl → DispatchedJob Output Error → Job →
    Except DispatchRefused (JobDispatch Job Output Error)
  | native => DispatchedJob.dispatch
  | haskell => Binding.guardDispatch

def settle : DispatchImpl → DispatchedJob Output Error → DispatchOutcome Output Error →
    Except DispatchRefused (List (DispatchEvent Job Output Error))
  | native => DispatchedJob.settle
  | haskell => Binding.settleDispatch

def evolve : DispatchImpl → DispatchedJob Output Error → DispatchEvent Job Output Error →
    Except DispatchReplay (DispatchedJob Output Error)
  | native => DispatchedJob.evolve
  | haskell => Binding.evolveDispatch

/-- The events a command justifies. -/
def handle (impl : DispatchImpl) (state : DispatchedJob Output Error) :
    DispatchCommand Job Output Error →
      Except DispatchRefused (List (DispatchEvent Job Output Error))
  | .dispatch jobId job => (impl.dispatch state job).map fun kicked => [kicked jobId]
  | .settle outcome => impl.settle state outcome

/-- The state after some events. -/
def replay (impl : DispatchImpl) (state : DispatchedJob Output Error)
    (events : List (DispatchEvent Job Output Error)) :
    Except DispatchReplay (DispatchedJob Output Error) :=
  events.foldlM impl.evolve state

/-- One command: refused, or its events are folded into the state. -/
def step (impl : DispatchImpl) (history : DispatchHistory Job Output Error)
    (command : DispatchCommand Job Output Error) : DispatchHistory Job Output Error :=
  match history.state with
  | .error _ => history
  | .ok state =>
      let answer := impl.handle state command
      match answer with
      | .error _ => { history with answers := history.answers ++ [answer] }
      | .ok events => ⟨impl.replay state events, history.emitted ++ events,
          history.answers ++ [answer]⟩

/-- Commands one after another, from an idle dispatch. -/
def machine (impl : DispatchImpl) :
    Machine (DispatchHistory Job Output Error) (DispatchCommand Job Output Error) where
  init := ⟨.ok .idle, [], []⟩
  step := impl.step

end DispatchImpl

/-! ## The two machines are one -/

theorem Binding.guardDispatch_eq (state : DispatchedJob Output Error) (job : Job) :
    guardDispatch state job = state.dispatch job := by
  cases state <;> rfl

theorem Binding.settleDispatch_eq (state : DispatchedJob Output Error)
    (outcome : DispatchOutcome Output Error) :
    (settleDispatch state outcome : Except _ (List (DispatchEvent Job Output Error))) =
      state.settle outcome := by
  cases state <;> cases outcome <;> rfl

theorem Binding.evolveDispatch_eq (state : DispatchedJob Output Error)
    (event : DispatchEvent Job Output Error) : evolveDispatch state event = state.evolve event := by
  cases state <;> cases event <;> rfl

namespace DispatchImpl

variable (impl : DispatchImpl)

theorem dispatch_eq (state : DispatchedJob Output Error) (job : Job) :
    impl.dispatch state job = state.dispatch job := by
  cases impl with
  | native => rfl
  | haskell => exact Binding.guardDispatch_eq state job

theorem settle_eq (state : DispatchedJob Output Error) (outcome : DispatchOutcome Output Error) :
    (impl.settle state outcome : Except _ (List (DispatchEvent Job Output Error))) =
      state.settle outcome := by
  cases impl with
  | native => rfl
  | haskell => exact Binding.settleDispatch_eq state outcome

theorem evolve_eq (state : DispatchedJob Output Error) (event : DispatchEvent Job Output Error) :
    impl.evolve state event = state.evolve event := by
  cases impl with
  | native => rfl
  | haskell => exact Binding.evolveDispatch_eq state event

theorem handle_eq (state : DispatchedJob Output Error)
    (command : DispatchCommand Job Output Error) :
    impl.handle state command = native.handle state command := by
  cases command with
  | dispatch jobId job => simp only [handle, dispatch_eq]
  | settle outcome => simp only [handle, settle_eq]

theorem replay_eq (state : DispatchedJob Output Error)
    (events : List (DispatchEvent Job Output Error)) :
    impl.replay state events = native.replay state events := by
  have hevolve : (impl.evolve : DispatchedJob Output Error → DispatchEvent Job Output Error → _) =
      native.evolve := by
    funext state event
    rw [evolve_eq, evolve_eq]
  rw [replay, replay, hevolve]

/-- Both machines answer every command alike and go through the same states. -/
theorem machine_eq :
    (impl.machine : Machine (DispatchHistory Job Output Error) _) = native.machine := by
  have hstep : (impl.step : DispatchHistory Job Output Error → _ → _) = native.step := by
    funext history command
    simp only [step, handle_eq impl, replay_eq impl]
  rw [machine, machine, hstep]

end DispatchImpl

/-! ## What a replayed log looks like -/

namespace DispatchEvent

/-- The job an event dispatches. -/
def dispatched? : DispatchEvent Job Output Error → Option JobId
  | .dispatched jobId _ => some jobId
  | _ => none

/-- The job an event settles. -/
def settled? : DispatchEvent Job Output Error → Option JobId
  | .dispatched .. => none
  | .confirmed jobId _ _ | .failed jobId _ _ => some jobId

def isConfirmed : DispatchEvent Job Output Error → Bool
  | .confirmed .. => true
  | _ => false

def isFailed : DispatchEvent Job Output Error → Bool
  | .failed .. => true
  | _ => false

end DispatchEvent

/-- The job of the latest `Dispatched` event. -/
def latestDispatched (log : List (DispatchEvent Job Output Error)) : Option JobId :=
  (log.filterMap DispatchEvent.dispatched?).getLast?

namespace DispatchedJob

/-- The job a state is about. -/
def jobId? : DispatchedJob Output Error → Option JobId
  | .idle => none
  | .inFlight jobId | .confirmed jobId _ _ | .failed jobId _ _ => some jobId

/-- The events an idle dispatch folds into a state. -/
def Replays (log : List (DispatchEvent Job Output Error)) (s : DispatchedJob Output Error) : Prop :=
  DispatchImpl.native.replay .idle log = .ok s

variable {s s' : DispatchedJob Output Error} {e : DispatchEvent Job Output Error}

/-- The three ways an event can be applied. -/
theorem evolve_eq_ok (h : s.evolve e = .ok s') :
    (∃ jobId job, e = .dispatched jobId job ∧ s' = .inFlight jobId ∧
        (s = .idle ∨ ∃ old failure attempts, s = .failed old failure attempts)) ∨
      (∃ jobId output attempts, e = .confirmed jobId output attempts ∧ s = .inFlight jobId ∧
        s' = .confirmed jobId output attempts) ∨
      ∃ jobId failure attempts, e = .failed jobId failure attempts ∧ s = .inFlight jobId ∧
        s' = .failed jobId failure attempts := by
  revert h
  fun_cases evolve s e <;> intro h
  case case4 | case6 | case7 => cases h
  all_goals obtain rfl := Except.ok.inj h
  case case1 jobId job => exact .inl ⟨jobId, job, rfl, rfl, .inl rfl⟩
  case case2 old failure attempts jobId job =>
      exact .inl ⟨jobId, job, rfl, rfl, .inr ⟨old, failure, attempts, rfl⟩⟩
  case case3 jobId output attempts => exact .inr (.inl ⟨jobId, output, attempts, rfl, rfl, rfl⟩)
  case case5 jobId failure attempts => exact .inr (.inr ⟨jobId, failure, attempts, rfl, rfl, rfl⟩)

theorem replay_cons_eq_ok {log : List (DispatchEvent Job Output Error)} :
    DispatchImpl.native.replay s (e :: log) = .ok s' ↔
      ∃ t, s.evolve e = .ok t ∧ DispatchImpl.native.replay t log = .ok s' := by
  rw [DispatchImpl.replay, List.foldlM_cons]
  exact Except.bind_eq_ok

theorem replay_append_eq_ok {log log' : List (DispatchEvent Job Output Error)} :
    DispatchImpl.native.replay s (log ++ log') = .ok s' ↔
      ∃ t, DispatchImpl.native.replay s log = .ok t ∧
        DispatchImpl.native.replay t log' = .ok s' := by
  rw [DispatchImpl.replay, List.foldlM_append]
  exact Except.bind_eq_ok

theorem replay_singleton_eq_ok :
    DispatchImpl.native.replay s [e] = .ok s' ↔ s.evolve e = .ok s' := by
  rw [replay_cons_eq_ok]
  constructor
  · rintro ⟨t, ht, hnil⟩
    rwa [Except.ok.inj hnil] at ht
  · exact fun h => ⟨s', h, rfl⟩

namespace Replays

variable {log before after : List (DispatchEvent Job Output Error)}

/-- The state before an event of the log, and the one that event leads to. -/
theorem split (h : Replays (before ++ e :: after) s) :
    ∃ t t', Replays before t ∧ t.evolve e = .ok t' ∧
      DispatchImpl.native.replay t' after = .ok s := by
  obtain ⟨t, hbefore, hrest⟩ := replay_append_eq_ok.1 h
  obtain ⟨t', he, hafter⟩ := replay_cons_eq_ok.1 hrest
  exact ⟨t, t', hbefore, he, hafter⟩

/-- A state is about the job dispatched last. -/
theorem jobId_eq (h : Replays log s) : s.jobId? = latestDispatched log := by
  induction log using List.reverseRecOn generalizing s with
  | nil =>
      obtain rfl := Except.ok.inj h
      rfl
  | append_singleton log e ih =>
      obtain ⟨t, t', ht, he, hnil⟩ := split h
      obtain rfl := Except.ok.inj hnil
      have hlog := ih ht
      rcases evolve_eq_ok he with ⟨jobId, job, rfl, rfl, -⟩ | ⟨jobId, output, attempts, rfl, rfl, rfl⟩ |
        ⟨jobId, failure, attempts, rfl, rfl, rfl⟩
      · simp [jobId?, latestDispatched, DispatchEvent.dispatched?]
      · simpa [jobId?, latestDispatched, DispatchEvent.dispatched?] using hlog
      · simpa [jobId?, latestDispatched, DispatchEvent.dispatched?] using hlog

end Replays

/-- What follows a dispatch up to the next one: nothing, or one settlement of its job. -/
theorem replay_inFlight {jobId : JobId} {middle : List (DispatchEvent Job Output Error)}
    (h : DispatchImpl.native.replay (.inFlight jobId) middle = .ok s)
    (hmiddle : ∀ e ∈ middle, e.dispatched? = none) :
    (middle = [] ∧ s = .inFlight jobId) ∨
      (∃ output attempts, middle = [.confirmed jobId output attempts] ∧
        s = .confirmed jobId output attempts) ∨
      ∃ failure attempts, middle = [.failed jobId failure attempts] ∧
        s = .failed jobId failure attempts := by
  induction middle using List.reverseRecOn generalizing s with
  | nil => exact .inl ⟨rfl, (Except.ok.inj h).symm⟩
  | append_singleton middle e ih =>
      obtain ⟨t, ht, hlast⟩ := replay_append_eq_ok.1 h
      have he := replay_singleton_eq_ok.1 hlast
      have hbefore := ih ht fun e he => hmiddle e (List.mem_append_left _ he)
      rcases evolve_eq_ok he with ⟨_, job, rfl, -, -⟩ | ⟨_, output, attempts, rfl, rfl, rfl⟩ |
        ⟨_, failure, attempts, rfl, rfl, rfl⟩
      · cases hmiddle _ (List.mem_append_right _ (List.mem_singleton_self _))
      · rcases hbefore with ⟨rfl, hs⟩ | ⟨_, _, _, hs⟩ | ⟨_, _, _, hs⟩ <;> cases hs
        exact .inr (.inl ⟨output, attempts, rfl, rfl⟩)
      · rcases hbefore with ⟨rfl, hs⟩ | ⟨_, _, _, hs⟩ | ⟨_, _, _, hs⟩ <;> cases hs
        exact .inr (.inr ⟨failure, attempts, rfl, rfl⟩)

/-- A settled dispatch goes on only with another dispatch. -/
theorem replay_eq_nil_of_settled {rest : List (DispatchEvent Job Output Error)}
    (hs : ∀ jobId, s ≠ .inFlight jobId) (h : DispatchImpl.native.replay s rest = .ok s')
    (hrest : ∀ e ∈ rest, e.dispatched? = none) : rest = [] := by
  cases rest with
  | nil => rfl
  | cons e rest =>
      obtain ⟨t, he, -⟩ := replay_cons_eq_ok.1 h
      rcases evolve_eq_ok he with ⟨_, _, rfl, -, -⟩ | ⟨_, _, _, -, hflight, -⟩ |
        ⟨_, _, _, -, hflight, -⟩
      · cases hrest _ (List.mem_cons_self ..)
      · exact absurd hflight (hs _)
      · exact absurd hflight (hs _)

/-! ## Verdicts -/

/-- The state holds a verdict of this kind on this job. -/
def SettledBy : DispatchedJob Output Error → DispatchOutcome Output Error → Prop
  | .confirmed existing _ _, .confirmed jobId _ _ => existing = jobId
  | .failed existing _ _, .failed jobId _ _ => existing = jobId
  | _, _ => False

variable {outcome : DispatchOutcome Output Error}

theorem SettledBy.jobId_eq (h : s.SettledBy outcome) : s.jobId? = some outcome.jobId := by
  cases s <;> cases outcome <;> first | exact congrArg some h | cases h

theorem SettledBy.ne_inFlight (h : s.SettledBy outcome) (jobId : JobId) : s ≠ .inFlight jobId := by
  rintro rfl
  cases h

/-- A verdict is absorbed where it is already held. -/
theorem settle_eq_nil_iff :
    s.settle outcome = .ok ([] : List (DispatchEvent Job Output Error)) ↔ s.SettledBy outcome := by
  cases s <;> cases outcome <;> simp [settle, SettledBy] <;> split <;> simp_all

/-- An accepted verdict is held afterwards. -/
theorem settle_eq_ok {events : List (DispatchEvent Job Output Error)}
    (h : s.settle outcome = .ok events) :
    ∃ s', DispatchImpl.native.replay s events = .ok s' ∧ s'.SettledBy outcome := by
  revert h
  fun_cases settle s outcome <;> intro h
  case case2 | case4 | case6 | case8 | case9 | case10 | case11 | case12 => cases h
  all_goals obtain rfl := Except.ok.inj h
  case case1 jobId output attempts =>
      exact ⟨.confirmed jobId output attempts, replay_singleton_eq_ok.2 (if_pos rfl), rfl⟩
  case case3 jobId failure attempts =>
      exact ⟨.failed jobId failure attempts, replay_singleton_eq_ok.2 (if_pos rfl), rfl⟩
  case case5 => exact ⟨_, rfl, rfl⟩
  case case7 => exact ⟨_, rfl, rfl⟩

/-- A dispatch is accepted where its event can be folded. -/
theorem dispatch_eq_ok {job : Job} {kicked : JobDispatch Job Output Error}
    (h : s.dispatch job = .ok kicked) (jobId : JobId) :
    s.evolve (kicked jobId) = .ok (.inFlight jobId) := by
  cases s with
  | idle | failed =>
      obtain rfl := Except.ok.inj h
      rfl
  | inFlight | confirmed => cases h

end DispatchedJob

/-! ## Whole histories -/

namespace DispatchHistory

/-- The machine has not failed, and its state is what the emitted events fold into. -/
def Sound (history : DispatchHistory Job Output Error) : Prop :=
  ∃ s, history.state = .ok s ∧ DispatchedJob.Replays history.emitted s

end DispatchHistory

namespace DispatchImpl

open DispatchedJob

variable {history : DispatchHistory Job Output Error} {s : DispatchedJob Output Error}
  {command : DispatchCommand Job Output Error} {events : List (DispatchEvent Job Output Error)}

/-- The events of an accepted command can be folded. -/
theorem exists_replay_of_handle (h : native.handle s command = .ok events) :
    ∃ s', native.replay s events = .ok s' := by
  cases command with
  | dispatch jobId job =>
      cases hkick : s.dispatch job with
      | error refused => simp [handle, dispatch, hkick, Except.map] at h
      | ok kicked =>
          have hevents : events = [kicked jobId] := by
            simpa [handle, dispatch, hkick, Except.map, eq_comm] using h
          rw [hevents]
          exact ⟨_, replay_singleton_eq_ok.2 (dispatch_eq_ok hkick jobId)⟩
  | settle outcome =>
      obtain ⟨s', hs', -⟩ := settle_eq_ok h
      exact ⟨s', hs'⟩

theorem step_of_refused {refused : DispatchRefused} (hs : history.state = .ok s)
    (h : native.handle s command = .error refused) : native.step history command =
      { history with answers := history.answers ++ [.error refused] } := by
  simp only [step, hs, h]

theorem step_of_accepted (hs : history.state = .ok s) (h : native.handle s command = .ok events) :
    native.step history command =
      ⟨native.replay s events, history.emitted ++ events, history.answers ++ [.ok events]⟩ := by
  simp only [step, hs, h]

/-- A command keeps a history sound and adds to what was emitted. -/
theorem sound_step (h : history.Sound) (command : DispatchCommand Job Output Error) :
    (native.step history command).Sound ∧
      history.emitted <+: (native.step history command).emitted := by
  obtain ⟨s, hs, hreplay⟩ := h
  cases hanswer : native.handle s command with
  | error refused =>
      rw [step_of_refused hs hanswer]
      exact ⟨⟨s, hs, hreplay⟩, List.prefix_rfl⟩
  | ok events =>
      obtain ⟨s', hs'⟩ := exists_replay_of_handle hanswer
      rw [step_of_accepted hs hanswer]
      exact ⟨⟨s', hs', replay_append_eq_ok.2 ⟨s, hreplay, hs'⟩⟩, List.prefix_append ..⟩

theorem sound_exec (h : history.Sound) (commands : List (DispatchCommand Job Output Error)) :
    (native.machine.exec history commands).Sound ∧
      history.emitted <+: (native.machine.exec history commands).emitted := by
  refine Machine.exec_invariant (m := native.machine)
    (P := fun later : DispatchHistory Job Output Error =>
      later.Sound ∧ history.emitted <+: later.emitted) ?_ ⟨h, List.prefix_rfl⟩ commands
  rintro later command ⟨hlater, hemitted⟩
  obtain ⟨hnext, hmore⟩ := sound_step hlater command
  exact ⟨hnext, hemitted.trans hmore⟩

theorem sound_run (commands : List (DispatchCommand Job Output Error)) :
    (native.machine.run commands).Sound := by
  have hinit : (native.machine : Machine (DispatchHistory Job Output Error) _).init.Sound :=
    ⟨.idle, rfl, rfl⟩
  exact (sound_exec hinit commands).1

end DispatchImpl

namespace DispatchedJob.Replays

variable {log before middle after : List (DispatchEvent Job Output Error)}
  {s : DispatchedJob Output Error} {e e' : DispatchEvent Job Output Error} {jobId jobId' : JobId}

/-- Between two consecutive dispatches stands the failure of the first, and nothing else. -/
theorem between_dispatches (h : Replays (before ++ e :: (middle ++ e' :: after)) s)
    (he : e.dispatched? = some jobId) (he' : e'.dispatched? = some jobId')
    (hmiddle : ∀ e ∈ middle, e.dispatched? = none) :
    ∃ failure attempts, middle = [.failed jobId failure attempts] := by
  obtain ⟨t, t', -, hdispatch, hrest⟩ := split h
  obtain ⟨u, hu, hnext⟩ := replay_append_eq_ok.1 hrest
  obtain ⟨u', hu', -⟩ := replay_cons_eq_ok.1 hnext
  have ht' : t' = .inFlight jobId := by
    rcases evolve_eq_ok hdispatch with ⟨_, _, rfl, rfl, -⟩ | ⟨_, _, _, rfl, -⟩ | ⟨_, _, _, rfl, -⟩
    · cases he
      rfl
    · cases he
    · cases he
  have hidle : u = .idle ∨ ∃ old failure attempts, u = .failed old failure attempts := by
    rcases evolve_eq_ok hu' with ⟨_, _, -, -, hu⟩ | ⟨_, _, _, rfl, -⟩ | ⟨_, _, _, rfl, -⟩
    · exact hu
    · cases he'
    · cases he'
  subst ht'
  rcases replay_inFlight hu hmiddle with ⟨-, rfl⟩ | ⟨_, _, -, rfl⟩ | ⟨failure, attempts, hfailed, -⟩
  · rcases hidle with hidle | ⟨_, _, _, hidle⟩ <;> cases hidle
  · rcases hidle with hidle | ⟨_, _, _, hidle⟩ <;> cases hidle
  · exact ⟨failure, attempts, hfailed⟩

/-- Nothing follows a confirmation. -/
theorem eq_nil_of_confirmed (h : Replays (before ++ e :: after) s) (he : e.isConfirmed) :
    after = [] := by
  obtain ⟨t, t', -, hconfirm, hrest⟩ := split h
  rcases evolve_eq_ok hconfirm with ⟨_, _, rfl, -⟩ | ⟨_, _, _, -, -, rfl⟩ | ⟨_, _, _, rfl, -⟩
  · cases he
  · cases after with
    | nil => rfl
    | cons e after =>
        obtain ⟨u, hu, -⟩ := replay_cons_eq_ok.1 hrest
        cases e <;> cases hu
  · cases he

/-- A settlement names the job dispatched last. -/
theorem settled_eq (h : Replays (before ++ e :: after) s) (he : e.settled? = some jobId) :
    latestDispatched before = some jobId := by
  obtain ⟨t, t', hbefore, hsettle, -⟩ := split h
  rw [← hbefore.jobId_eq]
  rcases evolve_eq_ok hsettle with ⟨_, _, rfl, -⟩ | ⟨_, _, _, rfl, rfl, -⟩ | ⟨_, _, _, rfl, rfl, -⟩
  · cases he
  · exact he
  · exact he

theorem countP_isConfirmed (h : Replays log s) : log.countP DispatchEvent.isConfirmed ≤ 1 := by
  rcases List.eq_nil_or_concat' log with rfl | ⟨earlier, last, rfl⟩
  · exact Nat.zero_le 1
  · have hearlier : earlier.countP DispatchEvent.isConfirmed = 0 := by
      refine List.countP_eq_zero.2 fun e hmem he => ?_
      obtain ⟨before, after, rfl⟩ := List.append_of_mem hmem
      rw [List.append_assoc, List.cons_append] at h
      exact absurd (eq_nil_of_confirmed h he)
        (List.append_ne_nil_of_right_ne_nil _ (List.cons_ne_nil _ _))
    rw [List.countP_append, hearlier, Nat.zero_add]
    exact List.countP_le_length

end DispatchedJob.Replays

namespace DispatchImpl

open DispatchedJob

/-- Whatever commands arrive, in either implementation: folding never fails, the emitted events
replay to the state, a dispatch follows another only after its one failure, a confirmation ends the
history, and a settlement names the job dispatched last. Both implementations give the same
answers. -/
theorem dispatch_histories (impl : DispatchImpl)
    (commands : List (DispatchCommand Job Output Error)) :
    let history := impl.machine.run commands
    (∃ s, history.state = .ok s ∧ impl.replay .idle history.emitted = .ok s) ∧
      (∀ before e middle e' after jobId jobId',
        history.emitted = before ++ e :: (middle ++ e' :: after) → e.dispatched? = some jobId →
          e'.dispatched? = some jobId' → (∀ e ∈ middle, e.dispatched? = none) →
            middle.countP DispatchEvent.isFailed = 1) ∧
      history.emitted.countP DispatchEvent.isConfirmed ≤ 1 ∧
      (∀ before e after, history.emitted = before ++ e :: after → e.isConfirmed → after = []) ∧
      (∀ before e after jobId, history.emitted = before ++ e :: after → e.settled? = some jobId →
        latestDispatched before = some jobId) ∧
      history = native.machine.run commands := by
  intro history
  have hnative : history = native.machine.run commands :=
    congrArg (fun machine => machine.run commands) (machine_eq impl)
  obtain ⟨s, hs, hreplay⟩ : history.Sound := hnative ▸ sound_run commands
  refine ⟨⟨s, hs, ?_⟩, ?_, hreplay.countP_isConfirmed, ?_, ?_, hnative⟩
  · rw [replay_eq]
    exact hreplay
  · intro before e middle e' after jobId jobId' hemitted he he' hmiddle
    obtain ⟨failure, attempts, rfl⟩ := (hemitted ▸ hreplay).between_dispatches he he' hmiddle
    rfl
  · intro before e after hemitted he
    exact (hemitted ▸ hreplay).eq_nil_of_confirmed he
  · intro before e after jobId hemitted he
    exact (hemitted ▸ hreplay).settled_eq he

/-! ## Redelivery -/

/-- The verdict is accepted, emits nothing and leaves the state as it is. -/
def Absorbs (impl : DispatchImpl) (history : DispatchHistory Job Output Error)
    (outcome : DispatchOutcome Output Error) : Prop :=
  impl.step history (.settle outcome) = { history with answers := history.answers ++ [.ok []] }

variable {history : DispatchHistory Job Output Error} {s : DispatchedJob Output Error}
  {outcome : DispatchOutcome Output Error} {events : List (DispatchEvent Job Output Error)}

theorem absorbs_iff (hs : history.state = .ok s) :
    native.Absorbs history outcome ↔ s.SettledBy outcome := by
  constructor
  · intro h
    cases hanswer : native.handle s (.settle outcome : DispatchCommand Job Output Error) with
    | error refused =>
        rw [Absorbs, step_of_refused hs hanswer] at h
        cases List.append_cancel_left (congrArg DispatchHistory.answers h)
    | ok events =>
        rw [Absorbs, step_of_accepted hs hanswer] at h
        have hevents : events = [] := List.append_right_eq_self.1 (congrArg DispatchHistory.emitted h)
        exact settle_eq_nil_iff.1 (hevents ▸ hanswer)
  · intro h
    have hanswer : native.handle s (.settle outcome : DispatchCommand Job Output Error) = .ok [] :=
      settle_eq_nil_iff.2 h
    rw [Absorbs, step_of_accepted hs hanswer, List.append_nil, hs]
    rfl

/-- An accepted verdict leaves a machine that holds it. -/
theorem settledBy_step (hs : history.state = .ok s) (hreplay : Replays history.emitted s)
    (h : s.settle outcome = .ok events) :
    ∃ s', (native.step history (.settle outcome)).state = .ok s' ∧
      Replays (native.step history (.settle outcome)).emitted s' ∧ s'.SettledBy outcome := by
  obtain ⟨s', hs', hsettled⟩ := settle_eq_ok h
  have hstep : native.step history (.settle outcome) = _ := step_of_accepted hs h
  rw [hstep]
  exact ⟨s', hs', replay_append_eq_ok.2 ⟨s, hreplay, hs'⟩, hsettled⟩

/-- After an accepted verdict and any further commands, the machine holds that verdict as long as
the job dispatched last is the verdict's. -/
theorem settledBy_of_latestDispatched {history later : DispatchHistory Job Output Error}
    {s t : DispatchedJob Output Error} (hs : Replays history.emitted s)
    (ht : Replays later.emitted t) (hsettled : s.SettledBy outcome)
    (hlater : history.emitted <+: later.emitted)
    (hdistinct : (later.emitted.filterMap DispatchEvent.dispatched?).Nodup)
    (hlatest : latestDispatched later.emitted = some outcome.jobId) : t.SettledBy outcome := by
  obtain ⟨rest, hrest⟩ := hlater
  have hlast : latestDispatched history.emitted = some outcome.jobId := by
    rw [← hs.jobId_eq, hsettled.jobId_eq]
  rw [← hrest] at ht hdistinct hlatest
  have hnone : rest.filterMap DispatchEvent.dispatched? = [] := by
    by_contra hne
    rw [List.filterMap_append] at hdistinct
    rw [latestDispatched, List.filterMap_append, List.getLast?_append_of_ne_nil _ hne] at hlatest
    exact List.disjoint_of_nodup_append hdistinct (List.mem_of_getLast? hlast)
      (List.mem_of_getLast? hlatest)
  obtain ⟨s', hs', hreplay⟩ := replay_append_eq_ok.1 ht
  obtain rfl : s = s' := Except.ok.inj (hs.symm.trans hs')
  obtain rfl : rest = [] :=
    replay_eq_nil_of_settled hsettled.ne_inFlight hreplay (List.filterMap_eq_nil_iff.1 hnone)
  obtain rfl : s = t := Except.ok.inj hreplay
  exact hsettled

/-- A verdict accepted earlier is absorbed again exactly while no newer job has been dispatched. -/
theorem redelivered_verdict_absorbed_iff (impl : DispatchImpl)
    (before after : List (DispatchCommand Job Output Error))
    (outcome : DispatchOutcome Output Error) (s : DispatchedJob Output Error)
    (events : List (DispatchEvent Job Output Error))
    (hbefore : (impl.machine.run before).state = .ok s)
    (haccepted : impl.settle s outcome = .ok events)
    (hdistinct : ((impl.machine.run (before ++ .settle outcome :: after)).emitted.filterMap
      DispatchEvent.dispatched?).Nodup) :
    impl.Absorbs (impl.machine.run (before ++ .settle outcome :: after)) outcome ↔
      latestDispatched (impl.machine.run (before ++ .settle outcome :: after)).emitted =
        some outcome.jobId := by
  have hstep : (impl.Absorbs : DispatchHistory Job Output Error → _ → _) = native.Absorbs := by
    funext history outcome
    exact congrArg (fun machine => machine.step history (.settle outcome) = _) (machine_eq impl)
  rw [settle_eq] at haccepted
  rw [machine_eq impl] at hbefore hdistinct ⊢
  rw [hstep]
  rw [Machine.run_append, Machine.exec_cons] at hdistinct ⊢
  obtain ⟨s₀, hs₀, hreplay₀⟩ := sound_run before
  obtain rfl : s₀ = s := Except.ok.inj (hs₀.symm.trans hbefore)
  obtain ⟨s₁, hs₁, hreplay₁, hsettled₁⟩ := settledBy_step hs₀ hreplay₀ haccepted
  obtain ⟨⟨t, ht, hreplay⟩, hlater⟩ := sound_exec ⟨s₁, hs₁, hreplay₁⟩ after
  constructor
  · intro habsorbs
    have hsettled : t.SettledBy outcome := (absorbs_iff ht).1 habsorbs
    exact hreplay.jobId_eq.symm.trans hsettled.jobId_eq
  · intro hlatest
    exact (absorbs_iff ht).2
      (settledBy_of_latestDispatched hreplay₁ hreplay hsettled₁ hlater hdistinct hlatest)

/-- The failure of job "a" is absorbed when it comes again while no other job was dispatched. -/
theorem redelivered_failure_is_absorbed :
    haskell.Absorbs (haskell.machine.run
      [.dispatch "a" (), .settle (.failed "a" (.rejected ()) 1)] : DispatchHistory Unit Unit Unit)
      (.failed "a" (.rejected ()) 1) :=
  (redelivered_verdict_absorbed_iff haskell [.dispatch "a" ()] [] (.failed "a" (.rejected ()) 1)
    (.inFlight "a") [.failed "a" (.rejected ()) 1] (by decide +kernel) (by decide +kernel)
    (by decide +kernel)).2 (by decide +kernel)

/-- Once job "b" is in flight, the failure of job "a" is refused when it comes again. -/
theorem late_redelivery_is_refused :
    let commands : List (DispatchCommand Unit Unit Unit) :=
      [.dispatch "a" (), .settle (.failed "a" (.rejected ()) 1), .dispatch "b" (),
        .settle (.failed "a" (.rejected ()) 1)]
    (native.machine.run commands).answers = [.ok [.dispatched "a" ()],
        .ok [.failed "a" (.rejected ()) 1], .ok [.dispatched "b" ()], .error .outcomeMismatch] ∧
      haskell.machine.run commands = native.machine.run commands := by
  refine ⟨by decide +kernel, ?_⟩
  rw [machine_eq haskell]

end DispatchImpl

end EventSorcery
