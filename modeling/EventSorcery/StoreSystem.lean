import EventSorcery.Store
import EventSorcery.Lib.Machine

/-!
# Every interleaving of writers, readers and compaction on one stream

The state is the database, the calls of `Store::send` and `Store::load` in flight, and the history
of the stream. One operation is one read or one transaction of a call, so that the reads, the handler
and the commit of one call interleave freely with those of all others; everything outside the stream
may change at any time. `Change` says what one operation can do. `Inv` is what holds between
operations: on a retained stream always, on a compacted one as long as every operation is `Safe`.
-/

namespace EventSorcery

namespace StoreSystem

section Defs

variable (Entity Event Command Error : Type)

/-- Where a call stands. -/
inductive Phase where
  | start
  | snapshotRead (ctx : AggregateContext Entity Event Error)
  | loaded (ctx : AggregateContext Entity Event Error)
  | handled (ctx : AggregateContext Entity Event Error) (events : List Event)
      (pending : List PendingPush)

/-- A call in flight: a command with the id its dispatch would draw, or a load (`none`). `began` is
the number of events committed before it began. -/
structure Call where
  request : Option (Command × JobId)
  began : ℕ
  phase : Phase Entity Event Error

structure State where
  db : Db
  calls : List (Call Entity Event Command Error)
  /-- The events of all commits so far, in commit order. -/
  log : List Event

/-- What a call returns to its caller. -/
inductive Answer where
  | sent (events : List Event)
  | loaded (result : Except (LifecycleError Entity Event Error) (Option Entity))
  | failed (error : SendError Entity Event Error)

/-- One operation; calls in flight are named by their position. `abandon` is a call that is dropped,
crashes or fails on a read, `elsewhere` any change to other streams and to the queue. -/
inductive Op where
  | call (request : Option (Command × JobId))
  | readSnapshot (i : ℕ)
  | readEvents (i : ℕ)
  | handle (i : ℕ)
  | commit (i : ℕ) (fault : Option EngineError) (clock : ℕ → ℤ)
  | abandon (i : ℕ)
  | compact
  | elsewhere (other : Db)

end Defs

variable {Entity Event Command Error : Type}

/-- The call `i` goes on as `call`. -/
def State.put (s : State Entity Event Command Error) (i : ℕ)
    (call : Call Entity Event Command Error) : State Entity Event Command Error :=
  { s with calls := s.calls.set i call }

/-- The call `i` has returned. -/
def State.finish (s : State Entity Event Command Error) (i : ℕ) :
    State Entity Event Command Error :=
  { s with calls := s.calls.eraseIdx i }

/-- The tables of `other`, with the rows `db` has of the stream `t`. -/
def replaceElsewhere (db other : Db) (t : StreamIdentity) : Db where
  events := other.events.insert t (db.stream t)
  snapshots :=
    match db.snapshots.lookup t with
    | none => other.snapshots.erase t
    | some row => other.snapshots.insert t row
  jobQueue := other.jobQueue

theorem stream_replaceElsewhere (db other : Db) (t : StreamIdentity) :
    (replaceElsewhere db other t).stream t = db.stream t := by
  simp [replaceElsewhere, Db.stream]

theorem snapshots_replaceElsewhere (db other : Db) (t : StreamIdentity) :
    (replaceElsewhere db other t).snapshots.lookup t = db.snapshots.lookup t := by
  simp only [replaceElsewhere]
  cases h : db.snapshots.lookup t with
  | none => exact AList.lookup_erase _ _
  | some row => exact AList.lookup_insert _

variable (K : CqrsEs) (E : EventSourced Entity Event Command Error) (id : String)

/-- What an operation does, and what the call it finishes returns; one that is not enabled does
nothing. A dispatch draws an id that is not the stream's own. -/
def act (s : State Entity Event Command Error) :
    Op Command → State Entity Event Command Error × Option (Answer Entity Event Error)
  | .call request => ({ s with calls := s.calls ++ [⟨request, s.log.length, .start⟩] }, none)
  | .readSnapshot i =>
      match s.calls[i]? with
      | some ⟨request, began, .start⟩ =>
          match getSnapshot E (s.db.snapshots.lookup (E.stream id)) with
          | .error error => (s.finish i, some (.failed (.ofPersistence error)))
          | .ok snapshot => (s.put i ⟨request, began, .snapshotRead (startContext E snapshot)⟩, none)
      | _ => (s, none)
  | .readEvents i =>
      match s.calls[i]? with
      | some ⟨request, began, .snapshotRead ctx⟩ =>
          match replayRows E ctx ((s.db.stream (E.stream id)).after ctx.currentSequence), request with
          | none, _ => (s.finish i, some (.failed .deserialization))
          | some ctx', none => (s.finish i, some (.loaded ctx'.aggregate.intoResult))
          | some ctx', some request => (s.put i ⟨some request, began, .loaded ctx'⟩, none)
      | _ => (s, none)
  | .handle i =>
      match s.calls[i]? with
      | some ⟨some (command, mint), began, .loaded ctx⟩ =>
          match ctx.aggregate.handle E command mint (some []) with
          | (.error error, _) => (s.finish i, some (.failed (.userError error)))
          | (.ok events, scope) =>
              if ∀ push ∈ scope.getD [], jobStream push.jobId ≠ E.stream id then
                (s.put i ⟨some (command, mint), began, .handled ctx events (scope.getD [])⟩, none)
              else (s, none)
      | _ => (s, none)
  | .commit i fault clock =>
      match s.calls[i]? with
      | some ⟨_, _, .handled ctx events pending⟩ =>
          let committed := K.commitEvents E fault clock id ctx events (some pending) s.db
          match committed.1 with
          | .error error =>
              ({ s.finish i with db := committed.2.2 }, some (.failed (.ofPersistence error)))
          | .ok () =>
              ({ s.finish i with db := committed.2.2, log := s.log ++ events }, some (.sent events))
      | _ => (s, none)
  | .abandon i => (s.finish i, none)
  | .compact => ({ s with db := compactEvents E s.db }, none)
  | .elsewhere other => ({ s with db := replaceElsewhere s.db other (E.stream id) }, none)

def step (s : State Entity Event Command Error) (op : Op Command) :
    State Entity Event Command Error :=
  (act K E id s op).1

/-- What the operation's call returns to its caller, if it returns. -/
def answer (s : State Entity Event Command Error) (op : Op Command) :
    Option (Answer Entity Event Error) :=
  (act K E id s op).2

/-! ## What one operation can do -/

/-- The new state and the answer of an operation. -/
inductive Change (s : State Entity Event Command Error) :
    Op Command → State Entity Event Command Error → Option (Answer Entity Event Error) → Prop where
  | idle {op : Op Command} : Change s op s none
  | began (request : Option (Command × JobId)) :
      Change s (.call request)
        { s with calls := s.calls ++ [⟨request, s.log.length, .start⟩] } none
  | unreadableSnapshot {i : ℕ} {request : Option (Command × JobId)} {began : ℕ}
      {error : PersistenceError} (inFlight : s.calls[i]? = some ⟨request, began, .start⟩)
      (read : getSnapshot E (s.db.snapshots.lookup (E.stream id)) = .error error) :
      Change s (.readSnapshot i) (s.finish i) (some (.failed (.ofPersistence error)))
  | snapshotRead {i : ℕ} {request : Option (Command × JobId)} {began : ℕ}
      {snapshot : Option SnapshotRow} (inFlight : s.calls[i]? = some ⟨request, began, .start⟩)
      (read : getSnapshot E (s.db.snapshots.lookup (E.stream id)) = .ok snapshot) :
      Change s (.readSnapshot i) (s.put i ⟨request, began, .snapshotRead (startContext E snapshot)⟩)
        none
  | unreadableEvents {i : ℕ} {request : Option (Command × JobId)} {began : ℕ}
      {ctx : AggregateContext Entity Event Error}
      (inFlight : s.calls[i]? = some ⟨request, began, .snapshotRead ctx⟩)
      (read : replayRows E ctx ((s.db.stream (E.stream id)).after ctx.currentSequence) = none) :
      Change s (.readEvents i) (s.finish i) (some (.failed .deserialization))
  | read {i began : ℕ} {ctx ctx' : AggregateContext Entity Event Error}
      (inFlight : s.calls[i]? = some ⟨none, began, .snapshotRead ctx⟩)
      (read : replayRows E ctx ((s.db.stream (E.stream id)).after ctx.currentSequence) =
        some ctx') :
      Change s (.readEvents i) (s.finish i) (some (.loaded ctx'.aggregate.intoResult))
  | loaded {i began : ℕ} {request : Command × JobId} {ctx ctx' : AggregateContext Entity Event Error}
      (inFlight : s.calls[i]? = some ⟨some request, began, .snapshotRead ctx⟩)
      (read : replayRows E ctx ((s.db.stream (E.stream id)).after ctx.currentSequence) =
        some ctx') :
      Change s (.readEvents i) (s.put i ⟨some request, began, .loaded ctx'⟩) none
  | refused {i began : ℕ} {command : Command} {mint : JobId}
      {ctx : AggregateContext Entity Event Error} {error : LifecycleError Entity Event Error}
      (inFlight : s.calls[i]? = some ⟨some (command, mint), began, .loaded ctx⟩)
      (decided : (ctx.aggregate.handle E command mint (some [])).1 = .error error) :
      Change s (.handle i) (s.finish i) (some (.failed (.userError error)))
  | handled {i began : ℕ} {command : Command} {mint : JobId}
      {ctx : AggregateContext Entity Event Error} {events : List Event} {pending : List PendingPush}
      (inFlight : s.calls[i]? = some ⟨some (command, mint), began, .loaded ctx⟩)
      (decided : ctx.aggregate.handle E command mint (some []) = (.ok events, some pending))
      (fresh : ∀ push ∈ pending, jobStream push.jobId ≠ E.stream id) :
      Change s (.handle i) (s.put i ⟨some (command, mint), began, .handled ctx events pending⟩) none
  | uncommitted {i : ℕ} {fault : Option EngineError} {clock : ℕ → ℤ}
      {request : Option (Command × JobId)} {began : ℕ}
      {ctx : AggregateContext Entity Event Error} {events : List Event} {pending : List PendingPush}
      {error : PersistenceError}
      (inFlight : s.calls[i]? = some ⟨request, began, .handled ctx events pending⟩)
      (result : (K.commitEvents E fault clock id ctx events (some pending) s.db).1 = .error error) :
      Change s (.commit i fault clock) (s.finish i) (some (.failed (.ofPersistence error)))
  | committed {i : ℕ} {fault : Option EngineError} {clock : ℕ → ℤ}
      {request : Option (Command × JobId)} {began : ℕ}
      {ctx : AggregateContext Entity Event Error} {events : List Event} {pending : List PendingPush}
      (inFlight : s.calls[i]? = some ⟨request, began, .handled ctx events pending⟩)
      (result : (K.commitEvents E fault clock id ctx events (some pending) s.db).1 = .ok ()) :
      Change s (.commit i fault clock)
        { s.finish i with
          db := (K.commitEvents E fault clock id ctx events (some pending) s.db).2.2
          log := s.log ++ events }
        (some (.sent events))
  | dropped (i : ℕ) : Change s (.abandon i) (s.finish i) none
  | compacted : Change s .compact { s with db := compactEvents E s.db } none
  | elsewhere (other : Db) :
      Change s (.elsewhere other) { s with db := replaceElsewhere s.db other (E.stream id) } none

/-- **What an operation can do.** -/
theorem act_change (s : State Entity Event Command Error) (op : Op Command) :
    Change K E id s op (step K E id s op) (answer K E id s op) := by
  unfold step answer
  cases op with
  | call request => exact .began request
  | readSnapshot i =>
      rw [act]
      split
      next request began hcall =>
        split
        next error hread => exact .unreadableSnapshot hcall hread
        next snapshot hread => exact .snapshotRead hcall hread
      next => exact .idle
  | readEvents i =>
      rw [act]
      split
      next request began ctx hcall =>
        split
        next hread => exact .unreadableEvents hcall hread
        next ctx' hread => exact .read hcall hread
        next ctx' request hread => exact .loaded hcall hread
      next => exact .idle
  | handle i =>
      rw [act]
      split
      next command mint began ctx hcall =>
        split
        next error scope hhandle => exact .refused hcall (congrArg Prod.fst hhandle)
        next events scope hhandle =>
          obtain ⟨pending, hscope⟩ := handle_scope E ctx.aggregate command mint []
          obtain rfl : scope = some pending := (congrArg Prod.snd hhandle).symm.trans hscope
          split_ifs with hfresh
          · exact .handled hcall hhandle hfresh
          · exact .idle
      next => exact .idle
  | commit i fault clock =>
      rw [act]
      split
      next request began ctx events pending hcall =>
        dsimp only
        split
        next error hresult =>
          have hdb : (K.commitEvents E fault clock id ctx events (some pending) s.db).2.2 = s.db :=
            congrArg Prod.snd (persist_error hresult)
          rw [hdb]
          exact .uncommitted hcall hresult
        next hresult => exact .committed hcall hresult
      next => exact .idle
  | abandon i => exact .dropped i
  | compact => exact .compacted
  | elsewhere other => exact .elsewhere other

/-! ## The invariant -/

/-- What a call in flight knows of the history. -/
def CallOk (log : List Event) (call : Call Entity Event Command Error) : Prop :=
  match call.phase with
  | .start => call.began ≤ log.length
  | .snapshotRead ctx => FoldAt E ctx log ∧ call.began ≤ log.length ∧
      (E.compactionPolicy = .compactAfterSnapshot → call.began ≤ ctx.currentSequence)
  | .loaded ctx => FoldAt E ctx log ∧ call.began ≤ ctx.currentSequence
  | .handled ctx events pending => FoldAt E ctx log ∧ call.began ≤ ctx.currentSequence ∧
      (∃ command mint, call.request = some (command, mint) ∧
        ctx.aggregate.handle E command mint (some []) = (.ok events, some pending)) ∧
      ∀ push ∈ pending, jobStream push.jobId ≠ E.stream id

/-- What holds between operations. -/
structure Inv (s : State Entity Event Command Error) : Prop where
  holds : ∃ base covered, StreamHolds E s.db id s.log base covered ∧
    (E.compactionPolicy = .retain → base = 0) ∧ (E.snapshotSize = 1 → covered = s.log.length)
  calls : ∀ call ∈ s.calls, CallOk E id s.log call

/-- No read skips events that compaction took away after the snapshot was read, and no commit whose
load was overtaken finds its numbers free again: it has events to commit, its version is not the
stream's, and none of its numbers has a row. -/
def Safe (s : State Entity Event Command Error) : Op Command → Prop
  | .readEvents i => ∀ call ∈ s.calls[i]?,
      match call.phase with
      | .snapshotRead ctx =>
          Contiguous ctx ((s.db.stream (E.stream id)).after ctx.currentSequence)
      | _ => True
  | .commit i _ _ => ∀ call ∈ s.calls[i]?,
      match call.phase with
      | .handled ctx events _ => events = [] ∨
          committedStreamVersion s.db (E.stream id) = ctx.currentSequence ∨
          NumberTaken E id s.db ctx events
      | _ => True
  | _ => True

/-- `Safe` for the operation on one call. -/
def Safe.decidableCall (s : State Entity Event Command Error) [DecidableEq Event] :
    (op : Op Command) → Decidable (Safe E id s op)
  | .readEvents i =>
      match h : s.calls[i]? with
      | none => isTrue fun call hcall => by rw [h] at hcall; cases hcall
      | some ⟨request, began, .snapshotRead ctx⟩ =>
          decidable_of_iff
            (Contiguous ctx ((s.db.stream (E.stream id)).after ctx.currentSequence))
            (by simp [Safe, h])
      | some ⟨_, _, .start⟩ | some ⟨_, _, .loaded _⟩ | some ⟨_, _, .handled _ _ _⟩ =>
          isTrue (by simp [Safe, h])
  | .commit i _ _ =>
      match h : s.calls[i]? with
      | none => isTrue fun call hcall => by rw [h] at hcall; cases hcall
      | some ⟨request, began, .handled ctx events _⟩ =>
          decidable_of_iff (events = [] ∨
            committedStreamVersion s.db (E.stream id) = ctx.currentSequence ∨
            NumberTaken E id s.db ctx events) (by simp [Safe, h])
      | some ⟨_, _, .start⟩ | some ⟨_, _, .snapshotRead _⟩ | some ⟨_, _, .loaded _⟩ =>
          isTrue (by simp [Safe, h])
  | .call _ | .readSnapshot _ | .handle _ | .abandon _ | .compact | .elsewhere _ => isTrue trivial

instance (s : State Entity Event Command Error) [DecidableEq Event] (op : Op Command) :
    Decidable (Safe E id s op) :=
  Safe.decidableCall E id s op

variable {K E id} {s : State Entity Event Command Error}

theorem CallOk.append {log : List Event} {call : Call Entity Event Command Error}
    (h : CallOk E id log call) (events : List Event) : CallOk E id (log ++ events) call := by
  have hlen : log.length ≤ (log ++ events).length := by simp
  unfold CallOk at *
  split at h
  next => exact h.trans hlen
  next => exact ⟨h.1.append events, h.2.1.trans hlen, h.2.2⟩
  next => exact ⟨h.1.append events, h.2⟩
  next => exact ⟨h.1.append events, h.2⟩

theorem Inv.init : Inv E id (⟨.empty, [], []⟩ : State Entity Event Command Error) :=
  ⟨⟨0, 0, .empty E id, fun _ => rfl, fun _ => rfl⟩, by simp⟩

theorem Inv.call (inv : Inv E id s) {i : ℕ} {call : Call Entity Event Command Error}
    (h : s.calls[i]? = some call) : CallOk E id s.log call :=
  inv.calls call (List.mem_of_getElem? h)

/-- A call that goes on keeps the invariant if what it now knows is right. -/
theorem Inv.put (inv : Inv E id s) (i : ℕ) {call : Call Entity Event Command Error}
    (hcall : CallOk E id s.log call) : Inv E id (s.put i call) := by
  refine ⟨inv.holds, fun c hc => ?_⟩
  rcases List.mem_or_eq_of_mem_set hc with hmem | rfl
  · exact inv.calls c hmem
  · exact hcall

theorem Inv.finish (inv : Inv E id s) (i : ℕ) : Inv E id (s.finish i) :=
  ⟨inv.holds, fun c hc => inv.calls c (List.mem_of_mem_eraseIdx hc)⟩

/-- On a retained stream every operation is safe. -/
theorem Inv.safe_of_retain (inv : Inv E id s) (hpol : E.compactionPolicy = .retain)
    (op : Op Command) : Safe E id s op := by
  obtain ⟨base, covered, hholds, hbase, -⟩ := inv.holds
  obtain rfl := hbase hpol
  unfold Safe
  split
  next i =>
    intro call hcall
    split
    next ctx hphase =>
      rw [hholds.after (Nat.zero_le _)]
      intro row hrow
      exact SeqLog.head?_rowsFrom hrow
    next => trivial
  next i fault clock =>
    intro call hcall
    split
    next ctx events pending hphase =>
      have hok := inv.call hcall
      simp only [CallOk, hphase] at hok
      rw [hholds.committedStreamVersion]
      by_cases hne : events = []
      · exact .inl hne
      · rcases hok.1.le.eq_or_lt with heq | hlt
        · exact .inr (.inl heq.symm)
        · exact .inr (.inr (hholds.taken_of_lt (Nat.zero_le _) hlt hne))
    next => trivial
  next => trivial

/-- A safe read of the events succeeds, and ends at the fold of a prefix with everything committed
before its call began. -/
theorem Inv.readEvents (inv : Inv E id s) {i began : ℕ} {request : Option (Command × JobId)}
    {ctx : AggregateContext Entity Event Error}
    (hcall : s.calls[i]? = some ⟨request, began, .snapshotRead ctx⟩)
    (hsafe : Safe E id s (.readEvents i)) :
    ∃ ctx', replayRows E ctx ((s.db.stream (E.stream id)).after ctx.currentSequence) = some ctx' ∧
      FoldAt E ctx' s.log ∧ began ≤ ctx'.currentSequence := by
  obtain ⟨base, covered, hholds, hbase, -⟩ := inv.holds
  obtain ⟨hctx, hbegan, hcompact⟩ := inv.call hcall
  obtain ⟨ctx', hread, hfold, hle, hfull⟩ := replayRows_foldAt hholds hctx
    (.inr (hsafe _ hcall))
  refine ⟨ctx', hread, hfold, ?_⟩
  cases hpol : E.compactionPolicy with
  | retain =>
      rw [hfull (hbase hpol ▸ Nat.zero_le _)]
      exact hbegan
  | compactAfterSnapshot => exact (hcompact hpol).trans hle

/-- A safe commit that succeeds had nothing to write, or wrote from the current version. -/
theorem Inv.commit_current (inv : Inv E id s) {i began : ℕ} {fault : Option EngineError}
    {clock : ℕ → ℤ} {request : Option (Command × JobId)}
    {ctx : AggregateContext Entity Event Error} {events : List Event} {pending : List PendingPush}
    (hcall : s.calls[i]? = some ⟨request, began, .handled ctx events pending⟩)
    (hresult : (K.commitEvents E fault clock id ctx events (some pending) s.db).1 = .ok ())
    (hsafe : Safe E id s (.commit i fault clock)) :
    CommitEffect K E s.db (K.commitEvents E fault clock id ctx events (some pending) s.db).2.2 id
        ctx events pending ∧
      (events = [] ∨ ctx.currentSequence = s.log.length) := by
  obtain ⟨base, covered, hholds, -⟩ := inv.holds
  obtain ⟨-, -, -, hfresh⟩ := inv.call hcall
  have heff := commitEvents_ok hfresh hresult
  refine ⟨heff, ?_⟩
  rcases hsafe _ hcall with hnil | hversion | htaken
  · exact .inl hnil
  · exact .inr (hholds.committedStreamVersion ▸ hversion.symm)
  · exact absurd htaken heff.not_taken

section Step

variable (hwhole : SnapshotsWhole E)
  (hcompact : E.compactionPolicy = .compactAfterSnapshot → E.snapshotSize = 1)

include hwhole in
/-- The tables after a safe commit. -/
theorem Inv.commit (inv : Inv E id s) {i began : ℕ} {fault : Option EngineError}
    {clock : ℕ → ℤ} {request : Option (Command × JobId)}
    {ctx : AggregateContext Entity Event Error} {events : List Event} {pending : List PendingPush}
    (hcall : s.calls[i]? = some ⟨request, began, .handled ctx events pending⟩)
    (hresult : (K.commitEvents E fault clock id ctx events (some pending) s.db).1 = .ok ())
    (hsafe : Safe E id s (.commit i fault clock)) :
    ∃ base covered, StreamHolds E
        (K.commitEvents E fault clock id ctx events (some pending) s.db).2.2 id (s.log ++ events)
        base covered ∧
      (E.compactionPolicy = .retain → base = 0) ∧
      (E.snapshotSize = 1 → covered = (s.log ++ events).length) := by
  obtain ⟨heff, hcur⟩ := inv.commit_current hcall hresult hsafe
  obtain ⟨base, covered, hholds, hbase, hone⟩ := inv.holds
  obtain ⟨hctx, -, ⟨command, mint, -, hhandle⟩, -⟩ := inv.call hcall
  rcases hcur with rfl | hcur
  · rw [List.append_nil]
    exact ⟨base, covered, hholds.commit_nil heff, hbase, hone⟩
  · have hlive := Lifecycle.applyAll_of_handle_eq_ok E (hctx.isFailed hholds.live)
      (congrArg Prod.fst hhandle)
    refine ⟨base, _, hholds.commit hctx heff hcur hlive
      (hwhole.commitSnapshotToEvent hhandle K ctx.currentSequence), hbase, fun hsize => ?_⟩
    -- A snapshot of size one covers the whole batch; an empty batch leaves the old one.
    rw [hsize, K.size_one]
    split_ifs with hzero
    · rw [hone hsize, List.length_eq_zero_iff.1 hzero, List.append_nil]
    · rfl

include hwhole hcompact in
/-- **One operation keeps the invariant**, if it is safe. -/
theorem inv_step (inv : Inv E id s) (op : Op Command) (hsafe : Safe E id s op) :
    Inv E id (step K E id s op) := by
  have hchange := act_change K E id s op
  generalize step K E id s op = s' at hchange ⊢
  generalize answer K E id s op = out at hchange
  cases hchange with
  | idle => exact inv
  | began request =>
      refine ⟨inv.holds, fun call hmem => ?_⟩
      rcases List.mem_append.1 hmem with hmem | hmem
      · exact inv.calls call hmem
      · obtain rfl := List.mem_singleton.1 hmem
        exact le_rfl
  | unreadableSnapshot hcall hread => exact inv.finish _
  | snapshotRead hcall hread =>
      obtain ⟨base, covered, hholds, -, hone⟩ := inv.holds
      obtain ⟨hfold, hseq⟩ := startContext_foldAt hholds hread
      refine inv.put _ ⟨hfold, inv.call hcall, fun hpol => ?_⟩
      rw [hseq hpol, hone (hcompact hpol)]
      exact inv.call hcall
  | unreadableEvents hcall hread => exact inv.finish _
  | read hcall hread => exact inv.finish _
  | loaded hcall hread =>
      obtain ⟨ctx', hread', hfold⟩ := inv.readEvents hcall hsafe
      obtain rfl := Option.some.inj (hread'.symm.trans hread)
      exact inv.put _ hfold
  | refused hcall hdecided => exact inv.finish _
  | handled hcall hdecided hfresh =>
      obtain ⟨hfold, hbegan⟩ := inv.call hcall
      exact inv.put _ ⟨hfold, hbegan, ⟨_, _, rfl, hdecided⟩, hfresh⟩
  | uncommitted hcall hresult => exact inv.finish _
  | committed hcall hresult =>
      refine ⟨inv.commit hwhole hcall hresult hsafe, fun call hmem => ?_⟩
      exact (inv.calls call (List.mem_of_mem_eraseIdx hmem)).append _
  | dropped i => exact inv.finish i
  | compacted =>
      obtain ⟨base, covered, hholds, hbase, hone⟩ := inv.holds
      obtain ⟨base', hholds', hsame⟩ := hholds.compact
      exact ⟨⟨base', covered, hholds', fun hpol => (hsame hpol).trans (hbase hpol), hone⟩,
        inv.calls⟩
  | elsewhere other =>
      obtain ⟨base, covered, hholds, hbase, hone⟩ := inv.holds
      exact ⟨⟨base, covered, hholds.of_same (stream_replaceElsewhere _ _ _)
        (snapshots_replaceElsewhere _ _ _), hbase, hone⟩, inv.calls⟩

end Step

end StoreSystem

open StoreSystem in
/-- The writers, readers and compaction runs of one stream of an entity, from an empty database. -/
def storeSystem {Entity Event Command Error : Type} (K : CqrsEs)
    (E : EventSourced Entity Event Command Error) (id : String) :
    Machine (State Entity Event Command Error) (Op Command) where
  init := ⟨.empty, [], []⟩
  step := StoreSystem.step K E id

end EventSorcery
