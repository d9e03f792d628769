import EventSorcery.CatchUp
import EventSorcery.Store

/-!
# The numbers of a retained stream

A stream that is never compacted holds its whole history under the numbers from 1 on, whatever its
snapshots are worth: a snapshot that lost events makes a handler decide on a wrong state, but the
events it then commits still follow the last one. `Numbered` is this weaker fact; it needs the event
codec only, so it does not depend on the version of the code that wrote the events.
-/

namespace EventSorcery

section Retained

variable {Entity Event Command Error : Type}

/-- The stream holds these events under the numbers from 1 on, and no snapshot is ahead of it. -/
structure Numbered (codec : Codec Event) (db : Db) (s : StreamIdentity) (log : List Event) :
    Prop where
  stream : ∃ rows : List StoredEvent, db.stream s = SeqLog.ofList 0 rows ∧
    rows.map (fun x => codec.decode x.payload) = log.map some
  snapshot : ∀ row, db.snapshots.lookup s = some row → row.lastSequence ≤ log.length
  bounded : log.length ≤ i64Max

variable {E : EventSourced Entity Event Command Error} {K : CqrsEs} {db db' : Db} {id : String}
  {s : StreamIdentity} {codec : Codec Event} {log events : List Event}

theorem Numbered.empty (codec : Codec Event) (s : StreamIdentity) : Numbered codec .empty s [] :=
  ⟨⟨[], rfl, rfl⟩, nofun, Nat.zero_le _⟩

theorem Numbered.of_same (h : Numbered codec db s log) (hstream : db'.stream s = db.stream s)
    (hsnap : ∀ row, db'.snapshots.lookup s = some row → db.snapshots.lookup s = some row) :
    Numbered codec db' s log :=
  ⟨hstream ▸ h.stream, fun row hrow => h.snapshot row (hsnap row hrow), h.bounded⟩

theorem decodeRows_of_map {rows : List StoredEvent} {log : List Event} (q : ℕ)
    (h : rows.map (fun x => E.eventCodec.decode x.payload) = log.map some) :
    decodeRows E (SeqLog.rowsFrom q rows) = some (SeqLog.rowsFrom q log) := by
  induction rows generalizing q log with
  | nil =>
      obtain rfl := List.map_eq_nil_iff.1 h.symm
      rfl
  | cons x rows ih =>
      obtain ⟨event, log, rfl⟩ : ∃ event log', log = event :: log' := by
        cases log with
        | nil => cases h
        | cons event log => exact ⟨event, log, rfl⟩
      obtain ⟨hx, hrows⟩ := List.cons.inj h
      exact decodeRows_cons.2 ⟨event, _, hx, ih (q + 1) hrows, rfl⟩

/-- The stream reads back as its history. -/
theorem Numbered.decodeRows (h : Numbered E.eventCodec db (E.stream id) log) :
    decodeRows E (db.stream (E.stream id)).rows = some (SeqLog.rowsFrom 1 log) := by
  obtain ⟨rows, hstream, hrows⟩ := h.stream
  rw [hstream]
  exact decodeRows_of_map 1 hrows

/-! ## Commits -/

theorem stored_decodes (events : List Event) :
    (events.map E.stored).map (fun x => E.eventCodec.decode x.payload) = events.map some := by
  rw [List.map_map]
  exact List.map_congr_left fun event _ => E.eventCodec.decode_encode event

/-- A commit that succeeded fits the sequence column. -/
theorem commitEvents_bounded {fault : Option EngineError} {clock : ℕ → ℤ}
    {ctx : AggregateContext Entity Event Error} {scope : PendingScope}
    (h : (K.commitEvents E fault clock id ctx events scope db).1 = .ok ()) (hne : events ≠ []) :
    ctx.currentSequence + events.length ≤ i64Max := by
  obtain ⟨-, requests, count, -, hcommit⟩ := persist_ok h
  obtain ⟨-, -, db₁, db₂, hins, -, -⟩ := commitSerialized_ok (congrArg Prod.fst hcommit)
  have hpos := List.length_pos_iff.2 hne
  -- The last row of the batch has the greatest number.
  obtain ⟨event, hevent⟩ : ∃ event, events[events.length - 1]? = some event :=
    ⟨_, List.getElem?_eq_getElem (by omega)⟩
  have hlast : (consecutive (E.stream id) (ctx.currentSequence + 1)
      (events.map E.stored))[events.length - 1]? = some ((E.stored event).serialized (E.stream id)
        (ctx.currentSequence + 1 + (events.length - 1))) := by
    rw [getElem?_consecutive, List.getElem?_map, hevent]
    rfl
  have hle := (insertSerializedEventsBatch_eq_ok.1 hins).1 _ (List.mem_of_getElem? hlast)
  rw [StoredEvent.sequence_serialized] at hle
  omega

/-- A commit from a load that is not ahead of the stream writes nothing, or goes in right behind the
last event. -/
theorem Numbered.commit {pending : List PendingPush} {ctx : AggregateContext Entity Event Error}
    (h : Numbered E.eventCodec db (E.stream id) log)
    (heff : CommitEffect K E db db' id ctx events pending) (hle : ctx.currentSequence ≤ log.length)
    (hbound : events ≠ [] → ctx.currentSequence + events.length ≤ i64Max) :
    Numbered E.eventCodec db' (E.stream id) (log ++ events) ∧
      (events ≠ [] → ctx.currentSequence = log.length) := by
  obtain ⟨rows, hstream, hrows⟩ := h.stream
  have hlen : rows.length = log.length := by simpa using congrArg List.length hrows
  have hins := heff.stream
  by_cases hne : events = []
  · subst hne
    rw [List.append_nil]
    refine ⟨h.of_same (Option.some.inj hins).symm fun row hrow => ?_, fun hnil => absurd rfl hnil⟩
    have hk := K.le_numEvents E.snapshotSize ctx.currentSequence ([] : List Event).length
    have hsnap := heff.snapshot
    dsimp only at hsnap
    rw [if_pos (by simpa using hk)] at hsnap
    exact hsnap ▸ hrow
  · -- A number up to the last event's is taken.
    have hcur : ctx.currentSequence = log.length := by
      refine le_antisymm hle (not_lt.1 fun hlt => ?_)
      rw [hstream, SeqLog.insertFrom?_ofList_taken (Nat.succ_pos _) (by omega)
        (by simpa using hne)] at hins
      cases hins
    refine ⟨⟨⟨rows ++ events.map E.stored, ?_, ?_⟩, fun row hrow => ?_, ?_⟩, fun _ => hcur⟩
    · have hnext := SeqLog.insertFrom?_ofList_next 0 rows (events.map E.stored)
      rw [Nat.zero_add, hlen, ← hcur, ← hstream, hins] at hnext
      exact Option.some.inj hnext
    · rw [List.map_append, List.map_append, hrows, stored_decodes]
    · have hsnap := heff.snapshot
      dsimp only at hsnap
      rw [hrow] at hsnap
      rw [List.length_append]
      split_ifs at hsnap
      · exact (h.snapshot row hsnap.symm).trans (Nat.le_add_right _ _)
      · obtain rfl := Option.some.inj hsnap
        exact Nat.add_le_add_right hle _
    · rw [List.length_append, ← hcur]
      exact hbound hne

/-! ## Loads -/

theorem replayRows_sequence {ctx ctx' : AggregateContext Entity Event Error}
    {rows : List (ℕ × StoredEvent)} (h : replayRows E ctx rows = some ctx') :
    ctx'.currentSequence = (rows.getLast?.map Prod.fst).getD ctx.currentSequence := by
  induction rows generalizing ctx with
  | nil => rw [← Option.some.inj h]; rfl
  | cons row rows ih =>
      obtain ⟨q, x⟩ := row
      rw [replayRows] at h
      split at h
      · cases h
      · rw [ih h, List.getLast?_cons]
        cases rows.getLast? <;> rfl

/-- The snapshot read answers with the stored row. -/
theorem getSnapshot_eq_ok {row snapshot : Option SnapshotRow} (h : getSnapshot E row = .ok snapshot) :
    snapshot = row := by
  unfold getSnapshot at h
  split at h
  · exact (Except.ok.inj h).symm
  · split at h
    · exact (Except.ok.inj h).symm
    · split at h
      · exact (Except.ok.inj h).symm
      · cases h

theorem Numbered.startContext (h : Numbered codec db (E.stream id) log)
    {snapshot : Option SnapshotRow}
    (hs : getSnapshot E (db.snapshots.lookup (E.stream id)) = .ok snapshot) :
    (startContext E snapshot).currentSequence ≤ log.length := by
  obtain rfl := getSnapshot_eq_ok hs
  unfold EventSorcery.startContext
  split
  · exact Nat.zero_le _
  next row hrow =>
    split
    · exact h.snapshot row hrow
    · exact Nat.zero_le _

/-- Reading on from anywhere in the stream ends at the last event. -/
theorem Numbered.replayRows (h : Numbered codec db (E.stream id) log)
    {ctx ctx' : AggregateContext Entity Event Error} (hle : ctx.currentSequence ≤ log.length)
    (hread : replayRows E ctx ((db.stream (E.stream id)).after ctx.currentSequence) = some ctx') :
    ctx'.currentSequence = log.length := by
  obtain ⟨rows, hstream, hrows⟩ := h.stream
  have hlen : rows.length = log.length := by simpa using congrArg List.length hrows
  have hafter := SeqLog.after_ofList 0 ctx.currentSequence rows
  rw [Nat.zero_add] at hafter
  rw [replayRows_sequence hread, hstream, hafter, SeqLog.getLast?_rowsFrom]
  split_ifs with hnil
  · rw [Option.getD_none]
    have := List.drop_eq_nil_iff.1 hnil
    omega
  · rw [Option.getD_some, List.length_drop]
    have := List.drop_eq_nil_iff.not.1 hnil
    omega

/-- A load that nothing runs beside ends at the last event. -/
theorem Numbered.loadAggregate (h : Numbered codec db (E.stream id) log)
    {ctx : AggregateContext Entity Event Error}
    (hload : loadAggregate E db id = .ok ctx) : ctx.currentSequence = log.length := by
  unfold EventSorcery.loadAggregate at hload
  split at hload
  · cases hload
  next snapshot hget =>
    dsimp only at hload
    split at hload
    · cases hload
    next ctx' hread =>
      obtain rfl := Except.ok.inj hload
      exact h.replayRows (h.startContext hget) hread

/-- A whole command appends the events it acknowledges, and touches no stream but its own and its
jobs'. -/
theorem Numbered.sendAlone (h : Numbered E.eventCodec db (E.stream id) log)
    (hjob : E.aggregateType ≠ jobAggregateType) (fault : Option EngineError) (clock : ℕ → ℤ)
    (command : Command) (mint : JobId) :
    Numbered E.eventCodec (sendAlone K E fault clock id command mint db).2 (E.stream id)
        (log ++ (sendAlone K E fault clock id command mint db).1.toOption.getD []) ∧
      ∀ t : StreamIdentity, t ≠ E.stream id → t.aggregateType ≠ jobAggregateType →
        (sendAlone K E fault clock id command mint db).2.stream t = db.stream t ∧
          (sendAlone K E fault clock id command mint db).2.snapshots.lookup t =
            db.snapshots.lookup t := by
  have hsame : Numbered E.eventCodec db (E.stream id) (log ++ []) := by rwa [List.append_nil]
  unfold EventSorcery.sendAlone
  split
  · exact ⟨hsame, fun _ _ _ => ⟨rfl, rfl⟩⟩
  next ctx hload =>
    cases hout : (K.handleAndCommit E fault clock id ctx command mint db).1 with
    | error error =>
        rw [handleAndCommit_error hout]
        exact ⟨hsame, fun _ _ _ => ⟨rfl, rfl⟩⟩
    | ok events =>
        obtain ⟨scope, hhandle, hcommit, hdb⟩ := handleAndCommit_ok hout
        obtain ⟨pending, hscope⟩ := handle_scope E ctx.aggregate command mint []
        obtain rfl : scope = some pending := (congrArg Prod.snd hhandle).symm.trans hscope
        have hfresh : ∀ push ∈ pending, jobStream push.jobId ≠ E.stream id := fun push _ heq =>
          hjob (congrArg StreamIdentity.aggregateType heq).symm
        have heff := commitEvents_ok hfresh hcommit
        rw [hdb]
        refine ⟨(h.commit heff (h.loadAggregate hload).le (commitEvents_bounded hcommit)).1,
          fun t ht htype => ⟨heff.jobs.streams t ht fun push _ heq => htype ?_,
            commitEvents_snapshots_of_ne hcommit ht⟩⟩
        rw [heq]
        rfl

end Retained

end EventSorcery
