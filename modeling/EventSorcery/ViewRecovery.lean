import EventSorcery.SchemaSafety
import EventSorcery.Startup
import EventSorcery.ViewSystem

/-!
# Startups of a projected entity

A projected entity is deployed release by release. Each release starts up with `StoreBuilder::build`,
may crash at any of its steps, and serves commands one at a time once it is up: `Store::send` commits
and then calls the reactor event by event, `send_command` only commits, and a reactor call may be
lost. The schema registry is all that a startup knows of the releases before it.

What has to hold of the table is that its rows are folds of prefixes under one release's code. The
state records that release as `writer`: the last one whose startup emptied the table.
-/

namespace EventSorcery

/-- The code of a projected entity at each schema version. What the events are and how they are
stored does not change; what they fold to does. -/
structure Releases (Entity : UInt64 → Type) (Event Command : Type) (Error : UInt64 → Type) where
  code : ∀ v, EventSourced (Entity v) Event Command (Error v)
  aggregateType : String
  eventCodec : Codec Event
  type_eq : ∀ v, (code v).aggregateType = aggregateType
  codec_eq : ∀ v, (code v).eventCodec = eventCodec
  retain : ∀ v, (code v).compactionPolicy = .retain
  serde : ∀ v, (code v).Serde
  not_job : aggregateType ≠ jobAggregateType
  not_registry : aggregateType ≠ registryStream.aggregateType

namespace ViewRecovery

variable {Entity : UInt64 → Type} {Event Command : Type} {Error : UInt64 → Type}

/-- `log` is the history of each aggregate. A release is `running` from its completed startup to the
next startup; `pending` are the events of the last send that the reactor has not seen yet. -/
structure State (Event : Type) where
  db : Db
  view : ViewTable
  log : String → List Event
  pending : List (String × ℕ × Event)
  running : Option UInt64
  writer : Option UInt64

/-- Where a startup can end early: after the snapshots were cleared, after the table was emptied (if
the version changed) and `n` rows rewritten, or after the version was recorded. -/
inductive Crash where
  | afterClear
  | afterRows (n : ℕ)
  | afterRecord

inductive Op (Command : Type) where
  | send (fault : Option EngineError) (clock : ℕ → ℤ) (id : String) (command : Command)
      (mint : JobId)
  | sendCommand (version : UInt64) (fault : Option EngineError) (clock : ℕ → ℤ) (id : String)
      (command : Command) (mint : JobId)
  | react
  | lose
  | startup (version : UInt64) (crash : Option Crash)

section System

variable (K : CqrsEs) (R : Releases Entity Event Command Error)

/-- A whole command of release `v`; the reactor is to see `dispatched` of its events. -/
def commit (v : UInt64) (fault : Option EngineError) (clock : ℕ → ℤ) (id : String)
    (command : Command) (mint : JobId) (dispatched : Bool) (s : State Event) : State Event :=
  let sent := sendAlone K (R.code v) fault clock id command mint s.db
  let events := sent.1.toOption.getD []
  { s with
    db := sent.2
    log := Function.update s.log id (s.log id ++ events)
    pending :=
      if dispatched then (SeqLog.rowsFrom ((s.log id).length + 1) events).map (id, ·) else [] }

/-- The table the rows are rewritten in. -/
def recovering (outcome : SchemaReconciliation) (view : ViewTable) : ViewTable :=
  match outcome with
  | .changed => ∅
  | .unchanged => view

/-- A startup of release `v`, up to where it crashes. -/
def startup (v : UInt64) (crash : Option Crash) (s : State Event) : State Event :=
  match reconcileTarget ((R.code v).schemaTarget v) s.db with
  | (.error _, db) => { s with db := db, pending := [], running := none }
  | (.ok outcome, db) =>
      let writer := if outcome = .changed then some v else s.writer
      let built := build (R.code v) v s.db s.view
      match crash with
      | some .afterClear => { s with db := db, pending := [], running := none }
      | some (.afterRows n) =>
          let view := recovering outcome s.view
          let rewritten := catchUpLoop (R.code v) db
            ((staleAggregates (R.code v) db.events view).take n) view
          ⟨db, rewritten.2, s.log, [], none, writer⟩
      | some .afterRecord => ⟨built.2.1, built.2.2, s.log, [], none, writer⟩
      | none =>
          ⟨built.2.1, built.2.2, s.log, [], if built.1.isOk then some v else none, writer⟩

/-- Commands come one at a time: none starts while the reactor has events of the last one to see. -/
def step (s : State Event) : Op Command → State Event
  | .send fault clock id command mint =>
      match s.running, s.pending with
      | some v, [] => commit K R v fault clock id command mint true s
      | _, _ => s
  | .sendCommand v fault clock id command mint =>
      match s.pending with
      | [] => commit K R v fault clock id command mint false s
      | _ => s
  | .react =>
      match s.running, s.pending with
      | some v, (id, _, event) :: rest =>
          { s with view := reactAlone (R.code v) s.view id event, pending := rest }
      | _, _ => s
  | .lose => { s with pending := s.pending.tail }
  | .startup v crash => startup R v crash s

/-- From the freshly migrated database on. -/
def machine : Machine (State Event) (Op Command) :=
  ⟨⟨.empty, ∅, fun _ => [], [], none, none⟩, step K R⟩

end System

/-! ## The conditions -/

/-- The reactor's row has come as far as the event before the one it is given. -/
def InOrder (s : State Event) : Op Command → Prop
  | .react => ∀ e ∈ s.pending.head?, rowVersion s.view e.1 + 1 = e.2.1
  | _ => True

/-- A startup that finds its own version recorded finds a table that its own code built. -/
def OwnTable (R : Releases Entity Event Command Error) (s : State Event) : Op Command → Prop
  | .startup v _ =>
      SchemaSystem.storedVersion s.db R.aggregateType = some v → s.writer = some v
  | _ => True

/-- Only code of version `v` runs. -/
def Op.OfVersion (v : UInt64) : Op Command → Prop
  | .startup w _ | .sendCommand w _ _ _ _ _ => w = v
  | _ => True

instance (s : State Event) : ∀ op : Op Command, Decidable (InOrder s op)
  | .react => inferInstanceAs (Decidable (∀ e ∈ s.pending.head?, _))
  | .send _ _ _ _ _ | .sendCommand _ _ _ _ _ _ | .lose | .startup _ _ => isTrue trivial

instance (R : Releases Entity Event Command Error) (s : State Event) :
    ∀ op : Op Command, Decidable (OwnTable R s op)
  | .startup _ _ => inferInstanceAs (Decidable (_ → _))
  | .send _ _ _ _ _ | .sendCommand _ _ _ _ _ _ | .lose | .react => isTrue trivial

instance (v : UInt64) : ∀ op : Op Command, Decidable (op.OfVersion v)
  | .startup _ _ | .sendCommand _ _ _ _ _ _ => inferInstanceAs (Decidable (_ = _))
  | .send _ _ _ _ _ | .lose | .react => isTrue trivial

/-! ## The invariant -/

variable {K : CqrsEs} {R : Releases Entity Event Command Error} {s : State Event}

theorem stream_code (R : Releases Entity Event Command Error) (v : UInt64) (id : String) :
    (R.code v).stream id = ⟨R.aggregateType, id⟩ := by
  rw [EventSourced.stream, R.type_eq]

/-- Every stream is numbered, the registry is readable, and every row is the fold of a prefix under
the writer's code. -/
structure Inv (R : Releases Entity Event Command Error) (s : State Event) : Prop where
  streams : ∀ id, Numbered R.eventCodec s.db ⟨R.aggregateType, id⟩ (s.log id)
  registry : ∃ events, RegistryHolds s.db events
  rows : ∀ v, s.writer = some v → ∀ id, ∃ k ≤ (s.log id).length,
    s.view.lookup id = rowAt (R.code v) (s.log id) k
  running : ∀ v, s.running = some v → s.writer = some v
  pending : ∀ e ∈ s.pending, ∃ k, e.2.1 = k + 1 ∧ (s.log e.1)[k]? = some e.2.2

theorem inv_init : Inv R (machine K R).init where
  streams _ := .empty _ _
  registry := ⟨[], rfl⟩
  rows _ := nofun
  running _ := nofun
  pending := nofun

/-- What release `v` reads of an aggregate. -/
theorem Inv.decodeRows (h : Inv R s) (v : UInt64) (id : String) :
    decodeRows (R.code v) (s.db.stream ((R.code v).stream id)).rows =
      some (SeqLog.rowsFrom 1 (s.log id)) := by
  have hnum := h.streams id
  rw [← stream_code R v, ← R.codec_eq v] at hnum
  exact hnum.decodeRows

theorem Inv.eventsDecode (h : Inv R s) (v : UInt64) : EventsDecode (R.code v) s.db := fun id => by
  rw [h.decodeRows v id]
  rfl

/-- The reactor is given the events it has to see under their own numbers. -/
theorem pending_rowsFrom (id : String) (log events : List Event) :
    ∀ e ∈ (SeqLog.rowsFrom (log.length + 1) events).map (id, ·),
      ∃ k, e.2.1 = k + 1 ∧ (log ++ events)[k]? = some e.2.2 := by
  intro e he
  obtain ⟨⟨q, event⟩, hmem, rfl⟩ := List.mem_map.1 he
  obtain ⟨hle, hget⟩ := SeqLog.mem_rowsFrom.1 hmem
  refine ⟨q - 1, by dsimp only; omega, ?_⟩
  rw [List.getElem?_append_right (by omega), ← hget]
  congr 1
  omega

section Commit

variable (v : UInt64) (fault : Option EngineError) (clock : ℕ → ℤ) (id : String)
  (command : Command) (mint : JobId) (dispatched : Bool)

theorem log_commit_self : (commit K R v fault clock id command mint dispatched s).log id =
    s.log id ++ (sendAlone K (R.code v) fault clock id command mint s.db).1.toOption.getD [] :=
  Function.update_self ..

theorem log_commit_of_ne {id' : String} (hid : id' ≠ id) :
    (commit K R v fault clock id command mint dispatched s).log id' = s.log id' :=
  Function.update_of_ne hid ..

/-- A command appends to its own aggregate's stream only. -/
theorem sendAlone_numbered (h : Inv R s) :
    Numbered R.eventCodec (sendAlone K (R.code v) fault clock id command mint s.db).2
        ⟨R.aggregateType, id⟩
        (s.log id ++ (sendAlone K (R.code v) fault clock id command mint s.db).1.toOption.getD []) ∧
      ∀ t : StreamIdentity, t ≠ ⟨R.aggregateType, id⟩ → t.aggregateType ≠ jobAggregateType →
        (sendAlone K (R.code v) fault clock id command mint s.db).2.stream t = s.db.stream t ∧
          (sendAlone K (R.code v) fault clock id command mint s.db).2.snapshots.lookup t =
            s.db.snapshots.lookup t := by
  have hnum := h.streams id
  rw [← stream_code R v, ← R.codec_eq v] at hnum
  have hsent := hnum.sendAlone (K := K) (by rw [R.type_eq]; exact R.not_job) fault clock command mint
  rwa [stream_code, R.codec_eq] at hsent

theorem registry_commit (h : Inv R s) :
    (commit K R v fault clock id command mint dispatched s).db.stream registryStream =
      s.db.stream registryStream :=
  ((sendAlone_numbered v fault clock id command mint h).2 registryStream
    (fun heq => R.not_registry (congrArg StreamIdentity.aggregateType heq).symm) (by decide)).1

/-- A command extends its own aggregate's history. The rows, prefixes before it, stay prefixes. -/
theorem inv_commit (h : Inv R s) :
    Inv R (commit K R v fault clock id command mint dispatched s) := by
  obtain ⟨hown, hframe⟩ := sendAlone_numbered (K := K) v fault clock id command mint h
  obtain ⟨events, hreg⟩ := h.registry
  refine ⟨fun id' => ?_, ⟨events, (registry_commit _ _ _ _ _ _ _ h).trans hreg⟩,
    fun w hw id' => ?_, h.running, fun e he => ?_⟩
  · by_cases hid : id' = id
    · subst hid
      rw [log_commit_self]
      exact hown
    · obtain ⟨hstream, hsnap⟩ := hframe ⟨R.aggregateType, id'⟩
        (fun heq => hid (congrArg StreamIdentity.aggregateId heq)) R.not_job
      rw [log_commit_of_ne _ _ _ _ _ _ _ hid]
      exact (h.streams id').of_same hstream fun row hrow => hsnap ▸ hrow
  · obtain ⟨k, hk, hrow⟩ := h.rows w hw id'
    by_cases hid : id' = id
    · subst hid
      rw [log_commit_self, List.length_append]
      exact ⟨k, hk.trans (Nat.le_add_right _ _), hrow.trans (rowAt_append hk _).symm⟩
    · rw [log_commit_of_ne _ _ _ _ _ _ _ hid]
      exact ⟨k, hk, hrow⟩
  · cases dispatched with
    | false => exact absurd he List.not_mem_nil
    | true =>
        have hid : e.1 = id := by
          obtain ⟨row, -, rfl⟩ := List.mem_map.1 he
          rfl
        rw [hid, log_commit_self]
        exact pending_rowsFrom id (s.log id) _ e he

end Commit

/-- The reactor, given the next event of its row's prefix, makes the prefix longer by it. -/
theorem inv_react (h : Inv R s) (hin : InOrder s (.react : Op Command)) :
    Inv R (step K R s .react) := by
  rw [step]
  split
  next v id q event rest hrunning hpending =>
    obtain ⟨k, hq, hget⟩ := h.pending (id, q, event) (by rw [hpending]; exact List.mem_cons_self)
    have hwriter := h.running v hrunning
    obtain ⟨k', -, hrow⟩ := h.rows v hwriter id
    obtain rfl : k' = k := by
      have hversion := hin (id, q, event) (by rw [hpending]; rfl)
      rw [rowVersion_rowAt hrow] at hversion
      dsimp only at hversion hq
      omega
    obtain ⟨hnext, hother⟩ := reactAlone_rowAt (R.serde v) hrow (h.streams id).bounded hget
    refine ⟨h.streams, h.registry, fun w hw id' => ?_, h.running, fun e he =>
      h.pending e (by rw [hpending]; exact List.mem_cons_of_mem _ he)⟩
    obtain rfl := Option.some.inj (hwriter.symm.trans hw)
    by_cases hid : id' = id
    · subst hid
      exact ⟨k' + 1, (List.getElem?_eq_some_iff.1 hget).1, hnext⟩
    · obtain ⟨j, hj, hrow'⟩ := h.rows v hwriter id'
      exact ⟨j, hj, (hother id' hid).trans hrow'⟩
  next => exact h

/-! ## Startups -/

variable {v : UInt64} {outcome : SchemaReconciliation} {db₁ : Db}

/-- What a startup of release `v` has after reconciling: the same events, and a table whose rows are
prefixes under its own code, because it is about to be emptied or because its own code built it. -/
structure Reconciled (R : Releases Entity Event Command Error) (v : UInt64) (s : State Event)
    (outcome : SchemaReconciliation) (db₁ : Db) : Prop where
  eq : reconcileTarget ((R.code v).schemaTarget v) s.db = (.ok outcome, db₁)
  decodes : EventsDecode (R.code v) db₁
  decodeRows : ∀ id, decodeRows (R.code v) (db₁.stream ((R.code v).stream id)).rows =
    some (SeqLog.rowsFrom 1 (s.log id))
  streams : ∀ id, Numbered R.eventCodec db₁ ⟨R.aggregateType, id⟩ (s.log id)
  registry : ∃ events, RegistryHolds db₁ events
  writer : (if outcome = .changed then some v else s.writer) = some v
  rows : ∀ id, ∃ k ≤ (s.log id).length,
    (recovering outcome s.view).lookup id = rowAt (R.code v) (s.log id) k
  registered : db₁.stream registryStream = s.db.stream registryStream

theorem Inv.reconciled (h : Inv R s)
    (hown : SchemaSystem.storedVersion s.db R.aggregateType = some v → s.writer = some v) :
    ∃ outcome db₁, Reconciled R v s outcome db₁ := by
  obtain ⟨events, hreg⟩ := h.registry
  have heq := reconcileTarget_retain (R.retain v) hreg v
  have hframe := reconcileTarget_frame (R.retain v) hreg v
  rw [SchemaSystem.storedVersion_eq hreg] at hown
  rw [R.type_eq] at heq
  by_cases hsame : recordedVersion events R.aggregateType = some v
  · rw [if_pos hsame] at heq
    exact ⟨.unchanged, s.db, heq, h.eventsDecode v, h.decodeRows v, h.streams, h.registry,
      hown hsame, h.rows v (hown hsame), rfl⟩
  · rw [if_neg hsame] at heq
    rw [heq] at hframe
    refine ⟨.changed, clearSnapshots R.aggregateType s.db, heq, h.eventsDecode v, h.decodeRows v,
      fun id => ?_, h.registry, rfl, fun id => ⟨0, Nat.zero_le _, rfl⟩, rfl⟩
    refine (h.streams id).of_same rfl fun row hrow => ?_
    rcases hframe.2.2 ⟨R.aggregateType, id⟩ with hsnap | hsnap
    · exact hsnap ▸ hrow
    · exact absurd (hsnap.symm.trans hrow) nofun

/-- Rows that were rewritten reach the end of their streams, the others stand where they stood. -/
theorem Reconciled.rewrite (h : Reconciled R v s outcome db₁)
    {items : List (String × Option ℤ × ℕ)}
    (hitems : items.Sublist (staleAggregates (R.code v) db₁.events (recovering outcome s.view))) :
    (catchUpLoop (R.code v) db₁ items (recovering outcome s.view)).1 = .ok () ∧
      ∀ id, ∃ k ≤ (s.log id).length,
        (catchUpLoop (R.code v) db₁ items (recovering outcome s.view)).2.lookup id =
          rowAt (R.code v) (s.log id) k := by
  obtain ⟨view', hloop, hlookup⟩ := catchUpLoop_sublist h.decodes hitems
  rw [hloop]
  refine ⟨rfl, fun id => ?_⟩
  obtain ⟨k, hk, hrow⟩ := h.rows id
  rw [hlookup id _ (h.decodeRows id), hrow, rowAfterCatchUp_rowAt (R.serde v) hk]
  split_ifs
  · exact ⟨_, le_rfl, rfl⟩
  · exact ⟨k, hk, rfl⟩

/-- A startup that is not interrupted brings every row to the end of its stream. -/
theorem Reconciled.build (h : Reconciled R v s outcome db₁) :
    ∃ view', build (R.code v) v s.db s.view =
        ((recordTarget ((R.code v).schemaTarget v) db₁).1,
          (recordTarget ((R.code v).schemaTarget v) db₁).2, view') ∧
      ∀ id, view'.lookup id = rowAt (R.code v) (s.log id) (s.log id).length := by
  obtain ⟨view', hrun, hrows⟩ := catchUp_eq h.decodes (recovering outcome s.view)
  have hrecover : recoverView (R.code v) outcome db₁ s.view = (.ok (), view') := by
    rw [← hrun]
    cases outcome <;> rfl
  refine ⟨view', ?_, fun id => ?_⟩
  · simp only [EventSorcery.build, h.eq, hrecover]
  · obtain ⟨k, hk, hrow⟩ := h.rows id
    rw [hrows id _ (h.decodeRows id), hrow, rowAfterCatchUp_rowAt (R.serde v) hk]

/-- Recording the version leaves the entity's streams alone. -/
theorem Reconciled.recorded (h : Reconciled R v s outcome db₁) :
    (∀ id, Numbered R.eventCodec (recordTarget ((R.code v).schemaTarget v) db₁).2
        ⟨R.aggregateType, id⟩ (s.log id)) ∧
      ∃ events, RegistryHolds (recordTarget ((R.code v).schemaTarget v) db₁).2 events := by
  obtain ⟨events, hreg⟩ := h.registry
  obtain ⟨events', hheld, -, -⟩ := hreg.record ((R.code v).schemaTarget v)
  obtain ⟨hstreams, hsnap, -⟩ := hreg.record_frame ((R.code v).schemaTarget v)
  refine ⟨fun id => (h.streams id).of_same (hstreams _ fun heq => ?_) fun row hrow => hsnap ▸ hrow,
    events', hheld⟩
  exact R.not_registry (congrArg StreamIdentity.aggregateType heq)

/-- **A startup keeps the invariant** wherever it ends. One that is not interrupted leaves every row at
the end of its stream, and completes unless the registry has run out of numbers. -/
theorem startup_spec (h : Inv R s)
    (hown : SchemaSystem.storedVersion s.db R.aggregateType = some v → s.writer = some v)
    (crash : Option Crash) :
    Inv R (startup R v crash s) ∧ (startup R v crash s).log = s.log ∧
      (crash = none →
        (∀ id, (startup R v crash s).view.lookup id =
          rowAt (R.code v) (s.log id) (s.log id).length) ∧
        ((s.db.stream registryStream).rows.length < i64Max →
          (startup R v crash s).running = some v)) := by
  obtain ⟨outcome, db₁, hrec⟩ := h.reconciled hown
  obtain ⟨view', hbuild, hfull⟩ := hrec.build
  obtain ⟨hstreams, hregistry⟩ := hrec.recorded
  have hrows : ∀ w, some v = some w → ∀ id, ∃ k ≤ (s.log id).length,
      view'.lookup id = rowAt (R.code w) (s.log id) k := by
    rintro w ⟨⟩ id
    exact ⟨_, le_rfl, hfull id⟩
  unfold startup
  simp only [hrec.eq, hbuild, hrec.writer]
  match crash with
  | some .afterClear =>
      exact ⟨⟨hrec.streams, hrec.registry, h.rows, nofun, nofun⟩, rfl, nofun⟩
  | some (.afterRows n) =>
      refine ⟨⟨hrec.streams, hrec.registry, ?_, nofun, nofun⟩, rfl, nofun⟩
      rintro w ⟨⟩
      exact (hrec.rewrite (List.take_sublist n _)).2
  | some .afterRecord => exact ⟨⟨hstreams, hregistry, hrows, nofun, nofun⟩, rfl, nofun⟩
  | none =>
      refine ⟨⟨hstreams, hregistry, hrows, fun w hw => ?_, nofun⟩, rfl, fun _ =>
        ⟨hfull, fun hroom => ?_⟩⟩
      · exact (Option.ite_none_right_eq_some.1 hw).2 ▸ rfl
      · obtain ⟨events, hreg⟩ := hrec.registry
        rw [hreg.record_ok _ (hrec.registered.symm ▸ hroom)]
        rfl

/-- Every operation that meets the conditions keeps the invariant. -/
theorem inv_step (h : Inv R s) {op : Op Command} (hin : InOrder s op) (hown : OwnTable R s op) :
    Inv R (step K R s op) := by
  cases op with
  | send fault clock id command mint =>
      rw [step]
      split
      · exact inv_commit _ _ _ _ _ _ _ h
      · exact h
  | sendCommand v fault clock id command mint =>
      rw [step]
      split
      · exact inv_commit _ _ _ _ _ _ _ h
      · exact h
  | react => exact inv_react h hin
  | lose => exact ⟨h.streams, h.registry, h.rows, h.running, fun e he =>
      h.pending e (List.mem_of_mem_tail he)⟩
  | startup v crash => exact (startup_spec h hown crash).1

/-! ## A single version -/

/-- The registry knows of no version but `v`, and of `v` only once its code built the table. -/
def OneVersion (R : Releases Entity Event Command Error) (v : UInt64) (s : State Event) : Prop :=
  RegistryHolds s.db [] ∨
    RegistryHolds s.db [.versionUpdated R.aggregateType v] ∧ s.writer = some v

theorem OneVersion.ownTable (h : OneVersion R v s)
    (hstored : SchemaSystem.storedVersion s.db R.aggregateType = some v) : s.writer = some v := by
  rcases h with hreg | ⟨-, hwriter⟩
  · rw [SchemaSystem.storedVersion_eq hreg] at hstored
    exact absurd hstored nofun
  · exact hwriter

theorem OneVersion.registered (h : OneVersion R v s) :
    ∃ events, (events = [] ∨ events = [.versionUpdated R.aggregateType v]) ∧
      RegistryHolds s.db events := by
  rcases h with hreg | ⟨hreg, -⟩
  · exact ⟨_, .inl rfl, hreg⟩
  · exact ⟨_, .inr rfl, hreg⟩

theorem recordVersion_one {events : List SchemaRegistryEvent} {name : String}
    (h : events = [] ∨ events = [.versionUpdated name v]) (policy : CompactionPolicy) :
    recordVersion events ⟨name, v, policy⟩ = [.versionUpdated name v] := by
  rcases h with rfl | rfl
  · rfl
  · simp [recordVersion, recordedVersion, SchemaRegistryEvent.update]

theorem oneVersion_startup (h : Inv R s) (hone : OneVersion R v s) (crash : Option Crash) :
    OneVersion R v (startup R v crash s) := by
  obtain ⟨outcome, db₁, hrec⟩ := h.reconciled hone.ownTable
  obtain ⟨view', hbuild, -⟩ := hrec.build
  obtain ⟨events, hevents, hreg⟩ := hone.registered
  have hreg₁ : RegistryHolds db₁ events := hrec.registered.trans hreg
  have hrecorded : RegistryHolds (recordTarget ((R.code v).schemaTarget v) db₁).2
      [.versionUpdated R.aggregateType v] := by
    obtain ⟨events', hheld, -, hroom⟩ := hreg₁.record ((R.code v).schemaTarget v)
    have hlength : events.length + 1 ≤ i64Max := by
      rcases hevents with rfl | rfl <;> exact (by decide : 2 ≤ i64Max).trans' (by simp)
    have hversion : recordVersion events ((R.code v).schemaTarget v) =
        [.versionUpdated R.aggregateType v] := by
      rw [EventSourced.schemaTarget, R.type_eq, recordVersion_one hevents]
    rwa [hroom hlength, hversion] at hheld
  unfold startup
  simp only [hrec.eq, hbuild, hrec.writer]
  match crash with
  | some .afterClear => exact hone.imp hrec.registered.trans (And.imp_left hrec.registered.trans)
  | some (.afterRows n) =>
      rcases hevents with rfl | rfl
      · exact .inl hreg₁
      · exact .inr ⟨hreg₁, rfl⟩
  | some .afterRecord | none => exact .inr ⟨hrecorded, rfl⟩

theorem oneVersion_step (h : Inv R s) (hone : OneVersion R v s) {op : Op Command}
    (hop : op.OfVersion v) : OneVersion R v (step K R s op) := by
  have hcommit : ∀ w fault clock id command mint dispatched,
      OneVersion R v (commit K R w fault clock id command mint dispatched s) := by
    intro w fault clock id command mint dispatched
    have hframe := registry_commit (K := K) w fault clock id command mint dispatched h
    exact hone.imp hframe.trans (And.imp_left hframe.trans)
  cases op with
  | send fault clock id command mint =>
      rw [step]
      split
      · exact hcommit ..
      · exact hone
  | sendCommand w fault clock id command mint =>
      rw [step]
      split
      · exact hcommit ..
      · exact hone
  | react =>
      rw [step]
      split <;> exact hone
  | lose => exact hone
  | startup w crash =>
      obtain rfl : w = v := hop
      exact oneVersion_startup h hone crash

/-! ## An account that becomes a register -/

open ViewSystem (register register_serde)

/-- Version 2 folds to the last amount, every other version to the sum. -/
def ledgerCode (v : UInt64) : EventSourced ℤ ℤ (List ℤ) Unit :=
  if v = 2 then register else ledger .retain

def ledgerReleases : Releases (fun _ => ℤ) ℤ (List ℤ) fun _ => Unit where
  code := ledgerCode
  aggregateType := "ledger"
  eventCodec := (ledger .retain).eventCodec
  type_eq v := by unfold ledgerCode; split <;> rfl
  codec_eq v := by unfold ledgerCode; split <;> rfl
  retain v := by unfold ledgerCode; split <;> rfl
  serde v := by
    unfold ledgerCode
    split
    · exact register_serde
    · exact ⟨fun _ => rfl, fun _ => rfl, nofun⟩
  not_job := by decide
  not_registry := by decide

/-- A send of `amount` and its reactor call, which is lost unless `reacted`. -/
def book (amount : ℤ) (reacted : Bool) : List (Op (List ℤ)) :=
  [.send none (fun _ => 0) "a" [amount] "job", if reacted then .react else .lose]

/-- A `send_command` of `amount`. -/
def bookUnseen (amount : ℤ) : Op (List ℤ) := .sendCommand 1 none (fun _ => 0) "a" [amount] "job"

/-- The account after these operations. -/
def deployed (ops : List (Op (List ℤ))) : State ℤ := (machine .atMultiples ledgerReleases).run ops

/-- The row of the account. -/
def State.payload (s : State ℤ) : Option Json := (s.view.lookup "a").map ViewRow.payload

/-! ## Results -/

end ViewRecovery

end EventSorcery
