import EventSorcery.Projection

/-!
# What catch-up leaves in a view

Catch-up treats every aggregate on its own: a row that is missing, or behind its stream, gets the
fold of the events it has not seen on top of what it holds; every other row stays. `caughtUpRow` is
that row, computed from the decoded events and the old row alone. Sequence numbers may have gaps.
-/

namespace EventSorcery

section CatchUp

variable {Entity Event Command Error : Type} (E : EventSourced Entity Event Command Error)

/-- The events of a stream with their numbers, if all decode. -/
def decodeRows (rows : List (ℕ × StoredEvent)) : Option (List (ℕ × Event)) :=
  rows.mapM fun r => (E.eventCodec.decode r.2.payload).map fun event => (r.1, event)

/-- Where replay starts: at the row, or at the first event if it is missing or does not decode. -/
def replayStart (row : Option ViewRow) : Lifecycle Entity Event Error × ℤ :=
  match row with
  | none => (.uninitialized, 0)
  | some row =>
      match Lifecycle.ofJson E row.payload with
      | none => (.uninitialized, 0)
      | some lifecycle => (lifecycle, row.version)

/-- The largest sequence number. -/
def lastSequence (events : List (ℕ × Event)) : ℕ := (events.getLast?.map Prod.fst).getD 0

/-- The row catch-up writes over a row that is behind. -/
def caughtUpRow (events : List (ℕ × Event)) (row : Option ViewRow) : ViewRow where
  version := lastSequence events
  payload := ((replayStart E row).1.applyAll E
    ((events.filter fun r => (replayStart E row).2 < r.1).map Prod.snd)).toJson E
  leaseUntil := row.bind ViewRow.leaseUntil

/-- A row is behind its stream. -/
def Behind (events : List (ℕ × Event)) (row : Option ViewRow) : Prop :=
  events ≠ [] ∧ ∀ r ∈ row, r.version < lastSequence events

instance (events : List (ℕ × Event)) (row : Option ViewRow) : Decidable (Behind events row) :=
  match events, row with
  | [], _ => isFalse fun h => h.1 rfl
  | _ :: _, none => isTrue ⟨List.cons_ne_nil _ _, nofun⟩
  | e :: es, some row =>
      decidable_of_iff (row.version < lastSequence (e :: es))
        ⟨fun h => ⟨List.cons_ne_nil _ _, fun _ hr => Option.mem_some_iff.1 hr ▸ h⟩,
          fun h => h.2 row rfl⟩

variable {E} {db : Db}

theorem decodeRows_cons {row : ℕ × StoredEvent} {rows : List (ℕ × StoredEvent)}
    {events : List (ℕ × Event)} :
    decodeRows E (row :: rows) = some events ↔ ∃ event events',
      E.eventCodec.decode row.2.payload = some event ∧ decodeRows E rows = some events' ∧
        events = (row.1, event) :: events' := by
  simp only [decodeRows, List.mapM_cons, Option.bind_eq_bind, Option.bind_eq_some_iff,
    Option.map_eq_some_iff, Option.pure_def, Option.some.injEq]
  constructor
  · rintro ⟨_, ⟨event, hdec, rfl⟩, events', hrest, rfl⟩
    exact ⟨event, events', hdec, hrest, rfl⟩
  · rintro ⟨event, events', hdec, hrest, rfl⟩
    exact ⟨_, ⟨event, hdec, rfl⟩, events', hrest, rfl⟩

theorem decodeRows_filter {rows : List (ℕ × StoredEvent)} {events : List (ℕ × Event)}
    (h : decodeRows E rows = some events) (p : ℕ → Bool) :
    decodeRows E (rows.filter fun r => p r.1) = some (events.filter fun r => p r.1) := by
  induction rows generalizing events with
  | nil => obtain rfl := Option.some.inj h; rfl
  | cons row rows ih =>
      obtain ⟨event, events', hdec, hrest, rfl⟩ := decodeRows_cons.1 h
      rw [List.filter_cons, List.filter_cons]
      split_ifs
      · exact decodeRows_cons.2 ⟨event, _, hdec, ih hrest, rfl⟩
      · exact ih hrest

theorem applyPayloads_of_decodeRows {rows : List (ℕ × StoredEvent)} {events : List (ℕ × Event)}
    (h : decodeRows E rows = some events) (l : Lifecycle Entity Event Error) :
    applyPayloads E l (rows.map Prod.snd) = some (l.applyAll E (events.map Prod.snd)) := by
  induction rows generalizing events l with
  | nil => obtain rfl := Option.some.inj h; rfl
  | cons row rows ih =>
      obtain ⟨event, events', hdec, hrest, rfl⟩ := decodeRows_cons.1 h
      rw [List.map_cons, applyPayloads, hdec]
      exact ih hrest _

/-- Decoding keeps the numbers. -/
theorem map_fst_of_decodeRows {rows : List (ℕ × StoredEvent)} {events : List (ℕ × Event)}
    (h : decodeRows E rows = some events) : rows.map Prod.fst = events.map Prod.fst := by
  induction rows generalizing events with
  | nil => obtain rfl := Option.some.inj h; rfl
  | cons row rows ih =>
      obtain ⟨event, events', -, hrest, rfl⟩ := decodeRows_cons.1 h
      rw [List.map_cons, List.map_cons, ih hrest]

theorem maxSeq_of_decodeRows {log : SeqLog StoredEvent} {events : List (ℕ × Event)}
    (h : decodeRows E log.rows = some events) :
    log.maxSeq = lastSequence events ∧ (log.rows = [] ↔ events = []) := by
  have hmap := map_fst_of_decodeRows h
  refine ⟨?_, ?_⟩
  · rw [SeqLog.maxSeq, lastSequence, ← List.getLast?_map, ← List.getLast?_map, hmap]
  · rw [← List.map_eq_nil_iff (f := Prod.fst), hmap, List.map_eq_nil_iff]

/-- One aggregate caught up. -/
theorem replayMissedEvents_eq {view : ViewTable} {id : String} {events : List (ℕ × Event)}
    (h : decodeRows E (db.stream (E.stream id)).rows = some events) :
    replayMissedEvents E (db.stream (E.stream id)) view id
        (((view.lookup id).map ViewRow.version).getD 0) (lastSequence events) =
      .ok (view.insert id (caughtUpRow E events (view.lookup id))) := by
  have hmissed : ∀ (l : Lifecycle Entity Event Error) (q : ℤ), applyPayloads E l
      (((db.stream (E.stream id)).rows.filter fun r => q < r.1).map Prod.snd) =
        some (l.applyAll E ((events.filter fun r => q < r.1).map Prod.snd)) := fun l q =>
    applyPayloads_of_decodeRows (decodeRows_filter h fun r => decide (q < r)) l
  -- What replay starts from is what the stored row loads to.
  have hstart : (∃ context, loadWithContext E view id =
        .ok (some ((replayStart E (view.lookup id)).1, context)) ∧
          ((view.lookup id).map ViewRow.version).getD 0 = (replayStart E (view.lookup id)).2) ∨
      (loadWithContext E view id = .ok none ∨
        loadWithContext E view id = .error .deserialization) ∧
          replayStart E (view.lookup id) = (.uninitialized, 0) := by
    unfold loadWithContext replayStart
    cases view.lookup id with
    | none => exact .inr ⟨.inl rfl, rfl⟩
    | some row =>
        cases hdec : (Lifecycle.ofJson E row.payload : Option (Lifecycle Entity Event Error)) with
        | none => exact .inr ⟨.inr (by simp only [hdec]), by simp only [hdec]⟩
        | some lifecycle =>
            exact .inl ⟨⟨id, row.version⟩, by simp only [hdec], by simp only [hdec]; rfl⟩
  unfold replayMissedEvents caughtUpRow
  rcases hstart with ⟨context, hload, hversion⟩ | ⟨hload | hload, hstart⟩
  · rw [hload, hversion]
    dsimp only
    rw [hmissed]
  · rw [hload, hstart]
    dsimp only
    rw [hmissed]
  · rw [hload, hstart]
    dsimp only
    rw [hmissed]

/-- The row of an aggregate after catch-up. -/
def rowAfterCatchUp (E : EventSourced Entity Event Command Error) (events : List (ℕ × Event))
    (row : Option ViewRow) : Option ViewRow :=
  if Behind events row then some (caughtUpRow E events row) else row

theorem staleAggregate_eq (E : EventSourced Entity Event Command Error) {view : ViewTable}
    {id : String} {log : SeqLog StoredEvent} {events : List (ℕ × Event)}
    (h : decodeRows E log.rows = some events) :
    staleAggregate E view (E.stream id) log =
      if Behind events (view.lookup id) then
        some (id, (view.lookup id).map ViewRow.version, lastSequence events)
      else none := by
  obtain ⟨hmax, hnil⟩ := maxSeq_of_decodeRows h
  unfold staleAggregate
  by_cases hne : events = []
  · rw [if_neg fun hk => hk.2 (hnil.2 hne), if_neg fun hb => hb.1 hne]
  · rw [if_pos ⟨rfl, fun hk => hne (hnil.1 hk)⟩, hmax]
    change (match view.lookup id with | none => _ | some row => _) = _
    cases hrow : view.lookup id with
    | none => rw [if_pos ⟨hne, nofun⟩]; rfl
    | some row =>
        by_cases hlt : row.version < (lastSequence events : ℤ)
        · have hb : Behind events (some row) :=
            ⟨hne, fun r hr => Option.mem_some_iff.1 hr ▸ hlt⟩
          simp only [if_pos hlt, if_pos hb]
          rfl
        · have hb : ¬ Behind events (some row) := fun hb => hlt (hb.2 row rfl)
          simp only [if_neg hlt, if_neg hb]

/-- Catch-up of listed aggregates, one after the other: each gets its row, no other row changes. -/
theorem catchUpLoop_eq (db : Db) {items : List (String × Option ℤ × ℕ)} (view : ViewTable)
    (hnodup : (items.map Prod.fst).Nodup)
    (hitems : ∀ item ∈ items, ∃ events,
      decodeRows E (db.stream (E.stream item.1)).rows = some events ∧
        item.2 = ((view.lookup item.1).map ViewRow.version, lastSequence events)) :
    ∃ view', catchUpLoop E db items view = (.ok (), view') ∧
      (∀ item ∈ items, ∀ events,
        decodeRows E (db.stream (E.stream item.1)).rows = some events →
          view'.lookup item.1 = some (caughtUpRow E events (view.lookup item.1))) ∧
      ∀ id, id ∉ items.map Prod.fst → view'.lookup id = view.lookup id := by
  induction items generalizing view with
  | nil => exact ⟨view, rfl, by simp, fun _ _ => rfl⟩
  | cons item items ih =>
      obtain ⟨id, version, maxSeq⟩ := item
      obtain ⟨events, hdec, heq⟩ := hitems _ List.mem_cons_self
      dsimp only at hdec heq
      obtain ⟨rfl, rfl⟩ := Prod.mk.inj heq
      rw [List.map_cons, List.nodup_cons] at hnodup
      have hother : ∀ id' ≠ id, (view.insert id (caughtUpRow E events (view.lookup id))).lookup id' =
          view.lookup id' := fun id' hne => AList.lookup_insert_ne hne
      have hne : ∀ item ∈ items, item.1 ≠ id := fun item hmem heq =>
        hnodup.1 (List.mem_map.2 ⟨item, hmem, heq⟩)
      obtain ⟨view', hloop, hrows, hrest⟩ := ih
        (view.insert id (caughtUpRow E events (view.lookup id))) hnodup.2
        fun item hmem => by
          rw [hother item.1 (hne item hmem)]
          exact hitems item (List.mem_cons_of_mem _ hmem)
      refine ⟨view', ?_, fun item hmem events' hdec' => ?_, fun id' hid' => ?_⟩
      · rw [catchUpLoop, replayMissedEvents_eq hdec]
        exact hloop
      · rcases List.mem_cons.1 hmem with rfl | hmem
        · obtain rfl := Option.some.inj (hdec.symm.trans hdec')
          rw [hrest id hnodup.1, AList.lookup_insert]
        · rw [hrows item hmem events' hdec', hother item.1 (hne item hmem)]
      · rw [List.map_cons, List.mem_cons, not_or] at hid'
        rw [hrest id' hid'.2, hother id' hid'.1]

/-- Every event of the entity in the table decodes. -/
def EventsDecode (E : EventSourced Entity Event Command Error) (db : Db) : Prop :=
  ∀ id, (decodeRows E (db.stream (E.stream id)).rows).isSome

theorem mem_staleAggregates {view : ViewTable} {item : String × Option ℤ × ℕ}
    {events : List (ℕ × Event)}
    (hdec : decodeRows E (db.stream (E.stream item.1)).rows = some events) :
    item ∈ staleAggregates E db.events view ↔ Behind events (view.lookup item.1) ∧
      item.2 = ((view.lookup item.1).map ViewRow.version, lastSequence events) := by
  obtain ⟨id, rest⟩ := item
  dsimp only at hdec ⊢
  rw [staleAggregates, List.mem_filterMap]
  constructor
  · rintro ⟨⟨s, log⟩, hmem, hitem⟩
    obtain ⟨hs, -, -⟩ := staleAggregate_eq_some E hitem
    dsimp only at hs hitem
    subst hs
    obtain rfl := stream_of_mem_events hmem
    rw [staleAggregate_eq E hdec] at hitem
    split_ifs at hitem with hb
    obtain rfl := (Prod.mk.inj (Option.some.inj hitem)).2
    exact ⟨hb, rfl⟩
  · rintro ⟨hb, rfl⟩
    have hrows : (db.stream (E.stream id)).rows ≠ [] := fun hk =>
      hb.1 ((maxSeq_of_decodeRows hdec).2.1 hk)
    refine ⟨⟨E.stream id, db.stream (E.stream id)⟩, mem_events_of_stream hrows, ?_⟩
    dsimp only
    rw [staleAggregate_eq E hdec, if_pos hb]

/-- Catch-up of some of the rows that are behind succeeds, and catches up those. -/
theorem catchUpLoop_sublist (hall : EventsDecode E db) {view : ViewTable}
    {items : List (String × Option ℤ × ℕ)} (h : items.Sublist (staleAggregates E db.events view)) :
    ∃ view', catchUpLoop E db items view = (.ok (), view') ∧
      ∀ id events, decodeRows E (db.stream (E.stream id)).rows = some events →
        view'.lookup id =
          if id ∈ items.map Prod.fst then rowAfterCatchUp E events (view.lookup id)
          else view.lookup id := by
  obtain ⟨view', hloop, hrows, hrest⟩ := catchUpLoop_eq db view
    ((nodup_staleAggregates E _ _).sublist (h.map Prod.fst)) fun item hmem => by
      obtain ⟨events, hdec⟩ := Option.isSome_iff_exists.1 (hall item.1)
      exact ⟨events, hdec, ((mem_staleAggregates hdec).1 (h.subset hmem)).2⟩
  refine ⟨view', hloop, fun id events hdec => ?_⟩
  split_ifs with hid
  · obtain ⟨item, hmem, rfl⟩ := List.mem_map.1 hid
    rw [hrows item hmem events hdec, rowAfterCatchUp,
      if_pos ((mem_staleAggregates hdec).1 (h.subset hmem)).1]
  · exact hrest id hid

/-- **Catch-up** succeeds and leaves every row caught up. -/
theorem catchUp_eq (hall : EventsDecode E db) (view : ViewTable) :
    ∃ view', catchUp E db view = (.ok (), view') ∧
      ∀ id events, decodeRows E (db.stream (E.stream id)).rows = some events →
        view'.lookup id = rowAfterCatchUp E events (view.lookup id) := by
  obtain ⟨view', hloop, hrows⟩ := catchUpLoop_sublist hall
    (List.Sublist.refl (staleAggregates E db.events view))
  refine ⟨view', hloop, fun id events hdec => ?_⟩
  rw [hrows id events hdec]
  split_ifs with hid
  · rfl
  · rw [rowAfterCatchUp, if_neg fun hb => hid (List.mem_map.2
      ⟨(id, (view.lookup id).map ViewRow.version, lastSequence events),
        (mem_staleAggregates hdec).2 ⟨hb, rfl⟩, rfl⟩)]

/-- The rows a store wrote decode to the events it wrote. -/
theorem decodeRows_stored (q : ℕ) (events : List Event) :
    decodeRows E (SeqLog.rowsFrom q (events.map E.stored)) = some (SeqLog.rowsFrom q events) := by
  induction events generalizing q with
  | nil => rfl
  | cons event events ih =>
      have hdec : E.eventCodec.decode (E.stored event).payload = some event :=
        E.eventCodec.decode_encode event
      rw [List.map_cons, SeqLog.rowsFrom, SeqLog.rowsFrom]
      exact decodeRows_cons.2 ⟨event, _, hdec, ih (q + 1), rfl⟩

/-! ## Streams without gaps -/

/-- The rows of a stream that holds exactly these events. -/
theorem decodeRows_stream {id : String} {log : List Event}
    (h : db.stream (E.stream id) = SeqLog.ofList 0 (log.map E.stored)) :
    decodeRows E (db.stream (E.stream id)).rows = some (SeqLog.rowsFrom 1 log) := by
  rw [h]
  exact decodeRows_stored 1 log

theorem lastSequence_rowsFrom (log : List Event) :
    lastSequence (SeqLog.rowsFrom 1 log) = log.length := by
  rw [lastSequence, SeqLog.getLast?_rowsFrom]
  split_ifs with hnil
  · rw [hnil]; rfl
  · rw [Option.getD_some]; omega

theorem rowsFrom_ne_nil {q : ℕ} {log : List Event} :
    SeqLog.rowsFrom q log ≠ [] ↔ log ≠ [] := by
  cases log <;> simp [SeqLog.rowsFrom]

/-- Replay from a fold of the first `k` events goes through the others. -/
theorem caughtUpRow_rowsFrom {log : List Event} {row : Option ViewRow}
    {l : Lifecycle Entity Event Error} {k : ℕ} (h : replayStart E row = (l, (k : ℤ))) :
    caughtUpRow E (SeqLog.rowsFrom 1 log) row =
      ⟨log.length, (l.applyAll E (log.drop k)).toJson E, row.bind ViewRow.leaseUntil⟩ := by
  have hmissed : ((SeqLog.rowsFrom 1 log).filter fun r => (k : ℤ) < r.1).map Prod.snd =
      log.drop k := by
    have := SeqLog.after_rowsFrom 1 k log
    simp only [Nat.cast_lt, ← Nat.succ_le_iff, Nat.succ_eq_one_add]
    rw [this, SeqLog.map_snd_rowsFrom]
  rw [caughtUpRow, h, lastSequence_rowsFrom]
  dsimp only
  rw [hmissed]

/-- A missing row becomes the fold of the whole stream. -/
theorem rowAfterCatchUp_none (log : List Event) :
    rowAfterCatchUp E (SeqLog.rowsFrom 1 log) none =
      if log = [] then none else some ⟨log.length, (Lifecycle.replay E log).toJson E, none⟩ := by
  unfold rowAfterCatchUp
  split_ifs with hbehind hnil hnil
  · exact absurd hnil (rowsFrom_ne_nil.1 hbehind.1)
  · exact congrArg some (caughtUpRow_rowsFrom (k := 0) rfl)
  · rfl
  · exact absurd ⟨rowsFrom_ne_nil.2 hnil, nofun⟩ hbehind

/-- A row at the fold of the first `k` events becomes the fold of the whole stream. -/
theorem rowAfterCatchUp_take {log : List Event} {row : ViewRow} {k : ℕ} (hk : k ≤ log.length)
    (hversion : row.version = k)
    (hpayload : Lifecycle.ofJson E row.payload = some (Lifecycle.replay E (log.take k))) :
    rowAfterCatchUp E (SeqLog.rowsFrom 1 log) (some row) =
      some ⟨log.length, if k = log.length then row.payload else (Lifecycle.replay E log).toJson E,
        row.leaseUntil⟩ := by
  have hstart : replayStart E (some row) = (Lifecycle.replay E (log.take k), (k : ℤ)) := by
    simp only [replayStart, hpayload, hversion]
  unfold rowAfterCatchUp
  split_ifs with hbehind hlen hlen
  · have hlt := hbehind.2 row rfl
    rw [lastSequence_rowsFrom, hversion, hlen] at hlt
    exact absurd hlt (lt_irrefl _)
  · rw [caughtUpRow_rowsFrom hstart, Lifecycle.applyAll_replay_take_drop]
    rfl
  · rw [← hlen, ← hversion]
  · refine absurd ⟨rowsFrom_ne_nil.2 ?_, fun r hr => ?_⟩ hbehind
    · rintro rfl
      exact hlen (Nat.le_zero.1 hk)
    · obtain rfl := Option.mem_some_iff.1 hr
      rw [lastSequence_rowsFrom, hversion]
      exact_mod_cast lt_of_le_of_ne hk hlen

end CatchUp

end EventSorcery
