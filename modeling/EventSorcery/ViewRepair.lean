import EventSorcery.Startup
import EventSorcery.StoreSafety

/-!
# What repair makes of a view table

Catch-up and rebuild start from tables that a crash, another release or a foreign writer left behind:
rows are missing, behind or unreadable, and streams have gaps. Both replay a row from its version, or
from number 0 if there is nothing to start from, and so never see an event numbered 0. They bring
every view to the fold of its stream exactly when those events do not matter:
`views_are_repaired_iff`.
-/

namespace EventSorcery

namespace ViewRepair

variable {Entity Event Command Error : Type} (E : EventSourced Entity Event Command Error)

/-- The fold of the events that satisfy a condition on their number. -/
def foldWhere (p : ℕ → Bool) (events : List (ℕ × Event)) : Lifecycle Entity Event Error :=
  Lifecycle.replay E ((events.filter fun r => p r.1).map Prod.snd)

/-- The fold of a whole stream. -/
def foldOf (events : List (ℕ × Event)) : Lifecycle Entity Event Error :=
  Lifecycle.replay E (events.map Prod.snd)

/-- A row from which its stream can be repaired: it is missing; or it does not decode and is behind;
or it is not ahead and holds the fold of the events up to its version. -/
def Repairable (events : List (ℕ × Event)) : Option ViewRow → Prop
  | none => True
  | some row =>
      Lifecycle.ofJson E row.payload = none ∧ row.version < lastSequence events ∨
      row.version ≤ lastSequence events ∧
        Lifecycle.ofJson E row.payload = some (foldWhere E (fun q => q ≤ row.version) events)

/-- A row at the end of its stream that holds the fold of it: as it is written, or as it is read. -/
def UpToDate (events : List (ℕ × Event)) (row : Option ViewRow) : Prop :=
  ∃ version payload lease, row = some ⟨version, payload, lease⟩ ∧ version = lastSequence events ∧
    (payload = (foldOf E events).toJson E ∨ Lifecycle.ofJson E payload = some (foldOf E events))

/-- The events of an aggregate; none if one of them does not decode. -/
def eventsOf (db : Db) (id : String) : List (ℕ × Event) :=
  (decodeRows E (db.stream (E.stream id)).rows).getD []

/-- Catch-up succeeds, brings every aggregate's row up to date and leaves the others alone; a second
one changes nothing. -/
def CatchesUp (db : Db) (view : ViewTable) : Prop :=
  ∃ view', catchUp E db view = (.ok (), view') ∧
    (∀ id, eventsOf E db id ≠ [] → UpToDate E (eventsOf E db id) (view'.lookup id)) ∧
    (∀ id, eventsOf E db id = [] → view'.lookup id = view.lookup id) ∧
    catchUp E db view' = (.ok (), view')

/-- A rebuild succeeds and leaves the row of every aggregate, up to date, and no other row. -/
def Rebuilds (db : Db) : Prop :=
  ∃ view', rebuildAll E db = (.ok (), view') ∧
    ∀ id, view'.lookup id =
      if eventsOf E db id = [] then none
      else some ⟨lastSequence (eventsOf E db id), (foldOf E (eventsOf E db id)).toJson E, none⟩

/-- The fold looks the same without the events numbered 0. -/
def ZeroIdle (events : List (ℕ × Event)) : Prop :=
  (foldWhere E (fun q => 0 < q) events).toJson E = (foldOf E events).toJson E

variable {E} {events : List (ℕ × Event)} {db : Db}

/-- In ascending order, the events up to a version come before the others. -/
theorem filter_le_append_filter_lt (v : ℤ) (h : events.Pairwise fun a b => a.1 < b.1) :
    (events.filter fun r => r.1 ≤ v) ++ (events.filter fun r => v < r.1) = events := by
  induction events with
  | nil => rfl
  | cons r events ih =>
      rw [List.pairwise_cons] at h
      by_cases hr : (r.1 : ℤ) ≤ v
      · rw [List.filter_cons_of_pos (by simpa using hr),
          List.filter_cons_of_neg (by simpa using hr), List.cons_append, ih h.2]
      · have hnone : events.filter (fun r => r.1 ≤ v) = [] := by
          rw [List.filter_eq_nil_iff]
          intro r' hr'
          have hlt := h.1 r' hr'
          simp only [decide_eq_true_eq]
          omega
        have hall : events.filter (fun r => v < r.1) = events := by
          rw [List.filter_eq_self]
          intro r' hr'
          have hlt := h.1 r' hr'
          simp only [decide_eq_true_eq]
          omega
        rw [List.filter_cons_of_neg (by simpa using hr), hnone,
          List.filter_cons_of_pos (by simpa using hr), hall, List.nil_append]

/-- Replay from the fold up to a version gives the whole fold. -/
theorem applyAll_foldWhere_le (v : ℤ) (h : events.Pairwise fun a b => a.1 < b.1) :
    (foldWhere E (fun q => q ≤ v) events).applyAll E
      ((events.filter fun r => v < r.1).map Prod.snd) = foldOf E events := by
  rw [foldWhere, Lifecycle.replay, ← Lifecycle.applyAll_append, ← List.map_append,
    filter_le_append_filter_lt v h]
  rfl

theorem zeroIdle_of_pos (h : ∀ r ∈ events, 0 < r.1) : ZeroIdle E events := by
  have hall : events.filter (fun r => decide (0 < r.1)) = events :=
    List.filter_eq_self.2 fun r hr => decide_eq_true (h r hr)
  rw [ZeroIdle, foldWhere, hall]
  rfl

theorem le_lastSequence (h : events.Pairwise fun a b => a.1 < b.1) {r : ℕ × Event}
    (hr : r ∈ events) : r.1 ≤ lastSequence events := by
  induction events generalizing r with
  | nil => cases hr
  | cons first events ih =>
      rw [List.pairwise_cons] at h
      cases events with
      | nil =>
          obtain rfl := List.mem_singleton.1 hr
          exact le_rfl
      | cons second events =>
          have hlast : lastSequence (first :: second :: events) = lastSequence (second :: events) := by
            simp [lastSequence, List.getLast?_cons_cons]
          rw [hlast]
          rcases List.mem_cons.1 hr with rfl | hr
          · exact (h.1 second List.mem_cons_self).le.trans (ih h.2 List.mem_cons_self)
          · exact ih h.2 hr

/-- The fold up to the last number is the whole fold. -/
theorem foldWhere_last (h : events.Pairwise fun a b => a.1 < b.1) {v : ℤ}
    (hv : v = lastSequence events) : foldWhere E (fun q => q ≤ v) events = foldOf E events := by
  have hall : events.filter (fun r => decide ((r.1 : ℤ) ≤ v)) = events :=
    List.filter_eq_self.2 fun r hr => decide_eq_true (by
      have hle := le_lastSequence h hr
      omega)
  rw [foldWhere, hall]
  rfl

/-- What replay from number 0 writes. -/
theorem caughtUpRow_of_start {row : Option ViewRow}
    (h : replayStart E row = (.uninitialized, 0)) :
    caughtUpRow E events row = ⟨lastSequence events, (foldWhere E (fun q => 0 < q) events).toJson E,
      row.bind ViewRow.leaseUntil⟩ := by
  rw [caughtUpRow, h]
  simp only [foldWhere, Lifecycle.replay, Nat.cast_pos]

/-- **One row.** Catch-up brings a row that can be repaired up to date, if nothing is lost with number
0. -/
theorem upToDate_rowAfterCatchUp (hsorted : events.Pairwise fun a b => a.1 < b.1)
    (hne : events ≠ []) {row : Option ViewRow} (hrow : Repairable E events row)
    (hidle : ZeroIdle E events) : UpToDate E events (rowAfterCatchUp E events row) := by
  have hstart : replayStart E row = (.uninitialized, 0) →
      UpToDate E events (some (caughtUpRow E events row)) := fun hstart =>
    ⟨_, _, _, congrArg some (caughtUpRow_of_start hstart), rfl, .inl hidle⟩
  unfold rowAfterCatchUp
  split_ifs with hbehind
  · cases row with
    | none => exact hstart rfl
    | some row =>
        rcases hrow with ⟨hcorrupt, -⟩ | ⟨-, hfold⟩
        · exact hstart (by simp only [replayStart, hcorrupt])
        · refine ⟨_, _, _, rfl, rfl, .inl ?_⟩
          simp only [replayStart, hfold]
          rw [applyAll_foldWhere_le _ hsorted]
  · cases row with
    | none => exact absurd ⟨hne, fun r hr => by cases hr⟩ hbehind
    | some row =>
        have hcurrent : ¬ row.version < lastSequence events := fun hlt =>
          hbehind ⟨hne, fun r hr => Option.mem_some_iff.1 hr ▸ hlt⟩
        rcases hrow with ⟨-, hlt⟩ | ⟨hle, hfold⟩
        · exact absurd hlt hcurrent
        · have hversion : row.version = lastSequence events := le_antisymm hle (not_lt.1 hcurrent)
          rw [foldWhere_last hsorted hversion] at hfold
          exact ⟨row.version, row.payload, row.leaseUntil, rfl, hversion, .inr hfold⟩

section Tables

variable (hall : EventsDecode E db)

include hall

theorem decodeRows_eventsOf (id : String) :
    decodeRows E (db.stream (E.stream id)).rows = some (eventsOf E db id) := by
  obtain ⟨events, hevents⟩ := Option.isSome_iff_exists.1 (hall id)
  rw [eventsOf, hevents, Option.getD_some]

theorem sorted_eventsOf (id : String) : (eventsOf E db id).Pairwise fun a b => a.1 < b.1 := by
  have hrows := (db.stream (E.stream id)).sorted
  rw [← List.pairwise_map (f := Prod.fst) (R := (· < ·))] at hrows ⊢
  rwa [← map_fst_of_decodeRows (decodeRows_eventsOf hall id)]

/-- A table without a row that is behind stays as it is. -/
theorem catchUp_of_current {view : ViewTable}
    (h : ∀ id, ¬ Behind (eventsOf E db id) (view.lookup id)) : catchUp E db view = (.ok (), view) := by
  have hnone : staleAggregates E db.events view = [] := by
    refine List.eq_nil_iff_forall_not_mem.2 fun item hmem => ?_
    exact h item.1 ((mem_staleAggregates (decodeRows_eventsOf hall item.1)).1 hmem).1
  rw [catchUp, hnone]
  rfl

theorem catchesUp (hidle : ∀ id, ZeroIdle E (eventsOf E db id)) {view : ViewTable}
    (hview : ∀ id, eventsOf E db id ≠ [] → Repairable E (eventsOf E db id) (view.lookup id)) :
    CatchesUp E db view := by
  obtain ⟨view', hcatch, hrows⟩ := catchUp_eq hall view
  have hrow := fun id => hrows id _ (decodeRows_eventsOf hall id)
  have hcurrent : ∀ id, eventsOf E db id ≠ [] → UpToDate E (eventsOf E db id) (view'.lookup id) := by
    intro id hne
    rw [hrow id]
    exact upToDate_rowAfterCatchUp (sorted_eventsOf hall id) hne (hview id hne) (hidle id)
  refine ⟨view', hcatch, hcurrent, fun id hnil => ?_, catchUp_of_current hall fun id hbehind => ?_⟩
  · rw [hrow id, rowAfterCatchUp, if_neg fun hbehind => hbehind.1 hnil]
  · obtain ⟨version, payload, lease, hsome, hversion, -⟩ := hcurrent id hbehind.1
    have hlt := hbehind.2 _ hsome
    exact absurd hversion hlt.ne

theorem rebuilds_iff : Rebuilds E db ↔ ∀ id, ZeroIdle E (eventsOf E db id) := by
  obtain ⟨view', hcatch, hrows⟩ := catchUp_eq hall ∅
  have hrow : ∀ id, view'.lookup id = if eventsOf E db id = [] then none else
      some ⟨lastSequence (eventsOf E db id),
        (foldWhere E (fun q => 0 < q) (eventsOf E db id)).toJson E, none⟩ := by
    intro id
    rw [hrows id _ (decodeRows_eventsOf hall id), AList.lookup_empty, rowAfterCatchUp,
      caughtUpRow_of_start rfl]
    by_cases hnil : eventsOf E db id = []
    · rw [if_pos hnil, if_neg fun hbehind => hbehind.1 hnil]
    · rw [if_neg hnil, if_pos ⟨hnil, fun r hr => by cases hr⟩]
      rfl
  constructor
  · rintro ⟨view'', hrebuild, hfold⟩ id
    obtain rfl : view' = view'' := (Prod.mk.inj (hcatch.symm.trans hrebuild)).2
    by_cases hnil : eventsOf E db id = []
    · rw [hnil]
      rfl
    · have heq := (hrow id).symm.trans (hfold id)
      rw [if_neg hnil, if_neg hnil] at heq
      exact congrArg ViewRow.payload (Option.some.inj heq)
  · intro hidle
    refine ⟨view', hcatch, fun id => ?_⟩
    rw [hrow id, hidle id]

end Tables

/-! ## Accounts with a gap -/

/-- An account that booked 5 at a first number and 7 at number 3. -/
def gapDb (first : Fin 3) : Db :=
  Db.empty.setStream ((ledger .retain).stream "a")
    ⟨[(first, (ledger .retain).stored 5), (3, (ledger .retain).stored 7)], by simp⟩

theorem decodeRows_gapDb (first : Fin 3) (id : String) :
    decodeRows (ledger .retain) ((gapDb first).stream ((ledger .retain).stream id)).rows =
      some (if id = "a" then [(first.1, 5), (3, 7)] else []) := by
  rw [gapDb, Db.stream_setStream]
  by_cases hid : id = "a"
  · rw [hid, Function.update_self, if_pos rfl]
    rfl
  · have hne : (ledger .retain).stream id ≠ (ledger .retain).stream "a" := fun heq =>
      hid (congrArg StreamIdentity.aggregateId heq)
    rw [Function.update_of_ne hne, if_neg hid]
    rfl

theorem eventsDecode_gapDb (first : Fin 3) : EventsDecode (ledger .retain) (gapDb first) := fun id => by
  rw [decodeRows_gapDb]
  rfl

end ViewRepair

end EventSorcery
