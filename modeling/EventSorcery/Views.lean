import EventSorcery.Retained

/-!
# Rows of a projection

The row of an aggregate is right when it holds the fold of a prefix of the aggregate's events and the
prefix's length as its version: `rowAt`. The reactor knows neither the number of the event it applies
nor how far the row has come; it is right exactly when the two fit.
-/

namespace EventSorcery

section Views

variable {Entity Event Command Error : Type}

/-- The row that has folded the first `v` events; there is none before the first. -/
def rowAt (E : EventSourced Entity Event Command Error) (log : List Event) (v : ℕ) :
    Option ViewRow :=
  if v = 0 then none else some ⟨v, (Lifecycle.replay E (log.take v)).toJson E, none⟩

/-- The version of a row, 0 while it is missing. -/
def rowVersion (view : ViewTable) (id : String) : ℤ :=
  ((view.lookup id).map ViewRow.version).getD 0

variable {E : EventSourced Entity Event Command Error} {view : ViewTable} {id : String}
  {log events : List Event} {v : ℕ}

theorem rowAt_pos (hv : v ≠ 0) :
    rowAt E log v = some ⟨v, (Lifecycle.replay E (log.take v)).toJson E, none⟩ := if_neg hv

/-- The row that has folded all events. -/
theorem rowAt_length (E : EventSourced Entity Event Command Error) (log : List Event) :
    rowAt E log log.length = if log = [] then none
      else some ⟨log.length, (Lifecycle.replay E log).toJson E, none⟩ := by
  rw [rowAt, List.take_length]
  simp only [List.length_eq_zero_iff]

/-- A row is not affected by later events. -/
theorem rowAt_append (hv : v ≤ log.length) (events : List Event) :
    rowAt E (log ++ events) v = rowAt E log v := by
  rw [rowAt, List.take_append_of_le_length hv, rowAt]

theorem rowVersion_rowAt (h : view.lookup id = rowAt E log v) : rowVersion view id = v := by
  rw [rowVersion, h, rowAt]
  split_ifs with hv
  · rw [hv]; rfl
  · rfl

theorem replay_take_succ {event : Event} (h : log[v]? = some event) :
    (Lifecycle.replay E (log.take v)).apply E event = Lifecycle.replay E (log.take (v + 1)) := by
  rw [List.take_add_one, h]
  exact (Lifecycle.replay_concat E (log.take v) event).symm

/-- The reactor reads the fold the row holds. -/
theorem reactLoad_rowAt (hserde : E.Serde) {task : ReactTask Entity Event Error}
    (h : view.lookup task.viewId = rowAt E log v) :
    reactLoad E view task =
      some { task with loaded := some (Lifecycle.replay E (log.take v), ⟨task.viewId, v⟩) } := by
  unfold reactLoad loadWithContext
  rw [h, rowAt]
  split_ifs with hv
  · subst hv
    rfl
  · simp only [Lifecycle.ofJson_toJson hserde]

/-- A write from the row's own version goes through. -/
theorem updateView_rowAt (h : view.lookup id = rowAt E log v) (hv : v + 1 ≤ i64Max)
    (l : Lifecycle Entity Event Error) :
    updateView E view l ⟨id, v⟩ = .ok (view.insert id ⟨(v : ℤ) + 1, l.toJson E, none⟩) := by
  have hwrap : wrapI64 ((v : ℤ) + 1) = (v : ℤ) + 1 := wrapI64_of_le (by omega) (by
    have : ((v + 1 : ℕ) : ℤ) ≤ i64Max := by exact_mod_cast hv
    push_cast at this
    exact this)
  unfold updateView
  rw [h, rowAt]
  by_cases hzero : v = 0
  · subst hzero
    simp only [Nat.cast_zero, if_true] at hwrap ⊢
    rw [hwrap]
  · have hne : (v : ℤ) ≠ 0 := Nat.cast_ne_zero.2 hzero
    simp only [hne, hzero, if_false, if_true, hwrap]

/-- A write from another version is refused, unless it is a first insert. -/
theorem updateView_conflict (h : view.lookup id = rowAt E log v) {k : ℤ} (hk : k ≠ 0) (hkv : k ≠ v)
    (l : Lifecycle Entity Event Error) :
    updateView E view l ⟨id, k⟩ = .error .optimisticLock := by
  unfold updateView
  rw [h, rowAt]
  simp only [hk, if_false]
  split_ifs with hv
  · rfl
  · simp only [Ne.symm hkv, if_false]

/-- A reactor call that nothing runs beside, and whose event is the row's next one. -/
theorem reactAlone_rowAt (hserde : E.Serde) (h : view.lookup id = rowAt E log v)
    (hbound : log.length ≤ i64Max) {event : Event} (hget : log[v]? = some event) :
    (reactAlone E view id event).lookup id = rowAt E log (v + 1) ∧
      ∀ id' ≠ id, (reactAlone E view id event).lookup id' = view.lookup id' := by
  have hload : reactLoad E view ⟨id, event, 0, none⟩ =
      some ⟨id, event, 0, some (Lifecycle.replay E (log.take v), ⟨id, v⟩)⟩ :=
    reactLoad_rowAt hserde h
  have hwrite := updateView_rowAt h
    ((List.getElem?_eq_some_iff.1 hget).1.trans_le hbound)
    ((Lifecycle.replay E (log.take v)).apply E event)
  have hreact : reactAlone E view id event =
      view.insert id ⟨(v : ℤ) + 1, (Lifecycle.replay E (log.take (v + 1))).toJson E, none⟩ := by
    rw [reactAlone, hload]
    simp only [reactUpdate, hwrite]
    rw [replay_take_succ hget]
  rw [hreact]
  refine ⟨?_, fun id' hne => AList.lookup_insert_ne hne⟩
  rw [AList.lookup_insert, rowAt_pos (Nat.succ_ne_zero v), Nat.cast_succ]

/-- Catch-up brings the row of a prefix to the end of the stream. -/
theorem rowAfterCatchUp_rowAt (hserde : E.Serde) (hv : v ≤ log.length) :
    rowAfterCatchUp E (SeqLog.rowsFrom 1 log) (rowAt E log v) = rowAt E log log.length := by
  unfold rowAt
  by_cases hzero : v = 0
  · rw [if_pos hzero, rowAfterCatchUp_none, List.take_length]
    simp only [List.length_eq_zero_iff]
  · have hne : log.length ≠ 0 := by omega
    rw [if_neg hzero, if_neg hne, rowAfterCatchUp_take hv rfl (Lifecycle.ofJson_toJson hserde _),
      List.take_length]
    split_ifs with hend
    · rw [hend, List.take_length]
    · rfl

end Views

end EventSorcery
