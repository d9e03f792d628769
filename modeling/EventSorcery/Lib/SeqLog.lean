import Mathlib

/-!
# Logs with a sequence number as primary key

A `SeqLog` is the rows of one stream: each row has a sequence number, no two rows share one, and
they are kept in ascending order. Inserting a row whose number is taken fails.
-/

/-- Rows in strictly ascending order of their sequence number. -/
structure SeqLog (α : Type*) where
  rows : List (ℕ × α)
  sorted : rows.Pairwise fun a b => a.1 < b.1

namespace SeqLog

variable {α : Type*}

@[ext] theorem ext {l l' : SeqLog α} (h : l.rows = l'.rows) : l = l' := by
  cases l; cases l'; cases h; rfl

instance [DecidableEq α] : DecidableEq (SeqLog α) := fun l l' =>
  decidable_of_iff (l.rows = l'.rows) ⟨ext, fun h => h ▸ rfl⟩

/-- The log with no row. -/
def empty : SeqLog α := ⟨[], List.Pairwise.nil⟩

/-- The row with sequence number `q`. -/
def get? (l : SeqLog α) (q : ℕ) : Option α := (l.rows.find? fun r => r.1 = q).map Prod.snd

/-- The values in ascending order of their sequence numbers. -/
def values (l : SeqLog α) : List α := l.rows.map Prod.snd

/-- The largest sequence number, `0` for an empty log. -/
def maxSeq (l : SeqLog α) : ℕ := (l.rows.getLast?.map Prod.fst).getD 0

/-- The rows with a sequence number above `q`, in ascending order. -/
def after (l : SeqLog α) (q : ℕ) : List (ℕ × α) := l.rows.filter fun r => q < r.1

/-- Delete the rows with a sequence number of at most `q`. -/
def deleteUpTo (l : SeqLog α) (q : ℕ) : SeqLog α := ⟨l.after q, l.sorted.filter _⟩

/-! ## Insertion -/

/-- Put a row at its place; `none` if its sequence number is taken. -/
def insertRow (q : ℕ) (a : α) : List (ℕ × α) → Option (List (ℕ × α))
  | [] => some [(q, a)]
  | (p, b) :: rows =>
      if q < p then some ((q, a) :: (p, b) :: rows)
      else if q = p then none
      else (insertRow q a rows).map ((p, b) :: ·)

theorem insertRow_perm {q : ℕ} {a : α} {rows rows' : List (ℕ × α)}
    (h : insertRow q a rows = some rows') : rows'.Perm ((q, a) :: rows) := by
  induction rows generalizing rows' with
  | nil => simp only [insertRow, Option.some.injEq] at h; exact h ▸ .refl _
  | cons r rows ih =>
      obtain ⟨p, b⟩ := r
      simp only [insertRow] at h
      split_ifs at h with hlt heq
      · exact Option.some.inj h ▸ .refl _
      · obtain ⟨t, ht, rfl⟩ := Option.map_eq_some_iff.1 h
        exact ((ih ht).cons _).trans (.swap _ _ _)

theorem insertRow_sorted {q : ℕ} {a : α} {rows rows' : List (ℕ × α)}
    (hs : rows.Pairwise fun a b => a.1 < b.1) (h : insertRow q a rows = some rows') :
    rows'.Pairwise fun a b => a.1 < b.1 := by
  induction rows generalizing rows' with
  | nil => simp only [insertRow, Option.some.injEq] at h; subst h; simp
  | cons r rows ih =>
      obtain ⟨p, b⟩ := r
      obtain ⟨hp, hs'⟩ := List.pairwise_cons.1 hs
      simp only [insertRow] at h
      split_ifs at h with hlt heq
      · obtain rfl := Option.some.inj h
        refine List.pairwise_cons.2 ⟨fun r hr => ?_, hs⟩
        rcases List.mem_cons.1 hr with rfl | hr
        · exact hlt
        · exact lt_trans hlt (hp r hr)
      · obtain ⟨t, ht, rfl⟩ := Option.map_eq_some_iff.1 h
        refine List.pairwise_cons.2 ⟨fun r hr => ?_, ih hs' ht⟩
        rcases List.mem_cons.1 ((insertRow_perm ht).mem_iff.1 hr) with rfl | hr
        · exact lt_of_le_of_ne (not_lt.1 hlt) (Ne.symm heq)
        · exact hp r hr

/-- Insert a row; `none` if its sequence number is taken. -/
def insert? (l : SeqLog α) (q : ℕ) (a : α) : Option (SeqLog α) :=
  match h : insertRow q a l.rows with
  | none => none
  | some rows => some ⟨rows, insertRow_sorted l.sorted h⟩

theorem insert?_eq_some {l l' : SeqLog α} {q : ℕ} {a : α} :
    l.insert? q a = some l' ↔ insertRow q a l.rows = some l'.rows := by
  unfold insert?
  split
  next h => simp [h]
  next rows h => simp [h, SeqLog.ext_iff]

theorem insert?_eq_none {l : SeqLog α} {q : ℕ} {a : α} :
    l.insert? q a = none ↔ insertRow q a l.rows = none := by
  unfold insert?
  split
  next h => simp [h]
  next rows h => simp [h]

/-! ## Reading by sequence number -/

@[simp] theorem get?_empty (q : ℕ) : (empty : SeqLog α).get? q = none := rfl

theorem get?_eq_some {l : SeqLog α} {q : ℕ} {a : α} : l.get? q = some a ↔ (q, a) ∈ l.rows := by
  obtain ⟨rows, hs⟩ := l
  simp only [get?, Option.map_eq_some_iff]
  constructor
  · rintro ⟨r, hr, rfl⟩
    have hq : r.1 = q := by simpa using List.find?_some hr
    exact hq ▸ List.mem_of_find?_eq_some hr
  · intro hmem
    induction rows with
    | nil => simp at hmem
    | cons r rows ih =>
        obtain ⟨hr, hs'⟩ := List.pairwise_cons.1 hs
        rcases List.mem_cons.1 hmem with rfl | hmem
        · exact ⟨(q, a), by simp, rfl⟩
        · have hne : r.1 ≠ q := Nat.ne_of_lt (hr _ hmem)
          rw [List.find?_cons_of_neg (by simpa using hne)]
          exact ih hs' hmem

theorem get?_eq_none {l : SeqLog α} {q : ℕ} : l.get? q = none ↔ ∀ a, (q, a) ∉ l.rows := by
  simp only [Option.eq_none_iff_forall_ne_some, ne_eq, get?_eq_some]

/-- Two logs with the same row under every sequence number are equal. -/
theorem ext_get? {l l' : SeqLog α} (h : ∀ q, l.get? q = l'.get? q) : l = l' := by
  have hmem : ∀ r, r ∈ l.rows ↔ r ∈ l'.rows := fun r => by
    rw [← get?_eq_some, ← get?_eq_some, h]
  have hirr : ∀ a b : ℕ × α, a.1 < b.1 → ¬ b.1 < a.1 := fun _ _ hab hba => lt_asymm hab hba
  have hnd : ∀ l : SeqLog α, l.rows.Nodup := fun l =>
    l.sorted.imp fun hab heq => absurd (heq ▸ hab) (lt_irrefl _)
  have hperm := (List.perm_ext_iff_of_nodup (hnd l) (hnd l')).2 hmem
  exact ext (hperm.eq_of_pairwise (fun a b _ _ hab hba => absurd hba (hirr a b hab))
    l.sorted l'.sorted)

theorem insertRow_eq_none {q : ℕ} {a : α} {rows : List (ℕ × α)}
    (hs : rows.Pairwise fun a b => a.1 < b.1) :
    insertRow q a rows = none ↔ ∃ b, (q, b) ∈ rows := by
  induction rows with
  | nil => simp [insertRow]
  | cons r rows ih =>
      obtain ⟨p, b⟩ := r
      obtain ⟨hp, hs'⟩ := List.pairwise_cons.1 hs
      simp only [insertRow]
      split_ifs with hlt heq
      · simp only [false_iff, not_exists, List.mem_cons, Prod.mk.injEq, not_or]
        exact fun c => ⟨fun h => Nat.ne_of_lt hlt h.1, fun hc => lt_asymm hlt (hp _ hc)⟩
      · exact iff_of_true rfl ⟨b, by simp [heq]⟩
      · simp [ih hs', heq]

/-- Insertion fails exactly when the sequence number is taken. -/
theorem insert?_eq_none_iff {l : SeqLog α} {q : ℕ} {a : α} :
    l.insert? q a = none ↔ (l.get? q).isSome := by
  rw [insert?_eq_none, insertRow_eq_none l.sorted, Option.isSome_iff_exists]
  simp only [get?_eq_some]

theorem get?_eq_none_of_insert? {l l' : SeqLog α} {q : ℕ} {a : α} (h : l.insert? q a = some l') :
    l.get? q = none := by
  rw [← Option.not_isSome_iff_eq_none, ← insert?_eq_none_iff (a := a), h]
  simp

theorem get?_insert? {l l' : SeqLog α} {q : ℕ} {a : α} (h : l.insert? q a = some l') (r : ℕ) :
    l'.get? r = if r = q then some a else l.get? r := by
  have hmem := fun x => (insertRow_perm (insert?_eq_some.1 h)).mem_iff (a := x)
  split_ifs with hr
  · exact get?_eq_some.2 ((hmem _).2 (by simp [hr]))
  · refine Option.ext fun b => ?_
    rw [get?_eq_some, get?_eq_some, hmem]
    simp [hr]

theorem insert?_isSome_of_get?_eq_none {l : SeqLog α} {q : ℕ} {a : α} (h : l.get? q = none) :
    ∃ l', l.insert? q a = some l' := by
  cases hl : l.insert? q a with
  | none => simp [insert?_eq_none_iff, h] at hl
  | some l' => exact ⟨l', rfl⟩

theorem get?_deleteUpTo (l : SeqLog α) (q r : ℕ) :
    (l.deleteUpTo q).get? r = if r ≤ q then none else l.get? r := by
  split_ifs with hr
  · rw [get?_eq_none]
    intro a ha
    have := (List.mem_filter.1 ha).2
    simp at this
    omega
  · refine Option.ext fun a => ?_
    rw [get?_eq_some, get?_eq_some]
    simp only [deleteUpTo, after, List.mem_filter, decide_eq_true_eq]
    exact and_iff_left (by omega)

theorem le_maxSeq {l : SeqLog α} {q : ℕ} {a : α} (h : l.get? q = some a) : q ≤ l.maxSeq := by
  have hmem := get?_eq_some.1 h
  obtain ⟨rows, sorted⟩ := l
  induction rows using List.reverseRecOn with
  | nil => cases hmem
  | append_singleton rows row ih =>
      rw [maxSeq, List.getLast?_concat]
      rcases List.mem_append.1 hmem with hrow | hrow
      · exact ((List.pairwise_append.1 sorted).2.2 _ hrow row (List.mem_singleton_self row)).le
      · exact (congrArg Prod.fst (List.mem_singleton.1 hrow)).le

theorem maxSeq_le {l : SeqLog α} {n : ℕ} (h : ∀ q a, l.get? q = some a → q ≤ n) :
    l.maxSeq ≤ n := by
  rw [maxSeq]
  cases hlast : l.rows.getLast? with
  | none => exact Nat.zero_le n
  | some row => exact h row.1 row.2 (get?_eq_some.2 (List.mem_of_getLast? hlast))

/-! ## Contiguous logs -/

/-- The rows of `xs`, numbered from `q` on. -/
def rowsFrom : ℕ → List α → List (ℕ × α)
  | _, [] => []
  | q, a :: as => (q, a) :: rowsFrom (q + 1) as

theorem rowsFrom_append (q : ℕ) (xs ys : List α) :
    rowsFrom q (xs ++ ys) = rowsFrom q xs ++ rowsFrom (q + xs.length) ys := by
  induction xs generalizing q with
  | nil => rfl
  | cons a xs ih =>
      simp only [List.cons_append, rowsFrom, List.length_cons, ih (q + 1)]
      rw [show q + 1 + xs.length = q + (xs.length + 1) by omega]

theorem take_rowsFrom (q k : ℕ) (xs : List α) :
    (rowsFrom q xs).take k = rowsFrom q (xs.take k) := by
  induction xs generalizing q k with
  | nil => simp [rowsFrom]
  | cons a xs ih =>
      cases k with
      | zero => rfl
      | succ k => rw [rowsFrom, List.take_succ_cons, ih, List.take_succ_cons, rowsFrom]

@[simp] theorem map_snd_rowsFrom (q : ℕ) (xs : List α) : (rowsFrom q xs).map Prod.snd = xs := by
  induction xs generalizing q with
  | nil => rfl
  | cons a xs ih => simp [rowsFrom, ih]

theorem map_fst_rowsFrom (q : ℕ) (xs : List α) :
    (rowsFrom q xs).map Prod.fst = List.range' q xs.length := by
  induction xs generalizing q with
  | nil => rfl
  | cons a xs ih => simp [rowsFrom, ih, List.range'_succ]

theorem mem_rowsFrom {q r : ℕ} {a : α} {xs : List α} :
    (r, a) ∈ rowsFrom q xs ↔ q ≤ r ∧ xs[r - q]? = some a := by
  induction xs generalizing q with
  | nil => simp [rowsFrom]
  | cons b xs ih =>
      simp only [rowsFrom, List.mem_cons, Prod.mk.injEq, ih]
      rcases lt_trichotomy r q with h | rfl | h
      · simp [h.ne, not_le.2 h]; omega
      · simp [eq_comm, show ¬ r + 1 ≤ r by omega]
      · obtain ⟨k, rfl⟩ : ∃ k, r = q + 1 + k := ⟨r - (q + 1), by omega⟩
        simp [show q + 1 + k - q = k + 1 by omega, show q + 1 + k ≠ q by omega]
        omega

theorem head?_rowsFrom {q : ℕ} {xs : List α} {row : ℕ × α} (h : row ∈ (rowsFrom q xs).head?) :
    row.1 = q := by
  cases xs with
  | nil => cases h
  | cons a xs => obtain rfl := Option.mem_some_iff.1 h; rfl

theorem rowsFrom_sorted (q : ℕ) (xs : List α) :
    (rowsFrom q xs).Pairwise fun a b => a.1 < b.1 := by
  induction xs generalizing q with
  | nil => exact .nil
  | cons a xs ih =>
      exact List.pairwise_cons.2 ⟨fun r hr => (mem_rowsFrom (r := r.1) (a := r.2)).1 hr |>.1, ih _⟩

/-- The log that holds `xs` under the sequence numbers `s + 1`, `s + 2`, and so on. -/
def ofList (s : ℕ) (xs : List α) : SeqLog α := ⟨rowsFrom (s + 1) xs, rowsFrom_sorted _ _⟩

@[simp] theorem rows_ofList (s : ℕ) (xs : List α) : (ofList s xs).rows = rowsFrom (s + 1) xs := rfl

@[simp] theorem ofList_nil (s : ℕ) : ofList s ([] : List α) = empty := rfl

@[simp] theorem values_ofList (s : ℕ) (xs : List α) : (ofList s xs).values = xs :=
  map_snd_rowsFrom _ _

theorem get?_ofList (s : ℕ) (xs : List α) (q : ℕ) :
    (ofList s xs).get? q = if s < q then xs[q - s - 1]? else none := by
  refine Option.ext fun a => ?_
  rw [get?_eq_some, rows_ofList, mem_rowsFrom]
  split_ifs with h
  · rw [show q - (s + 1) = q - s - 1 by omega]
    exact and_iff_right h
  · simp only [iff_false, not_and]
    exact fun h' => absurd h' h

theorem getLast?_rowsFrom (q : ℕ) (xs : List α) :
    (rowsFrom q xs).getLast?.map Prod.fst = if xs = [] then none else some (q + xs.length - 1) := by
  rw [← List.getLast?_map, map_fst_rowsFrom, List.getLast?_range']
  cases xs <;> simp

theorem maxSeq_ofList (s : ℕ) (xs : List α) :
    (ofList s xs).maxSeq = if xs = [] then 0 else s + xs.length := by
  rw [maxSeq, rows_ofList, getLast?_rowsFrom]
  split_ifs with h
  · rfl
  · simp only [Option.getD_some]; omega

@[simp] theorem maxSeq_ofList_zero (xs : List α) : (ofList 0 xs).maxSeq = xs.length := by
  rw [maxSeq_ofList]
  split_ifs with h
  · simp [h]
  · omega

/-- The next free sequence number takes a new row at the end. -/
theorem insert?_ofList_next (s : ℕ) (xs : List α) (a : α) :
    (ofList s xs).insert? (s + xs.length + 1) a = some (ofList s (xs ++ [a])) := by
  obtain ⟨l', h⟩ := insert?_isSome_of_get?_eq_none (l := ofList s xs) (q := s + xs.length + 1)
    (a := a) (by simp [get?_ofList]; omega)
  rw [h, Option.some.injEq]
  refine ext_get? fun q => ?_
  rw [get?_insert? h, get?_ofList, get?_ofList]
  rcases lt_trichotomy q (s + xs.length + 1) with hq | rfl | hq
  · rw [if_neg hq.ne]
    split_ifs with hs
    · rw [List.getElem?_append_left (by omega)]
    · rfl
  · rw [if_pos rfl, if_pos (by omega), show s + xs.length + 1 - s - 1 = xs.length by omega]
    simp
  · rw [if_neg hq.ne', List.getElem?_eq_none (by omega), List.getElem?_eq_none (by simp; omega)]

/-- A sequence number inside the log is taken. -/
theorem insert?_ofList_taken {s q : ℕ} {xs : List α} (hs : s < q) (hq : q ≤ s + xs.length)
    (a : α) : (ofList s xs).insert? q a = none := by
  rw [insert?_eq_none_iff, get?_ofList, if_pos hs]
  simp; omega

theorem after_rowsFrom (q k : ℕ) (xs : List α) :
    (rowsFrom q xs).filter (fun r => q + k ≤ r.1) = rowsFrom (q + k) (xs.drop k) := by
  induction xs generalizing q k with
  | nil => simp [rowsFrom]
  | cons a xs ih =>
      cases k with
      | zero =>
          rw [List.filter_eq_self.2 fun r hr => by
            simpa using ((mem_rowsFrom (r := r.1) (a := r.2)).1 hr).1]
          rfl
      | succ k =>
          rw [rowsFrom, List.filter_cons_of_neg (by simp),
            show q + (k + 1) = q + 1 + k by omega, ih, List.drop_succ_cons]

/-- Reading past the first `k` rows. -/
theorem after_ofList (s k : ℕ) (xs : List α) :
    (ofList s xs).after (s + k) = rowsFrom (s + k + 1) (xs.drop k) := by
  have := after_rowsFrom (s + 1) k xs
  rw [show s + 1 + k = s + k + 1 by omega] at this
  exact this

theorem deleteUpTo_ofList (s k : ℕ) (xs : List α) :
    (ofList s xs).deleteUpTo (s + k) = ofList (s + k) (xs.drop k) :=
  ext (after_ofList s k xs)

/-! ## Inserting a batch of consecutive rows -/

/-- Insert the values under `q`, `q + 1`, and so on; `none` if one of these numbers is taken. -/
def insertFrom? (l : SeqLog α) (q : ℕ) : List α → Option (SeqLog α)
  | [] => some l
  | a :: as => (l.insert? q a).bind fun l' => l'.insertFrom? (q + 1) as

theorem get?_insertFrom? {l l' : SeqLog α} {q : ℕ} {as : List α}
    (h : l.insertFrom? q as = some l') (r : ℕ) :
    l'.get? r = if q ≤ r ∧ r < q + as.length then as[r - q]? else l.get? r := by
  induction as generalizing l q with
  | nil =>
      obtain rfl := Option.some.inj h
      simp
  | cons a as ih =>
      obtain ⟨m, hm, hl'⟩ := Option.bind_eq_some_iff.1 h
      rw [ih hl', get?_insert? hm]
      rcases lt_trichotomy r q with hr | rfl | hr
      · rw [if_neg (by omega), if_neg (by omega), if_neg (by omega)]
      · rw [if_neg (by omega), if_pos rfl, if_pos (by simp)]
        simp
      · obtain ⟨k, rfl⟩ : ∃ k, r = q + 1 + k := ⟨r - (q + 1), by omega⟩
        simp only [List.length_cons, show q + 1 + k - q = k + 1 by omega,
          List.getElem?_cons_succ, show q + 1 + k - (q + 1) = k by omega]
        split_ifs <;> first | rfl | omega

/-- A batch fails exactly when one of its numbers is taken. -/
theorem insertFrom?_eq_none_iff {l : SeqLog α} {q : ℕ} {as : List α} :
    l.insertFrom? q as = none ↔ ∃ r, q ≤ r ∧ r < q + as.length ∧ (l.get? r).isSome := by
  induction as generalizing l q with
  | nil => simp [insertFrom?]; omega
  | cons a as ih =>
      rw [insertFrom?, Option.bind_eq_none_iff]
      constructor
      · intro h
        cases hm : l.insert? q a with
        | none => exact ⟨q, le_rfl, by simp, insert?_eq_none_iff.1 hm⟩
        | some m =>
            obtain ⟨r, hqr, hr, hs⟩ := ih.1 (h m hm)
            rw [get?_insert? hm, if_neg (by omega)] at hs
            exact ⟨r, by omega, by simp; omega, hs⟩
      · rintro ⟨r, hqr, hr, hs⟩ m hm
        have hne : r ≠ q := fun heq => by
          rw [heq, ← insert?_eq_none_iff (a := a), hm] at hs; cases hs
        rw [List.length_cons] at hr
        exact ih.2 ⟨r, by omega, by omega, by rwa [get?_insert? hm, if_neg hne]⟩

/-- A batch that starts at the next free number goes to the end. -/
theorem insertFrom?_ofList_next (s : ℕ) (xs as : List α) :
    (ofList s xs).insertFrom? (s + xs.length + 1) as = some (ofList s (xs ++ as)) := by
  induction as generalizing xs with
  | nil => simp [insertFrom?]
  | cons a as ih =>
      rw [insertFrom?, insert?_ofList_next, Option.bind_some]
      have := ih (xs ++ [a])
      rw [List.length_append, List.length_singleton, ← Nat.add_assoc, List.append_assoc] at this
      exact this

/-- A nonempty batch that starts inside the log fails. -/
theorem insertFrom?_ofList_taken {s q : ℕ} {xs as : List α} (hs : s < q) (hq : q ≤ s + xs.length)
    (has : as ≠ []) : (ofList s xs).insertFrom? q as = none := by
  refine insertFrom?_eq_none_iff.2 ⟨q, le_rfl, ?_, ?_⟩
  · have := List.length_pos_iff.2 has; omega
  · rw [get?_ofList, if_pos hs]
    simp; omega

end SeqLog
