import Mathlib

/-!
# Fallible batches

Peeling a fallible computation apart, and processing a list in chunks.
-/

universe u

theorem Except.bind_eq_ok {ε : Type*} {α β : Type u} {x : Except ε α} {f : α → Except ε β} {b : β} :
    x >>= f = .ok b ↔ ∃ a, x = .ok a ∧ f a = .ok b := by
  cases x with
  | error e => exact ⟨(nomatch ·), fun ⟨_, h, _⟩ => nomatch h⟩
  | ok a => exact ⟨fun h => ⟨a, rfl, h⟩, fun ⟨_, h, h'⟩ => by cases h; exact h'⟩

theorem Except.bind_eq_error {ε : Type*} {α β : Type u} {x : Except ε α} {f : α → Except ε β} {e : ε} :
    x >>= f = .error e ↔ x = .error e ∨ ∃ a, x = .ok a ∧ f a = .error e := by
  cases x with
  | error e' => exact ⟨fun h => .inl (by cases h; rfl), fun h => h.elim (fun h => by cases h; rfl)
      fun ⟨_, h, _⟩ => nomatch h⟩
  | ok a => exact ⟨fun h => .inr ⟨a, rfl, h⟩, fun h => h.elim (nomatch ·)
      fun ⟨_, h, h'⟩ => by cases h; exact h'⟩

theorem Except.toOption_eq_some {ε α : Type*} {x : Except ε α} {a : α} :
    x.toOption = some a ↔ x = .ok a := by
  cases x <;> simp [Except.toOption]

theorem Except.mapError_eq_ok {ε ε' α : Type*} {f : ε → ε'} {x : Except ε α} {a : α} :
    x.mapError f = .ok a ↔ x = .ok a := by
  cases x <;> simp [Except.mapError]

namespace List

variable {α : Type*}

theorem flatten_toChunks_go (n : ℕ) (xs : List α) (acc₁ : Array α) (acc₂ : Array (List α)) :
    (toChunks.go n xs acc₁ acc₂).flatten = acc₂.toList.flatten ++ acc₁.toList ++ xs := by
  induction xs generalizing acc₁ acc₂ with
  | nil => simp [toChunks.go]
  | cons x xs ih =>
      rw [toChunks.go]
      split_ifs with h <;> simp [ih]

/-- Chunking loses nothing. -/
theorem flatten_toChunks (n : ℕ) (xs : List α) : (xs.toChunks n).flatten = xs := by
  cases xs with
  | nil => simp [toChunks]
  | cons x xs =>
      cases n with
      | zero => simp [toChunks]
      | succ n => simp [toChunks, flatten_toChunks_go]

/-- A traversal succeeds exactly when every element does, each with its own result. -/
theorem mapM_eq_ok {ε : Type*} {α β : Type u} {f : α → Except ε β} {xs : List α} {ys : List β} :
    xs.mapM f = .ok ys ↔ xs.map f = ys.map .ok := by
  induction xs generalizing ys with
  | nil => simp [Pure.pure, Except.pure, eq_comm]
  | cons x xs ih =>
      rw [mapM_cons, Except.bind_eq_ok]
      simp only [Except.bind_eq_ok, ih]
      constructor
      · rintro ⟨y, hy, ys', hys', heq⟩
        obtain rfl := Except.ok.inj heq
        rw [map_cons, map_cons, hy, hys']
      · intro h
        cases ys with
        | nil => cases h
        | cons y ys => exact ⟨y, (cons.inj h).1, ys, (cons.inj h).2, rfl⟩

/-- The results of a traversal are the results of its elements. -/
theorem mem_of_mapM_eq_ok {ε : Type*} {α β : Type u} {f : α → Except ε β} {xs : List α}
    {ys : List β} (h : xs.mapM f = .ok ys) :
    (∀ x ∈ xs, ∃ y ∈ ys, f x = .ok y) ∧ ∀ y ∈ ys, ∃ x ∈ xs, f x = .ok y := by
  have hmap := mapM_eq_ok.1 h
  refine ⟨fun x hx => ?_, fun y hy => ?_⟩
  · obtain ⟨y, hy, heq⟩ := mem_map.1 (hmap ▸ mem_map_of_mem hx)
    exact ⟨y, hy, heq.symm⟩
  · obtain ⟨x, hx, heq⟩ := mem_map.1 (hmap ▸ mem_map_of_mem (f := Except.ok) hy : _ ∈ xs.map f)
    exact ⟨x, hx, heq⟩

theorem exists_mapM_eq_ok {ε : Type*} {α β : Type u} {f : α → Except ε β} {xs : List α}
    (h : ∀ x ∈ xs, ∃ y, f x = .ok y) : ∃ ys, xs.mapM f = .ok ys := by
  induction xs with
  | nil => exact ⟨[], rfl⟩
  | cons x xs ih =>
      rw [forall_mem_cons] at h
      obtain ⟨y, hy⟩ := h.1
      obtain ⟨ys, hys⟩ := ih h.2
      exact ⟨y :: ys, mapM_eq_ok.2 (by rw [map_cons, map_cons, hy, mapM_eq_ok.1 hys])⟩

theorem take_mapM_eq_ok {ε : Type*} {α β : Type u} {f : α → Except ε β} {xs : List α} {ys : List β}
    (h : xs.mapM f = .ok ys) (n : ℕ) : (xs.take n).mapM f = .ok (ys.take n) := by
  rw [mapM_eq_ok, map_take, map_take, mapM_eq_ok.1 h]

/-- What a fallible map keeps of its elements. -/
theorem map_of_mapM_eq_ok {ε γ : Type*} {α β : Type u} {f : α → Except ε β} {xs : List α}
    {ys : List β} {g : β → γ} {k : α → γ} (h : xs.mapM f = .ok ys)
    (hg : ∀ x y, f x = .ok y → g y = k x) : ys.map g = xs.map k := by
  induction xs generalizing ys with
  | nil => cases h; rfl
  | cons x xs ih =>
      rw [mapM_cons] at h
      obtain ⟨y, hy, h⟩ := Except.bind_eq_ok.1 h
      obtain ⟨ys', hys, h⟩ := Except.bind_eq_ok.1 h
      obtain rfl := Except.ok.inj h
      rw [map_cons, map_cons, hg x y hy, ih hys]

/-- A fallible fold over chunks, each checked as a whole before it is processed, succeeds exactly
when every element passes the check and the fold over all elements succeeds. -/
theorem foldlM_chunks_eq_ok {ε : Type*} {σ : Type u} {f : σ → α → Except ε σ} {p : α → Bool} {e : ε}
    {chunks : List (List α)} {s s' : σ} :
    chunks.foldlM (fun s chunk => if chunk.all p then chunk.foldlM f s else .error e) s = .ok s' ↔
      (∀ a ∈ chunks.flatten, p a) ∧ chunks.flatten.foldlM f s = .ok s' := by
  induction chunks generalizing s with
  | nil => simp
  | cons chunk chunks ih =>
      simp only [foldlM_cons, Except.bind_eq_ok, flatten_cons, foldlM_append, mem_append, ih]
      by_cases hp : chunk.all p
      · have hall := all_eq_true.1 hp
        simp only [hp, if_true]
        constructor
        · rintro ⟨t, ht, hrest, hfold⟩
          exact ⟨fun a ha => ha.elim (hall a) (hrest a), t, ht, hfold⟩
        · rintro ⟨hmem, t, ht, hfold⟩
          exact ⟨t, ht, fun a ha => hmem a (.inr ha), hfold⟩
      · simp only [hp]
        constructor
        · rintro ⟨t, ht, -⟩
          cases ht
        · rintro ⟨hmem, -⟩
          exact absurd (all_eq_true.2 fun a ha => hmem a (.inl ha)) hp

/-- Such a fold fails as a chunk that does not pass, or as the fold over some of the elements. -/
theorem foldlM_chunks_eq_error {ε : Type*} {σ : Type u} {f : σ → α → Except ε σ} {p : α → Bool}
    {e e' : ε} {chunks : List (List α)} {s : σ}
    (h : chunks.foldlM (fun s chunk => if chunk.all p then chunk.foldlM f s else .error e) s =
      .error e') : e' = e ∨ ∃ n, (chunks.flatten.take n).foldlM f s = .error e' := by
  induction chunks generalizing s with
  | nil => cases h
  | cons chunk chunks ih =>
      rw [foldlM_cons] at h
      split_ifs at h with hp
      · cases hchunk : chunk.foldlM f s with
        | error e'' =>
            rw [hchunk] at h
            obtain rfl := Except.error.inj h
            exact .inr ⟨chunk.length, by rw [flatten_cons, take_left, hchunk]⟩
        | ok t =>
            rw [hchunk] at h
            refine (ih h).imp_right fun ⟨n, hn⟩ => ⟨chunk.length + n, ?_⟩
            rw [flatten_cons, take_append, take_of_length_le (Nat.le_add_right _ _), foldlM_append,
              hchunk, Nat.add_sub_cancel_left]
            exact hn
      · exact .inl (Except.error.inj h).symm

/-- Where every element passes the check, the chunks do not show. -/
theorem foldlM_chunks_of_forall {ε : Type*} {σ : Type u} {f : σ → α → Except ε σ} {p : α → Bool}
    {e : ε} {chunks : List (List α)} (h : ∀ a ∈ chunks.flatten, p a) (s : σ) :
    chunks.foldlM (fun s chunk => if chunk.all p then chunk.foldlM f s else .error e) s =
      chunks.flatten.foldlM f s := by
  induction chunks generalizing s with
  | nil => rfl
  | cons chunk chunks ih =>
      simp only [flatten_cons, mem_append] at h
      have hall : chunk.all p := all_eq_true.2 fun a ha => h a (.inl ha)
      rw [foldlM_cons, flatten_cons, foldlM_append, if_pos hall]
      exact bind_congr fun t => ih (fun a ha => h a (.inr ha)) t

end List
