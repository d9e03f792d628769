import EventSorcery.Lib.Machine

/-!
# Threads over shared data

A pool is shared data and any number of threads, each at a point of its program. One operation starts
a thread or takes one atomic step of a thread; a thread that has to wait takes no step. What a whole
run keeps is stated as *conservation laws*: a number read off the shared data is the number of threads
at certain points, because every step changes both by the same amount. A lock is the law whose number
is never more than one.
-/

/-- Shared data, and where each thread is in its program. -/
structure Pool (σ τ : Type*) where
  shared : σ
  threads : List τ

namespace Pool

variable {σ τ ε κ : Type*}

/-- Start a thread, or let one take a step; `choice` is what the step meets from outside. -/
inductive Op (ε κ : Type*) where
  | start (entry : ε)
  | step (i : ℕ) (choice : κ)

/-- The pool whose threads begin at `entry` and move by `next`. -/
def machine (init : σ) (entry : ε → τ) (next : σ → τ → κ → Option (σ × τ)) :
    Machine (Pool σ τ) (Op ε κ) where
  init := ⟨init, []⟩
  step p
    | .start e => ⟨p.shared, p.threads ++ [entry e]⟩
    | .step i choice =>
        match p.threads[i]?.bind fun t => next p.shared t choice with
        | none => p
        | some (shared, t) => ⟨shared, p.threads.set i t⟩

section Steps

variable {init : σ} {entry : ε → τ} {next : σ → τ → κ → Option (σ × τ)} {p : Pool σ τ}

/-- What one operation does: nothing, one more thread, or one thread's step among the others. -/
theorem step_cases (p : Pool σ τ) (op : Op ε κ) :
    (machine init entry next).step p op = p ∨
      (∃ e, op = .start e ∧
        (machine init entry next).step p op = ⟨p.shared, p.threads ++ [entry e]⟩) ∨
      ∃ before t after choice shared t', op = .step before.length choice ∧
        p.threads = before ++ t :: after ∧ next p.shared t choice = some (shared, t') ∧
        (machine init entry next).step p op = ⟨shared, before ++ t' :: after⟩ := by
  cases op with
  | start e => exact .inr (.inl ⟨e, rfl, rfl⟩)
  | step i choice =>
      cases hnext : p.threads[i]?.bind fun t => next p.shared t choice with
      | none =>
          refine .inl ?_
          simp only [machine, hnext]
      | some result =>
          obtain ⟨shared, t'⟩ := result
          obtain ⟨t, hget, hstep⟩ := Option.bind_eq_some_iff.1 hnext
          obtain ⟨hlt, rfl⟩ := List.getElem?_eq_some_iff.1 hget
          have hlength : (p.threads.take i).length = i := List.length_take_of_le hlt.le
          refine .inr (.inr ⟨p.threads.take i, p.threads[i], p.threads.drop (i + 1), choice, shared,
            t', by rw [hlength], ?_, hstep, ?_⟩)
          · rw [List.getElem_cons_drop, List.take_append_drop]
          · simp only [machine, hnext, List.set_eq_take_append_cons_drop, if_pos hlt]

/-- A thread's step, where it takes one. -/
theorem step_of_next {i : ℕ} {t t' : τ} {shared : σ} {choice : κ} (hi : p.threads[i]? = some t)
    (hnext : next p.shared t choice = some (shared, t')) :
    (machine init entry next).step p (.step i choice) = ⟨shared, p.threads.set i t'⟩ := by
  simp only [machine, hi, Option.bind_some, hnext]

/-- What a thread's step leaves of the shared data. -/
theorem shared_step {i : ℕ} {t : τ} (hi : p.threads[i]? = some t) (choice : κ) :
    ((machine init entry next).step p (.step i choice)).shared =
      ((next p.shared t choice).map Prod.fst).getD p.shared := by
  simp only [machine, hi, Option.bind_some]
  cases next p.shared t choice <;> rfl

/-- What one operation keeps: a new thread keeps it, and so does a step of a thread among any others
where the operation meets the condition `G`. -/
theorem step_invariant {P : σ → List τ → Prop} {G : Pool σ τ → Op ε κ → Prop}
    (hstart : ∀ s threads e, P s threads → P s (threads ++ [entry e]))
    (hstep : ∀ s before t after choice s' t', P s (before ++ t :: after) →
      G ⟨s, before ++ t :: after⟩ (.step before.length choice) →
      next s t choice = some (s', t') → P s' (before ++ t' :: after))
    {op : Op ε κ} (hp : P p.shared p.threads) (hG : G p op) :
    P ((machine init entry next).step p op).shared
      ((machine init entry next).step p op).threads := by
  have hcases : (machine init entry next).step p op = p ∨ _ := step_cases p op
  rcases hcases with
    hsame | ⟨e, -, hnew⟩ | ⟨before, t, after, choice, s', t', rfl, hthreads, hnext, hmoved⟩
  · rwa [hsame]
  · rw [hnew]
    exact hstart _ _ e hp
  · rw [hmoved]
    obtain ⟨s, threads⟩ := p
    obtain rfl : threads = before ++ t :: after := hthreads
    exact hstep _ _ _ _ _ _ _ hp hG hnext

/-- An invariant of a pool: a new thread keeps it, and so does a step of a thread among any others. -/
theorem exec_invariant {P : σ → List τ → Prop}
    (hstart : ∀ s threads e, P s threads → P s (threads ++ [entry e]))
    (hstep : ∀ s before t after choice s' t', P s (before ++ t :: after) →
      next s t choice = some (s', t') → P s' (before ++ t' :: after))
    (hp : P p.shared p.threads) (ops : List (Op ε κ)) :
    P ((machine init entry next).exec p ops).shared
      ((machine init entry next).exec p ops).threads :=
  Machine.exec_invariant (P := fun p : Pool σ τ => P p.shared p.threads)
    (fun _ _ hp => step_invariant (G := fun _ _ => True) hstart
      (fun s before t after choice s' t' hp _ => hstep s before t after choice s' t' hp) hp trivial)
    hp ops

/-- The same for the runs whose steps all meet a condition. -/
theorem run_invariant_of_meets {P : σ → List τ → Prop} {G : Pool σ τ → Op ε κ → Prop}
    (hinit : P init []) (hstart : ∀ s threads e, P s threads → P s (threads ++ [entry e]))
    (hstep : ∀ s before t after choice s' t', P s (before ++ t :: after) →
      G ⟨s, before ++ t :: after⟩ (.step before.length choice) →
      next s t choice = some (s', t') → P s' (before ++ t' :: after)) {ops : List (Op ε κ)}
    (hG : (machine init entry next).Meets G (machine init entry next).init ops) :
    P ((machine init entry next).run ops).shared ((machine init entry next).run ops).threads :=
  Machine.run_invariant_of_meets (P := fun p : Pool σ τ => P p.shared p.threads) hinit
    (fun _ _ hp hG => step_invariant hstart hstep hp hG) hG

end Steps

/-! ## Conservation laws -/

variable {before after : List τ} {t t' u : τ} {p : τ → Bool} {n n' : ℕ}

/-- A step moves one thread from one point to another. -/
theorem countP_move (p : τ → Bool) (before after : List τ) (t t' : τ) :
    (before ++ t' :: after).countP p + (p t).toNat =
      (before ++ t :: after).countP p + (p t').toNat := by
  rw [List.countP_append, List.countP_cons, List.countP_append, List.countP_cons]
  cases p t <;> cases p t' <;> simp <;> omega

/-- A new thread at none of the counted points. -/
theorem countP_start {threads : List τ} (ht : p t = false) :
    (threads ++ [t]).countP p = threads.countP p := by
  simp [ht]

/-- The threads at the counted points, if a step changes their number as it changes the count. -/
theorem countP_step (h : (before ++ t :: after).countP p = n)
    (hstep : n' + (p t).toNat = n + (p t').toNat) : (before ++ t' :: after).countP p = n' := by
  have hmove := countP_move p before after t t'
  omega

theorem countP_same (before after : List τ) (h : p t' = p t) :
    (before ++ t' :: after).countP p = (before ++ t :: after).countP p := by
  simp only [List.countP_append, List.countP_cons, h]

/-- The same for a number that each thread contributes to. -/
theorem sum_move (w : τ → ℕ) (before after : List τ) (t t' : τ) :
    ((before ++ t' :: after).map w).sum + w t = ((before ++ t :: after).map w).sum + w t' := by
  simp only [List.map_append, List.map_cons, List.sum_append, List.sum_cons]
  omega

/-- One thread and the others. -/
theorem forall_mem_split {P : τ → Prop} :
    (∀ u ∈ before ++ t :: after, P u) ↔ P t ∧ ∀ u ∈ before ++ after, P u := by
  simp only [List.forall_mem_append, List.forall_mem_cons]
  tauto

/-- The lock that a thread holds is taken. -/
theorem eq_true_of_mem {threads : List τ} {b : Bool} (h : threads.countP p = b.toNat)
    (hmem : t ∈ threads) (ht : p t = true) : b = true := by
  have hpos : 0 < threads.countP p := List.countP_pos_iff.2 ⟨t, hmem, ht⟩
  cases b with
  | true => rfl
  | false => rw [h] at hpos; exact absurd hpos (lt_irrefl 0)

/-- A thread at another position is one of the others. -/
theorem mem_others {i : ℕ} (hi : (before ++ t :: after)[i]? = some u) (hne : i ≠ before.length) :
    u ∈ before ++ after := by
  rcases Nat.lt_or_gt_of_ne hne with hlt | hgt
  · rw [List.getElem?_append_left hlt] at hi
    exact List.mem_append_left _ (List.mem_of_getElem? hi)
  · rw [List.getElem?_append_right hgt.le, ← Nat.succ_pred_eq_of_pos (Nat.sub_pos_of_lt hgt),
      List.getElem?_cons_succ] at hi
    exact List.mem_append_right _ (List.mem_of_getElem? hi)

/-- Where at most one thread is, there is no other beside it. -/
theorem not_of_countP_le_one (h : (before ++ t :: after).countP p ≤ 1) (ht : p t = true)
    (hu : u ∈ before ++ after) : p u = false := by
  by_contra hpu
  have hpos : 0 < (before ++ after).countP p :=
    List.countP_pos_iff.2 ⟨u, hu, by simpa using hpu⟩
  rw [List.countP_append, List.countP_cons, if_pos ht] at h
  rw [List.countP_append] at hpos
  omega

/-- A thread that is there alone is the only one. -/
theorem countP_le_one {threads : List τ}
    (h : ∀ before t after, threads = before ++ t :: after → p t = true →
      ∀ u ∈ before ++ after, p u = false) : threads.countP p ≤ 1 := by
  by_cases hnone : ∀ t ∈ threads, ¬ p t = true
  · rw [List.countP_eq_zero.2 hnone]
    exact Nat.zero_le 1
  · push Not at hnone
    obtain ⟨t, ht, hpt⟩ := hnone
    obtain ⟨before, after, rfl⟩ := List.append_of_mem ht
    have hothers : (before ++ after).countP p = 0 :=
      List.countP_eq_zero.2 fun u hu => by simp [h before t after rfl hpt u hu]
    rw [List.countP_append] at hothers
    rw [List.countP_append, List.countP_cons, if_pos hpt]
    omega

end Pool
