import Mathlib

/-!
# Runs of a machine

A machine is a start state and a total step function on operations. A run is a list of operations;
an operation that is not enabled leaves the state alone. The rules below turn a fact about one step
into a fact about every run.
-/

/-- A start state and what one operation does to a state. -/
structure Machine (σ ο : Type*) where
  init : σ
  step : σ → ο → σ

namespace Machine

variable {σ ο : Type*} (m : Machine σ ο)

/-- The state after the operations, starting from `s`. -/
def exec (s : σ) (ops : List ο) : σ := ops.foldl m.step s

/-- The state after the operations, starting from the machine's start state. -/
def run (ops : List ο) : σ := m.exec m.init ops

@[simp] theorem exec_nil (s : σ) : m.exec s [] = s := rfl

@[simp] theorem exec_cons (s : σ) (op : ο) (ops : List ο) :
    m.exec s (op :: ops) = m.exec (m.step s op) ops := rfl

theorem exec_append (s : σ) (ops ops' : List ο) :
    m.exec s (ops ++ ops') = m.exec (m.exec s ops) ops' :=
  List.foldl_append

theorem run_append (ops ops' : List ο) : m.run (ops ++ ops') = m.exec (m.run ops) ops' :=
  m.exec_append _ _ _

theorem run_concat (ops : List ο) (op : ο) : m.run (ops ++ [op]) = m.step (m.run ops) op :=
  m.run_append _ _

/-! ## Invariants -/

variable {m}

theorem exec_invariant {P : σ → Prop} (hstep : ∀ s op, P s → P (m.step s op)) {s : σ} (hs : P s)
    (ops : List ο) : P (m.exec s ops) := by
  induction ops generalizing s with
  | nil => exact hs
  | cons op ops ih => exact ih (hstep s op hs)

/-- What holds at the start and is kept by every step holds after every run. -/
theorem run_invariant {P : σ → Prop} (hinit : P m.init) (hstep : ∀ s op, P s → P (m.step s op))
    (ops : List ο) : P (m.run ops) :=
  exec_invariant hstep hinit ops

/-- What holds after a run but not at the start was brought about by one of its steps. -/
theorem run_first {P : σ → Prop} (hinit : ¬ P m.init) (ops : List ο) (h : P (m.run ops)) :
    ∃ before op after, ops = before ++ op :: after ∧ ¬ P (m.run before) ∧
      P (m.step (m.run before) op) := by
  induction ops using List.reverseRecOn with
  | nil => exact absurd h hinit
  | append_singleton ops op ih =>
      by_cases hops : P (m.run ops)
      · obtain ⟨before, op', after, rfl, hbefore, hstep⟩ := ih hops
        exact ⟨before, op', after ++ [op], by simp, hbefore, hstep⟩
      · exact ⟨ops, op, [], rfl, hops, m.run_concat ops op ▸ h⟩

/-! ## Runs whose steps all meet a condition -/

variable (m)

/-- Every operation meets `G` in the state it is applied to. -/
def Meets (G : σ → ο → Prop) (s : σ) : List ο → Prop
  | [] => True
  | op :: ops => G s op ∧ Meets G (m.step s op) ops

instance Meets.decidable (G : σ → ο → Prop) [∀ s op, Decidable (G s op)] :
    ∀ (s : σ) (ops : List ο), Decidable (m.Meets G s ops)
  | _, [] => inferInstanceAs (Decidable True)
  | s, op :: ops =>
      have := Meets.decidable G (m.step s op) ops
      inferInstanceAs (Decidable (G s op ∧ m.Meets G (m.step s op) ops))

variable {m}

theorem Meets.of_forall {G : σ → ο → Prop} (h : ∀ s op, G s op) (s : σ) (ops : List ο) :
    m.Meets G s ops := by
  induction ops generalizing s with
  | nil => exact trivial
  | cons op ops ih => exact ⟨h s op, ih _⟩

theorem Meets.of_append {G : σ → ο → Prop} {s : σ} {ops ops' : List ο}
    (h : m.Meets G s (ops ++ ops')) : m.Meets G s ops := by
  induction ops generalizing s with
  | nil => exact trivial
  | cons op ops ih => exact ⟨h.1, ih h.2⟩

theorem Meets.after {G : σ → ο → Prop} {s : σ} {ops ops' : List ο}
    (h : m.Meets G s (ops ++ ops')) : m.Meets G (m.exec s ops) ops' := by
  induction ops generalizing s with
  | nil => exact h
  | cons op ops ih => exact ih h.2

theorem Meets.imp {G H : σ → ο → Prop} (hGH : ∀ s op, G s op → H s op) {s : σ} {ops : List ο}
    (h : m.Meets G s ops) : m.Meets H s ops := by
  induction ops generalizing s with
  | nil => exact trivial
  | cons op ops ih => exact ⟨hGH s op h.1, ih h.2⟩

theorem Meets.and {G H : σ → ο → Prop} {s : σ} {ops : List ο} (hG : m.Meets G s ops)
    (hH : m.Meets H s ops) : m.Meets (fun s op => G s op ∧ H s op) s ops := by
  induction ops generalizing s with
  | nil => exact trivial
  | cons op ops ih => exact ⟨⟨hG.1, hH.1⟩, ih hG.2 hH.2⟩

theorem exec_invariant_of_meets {P : σ → Prop} {G : σ → ο → Prop}
    (hstep : ∀ s op, P s → G s op → P (m.step s op)) {s : σ} (hs : P s) {ops : List ο}
    (hG : m.Meets G s ops) : P (m.exec s ops) := by
  induction ops generalizing s with
  | nil => exact hs
  | cons op ops ih => exact ih (hstep s op hs hG.1) hG.2

/-- What holds at the start and is kept by every step that meets `G` holds after every run
whose steps all meet `G`. -/
theorem run_invariant_of_meets {P : σ → Prop} {G : σ → ο → Prop} (hinit : P m.init)
    (hstep : ∀ s op, P s → G s op → P (m.step s op)) {ops : List ο}
    (hG : m.Meets G m.init ops) : P (m.run ops) :=
  exec_invariant_of_meets hstep hinit hG

end Machine
