import Mathlib

/-!
# Programs that call out

A `Process` is a program that makes calls, waits for their answers, and returns. `Spec` is a rule
system for it over the calls answered so far: each call is allowed when it is made, and the result is
allowed when it is returned, whatever the answers are. Because it speaks about the rest of the
program only, one answered call takes it to itself, and it is an invariant of an interpreter that
advances many processes one answer at a time.
-/

/-- A program that makes calls `c : C`, each answered by an `A c`, and returns an `R`. -/
inductive Process (C : Type) (A : C → Type) (R : Type) where
  | ret (result : R)
  | call (c : C) (next : A c → Process C A R)

namespace Process

variable {C : Type} {A : C → Type} {R S : Type}

/-- Go on with the result. -/
def bind : Process C A R → (R → Process C A S) → Process C A S
  | ret r, f => f r
  | call c next, f => call c fun a => (next a).bind f

/-- The program, with calls that may be cut off: no answer ends it without a result. -/
def interruptible : Process C A R → Process C (fun c => Option (A c)) (Option R)
  | ret r => ret (some r)
  | call c next => call c fun
      | none => ret none
      | some a => (next a).interruptible

/-- An answered call. -/
abbrev Answered (C : Type) (A : C → Type) := Σ c : C, A c

/-- Every call the rest of the program makes is one `G` allows after the calls answered before it,
and every result it returns is one `Q` allows. -/
def Spec (G : List (Answered C A) → C → Prop) (Q : List (Answered C A) → R → Prop)
    (done : List (Answered C A)) : Process C A R → Prop
  | ret r => Q done r
  | call c next => G done c ∧ ∀ a, Spec G Q (done ++ [⟨c, a⟩]) (next a)

section Rules

variable {G G' : List (Answered C A) → C → Prop} {Q Q' : List (Answered C A) → R → Prop}
  {done : List (Answered C A)}

@[simp] theorem spec_ret {r : R} : Spec G Q done (.ret r) ↔ Q done r := Iff.rfl

@[simp] theorem spec_call {c : C} {next : A c → Process C A R} :
    Spec G Q done (.call c next) ↔ G done c ∧ ∀ a, Spec G Q (done ++ [⟨c, a⟩]) (next a) := Iff.rfl

theorem Spec.mono (hG : ∀ done c, G done c → G' done c) (hQ : ∀ done r, Q done r → Q' done r)
    {p : Process C A R} (h : Spec G Q done p) : Spec G' Q' done p := by
  induction p generalizing done with
  | ret r => exact hQ done r h
  | call c next ih => exact ⟨hG done c h.1, fun a => ih a (h.2 a)⟩

/-- Composition: what the first part returns with is what the second part starts from. -/
theorem Spec.bind {Q' : List (Answered C A) → S → Prop} {p : Process C A R}
    {f : R → Process C A S} (h : Spec G (fun done r => Spec G Q' done (f r)) done p) :
    Spec G Q' done (p.bind f) := by
  induction p generalizing done with
  | ret r => exact h
  | call c next ih => exact ⟨h.1, fun a => ih a (h.2 a)⟩

end Rules

/-- The calls of an uninterrupted run, as a run that could have been. -/
def uncut (done : List (Answered C A)) : List (Answered C fun c => Option (A c)) :=
  done.map fun x => ⟨x.1, some x.2⟩

theorem uncut_concat (done : List (Answered C A)) (call : Answered C A) :
    uncut (done ++ [call]) = uncut done ++ [⟨call.1, some call.2⟩] := by
  simp [uncut]

/-- A part of a program that may be cut off: a cut-off ends it at a call that was allowed. `base` is
the history before it. -/
theorem Spec.interruptible {G : List (Answered C fun c => Option (A c)) → C → Prop}
    {Q : List (Answered C fun c => Option (A c)) → Option R → Prop}
    (base : List (Answered C fun c => Option (A c))) {done : List (Answered C A)}
    {p : Process C A R}
    (h : Spec (fun done c => G (base ++ uncut done) c)
      (fun done r => Q (base ++ uncut done) (some r)) done p)
    (hcut : ∀ done c, G done c → Q (done ++ [⟨c, none⟩]) none) :
    Spec G Q (base ++ uncut done) p.interruptible := by
  induction p generalizing done with
  | ret r => exact h
  | call c next ih =>
      rw [Process.interruptible, spec_call]
      refine ⟨h.1, fun answer => ?_⟩
      cases answer with
      | none => exact hcut _ _ h.1
      | some a =>
          have := ih a (h.2 a)
          rwa [uncut_concat, ← List.append_assoc] at this

/-! ## Histories -/

/-- Every call of the history was allowed after the calls before it. -/
def Justified (G : List (Answered C A) → C → Prop) (calls : List (Answered C A)) : Prop :=
  ∀ before call after, calls = before ++ call :: after → G before call.1

theorem justified_nil (G : List (Answered C A) → C → Prop) : Justified G [] :=
  fun before call after h => by simp at h

theorem Justified.concat {G : List (Answered C A) → C → Prop} {calls : List (Answered C A)}
    (h : Justified G calls) {c : C} (hc : G calls c) (a : A c) :
    Justified G (calls ++ [⟨c, a⟩]) := by
  intro before call after heq
  rcases List.eq_nil_or_concat' after with rfl | ⟨rest, last, rfl⟩
  · obtain ⟨rfl, hlast⟩ := List.append_inj' heq rfl
    obtain rfl := List.singleton_inj.1 hlast
    exact hc
  · rw [← List.cons_append, ← List.append_assoc] at heq
    exact h before call rest (List.append_inj' heq rfl).1

end Process
