import EventSorcery.Lib.Process

/-!
# Programs into which exceptions are thrown

A program makes calls and can be left by an exception: one that a call throws, or one that another
thread throws into it. The latter arrives at a point of the program, before or after a call, and only
while the program is not masked; a call that blocks is such a point even then. `mask`, `onException`,
`andFinally` and `withMVar` are the usual combinators, built as Haskell's library builds them.

What a program does with the resources in its hands is a protocol over a local state: which calls are
allowed in it, and what an answered call makes of it. `wp` is the rule system for that: the program
keeps to the protocol from a local state on, whatever the answers are and wherever an exception
arrives, and ends in a state that one condition allows for results and another for exceptions.
-/

namespace Masked

variable {C : Type} {A : C → Type} {L R S : Type}

/-- A call, or a point at which an exception may be thrown into the program. -/
inductive Call (C : Type) where
  | point
  | call (c : C)

/-- At a point, whether an exception arrives; a call is answered or throws. -/
def Answer (A : C → Type) : Call C → Type
  | .point => Bool
  | .call c => Option (A c)

/-- A program that has been started. It ends without a result if an exception leaves it. -/
abbrev Prog (C : Type) (A : C → Type) (R : Type) := Process (Call C) (Answer A) (Option R)

/-- An action, started masked or not. -/
def Act (C : Type) (A : C → Type) (R : Type) := Bool → Prog C A R

namespace Act

protected def pure (r : R) : Act C A R := fun _ => .ret (some r)

protected def bind (x : Act C A R) (f : R → Act C A S) : Act C A S := fun masked =>
  (x masked).bind fun
    | none => .ret none
    | some r => f r masked

instance : Monad (Act C A) where
  pure := Act.pure
  bind := Act.bind

/-- Where an exception arrives if one is pending, masked or not. -/
def interruptible : Act C A Unit := fun _ =>
  .call .point fun
    | true => .ret none
    | false => .ret (some ())

/-- Where a pending exception arrives unless the action is masked. -/
def poll : Act C A Unit := fun masked => if masked then .ret (some ()) else interruptible masked

/-- A call that nothing interrupts. -/
def perform (c : C) : Act C A (A c) := fun _ => .call (.call c) .ret

/-- A call, with a point before it and one after it. -/
def lift (c : C) : Act C A (A c) := do
  poll
  let a ← perform c
  poll
  pure a

/-- Back to the masking of the enclosing action, where an exception may be pending. -/
def restoring (outer : Bool) (x : Act C A R) : Act C A R := fun _ =>
  (do poll
      let r ← x
      poll
      pure r : Act C A R) outer

def mask (body : (∀ {S : Type}, Act C A S → Act C A S) → Act C A R) : Act C A R := fun outer =>
  (body (restoring outer) true).bind fun
    | none => .ret none
    | some r => (do poll; pure r : Act C A R) outer

/-- The handler runs masked, and the exception is thrown again. -/
def onException (x : Act C A R) (handler : Act C A S) : Act C A R := fun masked =>
  (x masked).bind fun
    | some r => .ret (some r)
    | none => (handler true).bind fun _ => .ret none

def andFinally (x : Act C A R) (sequel : Act C A S) : Act C A R :=
  mask fun restore => do
    let r ← onException (restore x) sequel
    let _ ← sequel
    pure r

/-- Run an action with the contents of a variable taken out; to take them is to block. -/
def withMVar (take put : Act C A Unit) (x : Act C A R) : Act C A R :=
  mask fun restore => do
    take
    let r ← onException (restore x) put
    put
    pure r

end Act

/-! ## Protocols -/

/-- Which calls a program may make in a local state, which of them may throw, and what an answer makes
of the state. A call that throws has done nothing. -/
structure Protocol (C : Type) (A : C → Type) (L : Type) where
  allowed : L → C → Prop
  throws : C → Bool
  after : L → (c : C) → A c → L

variable {P : Protocol C A L} {Q Q' : R → L → Prop} {E E' : L → Prop} {l : L} {m : Bool}

/-- The program keeps to the protocol; a result ends it in a state that `Q` allows, an exception in one
that `E` allows. -/
def Follows (P : Protocol C A L) (Q : R → L → Prop) (E : L → Prop) : L → Prog C A R → Prop
  | l, .ret (some r) => Q r l
  | l, .ret none => E l
  | l, .call .point next => ∀ thrown, Follows P Q E l (next thrown)
  | l, .call (.call c) next => P.allowed l c ∧ (P.throws c → Follows P Q E l (next none)) ∧
      ∀ a, Follows P Q E (P.after l c a) (next (some a))

theorem Follows.bind {p : Prog C A S} {f : Option S → Prog C A R}
    (h : Follows P (fun r l => Follows P Q E l (f (some r))) (fun l => Follows P Q E l (f none)) l p) :
    Follows P Q E l (p.bind f) := by
  induction p generalizing l with
  | ret r => cases r <;> exact h
  | call c next ih =>
      cases c with
      | point => exact fun thrown => ih thrown (h thrown)
      | call c => exact ⟨h.1, fun hthrows => ih none (h.2.1 hthrows), fun a => ih (some a) (h.2.2 a)⟩

theorem Follows.mono {p : Prog C A R} (h : Follows P Q E l p) (hQ : ∀ r l, Q r l → Q' r l)
    (hE : ∀ l, E l → E' l) : Follows P Q' E' l p := by
  induction p generalizing l with
  | ret r =>
      cases r with
      | none => exact hE l h
      | some r => exact hQ r l h
  | call c next ih =>
      cases c with
      | point => exact fun thrown => ih thrown (h thrown)
      | call c => exact ⟨h.1, fun hthrows => ih none (h.2.1 hthrows), fun a => ih (some a) (h.2.2 a)⟩

/-- The action, started in this local state, keeps to the protocol. -/
def wp (P : Protocol C A L) (x : Act C A R) (masked : Bool) (Q : R → L → Prop) (E : L → Prop) (l : L) :
    Prop := Follows P Q E l (x masked)

section Rules

variable {x : Act C A R} {c : C}

theorem wp.mono (h : wp P x m Q E l) (hQ : ∀ r l, Q r l → Q' r l) (hE : ∀ l, E l → E' l) :
    wp P x m Q' E' l :=
  Follows.mono h hQ hE

theorem wp.pure {r : R} (h : Q r l) : wp P (pure r) m Q E l := h

theorem wp.bind {f : R → Act C A S} {Q : S → L → Prop}
    (h : wp P x m (fun r l => wp P (f r) m Q E l) E l) : wp P (x >>= f) m Q E l :=
  Follows.bind h

theorem wp.interruptible {Q : Unit → L → Prop} (hE : E l) (hQ : Q () l) :
    wp P Act.interruptible m Q E l := by
  intro thrown
  cases thrown <;> assumption

theorem wp.poll {Q : Unit → L → Prop} (hE : m = false → E l) (hQ : Q () l) :
    wp P Act.poll m Q E l := by
  cases m with
  | true => exact hQ
  | false => exact wp.interruptible (m := false) (hE rfl) hQ

theorem wp.perform {Q : A c → L → Prop} (hallowed : P.allowed l c) (hthrows : P.throws c → E l)
    (hQ : ∀ a, Q a (P.after l c a)) : wp P (Act.perform c) m Q E l :=
  ⟨hallowed, hthrows, hQ⟩

theorem wp.lift {Q : A c → L → Prop} (hE : m = false → E l) (hallowed : P.allowed l c)
    (hthrows : P.throws c → E l) (hE' : ∀ a, m = false → E (P.after l c a))
    (hQ : ∀ a, Q a (P.after l c a)) : wp P (Act.lift c) m Q E l :=
  .bind (.poll hE (.bind (.perform hallowed hthrows fun a => .bind (.poll (hE' a) (.pure (hQ a))))))

theorem wp.restoring {outer : Bool} (hE : outer = false → E l)
    (h : wp P x outer (fun r l => (outer = false → E l) ∧ Q r l) E l) :
    wp P (Act.restoring outer x) m Q E l :=
  wp.bind (m := outer) (.poll hE (.bind (h.mono (fun _ _ hr => .bind (.poll hr.1 (.pure hr.2)))
    fun _ h => h)))

theorem wp.mask {body : (∀ {S : Type}, Act C A S → Act C A S) → Act C A R}
    (h : wp P (body (Act.restoring m)) true (fun r l => (m = false → E l) ∧ Q r l) E l) :
    wp P (Act.mask body) m Q E l :=
  Follows.bind (h.mono (fun _ _ hr => wp.bind (m := m) (.poll hr.1 (.pure hr.2))) fun _ h => h)

theorem wp.onException {handler : Act C A S}
    (h : wp P x m Q (fun l => wp P handler true (fun _ => E) E l) l) :
    wp P (Act.onException x handler) m Q E l :=
  Follows.bind (h.mono (fun _ _ hr => hr) fun _ hh => Follows.bind hh)

/-- A release runs whichever way the action ends: from `I` after a result, from `V` after an
exception. -/
theorem wp.releasing {I V J : L → Prop} {release : Act C A S} (hl : m = false → V l)
    (hx : wp P x m (fun _ l => (m = false → V l) ∧ I l) V l)
    (hrelease : ∀ l, I l → wp P release true (fun _ l => (m = false → E l) ∧ J l) E l)
    (hthrown : ∀ l, V l → wp P release true (fun _ => E) E l) :
    wp P (do let r ← Act.onException (Act.restoring m x) release
             let _ ← release
             Pure.pure r) true (fun _ l => (m = false → E l) ∧ J l) E l := by
  refine .bind (.onException (.restoring (fun hm => hthrown l (hl hm)) (hx.mono ?_ hthrown)))
  rintro r l ⟨hV, hI⟩
  exact ⟨fun hm => hthrown l (hV hm), .bind ((hrelease l hI).mono (fun _ _ h => .pure h) fun _ h => h)⟩

/-- A sequel that does not throw runs whichever way the action ends. -/
theorem wp.andFinally {I J : L → Prop} {sequel : Act C A S} (hl : m = false → I l)
    (hx : wp P x m (fun _ => I) I l)
    (hsequel : ∀ l, I l → wp P sequel true (fun _ => J) (fun _ => False) l) :
    wp P (Act.andFinally x sequel) m (fun _ => J) J l :=
  .mask (.releasing hl (hx.mono (fun _ _ h => ⟨fun _ => h, h⟩) fun _ h => h)
    (fun l h => (hsequel l h).mono (fun _ _ h => ⟨fun _ => h, h⟩) fun _ => False.elim)
    fun l h => (hsequel l h).mono (fun _ _ h => h) fun _ => False.elim)

/-- Masked, and with nothing that throws, there is no exception. -/
theorem wp.andFinally_masked {I : L → Prop} {J : L → Prop} {sequel : Act C A S}
    (hx : wp P x true (fun _ => I) (fun _ => False) l)
    (hsequel : ∀ l, I l → wp P sequel true (fun _ => J) (fun _ => False) l) :
    wp P (Act.andFinally x sequel) true (fun _ => J) (fun _ => False) l :=
  .mask (.releasing nofun (hx.mono (fun _ _ h => ⟨nofun, h⟩) fun _ h => h)
    (fun l h => (hsequel l h).mono (fun _ _ h => ⟨nofun, h⟩) fun _ h => h) fun _ => False.elim)

/-- What is taken is put back whichever way the action ends. -/
theorem wp.withMVar {I V J : L → Prop} {take put : Act C A Unit}
    (htake : wp P take true (fun _ => I) J l) (hI : ∀ l, I l → V l)
    (hx : ∀ l, I l → wp P x m (fun _ => V) V l)
    (hput : ∀ l, V l → wp P put true (fun _ => J) (fun _ => False) l) :
    wp P (Act.withMVar take put x) m (fun _ => J) J l :=
  .mask (.bind (htake.mono (fun _ l hl => .releasing (fun _ => hI l hl)
    ((hx l hl).mono (fun _ _ h => ⟨fun _ => h, h⟩) fun _ h => h)
    (fun l h => (hput l h).mono (fun _ _ h => ⟨fun _ => h, h⟩) fun _ => False.elim)
    fun l h => (hput l h).mono (fun _ _ h => h) fun _ => False.elim) fun _ h => h))

end Rules

end Masked
