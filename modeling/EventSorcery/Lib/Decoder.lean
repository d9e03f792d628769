import EventSorcery.Lib.Layout

/-!
# Decoders of CBOR

A decoder takes a value off the front of its input or fails. `Reads d bytes a` says that it takes
exactly `bytes`, whatever follows, and returns `a`. The rules below follow how decoders are put
together, so that a decoder written in steps is checked against an encoding written in pieces.
-/

namespace Cbor

abbrev Decoder (α : Type) := StateT (List UInt8) Option α

namespace Decoder

variable {α β : Type}

/-- The decoder takes these bytes and returns this value. -/
def Reads (d : Decoder α) (bytes : List UInt8) (a : α) : Prop :=
  ∀ rest, d (bytes ++ rest) = some (a, rest)

theorem reads_pure (a : α) : Reads (pure a) [] a := fun _ => rfl

theorem Reads.bind {d : Decoder α} {f : α → Decoder β} {bytes bytes' : List UInt8} {a : α} {b : β}
    (h : Reads d bytes a) (h' : Reads (f a) bytes' b) : Reads (d >>= f) (bytes ++ bytes') b := by
  intro rest
  change (d (bytes ++ bytes' ++ rest)).bind (fun p => f p.1 p.2) = _
  rw [List.append_assoc, h, Option.bind_some, h']

theorem Reads.map {d : Decoder α} {bytes : List UInt8} {a : α} (h : Reads d bytes a) (f : α → β) :
    Reads (f <$> d) bytes (f a) := by
  intro rest
  change (d (bytes ++ rest)).bind (fun p => some (f p.1, p.2)) = _
  rw [h, Option.bind_some]

/-- A decoder that has read what it needs and only returns. -/
theorem Reads.then {d : Decoder α} {f : α → Decoder β} {bytes : List UInt8} {a : α} {b : β}
    (h : Reads d bytes a) (hf : f a = pure b) : Reads (d >>= f) bytes b := by
  have hbind := h.bind (hf ▸ reads_pure b)
  rwa [List.append_nil] at hbind

/-! ## Items -/

def listLen : Decoder ℕ := readArrayLen

theorem reads_listLen {n : ℕ} (hn : n < 2 ^ 64) : Reads listLen (arrayWrites n).flatten n :=
  readArrayLen_arrayWrites hn

/-- The head of a list of this length. -/
def expectListLength (expected : ℕ) : Decoder Unit := do
  let actual ← listLen
  if actual = expected then pure () else failure

theorem reads_expectListLength {n : ℕ} (hn : n < 2 ^ 64) :
    Reads (expectListLength n) (arrayWrites n).flatten () :=
  (reads_listLen hn).then (if_pos rfl)

/-- Null, or what the decoder reads. -/
def nullable (d : Decoder α) : Decoder (Option α)
  | [] => none
  | b :: input => if b = 0xf6 then some (none, input) else (some <$> d) (b :: input)

theorem reads_nullable_null (d : Decoder α) : Reads (nullable d) nullWrites.flatten none :=
  fun _ => rfl

theorem Reads.nullable {d : Decoder α} {bytes : List UInt8} {a : α} (h : Reads d bytes a)
    (hbytes : ∃ b tail, bytes = b :: tail ∧ b ≠ 0xf6) : Reads (nullable d) bytes (some a) := by
  obtain ⟨b, tail, rfl, hb⟩ := hbytes
  intro rest
  have hsome := h.map some rest
  rw [List.cons_append] at hsome ⊢
  rwa [Decoder.nullable, if_neg hb]

/-- The decoder this many times. -/
def replicateM : ℕ → Decoder α → Decoder (List α)
  | 0, _ => pure []
  | n + 1, d => do
      let a ← d
      let as ← replicateM n d
      pure (a :: as)

theorem reads_replicateM {d : Decoder α} {writes : α → List (List UInt8)} {as : List α}
    (h : ∀ a ∈ as, Reads d (writes a).flatten a) :
    Reads (replicateM as.length d) (as.flatMap writes).flatten as := by
  induction as with
  | nil => exact reads_pure []
  | cons a as ih =>
      rw [List.forall_mem_cons] at h
      rw [List.flatMap_cons, List.flatten_append]
      exact h.1.bind ((ih h.2).then rfl)

/-- Run a decoder on the whole input. -/
def complete (d : Decoder α) (input : List UInt8) : Option α :=
  match d input with
  | some (a, []) => some a
  | _ => none

theorem Reads.complete {d : Decoder α} {bytes : List UInt8} {a : α} (h : Reads d bytes a) :
    d.complete bytes = some a := by
  have hrun := h []
  rw [List.append_nil] at hrun
  rw [Decoder.complete, hrun]

end Decoder

end Cbor
