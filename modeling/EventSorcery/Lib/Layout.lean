import EventSorcery.Lib.Cbor

/-!
# Layouts of CBOR items

A layout is how one type crosses a binary interface: its writes, its reader, the values that the
format has room for, and the law that such a value reads back and leaves the rest of the input. A
length that does not fit a head belongs to no encoding of less than `2 ^ 64` bytes, so the law asks for
a short encoding instead of short texts. Layouts of tuples are put together from those of their fields,
and the law comes with the type.
-/

namespace Cbor

structure Layout (α : Type) where
  writes : α → List (List UInt8)
  read : List UInt8 → Option (α × List UInt8)
  InRange : α → Prop
  read_writes : ∀ {a}, InRange a → (writes a).flatten.length < 2 ^ 64 → ∀ rest,
    read ((writes a).flatten ++ rest) = some (a, rest)

namespace Layout

variable {α β : Type}

/-- The bytes of a value. -/
def bytes (c : Layout α) (a : α) : List UInt8 := (c.writes a).flatten

/-! ## Fields -/

/-- An unsigned number of a fixed width: a reader refuses what its type cannot hold. -/
def word (bound : ℕ) (toNat : α → ℕ) (ofNat : ℕ → α) (hbound : bound ≤ 2 ^ 64)
    (hlt : ∀ a, toNat a < bound) (hinv : ∀ a, ofNat (toNat a) = a) : Layout α where
  writes a := uintWrites (toNat a)
  read input := (readUInt input).bind fun (n, input) =>
    if n < bound then some (ofNat n, input) else none
  InRange _ := True
  read_writes {a} _ _ rest := by
    rw [readUInt_uintWrites ((hlt a).trans_le hbound), Option.bind_some]
    dsimp only
    rw [if_pos (hlt a), hinv]

def u8 : Layout UInt8 :=
  word (2 ^ 8) UInt8.toNat UInt8.ofNat (by decide) UInt8.toNat_lt fun _ => UInt8.ofNat_toNat

def u32 : Layout UInt32 :=
  word (2 ^ 32) UInt32.toNat UInt32.ofNat (by decide) UInt32.toNat_lt fun _ => UInt32.ofNat_toNat

def u64 : Layout UInt64 :=
  word (2 ^ 64) UInt64.toNat UInt64.ofNat le_rfl UInt64.toNat_lt fun _ => UInt64.ofNat_toNat

/-- A signed number of 64 bits. -/
def i64 : Layout ℤ where
  writes := intWrites
  read input := (readInt input).bind fun (n, input) =>
    if -2 ^ 63 ≤ n ∧ n < 2 ^ 63 then some (n, input) else none
  InRange n := -2 ^ 63 ≤ n ∧ n < 2 ^ 63
  read_writes {n} h _ rest := by
    rw [readInt_intWrites (by omega) (by omega), Option.bind_some]
    exact if_pos h

def text : Layout String where
  writes := textWrites
  read := readText
  InRange _ := True
  read_writes {s} _ hshort rest := by
    rw [textWrites, List.flatten_append, List.length_append, List.flatten_singleton] at hshort
    exact readText_textWrites ((Nat.le_add_left _ _).trans_lt hshort) rest

def blob : Layout (List UInt8) where
  writes := bytesWrites
  read := readBytes
  InRange _ := True
  read_writes {bs} _ hshort rest := by
    rw [bytesWrites, List.flatten_append, List.length_append, List.flatten_singleton] at hshort
    exact readBytes_bytesWrites ((Nat.le_add_left _ _).trans_lt hshort) rest

/-! ## Tuples -/

/-- One field after the other. -/
def pair (c : Layout α) (d : Layout β) : Layout (α × β) where
  writes a := c.writes a.1 ++ d.writes a.2
  read input := (c.read input).bind fun (a, input) =>
    (d.read input).map fun (b, input) => ((a, b), input)
  InRange a := c.InRange a.1 ∧ d.InRange a.2
  read_writes {a} h hshort rest := by
    rw [List.flatten_append, List.length_append] at hshort
    rw [List.flatten_append, List.append_assoc,
      c.read_writes h.1 ((Nat.le_add_right _ _).trans_lt hshort), Option.bind_some]
    dsimp only
    rw [d.read_writes h.2 ((Nat.le_add_left _ _).trans_lt hshort)]
    rfl

/-- Fields in an array of their number. A reader takes the fields it knows, and leaves what is beyond
them. -/
def tuple (arity : ℕ) (harity : arity < 2 ^ 64) (c : Layout α) : Layout α where
  writes a := arrayWrites arity ++ c.writes a
  read input := (readArrayLen input).bind fun (length, input) =>
    if arity ≤ length then c.read input else none
  InRange := c.InRange
  read_writes h hshort rest := by
    rw [List.flatten_append, List.length_append] at hshort
    rw [List.flatten_append, List.append_assoc, readArrayLen_arrayWrites harity, Option.bind_some]
    dsimp only
    rw [if_pos le_rfl, c.read_writes h ((Nat.le_add_left _ _).trans_lt hshort)]

/-- The layout of a type whose values another type stands for. -/
def via (c : Layout α) (f : α → β) (g : β → α) (hinv : ∀ b, f (g b) = b) : Layout β where
  writes b := c.writes (g b)
  read input := (c.read input).map fun (a, input) => (f a, input)
  InRange b := c.InRange (g b)
  read_writes {b} h hshort rest := by
    rw [c.read_writes h hshort, Option.map_some]
    dsimp only
    rw [hinv]

/-- Items of one kind in an array. -/
def seq (c : Layout α) : Layout (List α) where
  writes as := arrayWrites as.length ++ as.flatMap c.writes
  read input := (readArrayLen input).bind fun (length, input) => readCount c.read length input
  InRange as := as.length < 2 ^ 64 ∧ ∀ a ∈ as, c.InRange a
  read_writes {as} h hshort rest := by
    rw [List.flatten_append, List.length_append] at hshort
    rw [List.flatten_append, List.append_assoc, readArrayLen_arrayWrites h.1, Option.bind_some]
    refine readCount_flatMap (fun a ha => c.read_writes (h.2 a ha) ?_) rest
    exact (length_flatten_le_of_mem c.writes ha).trans_lt ((Nat.le_add_left _ _).trans_lt hshort)

/-! ## Reading on -/

/-- After a field that reads back, the next one is read. -/
theorem read_pair (c : Layout α) (d : Layout β) {a : α} (h : c.InRange a)
    (hshort : (c.writes a).flatten.length < 2 ^ 64) (rest : List UInt8) :
    (c.pair d).read ((c.writes a).flatten ++ rest) =
      (d.read rest).map fun (b, input) => ((a, b), input) := by
  change (c.read _).bind _ = _
  rw [c.read_writes h hshort, Option.bind_some]

/-- The fields of an array are read if it has enough of them. -/
theorem read_tuple {arity : ℕ} (harity : arity < 2 ^ 64) (c : Layout α) {n : ℕ} (hn : n < 2 ^ 64)
    (rest : List UInt8) :
    (c.tuple arity harity).read ((arrayWrites n).flatten ++ rest) =
      if arity ≤ n then c.read rest else none := by
  change (readArrayLen _).bind _ = _
  rw [readArrayLen_arrayWrites hn, Option.bind_some]

/-! ## Options -/

/-- No value begins like null. -/
def NeverNull (c : Layout α) : Prop := ∀ a, ∃ b input, c.bytes a = b :: input ∧ b ≠ 0xf6

/-- Null, or an item that does not begin like it. -/
def option (c : Layout α) (hc : c.NeverNull) : Layout (Option α) where
  writes
    | none => nullWrites
    | some a => c.writes a
  read
    | [] => none
    | b :: input =>
        if b = 0xf6 then some (none, input)
        else (c.read (b :: input)).map fun (a, input) => (some a, input)
  InRange a := ∀ x ∈ a, c.InRange x
  read_writes {a} h hshort rest := by
    cases a with
    | none => rfl
    | some x =>
        obtain ⟨b, input, hbytes, hb⟩ := hc x
        have hread := c.read_writes (h x rfl) hshort rest
        rw [bytes] at hbytes
        simp only [hbytes, List.cons_append] at hread ⊢
        rw [if_neg hb, hread]
        rfl

/-- What begins with a head of another kind is not null. -/
theorem neverNull_of_head {c : Layout α} {m : ℕ} (hm : m < 7)
    (h : ∀ a, ∃ n tail, c.writes a = headWrites m n ++ tail) : c.NeverNull := by
  intro a
  obtain ⟨n, tail, hwrites⟩ := h a
  have hbyte : ∀ info, info < 32 → UInt8.ofNat (32 * m + info) ≠ 0xf6 := by
    intro info hinfo heq
    have hnat := congrArg UInt8.toNat heq
    rw [UInt8.toNat_ofNat', show (0xf6 : UInt8).toNat = 246 from rfl] at hnat
    omega
  rw [bytes, hwrites, List.flatten_append, headWrites]
  split_ifs with h23
  · exact ⟨_, _, rfl, hbyte n (by omega)⟩
  all_goals exact ⟨_, _, rfl, hbyte _ (by decide)⟩

theorem neverNull_word {bound : ℕ} {toNat : α → ℕ} {ofNat : ℕ → α} {hbound : bound ≤ 2 ^ 64}
    {hlt : ∀ a, toNat a < bound} {hinv : ∀ a, ofNat (toNat a) = a} :
    (word bound toNat ofNat hbound hlt hinv).NeverNull :=
  neverNull_of_head (m := 0) (by decide) fun a => ⟨toNat a, [], (List.append_nil _).symm⟩

theorem neverNull_u8 : u8.NeverNull := neverNull_word
theorem neverNull_u32 : u32.NeverNull := neverNull_word
theorem neverNull_u64 : u64.NeverNull := neverNull_word

theorem neverNull_blob : blob.NeverNull :=
  neverNull_of_head (m := 2) (by decide) fun bs => ⟨bs.length, [bs], rfl⟩

theorem neverNull_tuple {arity : ℕ} {harity : arity < 2 ^ 64} (c : Layout α) :
    (c.tuple arity harity).NeverNull :=
  neverNull_of_head (m := 4) (by decide) fun a => ⟨arity, c.writes a, rfl⟩

/-! ## What is written, and what is in range -/

section Writes

variable {c : Layout α} {d : Layout β}

@[simp] theorem writes_u8 (n : UInt8) : u8.writes n = uintWrites n.toNat := rfl
@[simp] theorem writes_u32 (n : UInt32) : u32.writes n = uintWrites n.toNat := rfl
@[simp] theorem writes_u64 (n : UInt64) : u64.writes n = uintWrites n.toNat := rfl
@[simp] theorem writes_i64 (n : ℤ) : i64.writes n = intWrites n := rfl
@[simp] theorem writes_text (s : String) : text.writes s = textWrites s := rfl
@[simp] theorem writes_blob (bs : List UInt8) : blob.writes bs = bytesWrites bs := rfl

@[simp] theorem writes_pair (a : α) (b : β) :
    (c.pair d).writes (a, b) = c.writes a ++ d.writes b := rfl

@[simp] theorem writes_tuple {arity : ℕ} {harity : arity < 2 ^ 64} (a : α) :
    (c.tuple arity harity).writes a = arrayWrites arity ++ c.writes a := rfl

@[simp] theorem writes_via {f : α → β} {g : β → α} {hinv : ∀ b, f (g b) = b} (b : β) :
    (c.via f g hinv).writes b = c.writes (g b) := rfl

@[simp] theorem writes_option_none (hc : c.NeverNull) : (c.option hc).writes none = nullWrites := rfl

@[simp] theorem writes_option_some (hc : c.NeverNull) (a : α) :
    (c.option hc).writes (some a) = c.writes a := rfl

@[simp] theorem writes_seq (as : List α) :
    c.seq.writes as = arrayWrites as.length ++ as.flatMap c.writes := rfl

@[simp] theorem inRange_u8 (n : UInt8) : u8.InRange n := trivial
@[simp] theorem inRange_u32 (n : UInt32) : u32.InRange n := trivial
@[simp] theorem inRange_u64 (n : UInt64) : u64.InRange n := trivial
@[simp] theorem inRange_text (s : String) : text.InRange s := trivial
@[simp] theorem inRange_blob (bs : List UInt8) : blob.InRange bs := trivial

@[simp] theorem inRange_pair (a : α) (b : β) :
    (c.pair d).InRange (a, b) ↔ c.InRange a ∧ d.InRange b := Iff.rfl

@[simp] theorem inRange_tuple {arity : ℕ} {harity : arity < 2 ^ 64} (a : α) :
    (c.tuple arity harity).InRange a ↔ c.InRange a := Iff.rfl

@[simp] theorem inRange_via {f : α → β} {g : β → α} {hinv : ∀ b, f (g b) = b} (b : β) :
    (c.via f g hinv).InRange b ↔ c.InRange (g b) := Iff.rfl

@[simp] theorem inRange_option (hc : c.NeverNull) (a : Option α) :
    (c.option hc).InRange a ↔ ∀ x ∈ a, c.InRange x := Iff.rfl

@[simp] theorem inRange_seq (as : List α) :
    c.seq.InRange as ↔ as.length < 2 ^ 64 ∧ ∀ a ∈ as, c.InRange a := Iff.rfl

end Writes

end Layout

end Cbor
