import Mathlib

/-!
# CBOR with definite lengths

The items a binary interface exchanges: numbers, byte strings, text strings, arrays and null, each
with a head that carries its number or length in the shortest form. An encoder hands its bytes to a
writer piece by piece, and a writer with a limit can fail between two pieces; so an item is given by
its *writes*, and its bytes are their concatenation. A reader takes an item off the front of its
input.
-/

namespace Cbor

/-! ## Numbers of a fixed width -/

/-- The last `w` bytes of a number, most significant first. -/
def beBytes : ℕ → ℕ → List UInt8
  | 0, _ => []
  | w + 1, n => beBytes w (n / 256) ++ [UInt8.ofNat n]

/-- The number that bytes stand for, most significant first. -/
def ofBe (bytes : List UInt8) : ℕ := bytes.foldl (fun n b => n * 256 + b.toNat) 0

@[simp] theorem length_beBytes (w n : ℕ) : (beBytes w n).length = w := by
  induction w generalizing n with
  | zero => rfl
  | succ w ih => rw [beBytes, List.length_append, ih, List.length_singleton]

theorem ofBe_beBytes {w n : ℕ} (h : n < 256 ^ w) : ofBe (beBytes w n) = n := by
  induction w generalizing n with
  | zero => rw [pow_zero, Nat.lt_one_iff] at h; rw [h]; rfl
  | succ w ih =>
      have hdiv : n / 256 < 256 ^ w := Nat.div_lt_of_lt_mul (by rwa [pow_succ'] at h)
      have hlast : (UInt8.ofNat n).toNat = n % 256 := UInt8.toNat_ofNat'
      rw [beBytes, ofBe, List.foldl_append, ← ofBe, ih hdiv]
      change n / 256 * 256 + (UInt8.ofNat n).toNat = n
      rw [hlast]
      omega

/-! ## Heads -/

/-- The writes of a head: the byte with the major type, and the argument if it does not fit there. -/
def headWrites (major n : ℕ) : List (List UInt8) :=
  if n < 24 then [[UInt8.ofNat (32 * major + n)]]
  else if n < 2 ^ 8 then [[UInt8.ofNat (32 * major + 24)], beBytes 1 n]
  else if n < 2 ^ 16 then [[UInt8.ofNat (32 * major + 25)], beBytes 2 n]
  else if n < 2 ^ 32 then [[UInt8.ofNat (32 * major + 26)], beBytes 4 n]
  else [[UInt8.ofNat (32 * major + 27)], beBytes 8 n]

/-- Take a number of `w` bytes off the input. -/
def readBe (w : ℕ) (input : List UInt8) : Option (ℕ × List UInt8) :=
  if w ≤ input.length then some (ofBe (input.take w), input.drop w) else none

/-- The argument of a head whose first byte ends in `info`. -/
def readArgument (info : ℕ) (input : List UInt8) : Option (ℕ × List UInt8) :=
  if info < 24 then some (info, input)
  else if info = 24 then readBe 1 input
  else if info = 25 then readBe 2 input
  else if info = 26 then readBe 4 input
  else if info = 27 then readBe 8 input
  else none

/-- Take a head of this major type off the input. -/
def readHead (major : ℕ) : List UInt8 → Option (ℕ × List UInt8)
  | [] => none
  | b :: input => if b.toNat / 32 = major then readArgument (b.toNat % 32) input else none

theorem readBe_beBytes {w n : ℕ} (h : n < 256 ^ w) (rest : List UInt8) :
    readBe w (beBytes w n ++ rest) = some (n, rest) := by
  rw [readBe, if_pos (by simp), List.take_left' (length_beBytes w n),
    List.drop_left' (length_beBytes w n), ofBe_beBytes h]

/-- What the first byte of a head tells. -/
theorem readHead_cons {major info : ℕ} (hmajor : major < 8) (hinfo : info < 32)
    (input : List UInt8) :
    readHead major (UInt8.ofNat (32 * major + info) :: input) = readArgument info input := by
  have hbyte : (UInt8.ofNat (32 * major + info)).toNat = 32 * major + info := by
    rw [UInt8.toNat_ofNat']
    omega
  rw [readHead, hbyte, if_pos (by omega), show (32 * major + info) % 32 = info by omega]

/-- **A head reads back.** -/
theorem readHead_headWrites {major n : ℕ} (hmajor : major < 8) (hn : n < 2 ^ 64)
    (rest : List UInt8) : readHead major ((headWrites major n).flatten ++ rest) = some (n, rest) := by
  unfold headWrites
  split_ifs with h23 h8 h16 h32 <;>
    simp only [List.flatten_cons, List.flatten_nil, List.append_nil, List.cons_append,
      List.nil_append]
  · rw [readHead_cons hmajor (by omega), readArgument, if_pos h23]
  · rw [readHead_cons hmajor (by omega)]
    exact readBe_beBytes (w := 1) (by omega) rest
  · rw [readHead_cons hmajor (by omega)]
    exact readBe_beBytes (w := 2) (by omega) rest
  · rw [readHead_cons hmajor (by omega)]
    exact readBe_beBytes (w := 4) (by omega) rest
  · rw [readHead_cons hmajor (by omega)]
    exact readBe_beBytes (w := 8) (by omega) rest

/-- The bytes of a head. -/
def headSize (n : ℕ) : ℕ :=
  if n < 24 then 1 else if n < 2 ^ 8 then 2 else if n < 2 ^ 16 then 3 else if n < 2 ^ 32 then 5 else 9

theorem length_headWrites (major n : ℕ) :
    (headWrites major n).flatten.length = headSize n := by
  unfold headWrites headSize
  split_ifs <;> simp

theorem headSize_le (n : ℕ) : headSize n ≤ 9 := by
  unfold headSize
  split_ifs <;> omega

theorem headSize_pos (n : ℕ) : 0 < headSize n := by
  unfold headSize
  split_ifs <;> omega

theorem length_headWrites_le (major n : ℕ) : (headWrites major n).flatten.length ≤ 9 := by
  rw [length_headWrites]
  exact headSize_le n

/-! ## Items -/

/-- The bytes of a text. -/
def utf8 (s : String) : List UInt8 := s.toByteArray.data.toList

def uintWrites (n : ℕ) : List (List UInt8) := headWrites 0 n

/-- A signed number; a negative one counts down from -1. -/
def intWrites (n : ℤ) : List (List UInt8) :=
  if 0 ≤ n then headWrites 0 n.toNat else headWrites 1 (-1 - n).toNat

def bytesWrites (bytes : List UInt8) : List (List UInt8) := headWrites 2 bytes.length ++ [bytes]

def textWrites (s : String) : List (List UInt8) := headWrites 3 (utf8 s).length ++ [utf8 s]

def arrayWrites (length : ℕ) : List (List UInt8) := headWrites 4 length

def nullWrites : List (List UInt8) := [[0xf6]]

/-- Take this many bytes off the input. -/
def readRaw (length : ℕ) (input : List UInt8) : Option (List UInt8 × List UInt8) :=
  if length ≤ input.length then some (input.take length, input.drop length) else none

def readUInt (input : List UInt8) : Option (ℕ × List UInt8) := readHead 0 input

def readInt (input : List UInt8) : Option (ℤ × List UInt8) :=
  match readHead 0 input with
  | some (n, input) => some (n, input)
  | none => (readHead 1 input).map fun (n, input) => (-1 - n, input)

def readArrayLen (input : List UInt8) : Option (ℕ × List UInt8) := readHead 4 input

def readBytes (input : List UInt8) : Option (List UInt8 × List UInt8) :=
  (readHead 2 input).bind fun (length, input) => readRaw length input

def readText (input : List UInt8) : Option (String × List UInt8) :=
  (readHead 3 input).bind fun (length, input) =>
    (readRaw length input).bind fun (bytes, input) =>
      (String.fromUTF8? ⟨bytes.toArray⟩).map (·, input)

/-- Read this many items. -/
def readCount {α : Type} (read : List UInt8 → Option (α × List UInt8)) :
    ℕ → List UInt8 → Option (List α × List UInt8)
  | 0, input => some ([], input)
  | count + 1, input =>
      (read input).bind fun (a, input) =>
        (readCount read count input).map fun (as, input) => (a :: as, input)

/-- Take an item of any kind off the input; `nested count` takes the items inside it. -/
def skipItem (nested : ℕ → List UInt8 → Option (List UInt8)) :
    List UInt8 → Option (List UInt8)
  | [] => none
  | b :: input =>
      (readArgument (b.toNat % 32) input).bind fun (n, input) =>
        match b.toNat / 32 with
        | 2 | 3 => (readRaw n input).map Prod.snd
        | 4 => nested n input
        | 5 => nested (2 * n) input
        | 6 => nested 1 input
        | _ => some input

/-- Take an item off the input that is nested at most this deep. -/
def skip : ℕ → List UInt8 → Option (List UInt8)
  | 0 => skipItem fun _ _ => none
  | depth + 1 => skipItem fun count input =>
      (List.range count).foldlM (fun input _ => skip depth input) input

theorem length_utf8 (s : String) : (utf8 s).length = s.utf8ByteSize := by
  rw [utf8, Array.length_toList]
  rfl

/-- A text of one-byte characters. -/
theorem utf8ByteSize_ofList_replicate {c : Char} (hc : c.utf8Size = 1) (n : ℕ) :
    (String.ofList (List.replicate n c)).utf8ByteSize = n := by
  rw [String.utf8ByteSize_ofList]
  induction n with
  | zero => rfl
  | succ n ih => rw [List.replicate_succ, String.utf8Len_cons, ih, hc]

theorem fromUTF8?_utf8 (s : String) : String.fromUTF8? ⟨(utf8 s).toArray⟩ = some s := by
  have harray : (⟨(utf8 s).toArray⟩ : ByteArray) = s.toByteArray := by
    rw [utf8, Array.toArray_toList]
  rw [harray, String.fromUTF8?, dif_pos s.isValidUTF8]
  rfl

theorem readRaw_append (bytes rest : List UInt8) :
    readRaw bytes.length (bytes ++ rest) = some (bytes, rest) := by
  rw [readRaw, if_pos (by simp), List.take_left, List.drop_left]

theorem readUInt_uintWrites {n : ℕ} (hn : n < 2 ^ 64) (rest : List UInt8) :
    readUInt ((uintWrites n).flatten ++ rest) = some (n, rest) :=
  readHead_headWrites (by omega) hn rest

/-- A head of another major type is not read. -/
theorem readHead_headWrites_of_ne {major other n : ℕ} (hmajor : major < 8) (hne : other ≠ major)
    (rest : List UInt8) : readHead other ((headWrites major n).flatten ++ rest) = none := by
  have hbyte : ∀ info, info < 32 → (UInt8.ofNat (32 * major + info)).toNat / 32 ≠ other := by
    intro info hinfo
    rw [UInt8.toNat_ofNat']
    omega
  unfold headWrites
  split_ifs with h23 <;>
    simp only [List.flatten_cons, List.flatten_nil, List.append_nil, List.cons_append,
      List.nil_append, readHead]
  · exact if_neg (hbyte n (by omega))
  · exact if_neg (hbyte 24 (by omega))
  · exact if_neg (hbyte 25 (by omega))
  · exact if_neg (hbyte 26 (by omega))
  · exact if_neg (hbyte 27 (by omega))

theorem readInt_intWrites {n : ℤ} (hlow : -2 ^ 64 ≤ n) (hhigh : n < 2 ^ 64) (rest : List UInt8) :
    readInt ((intWrites n).flatten ++ rest) = some (n, rest) := by
  unfold readInt intWrites
  split_ifs with h
  · rw [readHead_headWrites (by omega) (by omega)]
    simp [h]
  · rw [readHead_headWrites_of_ne (by omega) (by omega), readHead_headWrites (by omega) (by omega)]
    simp only [Option.map_some, Option.some.injEq, Prod.mk.injEq, and_true]
    omega

theorem readArrayLen_arrayWrites {n : ℕ} (hn : n < 2 ^ 64) (rest : List UInt8) :
    readArrayLen ((arrayWrites n).flatten ++ rest) = some (n, rest) :=
  readHead_headWrites (by omega) hn rest

theorem readBytes_bytesWrites {bytes : List UInt8} (h : bytes.length < 2 ^ 64)
    (rest : List UInt8) : readBytes ((bytesWrites bytes).flatten ++ rest) = some (bytes, rest) := by
  rw [readBytes, bytesWrites, List.flatten_append, List.append_assoc,
    readHead_headWrites (by omega) h, List.flatten_singleton]
  exact readRaw_append bytes rest

theorem readText_textWrites {s : String} (h : (utf8 s).length < 2 ^ 64) (rest : List UInt8) :
    readText ((textWrites s).flatten ++ rest) = some (s, rest) := by
  rw [readText, textWrites, List.flatten_append, List.append_assoc,
    readHead_headWrites (by omega) h, List.flatten_singleton]
  simp only [Option.bind_some, readRaw_append, fromUTF8?_utf8, Option.map_some]

/-- A head tells what to take off the input with the item. -/
theorem skipItem_headWrites {major n : ℕ} (hmajor : major < 8) (hn : n < 2 ^ 64)
    (nested : ℕ → List UInt8 → Option (List UInt8)) (rest : List UInt8) :
    skipItem nested ((headWrites major n).flatten ++ rest) =
      match major with
      | 2 | 3 => (readRaw n rest).map Prod.snd
      | 4 => nested n rest
      | 5 => nested (2 * n) rest
      | 6 => nested 1 rest
      | _ => some rest := by
  have hread := readHead_headWrites hmajor hn rest
  cases hbytes : (headWrites major n).flatten ++ rest with
  | nil => rw [hbytes] at hread; cases hread
  | cons b input =>
      rw [hbytes, readHead] at hread
      split_ifs at hread with hb
      rw [skipItem, hread, Option.bind_some, hb]

theorem skip_bytesWrites {bytes : List UInt8} (h : bytes.length < 2 ^ 64) (depth : ℕ)
    (rest : List UInt8) : skip depth ((bytesWrites bytes).flatten ++ rest) = some rest := by
  rw [bytesWrites, List.flatten_append, List.append_assoc, List.flatten_singleton]
  cases depth <;>
    rw [skip, skipItem_headWrites (by omega) h] <;>
    simp only [readRaw_append, Option.map_some]

theorem skip_textWrites {s : String} (h : (utf8 s).length < 2 ^ 64) (depth : ℕ)
    (rest : List UInt8) : skip depth ((textWrites s).flatten ++ rest) = some rest := by
  rw [textWrites, List.flatten_append, List.append_assoc, List.flatten_singleton]
  cases depth <;>
    rw [skip, skipItem_headWrites (by omega) h] <;>
    simp only [readRaw_append, Option.map_some]

/-- An item among others is not longer than they are together. -/
theorem length_flatten_le_of_mem {α : Type} (writes : α → List (List UInt8)) {a : α} {as : List α}
    (ha : a ∈ as) : (writes a).flatten.length ≤ (as.flatMap writes).flatten.length := by
  obtain ⟨before, after, rfl⟩ := List.append_of_mem ha
  simp only [List.flatMap_append, List.flatMap_cons, List.flatten_append, List.length_append]
  omega

/-- Items of at least one byte are not more than their bytes. -/
theorem length_le_flatten {α : Type} {writes : α → List (List UInt8)}
    (h : ∀ a, 0 < (writes a).flatten.length) (as : List α) :
    as.length ≤ (as.flatMap writes).flatten.length := by
  induction as with
  | nil => exact Nat.zero_le _
  | cons a as ih =>
      have ha := h a
      rw [List.flatMap_cons, List.flatten_append, List.length_append, List.length_cons]
      omega

/-- Items read back one after the other, if each does. -/
theorem readCount_flatMap {α : Type} {read : List UInt8 → Option (α × List UInt8)}
    {writes : α → List (List UInt8)} {as : List α}
    (h : ∀ a ∈ as, ∀ rest, read ((writes a).flatten ++ rest) = some (a, rest))
    (rest : List UInt8) :
    readCount read as.length ((as.flatMap writes).flatten ++ rest) = some (as, rest) := by
  induction as with
  | nil => rfl
  | cons a as ih =>
      rw [List.forall_mem_cons] at h
      rw [List.flatMap_cons, List.flatten_append, List.append_assoc, List.length_cons, readCount,
        h.1, Option.bind_some]
      dsimp only
      rw [ih h.2]
      rfl

end Cbor
