import Mathlib

/-!
# JSON values

The values a JSON column holds, the readers a derived decoder is built from, and codecs that carry
their round trip. Numbers are integers or the bits of a double; an object is its list of members.
-/

/-- A JSON value. -/
inductive Json where
  | null
  | bool (b : Bool)
  | int (n : ℤ)
  | float (bits : UInt64)
  | str (s : String)
  | arr (items : List Json)
  | obj (members : List (String × Json))

namespace Json

mutual

/-- Equality of values, by their structure. -/
def decEq : ∀ a b : Json, Decidable (a = b)
  | .null, b => match b with
      | .null => isTrue rfl
      | .bool _ | .int _ | .float _ | .str _ | .arr _ | .obj _ => isFalse nofun
  | .bool x, b => match b with
      | .bool y => decidable_of_iff (x = y) (by simp)
      | .null | .int _ | .float _ | .str _ | .arr _ | .obj _ => isFalse nofun
  | .int x, b => match b with
      | .int y => decidable_of_iff (x = y) (by simp)
      | .null | .bool _ | .float _ | .str _ | .arr _ | .obj _ => isFalse nofun
  | .float x, b => match b with
      | .float y => decidable_of_iff (x = y) (by simp)
      | .null | .bool _ | .int _ | .str _ | .arr _ | .obj _ => isFalse nofun
  | .str x, b => match b with
      | .str y => decidable_of_iff (x = y) (by simp)
      | .null | .bool _ | .int _ | .float _ | .arr _ | .obj _ => isFalse nofun
  | .arr x, b => match b with
      | .arr y => have := decEqItems x y; decidable_of_iff (x = y) (by simp)
      | .null | .bool _ | .int _ | .float _ | .str _ | .obj _ => isFalse nofun
  | .obj x, b => match b with
      | .obj y => have := decEqMembers x y; decidable_of_iff (x = y) (by simp)
      | .null | .bool _ | .int _ | .float _ | .str _ | .arr _ => isFalse nofun

def decEqItems : ∀ a b : List Json, Decidable (a = b)
  | [], [] => isTrue rfl
  | [], _ :: _ => isFalse nofun
  | _ :: _, [] => isFalse nofun
  | x :: a, y :: b =>
      have := decEq x y
      have := decEqItems a b
      decidable_of_iff (x = y ∧ a = b) (by simp)

def decEqMembers : ∀ a b : List (String × Json), Decidable (a = b)
  | [], [] => isTrue rfl
  | [], _ :: _ => isFalse nofun
  | _ :: _, [] => isFalse nofun
  | (k, x) :: a, (l, y) :: b =>
      have := decEq x y
      have := decEqMembers a b
      decidable_of_iff ((k = l ∧ x = y) ∧ a = b) (by simp)

end

instance : DecidableEq Json := decEq

/-- The member of an object under a key. -/
def field? : Json → String → Option Json
  | .obj members, key => (members.find? fun m => m.1 = key).map Prod.snd
  | _, _ => none

def asStr? : Json → Option String
  | .str s => some s
  | _ => none

def asInt? : Json → Option ℤ
  | .int n => some n
  | _ => none

/-- A number below a bound. -/
def asNatBelow? (bound : ℕ) (j : Json) : Option ℕ :=
  j.asInt?.bind fun n => if 0 ≤ n ∧ n.toNat < bound then some n.toNat else none

/-- A number that fits an unsigned 32-bit integer. -/
def asUInt32? (j : Json) : Option UInt32 := (j.asNatBelow? UInt32.size).map UInt32.ofNat

/-- A number that fits an unsigned 64-bit integer. -/
def asUInt64? (j : Json) : Option UInt64 := (j.asNatBelow? UInt64.size).map UInt64.ofNat

mutual

/-- How deep arrays and objects nest in a value. -/
def depth : Json → ℕ
  | .arr items => depthItems items + 1
  | .obj members => depthMembers members + 1
  | _ => 1

def depthItems : List Json → ℕ
  | [] => 0
  | item :: items => max item.depth (depthItems items)

def depthMembers : List (String × Json) → ℕ
  | [] => 0
  | (_, value) :: members => max value.depth (depthMembers members)

end

/-! ## Compact text -/

/-- The digits of a number. -/
def decimal (n : ℕ) : List UInt8 := (Nat.toDigits 10 n).map Char.toUInt8

/-- A byte of a string: quotes, backslashes and control characters are escaped. -/
def escape (b : UInt8) : List UInt8 :=
  if b = 34 then [92, 34] -- quote
  else if b = 92 then [92, 92] -- backslash
  else if b = 8 then [92, 98]
  else if b = 9 then [92, 116]
  else if b = 10 then [92, 110]
  else if b = 12 then [92, 102]
  else if b = 13 then [92, 114]
  else if b < 32 then
    [92, 117, 48, 48, 48 + b / 16, if b % 16 < 10 then 48 + b % 16 else 87 + b % 16]
  else [b]

/-- A quoted string. -/
def quoted (s : String) : List UInt8 := 34 :: s.toByteArray.data.toList.flatMap escape ++ [34]

mutual

/-- The bytes of a value printed without white space; how a double is printed is left open. -/
def compact (double : UInt64 → List UInt8) : Json → List UInt8
  | .null => [110, 117, 108, 108]
  | .bool true => [116, 114, 117, 101]
  | .bool false => [102, 97, 108, 115, 101]
  | .int (.ofNat n) => decimal n
  | .int (.negSucc n) => 45 :: decimal (n + 1)
  | .float bits => double bits
  | .str s => quoted s
  | .arr [] => [91, 93]
  | .arr (item :: items) => 91 :: compact double item ++ compactItems double items ++ [93]
  | .obj [] => [123, 125]
  | .obj ((key, value) :: members) =>
      123 :: quoted key ++ 58 :: compact double value ++ compactMembers double members ++ [125]

/-- The further items of an array, each after its comma. -/
def compactItems (double : UInt64 → List UInt8) : List Json → List UInt8
  | [] => []
  | item :: items => 44 :: compact double item ++ compactItems double items

def compactMembers (double : UInt64 → List UInt8) : List (String × Json) → List UInt8
  | [] => []
  | (key, value) :: members =>
      44 :: quoted key ++ 58 :: compact double value ++ compactMembers double members

end

/-- An externally tagged enum variant with a content. -/
def tagged (tag : String) (content : Json) : Json := .obj [(tag, content)]

@[simp] theorem field?_cons (key k : String) (v : Json) (members : List (String × Json)) :
    (Json.obj ((k, v) :: members)).field? key =
      if k = key then some v else (Json.obj members).field? key := by
  simp only [field?, List.find?_cons]
  by_cases h : k = key <;> simp [h]

@[simp] theorem asStr?_str (s : String) : (Json.str s).asStr? = some s := rfl

@[simp] theorem asInt?_int (n : ℤ) : (Json.int n).asInt? = some n := rfl

theorem asNatBelow?_int {bound n : ℕ} (h : n < bound) :
    (Json.int n).asNatBelow? bound = some n := by
  simp [asNatBelow?, h]

@[simp] theorem asUInt32?_int (n : UInt32) : (Json.int n.toNat).asUInt32? = some n := by
  rw [asUInt32?, asNatBelow?_int n.toNat_lt_size, Option.map_some, UInt32.ofNat_toNat]

@[simp] theorem asUInt64?_int (n : UInt64) : (Json.int n.toNat).asUInt64? = some n := by
  rw [asUInt64?, asNatBelow?_int n.toNat_lt_size, Option.map_some, UInt64.ofNat_toNat]

end Json

/-- An encoder and a decoder that reads every encoded value back. -/
structure Codec (α : Type*) where
  encode : α → Json
  decode : Json → Option α
  decode_encode : ∀ a, decode (encode a) = some a

attribute [simp] Codec.decode_encode
