/-
The part of the borsh wire format that a contract's argument types use, over
byte lists.

A **reader** consumes a prefix of the input and returns the value with the
bytes it left, or the error text; a writer returns the bytes. Integers are
little-endian, a `Vec` or a `String` carries its length as a `u32`, a fixed
array carries none, and a struct is its fields in order, which is plain
sequencing of readers. `try_from_slice` refuses an input with bytes left over.
-/
import Mathlib.Algebra.Order.Ring.Nat
import Mathlib.Data.Vector.Defs

set_option autoImplicit false

namespace SequentialNear.Borsh

abbrev Bytes := List UInt8

abbrev U32 := Fin (2 ^ 32)
abbrev U64 := Fin (2 ^ 64)
abbrev U128 := Fin (2 ^ 128)

instance U32.neZero : NeZero (2 ^ 32 : Nat) := ⟨by decide⟩
instance U64.neZero : NeZero (2 ^ 64 : Nat) := ⟨by decide⟩
instance U128.neZero : NeZero (2 ^ 128 : Nat) := ⟨by decide⟩

/-- A `deserialize_reader`: the value and the unread input, or the error. -/
abbrev Reader (α : Type) := StateT Bytes (Except String) α

/-! ## Integers -/

/-- The `n` low base-256 digits of `x`, lowest first. -/
def toLE : (n x : Nat) → Bytes
  | 0, _ => []
  | n + 1, x => UInt8.ofNat (x % 256) :: toLE n (x / 256)

/-- The number whose base-256 digits, lowest first, are `bs`. -/
def fromLE : Bytes → Nat
  | [] => 0
  | b :: bs => b.toNat + 256 * fromLE bs

@[simp] theorem toLE_length (n x : Nat) : (toLE n x).length = n := by
  induction n generalizing x with
  | zero => rfl
  | succ n ih => simp only [toLE, List.length_cons, ih]

theorem fromLE_lt (bs : Bytes) : fromLE bs < 2 ^ (8 * bs.length) := by
  induction bs with
  | nil => simp [fromLE]
  | cons b bs ih =>
    have hb : b.toNat < 256 := b.toNat_lt
    have hpow : 2 ^ (8 * (b :: bs).length) = 256 * 2 ^ (8 * bs.length) := by
      rw [List.length_cons, Nat.mul_succ, Nat.pow_add, Nat.mul_comm]
    simp only [fromLE, hpow]
    omega

/-! ## Readers -/

/-- `Read::read_exact` on a buffer of `n` bytes. -/
def read_exact (n : Nat) : Reader (List.Vector UInt8 n) := fun b =>
  if h : n ≤ b.length then .ok (⟨b.take n, by simp [h]⟩, b.drop n)
  else .error "failed to fill whole buffer"

/-- borsh's own readers have their own words for a short input. -/
def unexpected_eof_to_unexpected_length_of_input {α : Type} (r : Reader α) : Reader α :=
  fun b => (r b).mapError fun _ => "Unexpected length of input"

def read_u8 : Reader UInt8 := do
  let bytes ← unexpected_eof_to_unexpected_length_of_input (read_exact 1)
  return bytes.head

/-- An `n`-byte unsigned integer. -/
def read_uint (n : Nat) : Reader (Fin (2 ^ (8 * n))) := do
  let bytes ← unexpected_eof_to_unexpected_length_of_input (read_exact n)
  return ⟨fromLE bytes.toList, by simpa using fromLE_lt bytes.toList⟩

def read_u32 : Reader U32 := read_uint 4
def read_u64 : Reader U64 := read_uint 8
def read_u128 : Reader U128 := read_uint 16

/-- `n` values, one after the other. -/
def read_many {α : Type} (r : Reader α) : Nat → Reader (List α)
  | 0 => return []
  | n + 1 => do
    let x ← r
    let xs ← read_many r n
    return x :: xs

/-- A `Vec`: its length as a `u32`, then its elements. -/
def read_vec {α : Type} (r : Reader α) : Reader (List α) := do
  let len ← read_u32
  read_many r len

/-- What a first byte of a UTF-8 sequence asks for: how many bytes more, and between
which two the next of them lies. -/
def utf8_first (b : UInt8) : Option (Nat × UInt8 × UInt8) :=
  if b ≤ 0x7F then some (0, 0, 0)
  else if 0xC2 ≤ b ∧ b ≤ 0xDF then some (1, 0x80, 0xBF)
  else if b = 0xE0 then some (2, 0xA0, 0xBF)
  else if b = 0xED then some (2, 0x80, 0x9F)
  else if 0xE1 ≤ b ∧ b ≤ 0xEF then some (2, 0x80, 0xBF)
  else if b = 0xF0 then some (3, 0x90, 0xBF)
  else if b = 0xF4 then some (3, 0x80, 0x8F)
  else if 0xF1 ≤ b ∧ b ≤ 0xF3 then some (3, 0x80, 0xBF)
  else none

/-- The text of `Utf8Error`. Of the sequence that starts at `start` the bytes before
`pos` have been read and `more` are to come, the next between `low` and `high`. -/
def utf8_error (pos start more : Nat) (low high : UInt8) : Bytes → String
  | [] => "incomplete utf-8 byte sequence from index " ++ toString start
  | b :: bs =>
    if more = 0 then
      match utf8_first b with
      | some (more, low, high) => utf8_error (pos + 1) pos more low high bs
      | none => "invalid utf-8 sequence of 1 bytes from index " ++ toString pos
    else if low ≤ b ∧ b ≤ high then utf8_error (pos + 1) start (more - 1) 0x80 0xBF bs
    else
      "invalid utf-8 sequence of " ++ toString (pos - start) ++ " bytes from index " ++
        toString start

/-- A `String`: a `Vec<u8>` that must be UTF-8. -/
def read_string : Reader String := do
  let bytes ← read_vec read_u8
  match String.fromUTF8? ⟨bytes.toArray⟩ with
  | some s => return s
  | none => throw (utf8_error 0 0 0 0 0 bytes)

/-- `T::try_from_slice`: the whole input, with nothing left over. -/
def try_from_slice {α : Type} (r : Reader α) (b : Bytes) : Except String α :=
  match r b with
  | .error e => .error e
  | .ok (x, []) => .ok x
  | .ok (_, _ :: _) => .error "Not all bytes read"

/-! ## Writers -/

def write_u32 (x : U32) : Bytes := toLE 4 x
def write_u64 (x : U64) : Bytes := toLE 8 x
def write_u128 (x : U128) : Bytes := toLE 16 x

/-- A `Vec`. The length prefix keeps the low 32 bits of the length; values of
`2^32` elements or more do not occur on a 32-bit target. -/
def write_vec {α : Type} (w : α → Bytes) (xs : List α) : Bytes :=
  toLE 4 xs.length ++ xs.flatMap w

def write_string (s : String) : Bytes :=
  toLE 4 s.toByteArray.size ++ s.toByteArray.toList

end SequentialNear.Borsh
