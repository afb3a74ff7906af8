import Oomwoo.Lib.Bytes

namespace Bytes

/-!
# Packed little-endian records

A format such as `<hhH` describes a record of fixed-width fields without padding by one letter a
field: `B`, `H` and `I` are unsigned with one, two and four bytes, `h` and `i` are two's
complement with two and four.  `unpack` reads the values of a record as integers.
-/

inductive FieldFormat where
  | B
  | H
  | I
  | h
  | i
  deriving DecidableEq, Repr

namespace FieldFormat

/-- The width in bytes. -/
def size : FieldFormat → Nat
  | B => 1
  | H | h => 2
  | I | i => 4

def signed : FieldFormat → Bool
  | B | H | I => false
  | h | i => true

/-- The value of the field at the start of `bytes`. -/
def value (field : FieldFormat) (bytes : List UInt8) : Int :=
  let n := leNat (bytes.take field.size)
  if field.signed && 256 ^ field.size ≤ 2 * n then n - 256 ^ field.size else n

end FieldFormat

/-- The width of a record. -/
def packedSize (format : List FieldFormat) : Nat := (format.map FieldFormat.size).sum

/-- The values of a record at the start of `bytes`, field by field. -/
def unpack : List FieldFormat → List UInt8 → List Int
  | [], _ => []
  | field :: format, bytes => field.value bytes :: unpack format (bytes.drop field.size)

/-! ### The values by bytes -/

section Values

variable (bytes : List UInt8)

/-- An unsigned field is its little-endian value. -/
theorem FieldFormat.value_unsigned {field : FieldFormat} (h : field.signed = false) :
    field.value bytes = leNat (bytes.take field.size) := by
  unfold FieldFormat.value
  rw [h]
  rfl

/-- A signed field is the two's complement reading of its little-endian value. -/
theorem FieldFormat.value_signed {field : FieldFormat} (h : field.signed = true) (w : Nat)
    (hw : 256 ^ field.size = 2 ^ w) {bits : BitVec w}
    (hbits : bits.toNat = leNat (bytes.take field.size)) :
    field.value bytes = bits.toInt := by
  unfold FieldFormat.value
  rw [BitVec.toInt_eq_toNat_cond, hbits, h, hw]
  simp only [Bool.true_and, decide_eq_true_eq]
  by_cases hlow : 2 * leNat (bytes.take field.size) < 2 ^ w
  · rw [if_neg (not_le.mpr hlow), if_pos hlow]
  · rw [if_pos (not_lt.mp hlow), if_neg hlow]
    norm_cast
    rw [hw]

end Values

end Bytes
