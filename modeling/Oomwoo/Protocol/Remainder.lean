import Oomwoo.Protocol.Checksum

namespace Oomwoo

open Bytes ShiftRegister Polynomial

/-!
# The checksum is the polynomial remainder

`oomwoo_crc16_ccitt_false` keeps 16 bits and lets the rest fall out; `crc16_ccitt_false` of
`tools/generate_message_vectors.py` computes on unbounded integers and masks.  The masked integer
is the value of the register after every turn of the loops (`toNat_foldl_crcByte`), and the register
holds a remainder, so both return the remainder of the string by the generator
(`crc_is_remainder`).
-/

/-! ### The checksum of the vector generator -/

namespace VectorGenerator

/-- One turn of the inner loop.  The mask drops the bit that was shifted out. -/
def crcBit (crc : ℕ) : ℕ :=
  if crc &&& 0x8000 ≠ 0 then ((crc <<< 1) ^^^ 0x1021) &&& 0xffff else (crc <<< 1) &&& 0xffff

/-- One turn of the outer loop. -/
def crcByte (crc : ℕ) (byte : UInt8) : ℕ := crcBit^[8] (crc ^^^ byte.toNat <<< 8)

def crc16CcittFalse (data : List UInt8) : ℕ := data.foldl crcByte 0xffff

end VectorGenerator

/-- The mask of the tool is the truncation of the register. -/
theorem toNat_shiftLeft_one (crc : UInt16) : (crc <<< 1).toNat = crc.toNat <<< 1 &&& 0xffff := by
  rw [UInt16.toNat_shiftLeft]
  exact (Nat.and_two_pow_sub_one_eq_mod _ 16).symm

theorem toNat_crcBit (crc : UInt16) : (crcBit crc).toNat = VectorGenerator.crcBit crc.toNat := by
  have htest : crc &&& 0x8000 ≠ 0 ↔ crc.toNat &&& 0x8000 ≠ 0 := by
    rw [ne_eq, ← UInt16.toNat_inj, UInt16.toNat_and]
    rfl
  unfold crcBit VectorGenerator.crcBit
  by_cases h : crc &&& 0x8000 ≠ 0
  · rw [if_pos h, if_pos (htest.mp h), UInt16.toNat_xor, toNat_shiftLeft_one,
      Nat.and_xor_distrib_right]
    rfl
  · rw [if_neg h, if_neg (htest.not.mp h), toNat_shiftLeft_one]

theorem toNat_crcBit_iterate (k : ℕ) (crc : UInt16) :
    (crcBit^[k] crc).toNat = VectorGenerator.crcBit^[k] crc.toNat := by
  induction k generalizing crc with
  | zero => rfl
  | succ k ih => rw [Function.iterate_succ_apply, ih, toNat_crcBit, Function.iterate_succ_apply]

/-- A byte fits in the register behind the shift, so nothing is lost before the inner loop. -/
theorem toNat_crcByte (crc : UInt16) (byte : UInt8) :
    (crcByte crc byte).toNat = VectorGenerator.crcByte crc.toNat byte := by
  unfold crcByte VectorGenerator.crcByte
  rw [toNat_crcBit_iterate, UInt16.toNat_xor, toNat_shiftLeft_eight]

/-- **Both loops compute one value** after every byte. -/
theorem toNat_foldl_crcByte (data : List UInt8) (crc : UInt16) :
    (data.foldl crcByte crc).toNat = data.foldl VectorGenerator.crcByte crc.toNat := by
  induction data generalizing crc with
  | nil => rfl
  | cons byte data ih => rw [List.foldl_cons, ih, toNat_crcByte, List.foldl_cons]

/-! ### The string as a polynomial -/

theorem degree_bytesPoly_lt (data : List UInt8) :
    (bytesPoly data).degree < (8 * data.length : ℕ) := by
  rw [degree_lt_iff_coeff_zero]
  induction data with
  | nil => exact fun m _ => coeff_zero m
  | cons byte data ih =>
    intro m hm
    rw [List.length_cons] at hm
    have hbyte := (degree_lt_iff_coeff_zero _ _).mp (degree_bitPoly_lt byte.toNat_lt)
    unfold bytesPoly
    rw [coeff_add, coeff_mul_X_pow', if_pos (by omega), ih m (by omega),
      hbyte (m - 8 * data.length) (by omega), add_zero]

/-- **The most significant bit comes first**: bit `i` of the string, counted from the top of its
    first byte, is the coefficient `i` places below the highest power. -/
theorem coeff_bytesPoly (data : List UInt8) {i : ℕ} (hi : i < 8 * data.length) :
    (bytesPoly data).coeff (8 * data.length - 1 - i) =
      if (byteAt data (i / 8)).toNat.testBit (7 - i % 8) then 1 else 0 := by
  induction data generalizing i with
  | nil => simp at hi
  | cons byte data ih =>
    unfold bytesPoly
    rw [List.length_cons] at hi ⊢
    rw [coeff_add, coeff_mul_X_pow']
    by_cases hfirst : i < 8
    · -- a bit of the first byte; the others end below it
      have hrest : (bytesPoly data).coeff (8 * (data.length + 1) - 1 - i) = 0 :=
        (degree_lt_iff_coeff_zero _ _).mp (degree_bytesPoly_lt data) _ (by omega)
      rw [if_pos (by omega), hrest, add_zero, coeff_bitPoly, Nat.div_eq_of_lt hfirst,
        Nat.mod_eq_of_lt hfirst,
        show 8 * (data.length + 1) - 1 - i - 8 * data.length = 7 - i by omega]
      rfl
    · have hbelow := ih (i := i - 8) (by omega)
      rw [if_neg (by omega), zero_add,
        show 8 * (data.length + 1) - 1 - i = 8 * data.length - 1 - (i - 8) by omega, hbelow,
        show i / 8 = (i - 8) / 8 + 1 by omega, byteAt_cons_succ,
        show i % 8 = (i - 8) % 8 by omega]

/-- **The checksum is the polynomial remainder, in C and in Python alike.** Read as a polynomial
    it is the remainder of the string, most significant bit first and shifted by the register's
    width, with the preset in front of it; and the vector generator, on unbounded integers,
    returns the same number. -/
theorem crc_is_remainder (data : List UInt8) :
    let M := bytesPoly data
    M.degree < (8 * data.length : ℕ) ∧
      (∀ i < 8 * data.length, M.coeff (8 * data.length - 1 - i) =
        if (byteAt data (i / 8)).toNat.testBit (7 - i % 8) then 1 else 0) ∧
      bitPoly (crc16CcittFalse (.bytes data)).toNat =
        (M * X ^ 16 + bitPoly 0xffff * X ^ (8 * data.length)) %ₘ
          (X ^ 16 + X ^ 12 + X ^ 5 + 1) ∧
      VectorGenerator.crc16CcittFalse data = (crc16CcittFalse (.bytes data)).toNat := by
  have hgenerator : generator crcTaps = X ^ 16 + X ^ 12 + X ^ 5 + 1 := by
    rw [generator_crcTaps]
    ring
  rw [crc16CcittFalse_bytes]
  refine ⟨degree_bytesPoly_lt data, fun i hi => coeff_bytesPoly data hi, ?_, ?_⟩
  · rw [← hgenerator]
    exact bitPoly_eq_modByMonic crcTaps (crcResidue_crcBytes data)
  · exact (toNat_foldl_crcByte data 0xffff).symm

end Oomwoo
