import Oomwoo.Lib.ShiftRegister
import Oomwoo.Protocol.FrameCodec

namespace Oomwoo

open Bytes ShiftRegister Polynomial

/-!
# The checksum as a division

The bitwise loop of `oomwoo_crc16_ccitt_false` is a shift register with the taps of
`X ^ 16 + X ^ 12 + X ^ 5 + 1`, so the checksum of a string is a remainder (`crcResidue_crcBytes`).
A frame carries its checksum low byte first: the order of its bytes as coefficients of one
polynomial is `wireRank`, not the order on the wire.  A changed byte adds its change at its rank
(`wirePoly_changeByte`), and a change keeps the trailer right exactly if the generator divides
it (`checksumHolds_add_iff`).
-/

/-! ### The loop is a shift register -/

/-- `0x1021`: the generator without its leading term. -/
def crcTaps : BitVec 16 := 0x1021#16

theorem generator_crcTaps : generator crcTaps = X ^ 16 + (X ^ 12 + X ^ 5 + 1) := by
  have hbits : crcTaps.toNat = 2 ^ 12 ^^^ 2 ^ 5 ^^^ 1 := by decide
  unfold generator
  rw [hbits, bitPoly_xor, bitPoly_xor, bitPoly_two_pow, bitPoly_two_pow, bitPoly_one]

/-- The residue of the checksum register. -/
noncomputable def crcResidue (crc : UInt16) : AdjoinRoot (generator crcTaps) :=
  residue crcTaps crc.toBitVec

/-- The class of `X` modulo the generator. -/
noncomputable def crcRoot : AdjoinRoot (generator crcTaps) := AdjoinRoot.root _

/-- One turn of the inner loop is one shift. -/
theorem toBitVec_crcBit (crc : UInt16) :
    (crcBit crc).toBitVec = advance crcTaps crc.toBitVec := by
  have hmsb : crc &&& 0x8000 ≠ 0 ↔ crc.toBitVec.msb = true := by
    rw [ne_eq, ← UInt16.toBitVec_inj, UInt16.toBitVec_and]
    show ¬ crc.toBitVec &&& BitVec.twoPow 16 15 = 0#16 ↔ _
    rw [BitVec.and_twoPow, BitVec.msb_eq_getLsbD_last]
    cases crc.toBitVec.getLsbD 15 <;> decide
  unfold crcBit advance
  by_cases h : crc.toBitVec.msb = true
  · rw [if_pos h, if_pos (hmsb.mpr h)]
    rfl
  · rw [if_neg h, if_neg (hmsb.not.mpr h)]
    rfl

theorem toBitVec_crcBit_iterate (k : ℕ) (crc : UInt16) :
    (crcBit^[k] crc).toBitVec = (advance crcTaps)^[k] crc.toBitVec := by
  induction k generalizing crc with
  | zero => rfl
  | succ k ih => rw [Function.iterate_succ_apply, ih, toBitVec_crcBit, Function.iterate_succ_apply]

theorem crcResidue_inj {a b : UInt16} : crcResidue a = crcResidue b ↔ a = b := by
  unfold crcResidue
  rw [residue_inj, UInt16.toBitVec_inj]

/-- A byte fits in the high half of the register. -/
theorem toNat_shiftLeft_eight (byte : UInt8) :
    (byte.toUInt16 <<< 8).toNat = byte.toNat <<< 8 := by
  have := byte.toNat_lt
  rw [UInt16.toNat_shiftLeft, UInt8.toNat_toUInt16]
  simp only [UInt16.reduceToNat, Nat.reduceMod, Nat.shiftLeft_eq]
  omega

theorem crcResidue_shiftLeft (byte : UInt8) :
    crcResidue (byte.toUInt16 <<< 8) =
      AdjoinRoot.mk _ (bitPoly byte.toNat) * crcRoot ^ 8 := by
  have hnat : (byte.toUInt16 <<< 8).toBitVec.toNat = byte.toNat <<< 8 :=
    toNat_shiftLeft_eight byte
  unfold crcResidue residue crcRoot
  rw [hnat, bitPoly_shiftLeft, map_mul, map_pow, AdjoinRoot.mk_X]

/-- One turn of the outer loop. -/
theorem crcResidue_crcByte (crc : UInt16) (byte : UInt8) :
    crcResidue (crcByte crc byte) =
      crcResidue crc * crcRoot ^ 8 + AdjoinRoot.mk _ (bitPoly byte.toNat) * crcRoot ^ 16 := by
  have hshifts : crcResidue (crcByte crc byte) =
      crcResidue (crc ^^^ byte.toUInt16 <<< 8) * crcRoot ^ 8 := by
    unfold crcResidue crcByte crcRoot
    rw [toBitVec_crcBit_iterate, residue_iterate]
  have hxor : crcResidue (crc ^^^ byte.toUInt16 <<< 8) =
      crcResidue crc + crcResidue (byte.toUInt16 <<< 8) := by
    unfold crcResidue
    rw [UInt16.toBitVec_xor, residue_xor]
  rw [hshifts, hxor, crcResidue_shiftLeft]
  ring

/-! ### The checksum of a string -/

/-- A byte string as a polynomial, the most significant bit of the first byte first. -/
noncomputable def bytesPoly : List UInt8 → (ZMod 2)[X]
  | [] => 0
  | byte :: bytes => bitPoly byte.toNat * X ^ (8 * bytes.length) + bytesPoly bytes

/-- The loop over the bytes from any preset. -/
theorem crcResidue_foldl (bytes : List UInt8) (crc : UInt16) :
    crcResidue (bytes.foldl crcByte crc) =
      crcResidue crc * crcRoot ^ (8 * bytes.length) +
        AdjoinRoot.mk _ (bytesPoly bytes) * crcRoot ^ 16 := by
  induction bytes generalizing crc with
  | nil => simp [bytesPoly]
  | cons byte bytes ih =>
    rw [List.foldl_cons, ih, crcResidue_crcByte, bytesPoly, map_add, map_mul, map_pow,
      AdjoinRoot.mk_X, ← crcRoot, List.length_cons]
    ring

/-- **The checksum is a remainder** of the string, shifted by the register's width, and the
    preset in front of it. -/
theorem crcResidue_crcBytes (bytes : List UInt8) :
    crcResidue (crcBytes bytes) =
      AdjoinRoot.mk _ (bytesPoly bytes * X ^ 16 + bitPoly 0xffff * X ^ (8 * bytes.length)) := by
  unfold crcBytes
  rw [crcResidue_foldl, map_add, map_mul, map_mul, map_pow, map_pow, AdjoinRoot.mk_X, ← crcRoot,
    add_comm]
  rfl

/-! ### The wire as one polynomial -/

/-- The place of byte `i` of a frame of the given length, counted in bytes from the constant term:
    the trailer is low byte first, everything before it is high byte first. -/
def wireRank (length i : ℕ) : ℕ := if i + 2 < length then length - 1 - i else i + 2 - length

/-- The bytes of a frame as coefficients: what the checksum covers, then its value. -/
noncomputable def wirePoly (data : List UInt8) : (ZMod 2)[X] :=
  bytesPoly (data.take (data.length - 2)) * X ^ 16 +
    bitPoly (readU16Le (data.drop (data.length - 2))).toNat

/-- Byte `i` changed by an exclusive or. -/
def changeByte (data : List UInt8) (i : ℕ) (change : UInt8) : List UInt8 :=
  data.set i (byteAt data i ^^^ change)

@[simp] theorem length_changeByte (data : List UInt8) (i : ℕ) (change : UInt8) :
    (changeByte data i change).length = data.length :=
  List.length_set

theorem bitPoly_readU16Le (input : List UInt8) :
    bitPoly (readU16Le input).toNat =
      bitPoly (byteAt input 0).toNat + bitPoly (byteAt input 1).toNat * X ^ 8 := by
  have hlow : (byteAt input 0).toNat < 2 ^ 8 := UInt8.toNat_lt _
  rw [readU16Le_toNat, Nat.mul_comm, show (256 : ℕ) = 2 ^ 8 from rfl, bitPoly_add_mul _ hlow]

theorem byteAt_changeByte {data : List UInt8} {i : ℕ} (hi : i < data.length) (change : UInt8)
    (j : ℕ) :
    byteAt (changeByte data i change) j =
      if i = j then byteAt data j ^^^ change else byteAt data j := by
  unfold byteAt changeByte
  rw [List.getD_eq_getElem?_getD, List.getElem?_set, if_pos hi]
  split
  · rename_i hij
    rw [← hij]
    rfl
  · rw [List.getD_eq_getElem?_getD]

/-- A changed byte of a string. -/
theorem bytesPoly_changeByte {bytes : List UInt8} {i : ℕ} (hi : i < bytes.length)
    (change : UInt8) :
    bytesPoly (changeByte bytes i change) =
      bytesPoly bytes + bitPoly change.toNat * X ^ (8 * (bytes.length - 1 - i)) := by
  induction bytes generalizing i with
  | nil => simp at hi
  | cons byte bytes ih =>
    cases i with
    | zero =>
      show bytesPoly ((byte ^^^ change) :: bytes) = _
      rw [bytesPoly, bytesPoly, UInt8.toNat_xor, bitPoly_xor, List.length_cons,
        Nat.add_sub_cancel, Nat.sub_zero]
      ring
    | succ i =>
      have hrest : changeByte (byte :: bytes) (i + 1) change =
          byte :: changeByte bytes i change := by
        unfold changeByte
        rw [byteAt_cons_succ]
        rfl
      have hi' : i < bytes.length := Nat.lt_of_succ_lt_succ hi
      rw [hrest, bytesPoly, bytesPoly, ih hi', length_changeByte, List.length_cons,
        show bytes.length + 1 - 1 - (i + 1) = bytes.length - 1 - i by omega]
      ring

/-- **A changed byte adds its change at its rank.** -/
theorem wirePoly_changeByte {data : List UInt8} {i : ℕ} (hi : i < data.length)
    (hlen : 2 ≤ data.length) (change : UInt8) :
    wirePoly (changeByte data i change) =
      wirePoly data + bitPoly change.toNat * X ^ (8 * wireRank data.length i) := by
  unfold wirePoly wireRank
  rw [length_changeByte]
  by_cases hbody : i + 2 < data.length
  · -- in what the checksum covers
    have htake : (changeByte data i change).take (data.length - 2) =
        changeByte (data.take (data.length - 2)) i change := by
      unfold changeByte
      rw [List.take_set, byteAt_take _ (by omega)]
    have hdrop : (changeByte data i change).drop (data.length - 2) =
        data.drop (data.length - 2) := by
      unfold changeByte
      rw [List.drop_set, if_pos (by omega)]
    have hcovered : (data.take (data.length - 2)).length = data.length - 2 := by
      rw [List.length_take]
      omega
    rw [if_pos hbody, htake, hdrop, bytesPoly_changeByte (by omega), hcovered,
      show 8 * (data.length - 1 - i) = 8 * (data.length - 2 - 1 - i) + 16 by omega, pow_add]
    ring
  · -- in the trailer
    have htake : (changeByte data i change).take (data.length - 2) =
        data.take (data.length - 2) := by
      unfold changeByte
      rw [List.take_set_of_le (by omega)]
    rw [if_neg hbody, htake, bitPoly_readU16Le, bitPoly_readU16Le]
    simp only [byteAt_drop, byteAt_changeByte hi]
    rcases (by omega : i = data.length - 2 + 0 ∨ i = data.length - 2 + 1) with h | h
    · rw [if_pos h, if_neg (by omega), UInt8.toNat_xor, bitPoly_xor,
        show i + 2 - data.length = 0 by omega]
      ring
    · rw [if_pos h, if_neg (by omega), UInt8.toNat_xor, bitPoly_xor,
        show i + 2 - data.length = 1 by omega]
      ring

/-! ### Strings with the right trailer -/

/-- The trailer is the checksum of what precedes it. -/
def ChecksumHolds (data : List UInt8) : Prop :=
  readU16Le (data.drop (data.length - 2)) = crcBytes (data.take (data.length - 2))

/-- **The trailer is right** exactly if the wire is congruent to the shifted preset. -/
theorem checksumHolds_iff (data : List UInt8) :
    ChecksumHolds data ↔
      AdjoinRoot.mk (generator crcTaps) (wirePoly data) =
        AdjoinRoot.mk (generator crcTaps) (bitPoly 0xffff * X ^ (8 * (data.length - 2))) := by
  have hcovered : (data.take (data.length - 2)).length = data.length - 2 := by
    rw [List.length_take]
    omega
  have htrailer : AdjoinRoot.mk (generator crcTaps)
      (bitPoly (readU16Le (data.drop (data.length - 2))).toNat) =
        crcResidue (readU16Le (data.drop (data.length - 2))) := rfl
  have hdouble := add_self crcTaps
    (AdjoinRoot.mk _ (bytesPoly (data.take (data.length - 2)) * X ^ 16))
  unfold ChecksumHolds wirePoly
  rw [← crcResidue_inj, crcResidue_crcBytes, hcovered, map_add, map_add, htrailer]
  constructor
  · intro h
    linear_combination h + hdouble
  · intro h
    linear_combination h - hdouble

/-- Two strings of one length with right trailers differ by a multiple of the generator. -/
theorem checksumHolds_add_iff {data changed : List UInt8} (hlen : changed.length = data.length)
    (h : ChecksumHolds data) {error : (ZMod 2)[X]}
    (herror : wirePoly changed = wirePoly data + error) :
    ChecksumHolds changed ↔ generator crcTaps ∣ error := by
  rw [checksumHolds_iff, herror, hlen, map_add, (checksumHolds_iff data).mp h, add_eq_left,
    AdjoinRoot.mk_eq_zero]

end Oomwoo
