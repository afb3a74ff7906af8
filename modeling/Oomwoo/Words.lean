import Oomwoo.Lib.Bytes
import Oomwoo.Lib.Reads
import Mathlib.Tactic.NormNum

namespace Oomwoo

open Bytes Reading Reads

/-!
# Little-endian words on the wire

The `read_*_le` and `write_*_le` helpers.  `oomwoo_protocol.c` and `oomwoo_messages.c` each
carry their own `static` copies with the same bodies; one definition stands for both.  Every
reader is related to `leNat` and every writer to `leBytes`, so that no later proof looks at a
shift or a mask again.
-/

/-! ### Readers -/

def readU16Le (input : List UInt8) : UInt16 :=
  (byteAt input 0).toUInt16 ||| (byteAt input 1).toUInt16 <<< 8

def readU32Le (input : List UInt8) : UInt32 :=
  (byteAt input 0).toUInt32 ||| (byteAt input 1).toUInt32 <<< 8 |||
    (byteAt input 2).toUInt32 <<< 16 ||| (byteAt input 3).toUInt32 <<< 24

/-- Values above `INT16_MAX` are mapped down without relying on a narrowing conversion. -/
def readI16Le (input : List UInt8) : Int16 :=
  let value := readU16Le input
  if value.toNat ≤ 32767 then Int16.ofInt value.toNat
  else Int16.ofInt (-(65535 - value.toNat : Int) - 1)

def readI32Le (input : List UInt8) : Int32 :=
  let value := readU32Le input
  if value.toNat ≤ 2147483647 then Int32.ofInt value.toNat
  else Int32.ofInt (-(4294967295 - value.toNat : Int) - 1)

/-! ### Readers byte by byte -/

/-- Read `width` bytes behind a pointer and hand them to a reader. -/
def wordReads {α : Type} (width : Nat) (read : List UInt8 → α) (off : Nat) : Reads Nat UInt8 α := do
  let bytes ← getAll (List.range' off width)
  pure (read bytes)

def readU16LeReads : Nat → Reads Nat UInt8 UInt16 := wordReads 2 readU16Le

def readU32LeReads : Nat → Reads Nat UInt8 UInt32 := wordReads 4 readU32Le

def readI16LeReads : Nat → Reads Nat UInt8 Int16 := wordReads 2 readI16Le

def readI32LeReads : Nat → Reads Nat UInt8 Int32 := wordReads 4 readI32Le

section Eval

variable (bytes : List UInt8) (off : Nat)

theorem eval_readU16LeReads :
    (readU16LeReads off).eval (byteAt bytes) = readU16Le (bytes.drop off) := by
  simp [readU16LeReads, wordReads, readU16Le, List.range'_succ]

theorem eval_readU32LeReads :
    (readU32LeReads off).eval (byteAt bytes) = readU32Le (bytes.drop off) := by
  simp [readU32LeReads, wordReads, readU32Le, List.range'_succ]

theorem eval_readI16LeReads :
    (readI16LeReads off).eval (byteAt bytes) = readI16Le (bytes.drop off) := by
  unfold readI16Le
  rw [← eval_readU16LeReads]
  simp [readI16LeReads, readU16LeReads, wordReads, readI16Le]

theorem eval_readI32LeReads :
    (readI32LeReads off).eval (byteAt bytes) = readI32Le (bytes.drop off) := by
  unfold readI32Le
  rw [← eval_readU32LeReads]
  simp [readI32LeReads, readU32LeReads, wordReads, readI32Le]

end Eval

/-! ### Writers -/

def writeU16Le (output : List UInt8) (off : Nat) (value : UInt16) : List UInt8 :=
  let output := writeAt output off [(value &&& 0xff).toUInt8]
  writeAt output (off + 1) [(value >>> 8 &&& 0xff).toUInt8]

def writeU32Le (output : List UInt8) (off : Nat) (value : UInt32) : List UInt8 :=
  let output := writeAt output off [(value &&& 0xff).toUInt8]
  let output := writeAt output (off + 1) [(value >>> 8 &&& 0xff).toUInt8]
  let output := writeAt output (off + 2) [(value >>> 16 &&& 0xff).toUInt8]
  writeAt output (off + 3) [(value >>> 24 &&& 0xff).toUInt8]

def writeI16Le (output : List UInt8) (off : Nat) (value : Int16) : List UInt8 :=
  writeU16Le output off value.toUInt16

def writeI32Le (output : List UInt8) (off : Nat) (value : Int32) : List UInt8 :=
  writeU32Le output off value.toUInt32

/-! ### What the readers return -/

/-- Disjoint bits: joining a low part and a shifted high part is adding them. -/
private theorem or_shiftLeft {low i : Nat} (high : Nat) (h : low < 2 ^ i) :
    low ||| high <<< i = low + high * 2 ^ i := by
  rw [Nat.or_comm, ← Nat.shiftLeft_add_eq_or_of_lt h, Nat.shiftLeft_eq, Nat.add_comm]

theorem readU16Le_toNat (input : List UInt8) :
    (readU16Le input).toNat = (byteAt input 0).toNat + 256 * (byteAt input 1).toNat := by
  have h0 : (byteAt input 0).toNat < 256 := UInt8.toNat_lt _
  have h1 : (byteAt input 1).toNat < 256 := UInt8.toNat_lt _
  have hshift : (byteAt input 1).toNat <<< 8 % 65536 = (byteAt input 1).toNat <<< 8 := by
    rw [Nat.shiftLeft_eq]
    omega
  simp only [readU16Le, UInt16.toNat_or, UInt16.toNat_shiftLeft, UInt8.toNat_toUInt16,
    UInt16.reduceToNat, Nat.reduceMod, Nat.reducePow, hshift]
  rw [or_shiftLeft _ (by simpa using h0)]
  omega

theorem readU32Le_toNat (input : List UInt8) :
    (readU32Le input).toNat = (byteAt input 0).toNat + 256 * (byteAt input 1).toNat +
      65536 * (byteAt input 2).toNat + 16777216 * (byteAt input 3).toNat := by
  have h0 : (byteAt input 0).toNat < 256 := UInt8.toNat_lt _
  have h1 : (byteAt input 1).toNat < 256 := UInt8.toNat_lt _
  have h2 : (byteAt input 2).toNat < 256 := UInt8.toNat_lt _
  have h3 : (byteAt input 3).toNat < 256 := UInt8.toNat_lt _
  have hshift : ∀ (b : UInt8) (i : Nat), i ≤ 24 → b.toNat <<< i % 4294967296 = b.toNat <<< i := by
    intro b i hi
    have hb : b.toNat < 2 ^ 8 := b.toNat_lt
    have hpow : b.toNat * 2 ^ i < 2 ^ 8 * 2 ^ i := Nat.mul_lt_mul_of_pos_right hb (by positivity)
    have hle : (2 : Nat) ^ 8 * 2 ^ i ≤ 2 ^ 32 := by
      rw [← pow_add]
      exact Nat.pow_le_pow_right (by norm_num) (by omega)
    rw [Nat.shiftLeft_eq]
    exact Nat.mod_eq_of_lt (by omega)
  simp only [readU32Le, UInt32.toNat_or, UInt32.toNat_shiftLeft, UInt8.toNat_toUInt32,
    UInt32.reduceToNat, Nat.reduceMod, Nat.reducePow, hshift _ 8 (by omega),
    hshift _ 16 (by omega), hshift _ 24 (by omega)]
  -- join the bytes from the low end up, each above the bits already there
  have e1 := or_shiftLeft (i := 8) (byteAt input 1).toNat h0
  have l2 : (byteAt input 0).toNat + (byteAt input 1).toNat * 2 ^ 8 < 2 ^ 16 := by omega
  have e2 := or_shiftLeft (byteAt input 2).toNat l2
  have l3 : (byteAt input 0).toNat + (byteAt input 1).toNat * 2 ^ 8 +
      (byteAt input 2).toNat * 2 ^ 16 < 2 ^ 24 := by omega
  have e3 := or_shiftLeft (byteAt input 3).toNat l3
  rw [e1, e2, e3]
  omega

/-- A 16-bit reader sees the little-endian value of the first two bytes. -/
theorem readU16Le_leNat (input : List UInt8) :
    (readU16Le input).toNat = leNat (input.take 2) := by
  rw [readU16Le_toNat, leNat_take_two]

/-- A 32-bit reader sees the little-endian value of the first four bytes. -/
theorem readU32Le_leNat (input : List UInt8) :
    (readU32Le input).toNat = leNat (input.take 4) := by
  rw [readU32Le_toNat, leNat_take_four]

/-- Reading a written word gives it back, whatever follows. -/
theorem readU16Le_leBytes (value : UInt16) (rest : List UInt8) :
    readU16Le (leBytes 2 value.toNat ++ rest) = value := by
  have hlt : value.toNat < 65536 := value.toNat_lt
  apply UInt16.toNat_inj.mp
  rw [readU16Le_leNat, List.take_left' (by simp), leNat_leBytes]
  exact Nat.mod_eq_of_lt hlt

/-- Writing a read word gives the two bytes back. -/
theorem leBytes_readU16Le {input : List UInt8} (h : 2 ≤ input.length) :
    leBytes 2 (readU16Le input).toNat = input.take 2 := by
  have hlen : (input.take 2).length = 2 := by simp [h]
  have hinv := leBytes_leNat (input.take 2)
  rw [hlen] at hinv
  rw [readU16Le_leNat, hinv]

theorem readU32Le_leBytes (value : UInt32) (rest : List UInt8) :
    readU32Le (leBytes 4 value.toNat ++ rest) = value := by
  have hlt : value.toNat < 4294967296 := value.toNat_lt
  apply UInt32.toNat_inj.mp
  rw [readU32Le_leNat, List.take_left' (by simp), leNat_leBytes]
  exact Nat.mod_eq_of_lt hlt

theorem leBytes_readU32Le {input : List UInt8} (h : 4 ≤ input.length) :
    leBytes 4 (readU32Le input).toNat = input.take 4 := by
  have hlen : (input.take 4).length = 4 := by simp [h]
  have hinv := leBytes_leNat (input.take 4)
  rw [hlen] at hinv
  rw [readU32Le_leNat, hinv]

/-- The signed reader returns the two's complement reading of the word. -/
theorem readI16Le_eq (input : List UInt8) : readI16Le input = (readU16Le input).toInt16 := by
  have hlt : (readU16Le input).toNat < 65536 := (readU16Le input).toNat_lt
  have hbits : (readU16Le input).toInt16.toBitVec.toNat = (readU16Le input).toNat := rfl
  apply Int16.toBitVec_inj.mp
  apply BitVec.eq_of_toNat_eq
  rw [hbits]
  simp only [readI16Le]
  split
  · rw [Int16.toBitVec_ofInt, BitVec.toNat_ofInt]
    omega
  · rw [Int16.toBitVec_ofInt, BitVec.toNat_ofInt]
    omega

theorem readI32Le_eq (input : List UInt8) : readI32Le input = (readU32Le input).toInt32 := by
  have hlt : (readU32Le input).toNat < 4294967296 := (readU32Le input).toNat_lt
  have hbits : (readU32Le input).toInt32.toBitVec.toNat = (readU32Le input).toNat := rfl
  apply Int32.toBitVec_inj.mp
  apply BitVec.eq_of_toNat_eq
  rw [hbits]
  simp only [readI32Le]
  split
  · rw [Int32.toBitVec_ofInt, BitVec.toNat_ofInt]
    omega
  · rw [Int32.toBitVec_ofInt, BitVec.toNat_ofInt]
    omega

/-! ### What the writers store -/

theorem leBytes_two (value : UInt16) :
    leBytes 2 value.toNat = [(value &&& 0xff).toUInt8, (value >>> 8 &&& 0xff).toUInt8] := by
  have hand : ∀ n : Nat, n &&& 255 = n % 256 := fun n => Nat.and_two_pow_sub_one_eq_mod n 8
  simp only [leBytes, List.cons.injEq, and_true]
  constructor <;> apply UInt8.toNat_inj.mp
  · simp [hand]
  · simp [hand, Nat.shiftRight_eq_div_pow]

theorem leBytes_four (value : UInt32) :
    leBytes 4 value.toNat = [(value &&& 0xff).toUInt8, (value >>> 8 &&& 0xff).toUInt8,
      (value >>> 16 &&& 0xff).toUInt8, (value >>> 24 &&& 0xff).toUInt8] := by
  have hand : ∀ n : Nat, n &&& 255 = n % 256 := fun n => Nat.and_two_pow_sub_one_eq_mod n 8
  simp only [leBytes, List.cons.injEq, and_true]
  refine ⟨?_, ?_, ?_, ?_⟩ <;> apply UInt8.toNat_inj.mp
  · simp [hand]
  · simp [hand, Nat.shiftRight_eq_div_pow]
  · simp [hand, Nat.shiftRight_eq_div_pow, Nat.div_div_eq_div_mul]
  · simp [hand, Nat.shiftRight_eq_div_pow, Nat.div_div_eq_div_mul]

/-- A 16-bit store right behind a known prefix. -/
theorem writeU16Le_writeAt (dst a : List UInt8) {off : Nat} (value : UInt16)
    (h : off = a.length) :
    writeU16Le (writeAt dst 0 a) off value = writeAt dst 0 (a ++ leBytes 2 value.toNat) := by
  subst h
  rw [writeU16Le, writeAt_zero_writeAt _ _ _ rfl, writeAt_zero_writeAt _ _ _ (by simp),
    leBytes_two, List.append_assoc]
  rfl

/-- A 32-bit store right behind a known prefix. -/
theorem writeU32Le_writeAt (dst a : List UInt8) {off : Nat} (value : UInt32)
    (h : off = a.length) :
    writeU32Le (writeAt dst 0 a) off value = writeAt dst 0 (a ++ leBytes 4 value.toNat) := by
  subst h
  rw [writeU32Le, writeAt_zero_writeAt _ _ _ rfl, writeAt_zero_writeAt _ _ _ (by simp),
    writeAt_zero_writeAt _ _ _ (by simp), writeAt_zero_writeAt _ _ _ (by simp),
    leBytes_four]
  simp

end Oomwoo
