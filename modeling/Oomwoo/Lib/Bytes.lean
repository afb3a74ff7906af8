import Mathlib.Data.List.TakeDrop
import Mathlib.Tactic.Ring

namespace Bytes

/-!
# Byte memory

Arrays of bytes as a C function sees them: `byteAt` reads at an offset, `writeAt` stores a run
of bytes at an offset, and `Span` is a pointer argument together with its length, which may be
the null pointer.  `leNat` and `leBytes` are the little-endian value of a byte string and the
byte string of a given width; they are inverse to each other (`leNat_leBytes`,
`leBytes_leNat`).
-/

/-! ### Reading -/

/-- The byte at offset `i` (`0` past the end, where C leaves the read undefined). -/
def byteAt (bytes : List UInt8) (i : Nat) : UInt8 := bytes.getD i 0

@[simp] theorem byteAt_cons_zero (b : UInt8) (bs : List UInt8) : byteAt (b :: bs) 0 = b := rfl

@[simp] theorem byteAt_cons_succ (b : UInt8) (bs : List UInt8) (i : Nat) :
    byteAt (b :: bs) (i + 1) = byteAt bs i := by
  simp [byteAt]

/-- A read inside the first of two joined strings sees only that one. -/
theorem byteAt_append_left (a b : List UInt8) {i : Nat} (h : i < a.length) :
    byteAt (a ++ b) i = byteAt a i := by
  simp [byteAt, List.getElem?_append_left h]

/-- A read past the first of two joined strings is a read in the second. -/
theorem byteAt_append_right (a b : List UInt8) {i : Nat} (h : a.length ≤ i) :
    byteAt (a ++ b) i = byteAt b (i - a.length) := by
  simp [byteAt, List.getElem?_append_right h]

/-- A read below the cut does not notice the cut. -/
theorem byteAt_take (bytes : List UInt8) {n i : Nat} (h : i < n) :
    byteAt (bytes.take n) i = byteAt bytes i := by
  simp [byteAt, h]

/-- Pointer arithmetic: reading at `i` behind `bytes + n`. -/
@[simp] theorem byteAt_drop (bytes : List UInt8) (n i : Nat) :
    byteAt (bytes.drop n) i = byteAt bytes (n + i) := by
  simp [byteAt, List.getD_eq_getElem?_getD, List.getElem?_drop]

/-- Dropping up to an in-range offset exposes the byte there. -/
theorem drop_eq_byteAt_cons (bytes : List UInt8) {i : Nat} (h : i < bytes.length) :
    bytes.drop i = byteAt bytes i :: bytes.drop (i + 1) := by
  rw [List.drop_eq_getElem_cons h]
  simp [byteAt, List.getElem?_eq_getElem h]

/-! ### Writing -/

/-- Store `src` from offset `off` on: one `memcpy`, or one assignment when `src` is a single
    byte.  A store that runs past the end makes the array longer, so that an overflow shows. -/
def writeAt (dst : List UInt8) (off : Nat) (src : List UInt8) : List UInt8 :=
  dst.take off ++ src ++ dst.drop (off + src.length)

@[simp] theorem writeAt_nil (dst : List UInt8) (off : Nat) : writeAt dst off [] = dst := by
  simp [writeAt]

/-- An in-bounds store keeps the array's length. -/
theorem length_writeAt (dst src : List UInt8) {off : Nat} (h : off + src.length ≤ dst.length) :
    (writeAt dst off src).length = dst.length := by
  simp only [writeAt, List.length_append, List.length_take, List.length_drop]
  omega

/-- A store at the start. -/
theorem writeAt_zero (dst src : List UInt8) :
    writeAt dst 0 src = src ++ dst.drop src.length := by
  simp [writeAt]

/-- A store right behind a known prefix. -/
theorem writeAt_append (pre rest src : List UInt8) :
    writeAt (pre ++ rest) pre.length src = pre ++ src ++ rest.drop src.length := by
  simp [writeAt, List.drop_append]

/-- Two stores, the second right behind the first, are one store of the joined bytes. -/
theorem writeAt_zero_writeAt (dst a b : List UInt8) {off : Nat} (h : off = a.length) :
    writeAt (writeAt dst 0 a) off b = writeAt dst 0 (a ++ b) := by
  subst h
  rw [writeAt_zero, writeAt_append, writeAt_zero, List.drop_drop, List.length_append]

/-- The first bytes up to the end of the store. -/
theorem take_writeAt_end (dst src : List UInt8) {off : Nat} (h : off ≤ dst.length) :
    (writeAt dst off src).take (off + src.length) = dst.take off ++ src := by
  have hlen : (dst.take off ++ src).length = off + src.length := by
    simp [List.length_take, h]
  rw [writeAt, ← hlen, List.take_left]

/-! ### Pointer arguments -/

/-- A byte pointer passed together with a length: the null pointer with whatever length the
    caller claims, or as many bytes as the length says. -/
inductive Span where
  | null (length : Nat)
  | bytes (data : List UInt8)
  deriving DecidableEq, Repr

namespace Span

/-- The length argument. -/
def length : Span → Nat
  | null n => n
  | bytes data => data.length

/-- Whether the pointer is null. -/
def isNull : Span → Bool
  | null _ => true
  | bytes _ => false

/-- The bytes that can be read behind the pointer. -/
def data : Span → List UInt8
  | null _ => []
  | bytes data => data

/-- The pointer after stores to the array behind it; a null pointer stays null. -/
def store (output : Span) (stored : List UInt8) : Span :=
  match output with
  | null n => null n
  | bytes _ => bytes stored

@[simp] theorem length_null (n : Nat) : (null n).length = n := rfl
@[simp] theorem length_bytes (bs : List UInt8) : (bytes bs).length = bs.length := rfl
@[simp] theorem isNull_null (n : Nat) : (null n).isNull = true := rfl
@[simp] theorem isNull_bytes (bs : List UInt8) : (bytes bs).isNull = false := rfl
@[simp] theorem data_null (n : Nat) : (null n).data = [] := rfl
@[simp] theorem data_bytes (bs : List UInt8) : (bytes bs).data = bs := rfl
@[simp] theorem store_bytes (bs stored : List UInt8) :
    (bytes bs).store stored = bytes stored := rfl

/-- A span that is not "null with a nonzero length" has as many bytes as its length says. -/
theorem length_data (s : Span) (h : s.isNull = false ∨ s.length = 0) :
    s.data.length = s.length := by
  cases s with
  | null n => simp at h; simp [h]
  | bytes bs => rfl

end Span

/-! ### Little-endian values -/

/-- The value of a byte string, least significant byte first. -/
def leNat : List UInt8 → Nat
  | [] => 0
  | b :: bs => b.toNat + 256 * leNat bs

/-- The `width` low bytes of `n`, least significant byte first. -/
def leBytes : Nat → Nat → List UInt8
  | 0, _ => []
  | width + 1, n => UInt8.ofNat n :: leBytes width (n / 256)

@[simp] theorem length_leBytes (width n : Nat) : (leBytes width n).length = width := by
  induction width generalizing n with
  | zero => rfl
  | succ width ih => simp [leBytes, ih]

/-- Reading back what was written gives the value, cut to the width. -/
theorem leNat_leBytes (width n : Nat) : leNat (leBytes width n) = n % 256 ^ width := by
  induction width generalizing n with
  | zero => simp [leBytes, leNat, Nat.mod_one]
  | succ width ih =>
    have hb : (UInt8.ofNat n).toNat = n % 256 := by simp
    rw [leBytes, leNat, ih, hb, pow_succ', Nat.mod_mul]

/-- Writing back what was read gives the bytes. -/
theorem leBytes_leNat (bs : List UInt8) : leBytes bs.length (leNat bs) = bs := by
  induction bs with
  | nil => rfl
  | cons b bs ih =>
    have hb : b.toNat < 256 := b.toNat_lt
    have hlow : UInt8.ofNat (b.toNat + 256 * leNat bs) = b := by
      apply UInt8.toNat_inj.mp
      simp only [UInt8.toNat_ofNat']
      omega
    have hhigh : (b.toNat + 256 * leNat bs) / 256 = leNat bs := by omega
    rw [List.length_cons, leNat, leBytes, hlow, hhigh, ih]

/-! ### The value of the first bytes, whether or not they are all there -/

section Take

variable (bytes : List UInt8)

theorem leNat_take_one : leNat (bytes.take 1) = (byteAt bytes 0).toNat := by
  match bytes with
  | [] => rfl
  | b0 :: rest => rfl

theorem leNat_take_two :
    leNat (bytes.take 2) = (byteAt bytes 0).toNat + 256 * (byteAt bytes 1).toNat := by
  match bytes with
  | [] => rfl
  | [b0] => rfl
  | b0 :: b1 :: rest => rfl

theorem leNat_take_four :
    leNat (bytes.take 4) = (byteAt bytes 0).toNat + 256 * (byteAt bytes 1).toNat +
      65536 * (byteAt bytes 2).toNat + 16777216 * (byteAt bytes 3).toNat := by
  have hsplit : leNat (bytes.take 4) =
      leNat (bytes.take 2) + 65536 * leNat ((bytes.drop 2).take 2) := by
    match bytes with
    | [] => rfl
    | [b0] => rfl
    | [b0, b1] => rfl
    | [b0, b1, b2] => simp [leNat]; omega
    | b0 :: b1 :: b2 :: b3 :: rest => simp [leNat]; omega
  simp only [hsplit, leNat_take_two, byteAt_drop, Nat.add_zero, Nat.reduceAdd]
  omega

end Take

end Bytes
