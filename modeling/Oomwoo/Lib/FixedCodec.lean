import Oomwoo.Lib.Bytes
import Mathlib.Logic.Equiv.Basic

namespace Bytes

/-!
# Fixed-width codecs

A `Codec α` writes every value of `α` as a byte string of one width and reads it back from the
front of any string.  Its two laws make the writer a bijection onto the strings of that width:
what was written is read back (`decode_encode`), and what was read, if there were enough bytes,
is written back (`encode_decode`).  Codecs are put together field by field with `pair` and
carried along a bijection with `equiv`, so a record layout needs no proof of its own.
-/

structure Codec (α : Type) where
  width : Nat
  encode : α → List UInt8
  decode : List UInt8 → α
  length_encode : ∀ a, (encode a).length = width
  decode_encode : ∀ a x, decode (encode a ++ x) = a
  encode_decode : ∀ bs, width ≤ bs.length → encode (decode bs) = bs.take width

namespace Codec

variable {α β : Type}

/-- Reading back from exactly the written bytes. -/
theorem decode_encode_self (c : Codec α) (a : α) : c.decode (c.encode a) = a := by
  simpa using c.decode_encode a []

/-- Writing back a string of the right width. -/
theorem encode_decode_self (c : Codec α) {bs : List UInt8} (h : bs.length = c.width) :
    c.encode (c.decode bs) = bs := by
  rw [c.encode_decode bs h.ge, ← h, List.take_length]

/-- No field at all. -/
def unit : Codec Unit where
  width := 0
  encode _ := []
  decode _ := ()
  length_encode _ := rfl
  decode_encode _ _ := rfl
  encode_decode _ _ := rfl

/-- One byte. -/
def byte : Codec UInt8 where
  width := 1
  encode b := [b]
  decode bs := byteAt bs 0
  length_encode _ := rfl
  decode_encode _ _ := rfl
  encode_decode bs h := by
    match bs, h with
    | b :: rest, _ => rfl

/-- One field and, right behind it, another. -/
def pair (c : Codec α) (d : Codec β) : Codec (α × β) where
  width := c.width + d.width
  encode v := c.encode v.1 ++ d.encode v.2
  decode bs := (c.decode bs, d.decode (bs.drop c.width))
  length_encode v := by rw [List.length_append, c.length_encode, d.length_encode]
  decode_encode v x := by
    have hdrop : (c.encode v.1 ++ (d.encode v.2 ++ x)).drop c.width = d.encode v.2 ++ x :=
      List.drop_left' (c.length_encode v.1)
    rw [List.append_assoc, c.decode_encode, hdrop, d.decode_encode]
  encode_decode bs h := by
    rw [c.encode_decode bs (by omega), d.encode_decode (bs.drop c.width) (by simp; omega),
      ← List.take_add]

/-- The same bytes for another type with the same values. -/
def equiv (c : Codec α) (e : β ≃ α) : Codec β where
  width := c.width
  encode b := c.encode (e b)
  decode bs := e.symm (c.decode bs)
  length_encode b := c.length_encode (e b)
  decode_encode b x := by rw [c.decode_encode, e.symm_apply_apply]
  encode_decode bs h := by rw [e.apply_symm_apply, c.encode_decode bs h]

end Codec

end Bytes
