import Mathlib.Data.Nat.Size
import Mathlib.Algebra.Field.ZMod
import Mathlib.RingTheory.AdjoinRoot
import Mathlib.Tactic.LinearCombination

namespace ShiftRegister

open Polynomial
open scoped BigOperators

/-!
# Division registers over `GF(2)`

A register of `w` bits that is shifted left and, when a one falls out, is combined with a fixed
word of taps divides by the polynomial `X ^ w + taps`.

* `bitPoly` reads a number as a polynomial over `ZMod 2`; exclusive or is addition and a left
  shift is a multiplication by a power of `X`;
* `residue` is the value of a register modulo the generator; a shift of the register multiplies
  it by the root (`residue_advance`), the register is determined by it (`residue_inj`), and it
  holds the remainder of every polynomial with that residue (`bitPoly_eq_modByMonic`);
* `not_dvd_burst`, `not_dvd_window`, `not_dvd_pair`, `not_dvd_of_odd` are the error patterns that
  the generator does not divide: a burst no longer than the register, as a number or as single
  bits, two single bits closer than the period, and an odd number of single bits.
-/

/-! ### Numbers as polynomials -/

/-- The polynomial whose coefficients are the binary digits of `n`. -/
noncomputable def bitPoly (n : ℕ) : (ZMod 2)[X] :=
  ∑ i ∈ Finset.range n.size, if n.testBit i then X ^ i else 0

theorem coeff_ite_X_pow (c : Bool) (j i : ℕ) :
    (if c then (X : (ZMod 2)[X]) ^ j else 0).coeff i = if i = j ∧ c then 1 else 0 := by
  cases c with
  | true => simp [coeff_X_pow]
  | false => simp

theorem coeff_bitPoly (n i : ℕ) : (bitPoly n).coeff i = if n.testBit i then 1 else 0 := by
  unfold bitPoly
  rw [finsetSum_coeff, Finset.sum_congr rfl fun j _ => coeff_ite_X_pow (n.testBit j) j i]
  simp only [ite_and]
  rw [Finset.sum_ite_eq]
  split
  · rfl
  · -- past the highest digit both sides vanish
    rename_i hi
    have hbig : n < 2 ^ i := Nat.size_le.mp (by simpa using hi)
    rw [Nat.testBit_lt_two_pow hbig]
    rfl

/-- A polynomial with the digits of `n` as coefficients is `bitPoly n`. -/
theorem eq_bitPoly {p : (ZMod 2)[X]} {n : ℕ}
    (h : ∀ i, p.coeff i = if n.testBit i then 1 else 0) : p = bitPoly n := by
  ext i
  rw [h, coeff_bitPoly]

@[simp] theorem bitPoly_zero : bitPoly 0 = 0 := rfl

theorem bitPoly_inj {a b : ℕ} : bitPoly a = bitPoly b ↔ a = b := by
  constructor
  · intro h
    apply Nat.eq_of_testBit_eq
    intro i
    have hcoeff := congrArg (fun p => p.coeff i) h
    simp only [coeff_bitPoly] at hcoeff
    cases ha : a.testBit i <;> cases hb : b.testBit i <;> simp [ha, hb] at hcoeff ⊢
  · rintro rfl
    rfl

/-- Exclusive or is addition. -/
theorem bitPoly_xor (a b : ℕ) : bitPoly (a ^^^ b) = bitPoly a + bitPoly b := by
  symm
  apply eq_bitPoly
  intro i
  rw [coeff_add, coeff_bitPoly, coeff_bitPoly, Nat.testBit_xor]
  cases a.testBit i <;> cases b.testBit i <;> decide

/-- A left shift is a multiplication by a power of `X`. -/
theorem bitPoly_shiftLeft (a k : ℕ) : bitPoly (a <<< k) = bitPoly a * X ^ k := by
  symm
  apply eq_bitPoly
  intro i
  rw [coeff_mul_X_pow', coeff_bitPoly, Nat.testBit_shiftLeft]
  by_cases hi : k ≤ i <;> simp [hi]

@[simp] theorem bitPoly_one : bitPoly 1 = 1 := by
  symm
  apply eq_bitPoly
  intro i
  rw [coeff_one]
  cases i with
  | zero => simp
  | succ i => simp [Nat.testBit_succ]

theorem bitPoly_two_pow (k : ℕ) : bitPoly (2 ^ k) = X ^ k := by
  rw [← Nat.one_shiftLeft, bitPoly_shiftLeft, bitPoly_one, one_mul]

/-- Cutting off the highest digit. -/
theorem bitPoly_mod {a k : ℕ} (h : a < 2 ^ (k + 1)) :
    bitPoly (a % 2 ^ k) = bitPoly a + if a.testBit k then X ^ k else 0 := by
  symm
  apply eq_bitPoly
  intro i
  rw [coeff_add, coeff_bitPoly, coeff_ite_X_pow, Nat.testBit_mod_two_pow]
  rcases Nat.lt_trichotomy i k with hi | rfl | hi
  · simp [hi, Nat.ne_of_lt hi]
  · -- the digit itself is there twice
    cases a.testBit i <;> simp
    decide
  · have hzero : a.testBit i = false :=
      Nat.testBit_lt_two_pow (h.trans_le (Nat.pow_le_pow_right two_pos hi))
    simp [hzero, Nat.ne_of_gt hi]

/-- Digits behind each other. -/
theorem bitPoly_add_mul {low k : ℕ} (high : ℕ) (h : low < 2 ^ k) :
    bitPoly (low + high * 2 ^ k) = bitPoly low + bitPoly high * X ^ k := by
  have hdisjoint : low + high * 2 ^ k = high <<< k ^^^ low := by
    apply Nat.eq_of_testBit_eq
    intro i
    rw [Nat.add_comm, Nat.mul_comm, Nat.testBit_two_pow_mul_add _ h, Nat.testBit_xor,
      Nat.testBit_shiftLeft]
    by_cases hi : i < k
    · simp [hi, not_le.mpr hi]
    · have hzero : low.testBit i = false :=
        Nat.testBit_lt_two_pow (h.trans_le (Nat.pow_le_pow_right two_pos (not_lt.mp hi)))
      simp [hi, hzero, not_lt.mp hi]
  rw [hdisjoint, bitPoly_xor, bitPoly_shiftLeft, add_comm]

/-- A number of `w` binary digits is a polynomial of degree below `w`. -/
theorem degree_bitPoly_lt {n w : ℕ} (h : n < 2 ^ w) : (bitPoly n).degree < w := by
  rw [degree_lt_iff_coeff_zero]
  intro i hi
  rw [coeff_bitPoly, Nat.testBit_lt_two_pow (h.trans_le (Nat.pow_le_pow_right two_pos hi))]
  rfl

/-! ### The register -/

variable {w : ℕ}

/-- The polynomial that a register of width `w` with these taps divides by. -/
noncomputable def generator (taps : BitVec w) : (ZMod 2)[X] := X ^ w + bitPoly taps.toNat

/-- One shift of the register. -/
def advance (taps r : BitVec w) : BitVec w := if r.msb then r <<< 1 ^^^ taps else r <<< 1

/-- The value of a register modulo the generator. -/
noncomputable def residue (taps r : BitVec w) : AdjoinRoot (generator taps) :=
  AdjoinRoot.mk _ (bitPoly r.toNat)

section Register

variable (taps : BitVec w)

theorem generator_monic : (generator taps).Monic :=
  monic_X_pow_add (degree_bitPoly_lt taps.isLt)

theorem degree_generator : (generator taps).degree = w := by
  unfold generator
  rw [degree_add_eq_left_of_degree_lt]
  · exact degree_X_pow w
  · rw [degree_X_pow]
    exact degree_bitPoly_lt taps.isLt

/-- In characteristic two every sum with itself vanishes. -/
theorem add_self (a : AdjoinRoot (generator taps)) : a + a = 0 := by
  obtain ⟨p, rfl⟩ := AdjoinRoot.mk_surjective a
  rw [← map_add, CharTwo.add_self_eq_zero, map_zero]

/-- The root satisfies the generator. -/
theorem root_pow_width : AdjoinRoot.root (generator taps) ^ w = residue taps taps := by
  have hzero : AdjoinRoot.mk (generator taps) (X ^ w + bitPoly taps.toNat) = 0 :=
    AdjoinRoot.mk_self
  rw [map_add, map_pow, AdjoinRoot.mk_X] at hzero
  unfold residue
  linear_combination hzero - add_self taps (AdjoinRoot.mk _ (bitPoly taps.toNat))

theorem residue_zero : residue taps 0#w = 0 := by
  unfold residue
  rw [BitVec.toNat_zero, bitPoly_zero, map_zero]

/-- Exclusive or of registers is addition. -/
theorem residue_xor (a b : BitVec w) :
    residue taps (a ^^^ b) = residue taps a + residue taps b := by
  unfold residue
  rw [BitVec.toNat_xor, bitPoly_xor, map_add]

/-- **The register is determined by its residue.** -/
theorem residue_inj {a b : BitVec w} : residue taps a = residue taps b ↔ a = b := by
  constructor
  · intro h
    unfold residue at h
    rw [AdjoinRoot.mk_eq_mk] at h
    -- the difference has a degree below the generator's, so it is zero
    have hdegree : (bitPoly a.toNat - bitPoly b.toNat).degree < (generator taps).degree := by
      rw [degree_generator]
      exact (degree_sub_le _ _).trans_lt
        (max_lt (degree_bitPoly_lt a.isLt) (degree_bitPoly_lt b.isLt))
    have hzero : bitPoly a.toNat - bitPoly b.toNat = 0 := by
      by_contra hne
      exact (generator_monic taps).not_dvd_of_degree_lt hne hdegree h
    apply BitVec.eq_of_toNat_eq
    exact bitPoly_inj.mp (sub_eq_zero.mp hzero)
  · rintro rfl
    rfl

/-- **The register holds the remainder** of every polynomial in its class. -/
theorem bitPoly_eq_modByMonic {r : BitVec w} {p : (ZMod 2)[X]}
    (h : residue taps r = AdjoinRoot.mk _ p) : bitPoly r.toNat = p %ₘ generator taps := by
  have hmonic := generator_monic taps
  -- a register is its own remainder
  have hself : bitPoly r.toNat %ₘ generator taps = bitPoly r.toNat := by
    rw [modByMonic_eq_self_iff hmonic, degree_generator]
    exact degree_bitPoly_lt r.isLt
  unfold residue at h
  rw [AdjoinRoot.mk_eq_mk] at h
  rw [← hself]
  exact modByMonic_eq_of_dvd_sub hmonic h

/-- **A shift of the register multiplies by the root.** -/
theorem residue_advance (r : BitVec w) :
    residue taps (advance taps r) = residue taps r * AdjoinRoot.root (generator taps) := by
  have hshift : residue taps (r <<< 1) = residue taps r * AdjoinRoot.root (generator taps) +
      if r.msb then residue taps taps else 0 := by
    have hbound : r.toNat <<< 1 < 2 ^ (w + 1) := by
      have := r.isLt
      rw [Nat.shiftLeft_eq, pow_succ]
      omega
    have hmsb : (r.toNat <<< 1).testBit w = r.msb := by
      rw [BitVec.msb_eq_getLsbD_last, Nat.testBit_shiftLeft, BitVec.testBit_toNat]
      rcases Nat.eq_zero_or_pos w with rfl | hw
      · simp
      · simp [Nat.succ_le_of_lt hw]
    unfold residue
    rw [BitVec.toNat_shiftLeft, bitPoly_mod hbound, bitPoly_shiftLeft, hmsb, map_add, map_mul,
      pow_one, AdjoinRoot.mk_X]
    congr 1
    split
    · rw [map_pow, AdjoinRoot.mk_X, root_pow_width]
      rfl
    · exact map_zero _
  unfold advance
  split
  · rename_i hone
    rw [residue_xor, hshift, if_pos hone, add_assoc, add_self, add_zero]
  · rename_i hone
    rw [hshift, if_neg hone, add_zero]

/-- `k` shifts. -/
theorem residue_iterate (k : ℕ) (r : BitVec w) :
    residue taps ((advance taps)^[k] r) =
      residue taps r * AdjoinRoot.root (generator taps) ^ k := by
  induction k generalizing r with
  | zero => rw [pow_zero, mul_one]; rfl
  | succ k ih => rw [Function.iterate_succ_apply, ih, residue_advance, pow_succ', mul_assoc]

end Register

/-! ### The period -/

/-- Whether the register stays away from one for the next `n` shifts. -/
def awayFromOne (taps : BitVec w) : ℕ → BitVec w → Bool
  | 0, _ => true
  | n + 1, r =>
    if advance taps r = 1#w then false else awayFromOne taps n (advance taps r)

theorem iterate_ne_one {taps : BitVec w} {n : ℕ} {r : BitVec w} (h : awayFromOne taps n r = true)
    {d : ℕ} (hpos : 0 < d) (hd : d ≤ n) : (advance taps)^[d] r ≠ 1#w := by
  induction n generalizing r d with
  | zero => omega
  | succ n ih =>
    unfold awayFromOne at h
    split at h
    · cases h
    · rename_i hne
      cases d with
      | zero => omega
      | succ d =>
        rw [Function.iterate_succ_apply]
        rcases Nat.eq_zero_or_pos d with rfl | hd'
        · exact hne
        · exact ih h hd' (by omega)

/-! ### Errors that the generator does not divide -/

section Errors

variable {taps : BitVec w}

/-- A generator with a constant term shares no factor with `X`. -/
theorem isCoprime_generator_X (h : (generator taps).coeff 0 = 1) :
    IsCoprime (generator taps) X := by
  refine ⟨1, -divX (generator taps), ?_⟩
  have hsplit := divX_mul_X_add (generator taps)
  rw [h, map_one] at hsplit
  linear_combination -hsplit

/-- **A burst** no longer than the register, anywhere. -/
theorem not_dvd_burst (h : (generator taps).coeff 0 = 1) {n : ℕ} (hn : n < 2 ^ w) (hne : n ≠ 0)
    (k : ℕ) : ¬ generator taps ∣ bitPoly n * X ^ k := by
  intro hdvd
  have hburst : generator taps ∣ bitPoly n :=
    ((isCoprime_generator_X h).pow_right).dvd_of_dvd_mul_right hdvd
  refine (generator_monic taps).not_dvd_of_degree_lt ?_ ?_ hburst
  · rw [← bitPoly_zero, ne_eq, bitPoly_inj]
    exact hne
  · rw [degree_generator]
    exact degree_bitPoly_lt hn

/-- A sum of different powers has each of them. -/
theorem coeff_sum_X_pow {exponents : List ℕ} (hnodup : exponents.Nodup) (i : ℕ) :
    ((exponents.map fun e => (X : (ZMod 2)[X]) ^ e).sum).coeff i =
      if i ∈ exponents then 1 else 0 := by
  induction exponents with
  | nil => simp
  | cons e exponents ih =>
    obtain ⟨he, hnodup⟩ := List.nodup_cons.mp hnodup
    rw [List.map_cons, List.sum_cons, coeff_add, ih hnodup, coeff_X_pow]
    by_cases hi : i = e
    · subst hi
      rw [if_pos rfl, if_neg he, add_zero, if_pos List.mem_cons_self]
    · rw [if_neg hi, zero_add]
      simp only [List.mem_cons, hi, false_or]

/-- **Bits within a window** no longer than the register. -/
theorem not_dvd_window (h : (generator taps).coeff 0 = 1) {exponents : List ℕ}
    (hnodup : exponents.Nodup) (hne : exponents ≠ []) {k : ℕ}
    (hwindow : ∀ e ∈ exponents, k ≤ e ∧ e < k + w) :
    ¬ generator taps ∣ (exponents.map fun e => (X : (ZMod 2)[X]) ^ e).sum := by
  intro hdvd
  -- moved down to the constant term, the sum has a smaller degree than the generator
  have hshift : (exponents.map fun e => (X : (ZMod 2)[X]) ^ e).sum =
      ((exponents.map (· - k)).map fun e => (X : (ZMod 2)[X]) ^ e).sum * X ^ k := by
    clear hdvd hne hnodup
    induction exponents with
    | nil => simp
    | cons e exponents ih =>
      have he := hwindow e List.mem_cons_self
      simp only [List.map_cons, List.sum_cons, add_mul, ← pow_add, Nat.sub_add_cancel he.1]
      rw [ih fun e he => hwindow e (List.mem_cons_of_mem _ he)]
  have hlow : (exponents.map (· - k)).Nodup := by
    refine hnodup.map_on ?_
    intro a ha b hb heq
    have := hwindow a ha
    have := hwindow b hb
    omega
  rw [hshift] at hdvd
  have hdvd' := ((isCoprime_generator_X h).pow_right).dvd_of_dvd_mul_right hdvd
  obtain ⟨e, he⟩ := List.exists_mem_of_ne_nil _ hne
  refine (generator_monic taps).not_dvd_of_degree_lt ?_ ?_ hdvd'
  · intro hzero
    have hone := coeff_sum_X_pow hlow (e - k)
    rw [hzero, coeff_zero, if_pos (List.mem_map_of_mem he)] at hone
    exact zero_ne_one hone
  · rw [degree_generator, degree_lt_iff_coeff_zero]
    intro i hi
    rw [coeff_sum_X_pow hlow, if_neg]
    intro hmem
    obtain ⟨e, he, rfl⟩ := List.mem_map.mp hmem
    have := hwindow e he
    omega

/-- **An odd number of bits**, if the generator has the root one. -/
theorem not_dvd_of_odd (h : (generator taps).eval 1 = 0) {exponents : List ℕ}
    (hodd : Odd exponents.length) :
    ¬ generator taps ∣ (exponents.map fun e => (X : (ZMod 2)[X]) ^ e).sum := by
  rintro ⟨q, hq⟩
  have heval : ((exponents.map fun e => (X : (ZMod 2)[X]) ^ e).sum).eval 1 =
      (exponents.length : ZMod 2) := by
    clear hq hodd
    induction exponents with
    | nil => simp
    | cons e exponents ih => simp [ih, add_comm]
  rw [hq, eval_mul, h, zero_mul] at heval
  obtain ⟨m, hm⟩ := hodd
  rw [hm, Nat.cast_add, Nat.cast_mul, Nat.cast_ofNat, Nat.cast_one] at heval
  have htwo : (2 : ZMod 2) = 0 := rfl
  rw [htwo, zero_mul, zero_add] at heval
  exact zero_ne_one heval

/-- **Two bits** that are closer than the register's way back to one. -/
theorem not_dvd_pair (hw : 0 < w) (h : (generator taps).coeff 0 = 1) {period : ℕ}
    (hperiod : ∀ d, 0 < d → d < period → (advance taps)^[d] 1#w ≠ 1#w) {i j : ℕ} (hij : i < j)
    (hj : j < i + period) : ¬ generator taps ∣ X ^ i + X ^ j := by
  intro hdvd
  have hfactor : (X : (ZMod 2)[X]) ^ i + X ^ j = (1 + X ^ (j - i)) * X ^ i := by
    rw [add_mul, one_mul, ← pow_add, Nat.sub_add_cancel hij.le]
  rw [hfactor] at hdvd
  have hback : generator taps ∣ 1 + X ^ (j - i) :=
    ((isCoprime_generator_X h).pow_right).dvd_of_dvd_mul_right hdvd
  -- so the register returns to one after `j - i` shifts
  have hone : residue taps 1#w = 1 := by
    unfold residue
    rw [BitVec.toNat_ofNat, Nat.one_mod_two_pow hw, bitPoly_one, map_one]
  refine hperiod (j - i) (by omega) (by omega) ((residue_inj taps).mp ?_)
  rw [residue_iterate, hone, one_mul, ← AdjoinRoot.mk_X, ← map_pow, ← map_one (AdjoinRoot.mk _),
    AdjoinRoot.mk_eq_mk]
  rw [CharTwo.sub_eq_add, add_comm]
  exact hback

/-- **One, two or three bits** closer than the register's way back to one. -/
theorem not_dvd_few (hw : 0 < w) (h : (generator taps).coeff 0 = 1)
    (heval : (generator taps).eval 1 = 0) {period : ℕ}
    (hperiod : ∀ d, 0 < d → d < period → (advance taps)^[d] 1#w ≠ 1#w) {exponents : List ℕ}
    (hnodup : exponents.Nodup) (hne : exponents ≠ []) (hfew : exponents.length ≤ 3)
    (hlt : ∀ e ∈ exponents, e < period) :
    ¬ generator taps ∣ (exponents.map fun e => (X : (ZMod 2)[X]) ^ e).sum := by
  match exponents, hne with
  | [_], _ => exact not_dvd_of_odd heval ⟨0, rfl⟩
  | [i, j], _ =>
    have hi := hlt i (by simp)
    have hj := hlt j (by simp)
    have hij : i ≠ j := by simpa using hnodup
    simp only [List.map_cons, List.map_nil, List.sum_cons, List.sum_nil, add_zero]
    rcases Nat.lt_or_gt_of_ne hij with hlt | hlt
    · exact not_dvd_pair hw h hperiod hlt (by omega)
    · rw [add_comm]
      exact not_dvd_pair hw h hperiod hlt (by omega)
  | [_, _, _], _ => exact not_dvd_of_odd heval ⟨1, rfl⟩
  | _ :: _ :: _ :: _ :: rest, _ =>
    simp only [List.length_cons] at hfew
    omega

end Errors

end ShiftRegister
