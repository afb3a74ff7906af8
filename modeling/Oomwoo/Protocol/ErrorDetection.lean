import Oomwoo.Protocol.Checksum

namespace Oomwoo

open Bytes ShiftRegister Polynomial

/-!
# Which damage the frame check detects

A damaged frame of the same length is accepted only if the generator divides the damage, read as
a polynomial (`checksumHolds_add_iff`).  That rules out one, two or three flipped bits anywhere
in the frame (`few_bits_detected`), since the largest frame is shorter than the register's
period, and every change of two neighbouring bytes but one: the trailer is low byte first, so the
last payload byte and the first trailer byte are not neighbours in the polynomial
(`adjacent_bytes_iff`).
-/

/-! ### The generator -/

theorem coeff_zero_generator : (generator crcTaps).coeff 0 = 1 := by
  rw [generator_crcTaps]
  simp [coeff_X_pow, coeff_one]

/-- The generator has an even number of terms. -/
theorem eval_one_generator : (generator crcTaps).eval 1 = 0 := by
  rw [generator_crcTaps]
  simp only [eval_add, eval_pow, eval_X, eval_one, one_pow]
  decide

/-- The register does not come back to one within the bits of the largest frame. -/
theorem crc_period {d : ℕ} (hpos : 0 < d) (hd : d < 4192) :
    (advance crcTaps)^[d] 1#16 ≠ 1#16 := by
  have haway : awayFromOne crcTaps 4191 1#16 = true := by decide +kernel
  exact iterate_ne_one haway hpos (by omega)

/-! ### Accepted strings -/

section Accepted

variable {V : WireVersion} {data : List UInt8} {frame prior : DecodedFrame}

theorem decodeFrame_ok_fst :
    (decodeFrame V (.bytes data) (some prior)).1 = .ok ↔
      ∃ frame, parseFrame V data = .ok frame := by
  constructor
  · intro h
    obtain ⟨frame, hframe⟩ :
        ∃ frame, (decodeFrame V (.bytes data) (some prior)).2 = some frame := by
      simp only [decodeFrame]
      cases parseFrame V data <;> exact ⟨_, rfl⟩
    exact ⟨frame, (decodeFrame_ok_iff V data prior frame).mp (Prod.ext h hframe)⟩
  · rintro ⟨frame, h⟩
    rw [(decodeFrame_ok_iff V data prior frame).mpr h]

theorem checksumHolds_of_parseFrame (h : parseFrame V data = .ok frame) : ChecksumHolds data :=
  ((parseFrame_ok_iff V data frame).mp h).2.2.2.2.2.2.1

theorem length_of_parseFrame (h : parseFrame V data = .ok frame) :
    12 ≤ data.length ∧ data.length ≤ 524 := by
  obtain ⟨hshort, _, _, _, hlarge, hexpected, _⟩ := (parseFrame_ok_iff V data frame).mp h
  omega

end Accepted

/-! ### Single bits -/

/-- Bit `p % 8` of byte `p / 8` flipped. -/
def flipBit (data : List UInt8) (p : ℕ) : List UInt8 :=
  changeByte data (p / 8) (1 <<< UInt8.ofNat (p % 8))

/-- The bits at the given positions flipped. -/
def flipBits (data : List UInt8) (positions : List ℕ) : List UInt8 := positions.foldl flipBit data

/-- The power of `X` that belongs to a bit of a frame. -/
def wireExponent (length p : ℕ) : ℕ := 8 * wireRank length (p / 8) + p % 8

@[simp] theorem length_flipBits (data : List UInt8) (positions : List ℕ) :
    (flipBits data positions).length = data.length := by
  induction positions generalizing data with
  | nil => rfl
  | cons p positions ih =>
    unfold flipBits at ih ⊢
    rw [List.foldl_cons, ih, flipBit, length_changeByte]

theorem wirePoly_flipBit {data : List UInt8} {p : ℕ} (hp : p < 8 * data.length)
    (hlen : 2 ≤ data.length) :
    wirePoly (flipBit data p) = wirePoly data + X ^ wireExponent data.length p := by
  have hbit : ∀ k < 8, ((1 : UInt8) <<< UInt8.ofNat k).toNat = 2 ^ k := by decide
  unfold flipBit wireExponent
  rw [wirePoly_changeByte (by omega) hlen, hbit _ (Nat.mod_lt _ (by norm_num)), bitPoly_two_pow,
    ← pow_add, Nat.add_comm (p % 8)]

/-- **Flipped bits are the sum of their powers of `X`.** -/
theorem wirePoly_flipBits {data : List UInt8} {positions : List ℕ}
    (hp : ∀ p ∈ positions, p < 8 * data.length) (hlen : 2 ≤ data.length) :
    wirePoly (flipBits data positions) =
      wirePoly data +
        ((positions.map (wireExponent data.length)).map fun e => (X : (ZMod 2)[X]) ^ e).sum := by
  induction positions generalizing data with
  | nil => simp [flipBits]
  | cons p positions ih =>
    have hlength : (flipBit data p).length = data.length := length_changeByte _ _ _
    have hrest := @ih (flipBit data p)
      (fun q hq => by rw [hlength]; exact hp q (List.mem_cons_of_mem _ hq)) (by rwa [hlength])
    rw [hlength, wirePoly_flipBit (hp p List.mem_cons_self) hlen] at hrest
    show wirePoly (flipBits (flipBit data p) positions) = _
    rw [hrest, List.map_cons, List.map_cons, List.sum_cons, add_assoc]

theorem wireRank_lt {length i : ℕ} (hi : i < length) (hlen : 2 ≤ length) :
    wireRank length i < length := by
  unfold wireRank
  split <;> omega

/-- Different bits of a frame have different powers. -/
theorem wireExponent_inj {length p q : ℕ} (hp : p < 8 * length) (hq : q < 8 * length)
    (h : wireExponent length p = wireExponent length q) : p = q := by
  unfold wireExponent wireRank at h
  split at h <;> split at h <;> omega

/-- **Up to three flipped bits are detected**, wherever they are in a frame. -/
theorem few_bits_detected (V : WireVersion) (messageType : UInt16) (payload : Span)
    (sequence : UInt16) (flags : UInt8) (data : List UInt8)
    (h : EncodesTo V messageType payload sequence flags data) (positions : List ℕ)
    (hdistinct : positions.Nodup) (hinside : ∀ p ∈ positions, p < 8 * data.length)
    (hsome : 1 ≤ positions.length) (hfew : positions.length ≤ 3) (prior : DecodedFrame) :
    (decodeFrame V (.bytes (flipBits data positions)) (some prior)).1 ≠ .ok := by
  have hsent := h.accepted
  obtain ⟨hshort, hlong⟩ := length_of_parseFrame hsent
  intro hok
  obtain ⟨frame, hframe⟩ := decodeFrame_ok_fst.mp hok
  -- both checksums hold, so the generator divides the flipped bits
  have hdvd := (checksumHolds_add_iff (length_flipBits data positions)
    (checksumHolds_of_parseFrame hsent) (wirePoly_flipBits hinside (by omega))).mp
      (checksumHolds_of_parseFrame hframe)
  refine not_dvd_few (by norm_num) coeff_zero_generator eval_one_generator
    (fun d hpos hd => crc_period hpos hd) ?_ ?_ ?_ ?_ hdvd
  · refine hdistinct.map_on ?_
    intro p hp q hq heq
    exact wireExponent_inj (hinside p hp) (hinside q hq) heq
  · rw [ne_eq, List.map_eq_nil_iff]
    rintro rfl
    simp at hsome
  · rwa [List.length_map]
  · intro e he
    obtain ⟨p, hp, rfl⟩ := List.mem_map.mp he
    have hbyte : p / 8 < data.length := by
      have := hinside p hp
      omega
    have hrank := wireRank_lt hbyte (by omega)
    unfold wireExponent
    omega

/-- Three flipped bits of an identify request: magic, length and trailer. -/
theorem few_bits_detected_request :
    (decodeFrame wireVersion1 (.bytes (flipBits (frameBytes wireVersion1 4 [] 7 0) [0, 70, 95]))
      (some .zero)).1 ≠ .ok :=
  few_bits_detected wireVersion1 4 (.bytes []) 7 0 _
    (encodesTo_iff.mpr ⟨.inl rfl, Nat.zero_le _, rfl⟩) [0, 70, 95] (by decide)
    (by rw [length_frameBytes]; decide) (by decide) (by decide) .zero

/-! ### Two neighbouring bytes -/

/-- A replaced byte is a changed byte. -/
theorem set_eq_changeByte (data : List UInt8) (i : ℕ) (a : UInt8) :
    data.set i a = changeByte data i (byteAt data i ^^^ a) := by
  unfold changeByte
  rw [← UInt8.xor_assoc, UInt8.xor_self, UInt8.zero_xor]

/-- What two neighbouring bytes add. -/
noncomputable def pairError (length i : ℕ) (a b : UInt8) : (ZMod 2)[X] :=
  bitPoly a.toNat * X ^ (8 * wireRank length i) +
    bitPoly b.toNat * X ^ (8 * wireRank length (i + 1))

theorem wirePoly_set_pair {data : List UInt8} {i : ℕ} (hi : i + 1 < data.length) (a b : UInt8) :
    wirePoly ((data.set i a).set (i + 1) b) =
      wirePoly data +
        pairError data.length i (byteAt data i ^^^ a) (byteAt data (i + 1) ^^^ b) := by
  have hsecond : byteAt (changeByte data i (byteAt data i ^^^ a)) (i + 1) =
      byteAt data (i + 1) := by
    rw [byteAt_changeByte (by omega), if_neg (by omega)]
  have hlength : (changeByte data i (byteAt data i ^^^ a)).length = data.length :=
    length_changeByte _ _ _
  rw [set_eq_changeByte, set_eq_changeByte, hsecond,
    wirePoly_changeByte (by omega) (by omega), wirePoly_changeByte (by omega) (by omega), hlength,
    pairError, add_assoc]

/-- Two bytes as one number. -/
theorem bitPoly_pair (high low : UInt8) :
    bitPoly (low.toNat + high.toNat * 2 ^ 8) = bitPoly low.toNat + bitPoly high.toNat * X ^ 8 :=
  bitPoly_add_mul _ low.toNat_lt

/-- Two bytes that are neighbours in the polynomial are a burst of sixteen bits. -/
theorem not_dvd_neighbours {high low : UInt8} (hne : ¬ (high = 0 ∧ low = 0)) (k : ℕ) :
    ¬ generator crcTaps ∣
      bitPoly high.toNat * X ^ (8 * (k + 1)) + bitPoly low.toNat * X ^ (8 * k) := by
  have hhigh := high.toNat_lt
  have hlow := low.toNat_lt
  have hburst : bitPoly high.toNat * X ^ (8 * (k + 1)) + bitPoly low.toNat * X ^ (8 * k) =
      bitPoly (low.toNat + high.toNat * 2 ^ 8) * X ^ (8 * k) := by
    rw [bitPoly_pair, show 8 * (k + 1) = 8 + 8 * k by ring, pow_add]
    ring
  rw [hburst]
  refine not_dvd_burst coeff_zero_generator (by omega) ?_ _
  intro hzero
  apply hne
  constructor
  · apply UInt8.toNat_inj.mp
    show high.toNat = 0
    omega
  · apply UInt8.toNat_inj.mp
    show low.toNat = 0
    omega

/-- From a clear register, one byte leaves a clear high half for two bytes only. -/
theorem crcByte_zero_eq_iff (a b : UInt8) :
    crcByte 0 a = b.toUInt16 ↔ a = 0 ∧ b = 0 ∨ a = 0x89 ∧ b = 0xa1 := by
  have hhalf : ∀ n < 256, (crcByte 0 (UInt8.ofNat n)).toNat < 256 → n = 0 ∨ n = 0x89 := by
    decide +kernel
  have hwide : ∀ c : UInt8, c.toUInt16 = b.toUInt16 ↔ b = c := by
    intro c
    rw [← UInt16.toNat_inj, UInt8.toNat_toUInt16, UInt8.toNat_toUInt16, UInt8.toNat_inj, eq_comm]
  constructor
  · intro h
    have hlow : (crcByte 0 a).toNat < 256 := by
      rw [h, UInt8.toNat_toUInt16]
      exact b.toNat_lt
    rw [← UInt8.ofNat_toNat (x := a)] at hlow
    rcases hhalf a.toNat a.toNat_lt hlow with ha | ha
    · obtain rfl : a = 0 := UInt8.toNat_inj.mp ha
      exact .inl ⟨rfl, (hwide 0).mp (by rw [← h]; rfl)⟩
    · obtain rfl : a = 0x89 := UInt8.toNat_inj.mp ha
      exact .inr ⟨rfl, (hwide 0xa1).mp (by rw [← h]; decide)⟩
  · rintro (⟨rfl, rfl⟩ | ⟨rfl, rfl⟩)
    · rfl
    · decide

/-- The last covered byte and the first trailer byte are two bytes apart in the polynomial. -/
theorem dvd_across_trailer_iff (a b : UInt8) :
    generator crcTaps ∣ bitPoly a.toNat * X ^ 16 + bitPoly b.toNat ↔
      a = 0 ∧ b = 0 ∨ a = 0x89 ∧ b = 0xa1 := by
  have hregister : crcResidue (crcByte 0 a) =
      AdjoinRoot.mk (generator crcTaps) (bitPoly a.toNat * X ^ 16) := by
    have hclear : crcResidue 0 = 0 := residue_zero crcTaps
    rw [crcResidue_crcByte, hclear, zero_mul, zero_add, map_mul, map_pow, AdjoinRoot.mk_X]
    rfl
  have hbyte : crcResidue b.toUInt16 = AdjoinRoot.mk (generator crcTaps) (bitPoly b.toNat) := rfl
  rw [← crcByte_zero_eq_iff, ← crcResidue_inj, hregister, hbyte, AdjoinRoot.mk_eq_mk,
    CharTwo.sub_eq_add]

/-- **The one change of two neighbours that keeps the trailer right.** -/
theorem dvd_pairError_iff {length i : ℕ} (hi : i + 1 < length) {a b : UInt8}
    (hne : ¬ (a = 0 ∧ b = 0)) :
    generator crcTaps ∣ pairError length i a b ↔ i + 3 = length ∧ a = 0x89 ∧ b = 0xa1 := by
  unfold pairError wireRank
  rcases (by omega : i + 3 < length ∨ i + 3 = length ∨ i + 2 = length) with h | h | h
  · -- both bytes are covered, high byte first
    rw [if_pos (by omega), if_pos (by omega),
      show length - 1 - i = length - 1 - (i + 1) + 1 by omega]
    have hno := not_dvd_neighbours hne (length - 1 - (i + 1))
    exact ⟨fun hdvd => absurd hdvd hno, fun hcase => by omega⟩
  · -- the last covered byte and the low byte of the trailer
    rw [if_pos (by omega), if_neg (by omega), show length - 1 - i = 2 by omega,
      show i + 1 + 2 - length = 0 by omega, mul_zero, pow_zero, mul_one,
      dvd_across_trailer_iff]
    simp [h, hne]
  · -- the trailer, low byte first
    rw [if_neg (by omega), if_neg (by omega), show i + 2 - length = 0 by omega,
      show i + 1 + 2 - length = 0 + 1 by omega, add_comm]
    have hswap : ¬ (b = 0 ∧ a = 0) := fun hcase => hne hcase.symm
    have hno := not_dvd_neighbours hswap 0
    exact ⟨fun hdvd => absurd hdvd hno, fun hcase => by omega⟩

/-- Whether a string is accepted depends on its header, its length and its trailer. -/
theorem exists_parseFrame {V : WireVersion} {data changed : List UInt8} {frame : DecodedFrame}
    (h : parseFrame V data = .ok frame) (hlen : changed.length = data.length)
    (hheader : ∀ j < 10, byteAt changed j = byteAt data j) (hchecksum : ChecksumHolds changed) :
    ∃ frame, parseFrame V changed = .ok frame := by
  obtain ⟨hshort, h0, h1, h2, hlarge, hexpected, _⟩ := (parseFrame_ok_iff V data frame).mp h
  have hdeclared : readU16Le (changed.drop 8) = readU16Le (data.drop 8) := by
    unfold readU16Le
    simp only [byteAt_drop]
    rw [hheader _ (by omega), hheader _ (by omega)]
  refine ⟨_, (parseFrame_ok_iff V changed _).mpr ⟨by omega, ?_, ?_, ?_, ?_, ?_, hchecksum, rfl⟩⟩
  · rw [hheader 0 (by omega), h0]
  · rw [hheader 1 (by omega), h1]
  · rw [hheader 2 (by omega), h2]
  · rw [hdeclared]
    exact hlarge
  · rw [hdeclared, hlen]
    exact hexpected

/-- A change determines the new byte. -/
theorem xor_eq_iff {x y c : UInt8} : x ^^^ y = c ↔ y = x ^^^ c := by
  constructor
  · rintro rfl
    rw [← UInt8.xor_assoc, UInt8.xor_self, UInt8.zero_xor]
  · rintro rfl
    rw [← UInt8.xor_assoc, UInt8.xor_self, UInt8.zero_xor]

theorem length_set_pair (data : List UInt8) (i : ℕ) (a b : UInt8) :
    ((data.set i a).set (i + 1) b).length = data.length := by
  rw [List.length_set, List.length_set]

/-- **When the checksum survives** a replaced pair. -/
theorem checksumHolds_set_pair_iff {data : List UInt8} (h : ChecksumHolds data) {i : ℕ}
    (hi : i + 1 < data.length) {a b : UInt8}
    (hne : ¬ (a = byteAt data i ∧ b = byteAt data (i + 1))) :
    ChecksumHolds ((data.set i a).set (i + 1) b) ↔
      i + 3 = data.length ∧ a = byteAt data i ^^^ 0x89 ∧ b = byteAt data (i + 1) ^^^ 0xa1 := by
  have hchanged : ¬ (byteAt data i ^^^ a = 0 ∧ byteAt data (i + 1) ^^^ b = 0) := by
    rwa [xor_eq_iff, xor_eq_iff, UInt8.xor_zero, UInt8.xor_zero]
  rw [checksumHolds_add_iff (length_set_pair data i a b) h (wirePoly_set_pair hi a b),
    dvd_pairError_iff hi hchanged, xor_eq_iff, xor_eq_iff]

/-- A pair replaced inside a string leaves the bytes before it. -/
theorem byteAt_set_pair {data : List UInt8} {i j : ℕ} (hj : j < i) (a b : UInt8) :
    byteAt ((data.set i a).set (i + 1) b) j = byteAt data j := by
  unfold byteAt
  rw [List.getD_eq_getElem?_getD, List.getElem?_set_ne (by omega), List.getElem?_set_ne (by omega),
    List.getD_eq_getElem?_getD]

/-- An accepted string without a payload has a zero length field. -/
theorem byteAt_length_high {V : WireVersion} {data : List UInt8} {frame : DecodedFrame}
    (h : parseFrame V data = .ok frame) (hlen : data.length = 12) : byteAt data 9 = 0 := by
  obtain ⟨_, _, _, _, _, hexpected, _⟩ := (parseFrame_ok_iff V data frame).mp h
  have hword := readU16Le_toNat (data.drop 8)
  simp only [byteAt_drop, Nat.reduceAdd] at hword
  apply UInt8.toNat_inj.mp
  show (byteAt data 9).toNat = 0
  omega

/-- **Two replaced neighbours are detected, with one exception.** A frame with two neighbouring
    bytes replaced is accepted exactly if these are the last payload byte and the first trailer
    byte, changed by `0x89` and `0xa1`. -/
theorem adjacent_bytes_iff (V : WireVersion) (messageType : UInt16) (payload : Span)
    (sequence : UInt16) (flags : UInt8) (data : List UInt8)
    (h : EncodesTo V messageType payload sequence flags data) (i : ℕ) (hi : i + 1 < data.length)
    (a b : UInt8) (hne : ¬ (a = byteAt data i ∧ b = byteAt data (i + 1))) (prior : DecodedFrame) :
    (decodeFrame V (.bytes ((data.set i a).set (i + 1) b)) (some prior)).1 = .ok ↔
      0 < payload.length ∧ i = 9 + payload.length ∧ a = byteAt data i ^^^ 0x89 ∧
        b = byteAt data (i + 1) ^^^ 0xa1 := by
  have hsent := h.accepted
  have hsize : data.length = 12 + payload.length := by rw [h.length_bytes, h.length_data]
  have hlength := length_set_pair data i a b
  have hchecksum := checksumHolds_set_pair_iff (checksumHolds_of_parseFrame hsent) hi hne
  rw [decodeFrame_ok_fst]
  constructor
  · rintro ⟨frame, hframe⟩
    obtain ⟨hend, ha, hb⟩ := hchecksum.mp (checksumHolds_of_parseFrame hframe)
    refine ⟨?_, by omega, ha, hb⟩
    -- without a payload the changed byte is the high byte of the length
    by_contra hempty
    obtain rfl : i = 9 := by omega
    have hlast : byteAt ((data.set 9 a).set 10 b) 9 = a := by
      rw [set_eq_changeByte, set_eq_changeByte, byteAt_changeByte (by simp; omega),
        if_neg (by omega), byteAt_changeByte (by omega), if_pos rfl]
      exact xor_eq_iff.mpr rfl
    rw [byteAt_length_high hframe (by omega)] at hlast
    rw [← hlast, byteAt_length_high hsent (by omega)] at ha
    revert ha
    decide
  · rintro ⟨hpos, hpair, ha, hb⟩
    exact exists_parseFrame hsent hlength (fun j hj => byteAt_set_pair (by omega) a b)
      (hchecksum.mpr ⟨by omega, ha, hb⟩)

/-- The flags byte and the low sequence byte of an identify request. -/
theorem adjacent_bytes_request :
    (decodeFrame wireVersion1
      (.bytes (((frameBytes wireVersion1 4 [] 7 0).set 3 0x89).set 4 0xa6)) (some .zero)).1 ≠
        .ok := by
  have hencoded : EncodesTo wireVersion1 4 (.bytes []) 7 0 (frameBytes wireVersion1 4 [] 7 0) :=
    encodesTo_iff.mpr ⟨.inl rfl, Nat.zero_le _, rfl⟩
  have hiff := adjacent_bytes_iff wireVersion1 4 (.bytes []) 7 0 _ hencoded 3
    (by rw [length_frameBytes]; decide) 0x89 0xa6 (by decide +kernel) .zero
  rw [ne_eq, hiff]
  exact fun hcase => absurd hcase.1 (Nat.lt_irrefl 0)

/-- **A pair of neighbours that is not detected.** The payload byte of a lidar command is changed
    from `0x37` to `0xbe` and the first trailer byte by `0xa1`; the decoder accepts. -/
theorem adjacent_bytes_accepted :
    let sent := frameBytes wireVersion1 0x0103 [0x37] 7 0
    let damaged := (sent.set 10 0xbe).set 11 (byteAt sent 11 ^^^ 0xa1)
    EncodesTo wireVersion1 0x0103 (.bytes [0x37]) 7 0 sent ∧ damaged ≠ sent ∧
      (decodeFrame wireVersion1 (.bytes damaged) (some .zero)).1 = .ok := by
  refine ⟨encodesTo_iff.mpr ⟨.inl rfl, by decide, rfl⟩, by decide +kernel, by decide +kernel⟩

end Oomwoo
