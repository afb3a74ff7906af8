import Mathlib.Order.Bounds.Basic
import Oomwoo.Protocol.FrameScanner
import Oomwoo.Protocol.StreamDecoder

namespace Oomwoo

open Bytes Scanning

/-!
# The live bytes of the decoder

`live` forgets the stale part of the 524-byte array.  Every way bytes leave the buffer is
described on the live bytes: `removePrefix_spec` for the move, `resync_drops_least` for the
resync (it drops exactly the bytes up to the next place where a frame could start), and
`appendByte_spec` for the byte that comes in.
-/

namespace StreamDecoder

/-- The bytes the decoder still looks at. -/
def live (decoder : StreamDecoder) : List UInt8 := decoder.buffer.take decoder.bufferedBytes

/-- The array has its size and the live bytes are inside it. -/
structure Sized (decoder : StreamDecoder) : Prop where
  size : decoder.buffer.length = maxFrameSize
  held : decoder.bufferedBytes ≤ maxFrameSize

variable {decoder : StreamDecoder}

theorem length_live (h : decoder.Sized) : decoder.live.length = decoder.bufferedBytes := by
  have hsize := h.size
  have hheld := h.held
  simp only [live, List.length_take]
  omega

theorem byteAt_live {i : Nat} (hi : i < decoder.bufferedBytes) :
    byteAt decoder.live i = byteAt decoder.buffer i :=
  byteAt_take _ hi

/-- Taking no more than the live bytes from the array takes live bytes. -/
theorem take_live {n : Nat} (hn : n ≤ decoder.bufferedBytes) :
    decoder.live.take n = decoder.buffer.take n := by
  rw [live, List.take_take, Nat.min_eq_left hn]

end StreamDecoder

/-- `stats.discarded_bytes += count` -/
def DecoderStats.discard (stats : DecoderStats) (count : Nat) : DecoderStats :=
  { stats with discardedBytes := stats.discardedBytes + UInt32.ofNat count }

theorem streamDecoderInit_sized : streamDecoderInit.Sized :=
  ⟨by simp [streamDecoderInit], Nat.zero_le _⟩

variable {decoder : StreamDecoder}

/-! ### Removing a prefix -/

/-- Removing `count` of the live bytes. -/
theorem removePrefix_spec (h : decoder.Sized) {count : Nat} (discarded : Bool)
    (hpos : 0 < count) (hle : count ≤ decoder.bufferedBytes) :
    (removePrefix decoder count discarded).Sized ∧
      (removePrefix decoder count discarded).live = decoder.live.drop count ∧
      (removePrefix decoder count discarded).bufferedBytes = decoder.bufferedBytes - count ∧
      (removePrefix decoder count discarded).stats =
        if discarded then decoder.stats.discard count else decoder.stats := by
  have hsize := h.size
  have hheld := h.held
  have hguard : ¬ (count = 0 ∨ decoder.bufferedBytes < count) := by omega
  -- the moved bytes are the live ones behind the prefix
  have hmoved : ((decoder.buffer.drop count).take (decoder.bufferedBytes - count)).length =
      decoder.bufferedBytes - count := by
    simp only [List.length_take, List.length_drop]
    omega
  have hlive : decoder.live.drop count =
      (decoder.buffer.drop count).take (decoder.bufferedBytes - count) := by
    rw [StreamDecoder.live, List.drop_take]
  rw [removePrefix, if_neg hguard]
  refine ⟨⟨?_, ?_⟩, ?_, rfl, rfl⟩
  · show (if decoder.bufferedBytes - count ≠ 0 then _ else decoder.buffer).length = maxFrameSize
    split
    · rw [length_writeAt _ _ (by rw [hmoved]; omega), hsize]
    · exact hsize
  · show decoder.bufferedBytes - count ≤ maxFrameSize
    omega
  · rw [hlive]
    show (if decoder.bufferedBytes - count ≠ 0 then _ else decoder.buffer).take
      (decoder.bufferedBytes - count) = _
    split
    · rw [writeAt_zero]
      exact List.take_left' hmoved
    · rename_i hzero
      have hnil : decoder.bufferedBytes - count = 0 := by omega
      rw [hnil, List.take_zero, List.take_zero]

/-! ### Resynchronising -/

/-- A place where the scan may stop: nothing left, a lone `'O'`, or the magic. -/
def Anchored (w : List UInt8) : Prop := w = [] ∨ w = [magic0] ∨ StartsMagic w

theorem notMagic_of_not_anchored {w : List UInt8} (h : ¬ Anchored w) : NotMagic w := by
  rcases scan_situations wireVersion1 w with hs | hs | hs | ⟨hs, _⟩ | ⟨hs, _⟩ | ⟨hs, _⟩ | hs
  · exact absurd (.inl hs) h
  · exact absurd (.inr (.inl hs)) h
  · exact hs
  · exact absurd (.inr (.inr hs)) h
  · exact absurd (.inr (.inr hs)) h
  · exact absurd (.inr (.inr hs)) h
  · exact absurd (.inr (.inr hs.magic)) h

theorem NotMagic.not_anchored {w : List UInt8} (h : NotMagic w) : ¬ Anchored w := by
  rintro (rfl | rfl | hs)
  · simp [NotMagic] at h
  · simp [NotMagic, byteAt] at h
  · exact hs.not_notMagic h

/-- The magic at an offset inside the live bytes, as the loop of the resync tests it. -/
theorem startsMagic_drop_iff (h : decoder.Sized) {i : Nat} (hi : i + 1 < decoder.bufferedBytes) :
    StartsMagic (decoder.live.drop i) ↔
      (byteAt decoder.buffer i == magic0 && byteAt decoder.buffer (i + 1) == magic1) = true := by
  have hlen := decoder.length_live h
  have h0 : byteAt (decoder.live.drop i) 0 = byteAt decoder.buffer i := by
    rw [byteAt_drop, Nat.add_zero, StreamDecoder.byteAt_live (by omega)]
  have h1 : byteAt (decoder.live.drop i) 1 = byteAt decoder.buffer (i + 1) := by
    rw [byteAt_drop, StreamDecoder.byteAt_live hi]
  simp only [Bool.and_eq_true, beq_iff_eq]
  constructor
  · intro hs
    exact ⟨by rw [← h0, hs.first], by rw [← h1, hs.second]⟩
  · rintro ⟨hb0, hb1⟩
    exact ⟨by simp only [List.length_drop]; omega, by rw [h0, hb0], by rw [h1, hb1]⟩

/-- Where the loop's test fails, no frame can start. -/
theorem notMagic_drop (h : decoder.Sized) {i : Nat} (hi : i + 1 < decoder.bufferedBytes)
    (htest : ¬ (byteAt decoder.buffer i == magic0 &&
      byteAt decoder.buffer (i + 1) == magic1) = true) : NotMagic (decoder.live.drop i) := by
  have hlen : 2 ≤ (decoder.live.drop i).length := by
    simp only [List.length_drop, decoder.length_live h]
    omega
  apply notMagic_of_not_anchored
  rintro (hs | hs | hs)
  · simp [hs] at hlen
  · simp [hs] at hlen
  · exact htest ((startsMagic_drop_iff h hi).mp hs)

/-- The last live byte, alone. -/
theorem drop_last_live (h : decoder.Sized) (hne : 1 ≤ decoder.bufferedBytes) :
    decoder.live.drop (decoder.bufferedBytes - 1) =
      [byteAt decoder.buffer (decoder.bufferedBytes - 1)] := by
  have hlen := decoder.length_live h
  rw [drop_eq_byteAt_cons _ (by omega), StreamDecoder.byteAt_live (by omega),
    List.drop_eq_nil_of_le (by omega)]

/-- What the resync removes: the first `k ≥ 1` bytes such that what remains is empty, a lone `'O'`
    or starts with the magic; at every earlier cut the magic is wrong. -/
theorem resyncAfterError_spec (h : decoder.Sized) (hlen : 2 ≤ decoder.bufferedBytes) :
    ∃ k, 1 ≤ k ∧ k ≤ decoder.bufferedBytes ∧
      resyncAfterError decoder = removePrefix decoder k true ∧
      Anchored (decoder.live.drop k) ∧ ∀ i, 1 ≤ i → i < k → NotMagic (decoder.live.drop i) := by
  cases hfind : findMagic decoder with
  | some index =>
    obtain ⟨htest, hmem, hbefore⟩ := List.find?_range'_eq_some.mp hfind
    rw [List.mem_range'_1] at hmem
    refine ⟨index, by omega, by omega, by rw [resyncAfterError, hfind], ?_, ?_⟩
    · exact .inr (.inr ((startsMagic_drop_iff h (by omega)).mpr htest))
    · intro i hi hik
      refine notMagic_drop h (by omega) ?_
      rw [Bool.not_eq_true]
      exact (Bool.not_eq_true' _).mp (hbefore i hi hik)
  | none =>
    -- the loop found nothing, so only the last byte can still start a frame
    have hbefore : ∀ i, 1 ≤ i → i + 1 < decoder.bufferedBytes →
        NotMagic (decoder.live.drop i) := by
      intro i hi hik
      have hnone := List.find?_range'_eq_none.mp hfind i hi (by omega)
      refine notMagic_drop h hik ?_
      rw [Bool.not_eq_true]
      exact (Bool.not_eq_true' _).mp hnone
    have hlast := drop_last_live h (by omega)
    by_cases hO : byteAt decoder.buffer (decoder.bufferedBytes - 1) = magic0
    · refine ⟨decoder.bufferedBytes - 1, by omega, by omega, ?_, ?_, ?_⟩
      · rw [resyncAfterError, hfind]
        exact if_pos ⟨by omega, hO⟩
      · rw [hlast, hO]
        exact .inr (.inl rfl)
      · exact fun i hi hik => hbefore i hi (by omega)
    · refine ⟨decoder.bufferedBytes, by omega, by omega, ?_, ?_, ?_⟩
      · rw [resyncAfterError, hfind]
        exact if_neg (by simp [hO])
      · rw [List.drop_eq_nil_of_le (by rw [decoder.length_live h])]
        exact .inl rfl
      · intro i hi hik
        by_cases hend : i + 1 < decoder.bufferedBytes
        · exact hbefore i hi hend
        · have hi' : i = decoder.bufferedBytes - 1 := by omega
          rw [hi', hlast]
          exact .inl ⟨by simp, hO⟩

/-- Where the resync stops a frame can start. -/
theorem anchored_resyncAfterError (h : decoder.Sized) (hlen : 2 ≤ decoder.bufferedBytes) :
    Anchored (resyncAfterError decoder).live := by
  obtain ⟨k, hk, hle, heq, hanchor, _⟩ := resyncAfterError_spec h hlen
  rw [heq, (removePrefix_spec h true hk hle).2.1]
  exact hanchor

/-- **Resynchronisation drops the least possible**, whatever the live bytes are: the shortest
    non-empty prefix behind which a frame can start.  What remains is unchanged and in order, and
    only the discard counter grows, by the bytes dropped. -/
theorem resync_drops_least (decoder : StreamDecoder) (h : decoder.Sized)
    (hlen : 2 ≤ decoder.bufferedBytes) :
    ∃ k, IsLeast {k | 1 ≤ k ∧ Anchored (decoder.live.drop k)} k ∧
      k ≤ decoder.bufferedBytes ∧
      (resyncAfterError decoder).live = decoder.live.drop k ∧
      (resyncAfterError decoder).bufferedBytes = decoder.bufferedBytes - k ∧
      (resyncAfterError decoder).stats =
        { decoder.stats with
          discardedBytes := decoder.stats.discardedBytes + UInt32.ofNat k } := by
  obtain ⟨k, hk, hle, heq, hanchor, hbefore⟩ := resyncAfterError_spec h hlen
  obtain ⟨_, hlive, hbytes, hstats⟩ := removePrefix_spec h true hk hle
  refine ⟨k, ⟨⟨hk, hanchor⟩, ?_⟩, hle, ?_, ?_, ?_⟩
  · -- a shorter cut would leave a wrong magic in front
    rintro i ⟨hi, hanchored⟩
    by_contra hik
    exact (hbefore i hi (not_le.mp hik)).not_anchored hanchored
  · rw [heq, hlive]
  · rw [heq, hbytes]
  · rw [heq, hstats]
    rfl

/-- On `'O'`, `'O'`, `'O'`, `'W'`, and a lone `'O'` behind them that the loop does not reach. -/
theorem resync_drops_least_repeated :
    let decoder : StreamDecoder :=
      ⟨[0x4f, 0x4f, 0x4f, 0x57, 0x4f] ++ List.replicate 519 0, 5, .zero⟩
    ∃ k, IsLeast {k | 1 ≤ k ∧ Anchored (decoder.live.drop k)} k ∧
      k ≤ decoder.bufferedBytes ∧
      (resyncAfterError decoder).live = decoder.live.drop k ∧
      (resyncAfterError decoder).bufferedBytes = decoder.bufferedBytes - k ∧
      (resyncAfterError decoder).stats =
        { decoder.stats with
          discardedBytes := decoder.stats.discardedBytes + UInt32.ofNat k } :=
  resync_drops_least _ ⟨by rw [List.length_append, List.length_replicate]; rfl, by decide⟩
    (by decide)

/-! ### Appending a byte -/

/-- With room in the buffer the byte goes behind the live bytes. -/
theorem appendByte_spec (h : decoder.Sized) (hroom : decoder.bufferedBytes < maxFrameSize)
    (byte : UInt8) :
    (appendByte decoder byte).Sized ∧ (appendByte decoder byte).live = decoder.live ++ [byte] ∧
      (appendByte decoder byte).bufferedBytes = decoder.bufferedBytes + 1 ∧
      (appendByte decoder byte).stats = decoder.stats := by
  have hsize := h.size
  have hfull : ¬ decoder.bufferedBytes = maxFrameSize := by omega
  rw [appendByte, if_neg hfull]
  refine ⟨⟨?_, ?_⟩, ?_, rfl, rfl⟩
  · show (writeAt decoder.buffer decoder.bufferedBytes [byte]).length = maxFrameSize
    rw [length_writeAt _ _ (by simp only [List.length_singleton]; omega), hsize]
  · show decoder.bufferedBytes + 1 ≤ maxFrameSize
    omega
  · show (writeAt decoder.buffer decoder.bufferedBytes [byte]).take (decoder.bufferedBytes + 1) =
      decoder.buffer.take decoder.bufferedBytes ++ [byte]
    exact take_writeAt_end decoder.buffer [byte] (by omega)

/-! ### Resetting -/

theorem bufferedBytes_resetIncomplete (decoder : StreamDecoder) :
    (streamDecoderResetIncomplete decoder).bufferedBytes = 0 := by
  unfold streamDecoderResetIncomplete
  split
  · assumption
  · rfl

theorem buffer_resetIncomplete (decoder : StreamDecoder) :
    (streamDecoderResetIncomplete decoder).buffer = decoder.buffer := by
  unfold streamDecoderResetIncomplete
  split <;> rfl

/-- A reset leaves nothing live. -/
theorem streamDecoderResetIncomplete_spec (h : decoder.Sized) :
    (streamDecoderResetIncomplete decoder).Sized ∧
      (streamDecoderResetIncomplete decoder).live = [] := by
  have hempty := bufferedBytes_resetIncomplete decoder
  refine ⟨⟨?_, ?_⟩, ?_⟩
  · rw [buffer_resetIncomplete, h.size]
  · rw [hempty]
    exact Nat.zero_le _
  · rw [StreamDecoder.live, hempty, List.take_zero]

end Oomwoo
