import Oomwoo.Protocol.Trace

namespace Oomwoo

open Bytes Scanning

/-!
# One pass of the loop refines the scanner

Each exit of `processPass` decodes a stretch of the live bytes the way `frameScanner` does:
`wait_spec` for the exits that wait, `resync_spec` for those that resynchronise, `deliver_spec`
for the delivery, and `processPass_spec` for the pass.  `Decodes` packages what a stretch of
decoding leaves: the run, the segments and the statistics.

The loop stops early in one place: a delivery that leaves a single byte behind does not look at
that byte.  `Quiet` therefore allows one unchecked byte besides an undecided candidate.
-/

/-! ### The statistics of a run -/

/-- What the decoder counts for one piece. -/
def DecoderStats.record (stats : DecoderStats) : ScanEvent → DecoderStats
  | .noise => stats.discard 1
  | .versionError => { stats.discard 1 with versionErrors := stats.versionErrors + 1 }
  | .lengthError => { stats.discard 1 with lengthErrors := stats.lengthErrors + 1 }
  | .crcError => { stats.discard 1 with crcErrors := stats.crcErrors + 1 }
  | .frame _ => { stats with frames := stats.frames + 1 }

/-- What the decoder counts for a run. -/
def DecoderStats.recordAll (stats : DecoderStats) (pieces : List (ScanEvent × List UInt8)) :
    DecoderStats :=
  pieces.foldl (fun stats piece => stats.record piece.1) stats

@[simp] theorem recordAll_nil (stats : DecoderStats) : stats.recordAll [] = stats := rfl

@[simp] theorem recordAll_cons (stats : DecoderStats) (piece : ScanEvent × List UInt8)
    (pieces : List (ScanEvent × List UInt8)) :
    stats.recordAll (piece :: pieces) = (stats.record piece.1).recordAll pieces := rfl

theorem recordAll_append (stats : DecoderStats) (ps qs : List (ScanEvent × List UInt8)) :
    stats.recordAll (ps ++ qs) = (stats.recordAll ps).recordAll qs :=
  List.foldl_append

/-- Discards add up, also across the wrap of the counter. -/
theorem discard_discard (stats : DecoderStats) (a b : Nat) :
    (stats.discard a).discard b = stats.discard (a + b) := by
  simp only [DecoderStats.discard, UInt32.ofNat_add, UInt32.add_assoc]

theorem discard_zero (stats : DecoderStats) : stats.discard 0 = stats := by
  simp [DecoderStats.discard]

/-- A run of noise is one discard of its length. -/
theorem recordAll_noise (stats : DecoderStats) (bytes : List UInt8) :
    stats.recordAll (bytes.map fun b => (ScanEvent.noise, [b])) = stats.discard bytes.length := by
  induction bytes generalizing stats with
  | nil => rw [List.map_nil, recordAll_nil, List.length_nil, discard_zero]
  | cons b bytes ih =>
    rw [List.map_cons, recordAll_cons, ih, DecoderStats.record, discard_discard,
      List.length_cons, Nat.add_comm]

/-- **Counters count.** A counter that each piece raises by one or leaves alone ends at the
    number of pieces that raise it, modulo `2 ^ 32`. -/
theorem recordAll_counter (counter : DecoderStats → UInt32) (counts : ScanEvent → Bool)
    (hrecord : ∀ stats event,
      counter (stats.record event) = counter stats + UInt32.ofNat (counts event).toNat)
    (stats : DecoderStats) (pieces : List (ScanEvent × List UInt8)) :
    counter (stats.recordAll pieces) =
      counter stats + UInt32.ofNat (pieces.countP fun piece => counts piece.1) := by
  induction pieces generalizing stats with
  | nil => simp
  | cons piece pieces ih =>
    rw [recordAll_cons, ih, hrecord, UInt32.add_assoc, ← UInt32.ofNat_add]
    congr 2
    rw [List.countP_cons, Nat.add_comm]
    cases counts piece.1 <;> rfl

section Counters

variable (stats : DecoderStats) (event : ScanEvent)

theorem frames_record : (stats.record event).frames =
    stats.frames + UInt32.ofNat event.isFrame.toNat := by
  cases event <;> first | rfl | exact (UInt32.add_zero _).symm

theorem versionErrors_record : (stats.record event).versionErrors =
    stats.versionErrors + UInt32.ofNat (event == .versionError).toNat := by
  cases event <;> first | rfl | exact (UInt32.add_zero _).symm

theorem lengthErrors_record : (stats.record event).lengthErrors =
    stats.lengthErrors + UInt32.ofNat (event == .lengthError).toNat := by
  cases event <;> first | rfl | exact (UInt32.add_zero _).symm

theorem crcErrors_record : (stats.record event).crcErrors =
    stats.crcErrors + UInt32.ofNat (event == .crcError).toNat := by
  cases event <;> first | rfl | exact (UInt32.add_zero _).symm

end Counters

/-! ### What a stretch of decoding leaves -/

/-- A piece of a run as a segment of the trace. -/
def Segment.ofPiece : ScanEvent × List UInt8 → Segment
  | (.frame frame, bytes) => .delivered bytes frame
  | (_, bytes) => .discarded bytes

theorem ofPiece_of_not_frame {event : ScanEvent} (bytes : List UInt8)
    (h : event.isFrame = false) : Segment.ofPiece (event, bytes) = .discarded bytes := by
  cases event with
  | frame frame => cases h
  | _ => rfl

/-- What the loop may leave live: an undecided candidate or a single byte. -/
def Quiet (V : WireVersion) (w : List UInt8) : Prop := scanStep V w = none ∨ w.length = 1

theorem Quiet.length_lt {V : WireVersion} {w : List UInt8} (h : Quiet V w) :
    w.length < maxFrameSize := by
  rcases h with h | h
  · exact length_lt_of_scanStep_none h
  · rw [h]
    decide

/-- What is left without the magic at its start is at most one byte. -/
theorem Quiet.length_le_one {V : WireVersion} {w : List UInt8} (h : Quiet V w)
    (hmagic : ¬ StartsMagic w) : w.length ≤ 1 := by
  rcases h with h | h
  · by_contra hmany
    have hnoise : NotMagic w := by
      apply notMagic_of_not_anchored
      rintro (hs | hs | hs)
      · simp [hs] at hmany
      · simp [hs] at hmany
      · exact hmagic hs
    rw [scanStep_noise hnoise] at h
    cases h
  · exact h.le

/-- What is left with the magic at its start is undecided. -/
theorem Quiet.scanStep_eq_none {V : WireVersion} {w : List UInt8} (h : Quiet V w)
    (hmagic : StartsMagic w) : scanStep V w = none := by
  rcases h with h | h
  · exact h
  · have := hmagic.length
    omega

/-- What is left with a whole header is an open candidate. -/
theorem Quiet.candidate {V : WireVersion} {w : List UInt8} (h : Quiet V w)
    (hlen : 10 ≤ w.length) : Candidate V w ∧ w.length < 12 + declaredLength w := by
  -- without the magic at most one byte would be left
  have hmagic : StartsMagic w := by
    by_contra hno
    have := h.length_le_one hno
    omega
  have hnone := h.scanStep_eq_none hmagic
  rcases scan_situations V w with rfl | rfl | hs | ⟨_, hshort⟩ | ⟨hs, h10, hv⟩ |
    ⟨hs, h10, hv, hn⟩ | hs
  · simp at hlen
  · simp at hlen
  · exact absurd hs hmagic.not_notMagic
  · omega
  · rw [scanStep_version hs h10 hv] at hnone; cases hnone
  · rw [scanStep_length hs h10 hv hn] at hnone; cases hnone
  · refine ⟨hs, ?_⟩
    by_contra hclosed
    rw [scanStep_closed hs (by omega)] at hnone
    split at hnone <;> cases hnone

/-- From the unread bytes `w` and the statistics `stats`, the decoder consumed `pieces`, which
    are the segments that left the buffer, and is left with `decoder`. -/
structure Decodes (V : WireVersion) (stats : DecoderStats) (w : List UInt8)
    (decoder : StreamDecoder) (segments : List Segment)
    (pieces : List (ScanEvent × List UInt8)) : Prop where
  sized : decoder.Sized
  run : Run (frameScanner V) w pieces decoder.live
  segments_eq : segments = pieces.map Segment.ofPiece
  stats_eq : decoder.stats = stats.recordAll pieces

namespace Decodes

variable {V : WireVersion} {stats : DecoderStats} {w x : List UInt8}
  {decoder next : StreamDecoder} {segments more : List Segment}
  {pieces rest : List (ScanEvent × List UInt8)}

/-- Decoding nothing. -/
theorem refl (h : decoder.Sized) : Decodes V decoder.stats decoder.live decoder [] [] :=
  ⟨h, .nil _, rfl, rfl⟩

/-- Decoding goes on with new bytes behind what was left. -/
theorem join (h₁ : Decodes V stats w decoder segments pieces)
    (h₂ : Decodes V decoder.stats (decoder.live ++ x) next more rest) :
    Decodes V stats (w ++ x) next (segments ++ more) (pieces ++ rest) where
  sized := h₂.sized
  run := h₁.run.join h₂.run
  segments_eq := by rw [h₁.segments_eq, h₂.segments_eq, List.map_append]
  stats_eq := by rw [h₂.stats_eq, h₁.stats_eq, recordAll_append]

/-- Decoding goes on with what was left. -/
theorem trans (h₁ : Decodes V stats w decoder segments pieces)
    (h₂ : Decodes V decoder.stats decoder.live next more rest) :
    Decodes V stats w next (segments ++ more) (pieces ++ rest) := by
  rw [← List.append_nil w]
  rw [← List.append_nil decoder.live] at h₂
  exact h₁.join h₂

end Decodes

/-! ### One pass -/

/-- What a pass does: it decodes a stretch of the live bytes; if it asks for another pass, it
    has removed something; if it does not, what it leaves is quiet. -/
structure PassSpec (V : WireVersion) (decoder : StreamDecoder) (pass : Pass) : Prop where
  decodes : ∃ pieces,
    Decodes V decoder.stats decoder.live pass.decoder (pass.segments decoder) pieces
  decreases : pass.processing = true → pass.decoder.bufferedBytes < decoder.bufferedBytes
  quiet : pass.processing = false → Quiet V pass.decoder.live

variable {V : WireVersion} {decoder : StreamDecoder}

/-- The exits that wait for more bytes. -/
theorem wait_spec (h : decoder.Sized) (hw : scanStep V decoder.live = none) :
    PassSpec V decoder (.wait decoder) where
  decodes := ⟨[], by simpa [Pass.wait, Pass.segments] using Decodes.refl (V := V) h⟩
  decreases := by simp [Pass.wait]
  quiet := fun _ => .inl hw

/-- Bytes discarded one by one, the first for the reason `event`, the others as noise. -/
theorem decodes_discard (h : decoder.Sized) {event : ScanEvent} {k : Nat} (hk : 1 ≤ k)
    (hle : k ≤ decoder.bufferedBytes) (hstep : scanStep V decoder.live = some (event, 1))
    (hevent : event.isFrame = false)
    (hnoise : ∀ i, 1 ≤ i → i < k → NotMagic (decoder.live.drop i))
    {next : StreamDecoder} (hsized : next.Sized) (hlive : next.live = decoder.live.drop k)
    (hstats : next.stats = (decoder.stats.record event).discard (k - 1)) :
    ∃ pieces, Decodes V decoder.stats decoder.live next
      ((decoder.live.take k).map fun b => .discarded [b]) pieces := by
  have hlen := decoder.length_live h
  have hone : decoder.live.take 1 = [byteAt decoder.live 0] := by
    rw [← List.drop_zero (l := decoder.live), drop_eq_byteAt_cons _ (by omega)]
    rfl
  have hcut : decoder.live.take k =
      byteAt decoder.live 0 :: (decoder.live.drop 1).take (k - 1) := by
    rw [← List.singleton_append, ← hone, ← List.take_add]
    congr 1
    omega
  -- behind the first byte the scanner finds noise up to the cut
  have hrest : Run (frameScanner V) (decoder.live.drop 1)
      (((decoder.live.drop 1).take (k - 1)).map fun b => (ScanEvent.noise, [b]))
      ((decoder.live.drop 1).drop (k - 1)) := by
    refine Run.units (by rw [List.length_drop, hlen]; omega) ?_
    intro i hi
    rw [List.drop_drop]
    exact scanStep_noise (hnoise _ (by omega) (by omega))
  refine ⟨(event, [byteAt decoder.live 0]) ::
    ((decoder.live.drop 1).take (k - 1)).map fun b => (ScanEvent.noise, [b]), hsized, ?_, ?_, ?_⟩
  · rw [hlive, ← hone]
    have hdrop : (decoder.live.drop 1).drop (k - 1) = decoder.live.drop k := by
      rw [List.drop_drop]
      congr 1
      omega
    exact .cons hstep (hdrop ▸ hrest)
  · rw [hcut, List.map_cons, List.map_cons, List.map_map]
    rw [ofPiece_of_not_frame _ hevent]
    rfl
  · rw [hstats, recordAll_cons, recordAll_noise]
    congr 1
    rw [List.length_take, List.length_drop, hlen]
    omega

/-- The exits that resynchronise.  `stats` are the statistics after the counter of the exit. -/
theorem resync_spec (h : decoder.Sized) (hlen : 2 ≤ decoder.bufferedBytes) {event : ScanEvent}
    (hstep : scanStep V decoder.live = some (event, 1)) (hevent : event.isFrame = false)
    {stats : DecoderStats} (hstats : stats.discard 1 = decoder.stats.record event) :
    PassSpec V decoder (.resync { decoder with stats := stats }) := by
  have hmarked : ({ decoder with stats := stats } : StreamDecoder).Sized := ⟨h.size, h.held⟩
  obtain ⟨k, hk, hle, heq, hanchor, hnoise⟩ := resyncAfterError_spec hmarked hlen
  obtain ⟨hsized, hlive, hheld, hnext⟩ := removePrefix_spec hmarked true hk hle
  replace hle : k ≤ decoder.bufferedBytes := hle
  rw [← heq] at hsized hlive hheld hnext
  set next := resyncAfterError { decoder with stats := stats } with hnext_def
  have hpass : Pass.resync { decoder with stats := stats } =
      ⟨next, none, decide (2 ≤ next.bufferedBytes)⟩ := rfl
  have hheld' : next.bufferedBytes = decoder.bufferedBytes - k := hheld
  rw [hpass]
  refine ⟨?_, ?_, ?_⟩
  · have hremoved : decoder.bufferedBytes - next.bufferedBytes = k := by omega
    rw [Pass.segments, hremoved]
    refine decodes_discard h hk hle hstep hevent hnoise hsized hlive ?_
    rw [hnext, if_pos rfl, ← hstats, discard_discard]
    congr 1
    omega
  · intro _
    show next.bufferedBytes < decoder.bufferedBytes
    omega
  · intro hstop
    -- fewer than two bytes are left, and the resync leaves a byte only if it is the `'O'`
    have hfew : next.live.length < 2 := by
      rw [next.length_live hsized]
      simpa using hstop
    rw [← hlive] at hanchor
    rcases hanchor with hs | hs | hs
    · exact .inl (by rw [hs, scanStep_nil])
    · exact .inl (by rw [hs, scanStep_lone])
    · have := hs.length
      omega

/-- The exit that delivers a frame. -/
theorem deliver_spec (h : decoder.Sized) {frame : DecodedFrame} {frameLength : Nat}
    (hstep : scanStep V decoder.live = some (.frame frame, frameLength)) :
    PassSpec V decoder (.deliver decoder frame frameLength) := by
  have hpos := (frameScanner V).step_pos hstep
  have hle := (frameScanner V).step_le hstep
  rw [decoder.length_live h] at hle
  set counted : StreamDecoder := { decoder with stats.frames := decoder.stats.frames + 1 }
    with hcounted
  have hsized' : counted.Sized := ⟨h.size, h.held⟩
  obtain ⟨hsized, hlive, hheld, hnext⟩ := removePrefix_spec hsized' false hpos hle
  set next := removePrefix counted frameLength false with hnext_def
  have hpass : Pass.deliver decoder frame frameLength =
      ⟨next, some frame, decide (2 ≤ next.bufferedBytes)⟩ := rfl
  have hheld' : next.bufferedBytes = decoder.bufferedBytes - frameLength := hheld
  rw [hpass]
  refine ⟨?_, ?_, ?_⟩
  · have hremoved : decoder.bufferedBytes - next.bufferedBytes = frameLength := by omega
    rw [Pass.segments, hremoved]
    refine ⟨[(.frame frame, decoder.live.take frameLength)], hsized, ?_, rfl, hnext⟩
    rw [hlive]
    exact Run.one hstep
  · intro _
    show next.bufferedBytes < decoder.bufferedBytes
    omega
  · intro hstop
    have hfew : next.live.length < 2 := by
      rw [next.length_live hsized]
      simpa using hstop
    -- the loop stops with at most one byte left, which it has not looked at
    by_cases hone : next.live.length = 1
    · exact .inr hone
    · have hnil : next.live = [] := List.length_eq_zero_iff.mp (by omega)
      exact .inl (by rw [hnil, scanStep_nil])

/-- The declared length as the loop reads it. -/
theorem declaredLength_live (h : 10 ≤ decoder.bufferedBytes) :
    (readU16Le (decoder.buffer.drop 8)).toNat = declaredLength decoder.live := by
  rw [← declaredLength, declaredLength_eq, declaredLength_eq,
    StreamDecoder.byteAt_live (by omega), StreamDecoder.byteAt_live (by omega)]

/-- A wrong magic: alone it is dropped, with more bytes the decoder resynchronises. -/
theorem processPass_notMagic (h : decoder.Sized) (hs : NotMagic decoder.live) :
    PassSpec V decoder (processPass V decoder) := by
  have hlen := decoder.length_live h
  have hstep := scanStep_noise (V := V) hs
  by_cases hone : decoder.bufferedBytes = 1
  · have h0 : byteAt decoder.buffer 0 ≠ magic0 := by
      rw [← StreamDecoder.byteAt_live (by omega)]
      rcases hs with ⟨_, h0⟩ | ⟨h2, _⟩
      · exact h0
      · omega
    -- the lone byte goes and nothing is left
    obtain ⟨hsized, hlive, hheld, hstats⟩ := removePrefix_spec h true Nat.one_pos
      (by omega : 1 ≤ decoder.bufferedBytes)
    rw [processPass, if_pos hone, if_pos h0]
    refine ⟨?_, by simp [Pass.wait], fun _ => .inl ?_⟩
    · have hremoved : decoder.bufferedBytes - (decoder.bufferedBytes - 1) = 1 := by omega
      rw [Pass.segments, Pass.wait, hheld, hremoved]
      exact decodes_discard h (by omega) (by omega) hstep rfl (by omega) hsized hlive
        (by rw [hstats, if_pos rfl, discard_zero]; rfl)
    · show scanStep V (removePrefix decoder 1 true).live = none
      rw [hlive, List.drop_eq_nil_of_le (by omega), scanStep_nil]
  · have h2 : 2 ≤ decoder.bufferedBytes := by rcases hs with hs | hs <;> omega
    have hmagic : byteAt decoder.buffer 0 ≠ magic0 ∨ byteAt decoder.buffer 1 ≠ magic1 := by
      rw [← StreamDecoder.byteAt_live (by omega), ← StreamDecoder.byteAt_live (by omega)]
      exact hs.imp And.right And.right
    rw [processPass, if_neg hone, if_neg (by omega), if_pos hmagic]
    exact resync_spec h h2 hstep rfl rfl

section Magic

variable (h : decoder.Sized) (hs : StartsMagic decoder.live)
include h hs

theorem two_le_of_startsMagic : 2 ≤ decoder.bufferedBytes := by
  rw [← decoder.length_live h]
  exact hs.length

/-- The magic in the array is the magic of the live bytes. -/
theorem magic_of_startsMagic :
    ¬ (byteAt decoder.buffer 0 ≠ magic0 ∨ byteAt decoder.buffer 1 ≠ magic1) := by
  have h2 := two_le_of_startsMagic h hs
  rw [← StreamDecoder.byteAt_live (by omega), ← StreamDecoder.byteAt_live (by omega), hs.first,
    hs.second]
  simp

/-- Behind the magic the loop waits for a whole header. -/
theorem processPass_short (hshort : decoder.bufferedBytes < 10) :
    processPass V decoder = .wait decoder := by
  have h2 := two_le_of_startsMagic h hs
  rw [processPass, if_neg (by omega), if_neg (by omega), if_neg (magic_of_startsMagic h hs)]
  exact if_pos hshort

/-- **The pass behind a whole header**, read on the live bytes.  Of the checks of the
    complete-frame decoder only the checksum is new. -/
theorem processPass_header (h10 : 10 ≤ decoder.bufferedBytes) :
    processPass V decoder =
      if byteAt decoder.live 2 ≠ V.byte then
        .resync { decoder with stats.versionErrors := decoder.stats.versionErrors + 1 }
      else if 512 < declaredLength decoder.live then
        .resync { decoder with stats.lengthErrors := decoder.stats.lengthErrors + 1 }
      else if decoder.bufferedBytes < 12 + declaredLength decoder.live then .wait decoder
      else if readU16Le (decoder.live.drop (10 + declaredLength decoder.live)) ≠
          crcBytes (decoder.live.take (10 + declaredLength decoder.live)) then
        .resync { decoder with stats.crcErrors := decoder.stats.crcErrors + 1 }
      else
        .deliver decoder (frameAt decoder.live) (12 + declaredLength decoder.live) := by
  have hlen := decoder.length_live h
  have hsize : headerSize + declaredLength decoder.live + crcSize =
      12 + declaredLength decoder.live := by
    simp only [headerSize, crcSize]
    omega
  rw [processPass, if_neg (by omega), if_neg (by omega), if_neg (magic_of_startsMagic h hs),
    if_neg (by simp only [headerSize]; omega), ← StreamDecoder.byteAt_live (by omega)]
  simp only [declaredLength_live h10, hsize, maxPayloadSize]
  by_cases hv : byteAt decoder.live 2 = V.byte
  swap
  · rw [if_pos hv, if_pos hv]
  by_cases hn : 512 < declaredLength decoder.live
  · simp only [if_pos hn]
  by_cases hopen : decoder.bufferedBytes < 12 + declaredLength decoder.live
  · simp only [if_pos hopen]
  simp only [if_neg hn, if_neg hopen]
  -- the complete-frame decoder repeats the checks above, then the checksum
  have hcandidate : Candidate V decoder.live := ⟨hs, by omega, hv, by omega⟩
  rw [← StreamDecoder.take_live (by omega), decodeFrame,
    parseFrame_of_candidate hcandidate (by omega)]
  by_cases hcrc : readU16Le (decoder.live.drop (10 + declaredLength decoder.live)) ≠
      crcBytes (decoder.live.take (10 + declaredLength decoder.live))
  · rw [if_pos hcrc, if_pos hcrc]
  · rw [if_neg hcrc, if_neg hcrc]

end Magic

/-- A candidate: still open, or complete and then a frame or a wrong checksum. -/
theorem processPass_candidate (h : decoder.Sized) (hs : Candidate V decoder.live) :
    PassSpec V decoder (processPass V decoder) := by
  have hlen := decoder.length_live h
  have h10 := hs.header
  have hn := hs.declared
  rw [processPass_header h hs.magic (by omega), if_neg (not_not.mpr hs.version),
    if_neg (by omega)]
  by_cases hopen : decoder.bufferedBytes < 12 + declaredLength decoder.live
  · rw [if_pos hopen]
    exact wait_spec h (scanStep_open hs (by omega))
  have hclosed := scanStep_closed hs (by omega)
  rw [parseFrame_of_candidate hs (by omega)] at hclosed
  rw [if_neg hopen]
  by_cases hcrc : readU16Le (decoder.live.drop (10 + declaredLength decoder.live)) ≠
      crcBytes (decoder.live.take (10 + declaredLength decoder.live))
  · rw [if_pos hcrc] at hclosed ⊢
    exact resync_spec h (two_le_of_startsMagic h hs.magic) hclosed rfl rfl
  · rw [if_neg hcrc] at hclosed ⊢
    exact deliver_spec h hclosed

/-- **One pass of the loop is a run of the scanner.** -/
theorem processPass_spec (V : WireVersion) (h : decoder.Sized) :
    PassSpec V decoder (processPass V decoder) := by
  have hlen := decoder.length_live h
  rcases scan_situations V decoder.live with hs | hs | hs | ⟨hs, hshort⟩ | ⟨hs, h10, hv⟩ |
    ⟨hs, h10, hv, hn⟩ | hs
  · -- nothing buffered
    have hzero : decoder.bufferedBytes = 0 := by rw [← hlen, hs]; rfl
    rw [processPass, if_neg (by omega), if_pos (by omega)]
    exact wait_spec h (by rw [hs, scanStep_nil])
  · -- a lone first magic byte
    have hone : decoder.bufferedBytes = 1 := by rw [← hlen, hs]; rfl
    have h0 : byteAt decoder.buffer 0 = magic0 := by
      rw [← StreamDecoder.byteAt_live (by omega), hs]
      rfl
    rw [processPass, if_pos hone, if_neg (not_not.mpr h0)]
    exact wait_spec h (by rw [hs, scanStep_lone])
  · exact processPass_notMagic h hs
  · rw [processPass_short h hs (by omega)]
    exact wait_spec h (scanStep_short hs hshort)
  · -- a wrong version
    rw [processPass_header h hs (by omega), if_pos hv]
    exact resync_spec h (two_le_of_startsMagic h hs) (scanStep_version hs h10 hv) rfl rfl
  · -- a declared length beyond the limit
    rw [processPass_header h hs (by omega), if_neg (not_not.mpr hv), if_pos hn]
    exact resync_spec h (two_le_of_startsMagic h hs) (scanStep_length hs h10 hv hn) rfl rfl
  · exact processPass_candidate h hs

theorem processPass_sized (V : WireVersion) (h : decoder.Sized) :
    (processPass V decoder).decoder.Sized := by
  obtain ⟨_, hdecodes⟩ := (processPass_spec V h).decodes
  exact hdecodes.sized

end Oomwoo
