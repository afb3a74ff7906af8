import Oomwoo.Protocol.Deliveries

namespace Oomwoo

open Bytes Scanning

/-!
# What the decoder recovers

Two consequences of the refinement for streams without a reset: no valid frame is lost once 524
bytes from its start have been fed (`valid_frame_not_lost`), and a stream of encoded frames with
noise between them comes out as exactly these frames (`clean_stream_round_trip`).
-/

/-- **No valid frame is lost, with bounded delay.** -/
theorem valid_frame_not_lost (V : WireVersion) (ops : List StreamOp)
    (hops : StreamOp.resetIncomplete ∉ ops) :
    let B := fedBytes ops
    let delivered := deliveries 0 (runSegments V ops)
    delivered.map Delivery.frame = (decoderRun V ops).context ∧
      (∀ p frame, ValidFrameAt V B p frame → p + 524 ≤ B.length →
        delivered.filter (fun d => d.start = p) = [⟨p, 12 + declaredLength (B.drop p), frame⟩] ∨
          ∃ d ∈ delivered, d.start < p ∧ p < d.start + d.length) ∧
      ∀ p ∈ discardedPositions 0 (runSegments V ops), ∀ x frame,
        ¬ ValidFrameAt V (B ++ x) p frame := by
  obtain ⟨now, hbytes, hacc, hsegments⟩ := run_of_no_reset V hops
  have hrun := now.runAt
  rw [hbytes] at hrun
  refine ⟨map_frame_runSegments V ops, ?_, ?_⟩
  · intro p frame hvalid hfed
    -- what is still undecided is shorter than the largest frame
    have hleft := now.quiet.length_lt
    simp only [maxFrameSize, headerSize, maxPayloadSize, crcSize] at hleft
    rw [hsegments]
    apply (delivered_or_inside hrun hvalid (Nat.zero_le p) (by omega)).imp_left
    intro hmem
    exact filter_start_eq (deliveries_pairwise _ _)
      (fun d hd => length_pos_of_mem_deliveries hrun hd) hmem
  · intro p hp x frame hvalid
    rw [hsegments] at hp
    obtain ⟨event, hevent, hstep⟩ := scanStep_of_mem_discardedPositions hrun hp
    have hle := (frameScanner V).step_le hstep
    rw [List.length_drop] at hle
    -- the decision to discard stands, whatever is fed later
    have hlater := scanStep_append x hstep
    rw [← List.drop_append_of_le_length (by omega), hvalid.scanStep] at hlater
    obtain ⟨rfl, _⟩ := Prod.mk.inj (Option.some.inj hlater)
    cases hevent

/-- An identify request followed by 512 other bytes is delivered once. -/
theorem valid_frame_not_lost_request :
    (deliveries 0 (runSegments wireVersion1
      [.feed (.bytes (frameBytes wireVersion1 4 [] 7 0 ++ List.replicate 512 0))])).filter
        (fun d => d.start = 0) = [⟨0, 12, frameOf wireVersion1 4 [] 7 0⟩] := by
  have hempty : ([] : List UInt8).length ≤ 512 := Nat.zero_le _
  have hno : StreamOp.resetIncomplete ∉
      [StreamOp.feed (.bytes (frameBytes wireVersion1 4 [] 7 0 ++ List.replicate 512 0))] :=
    fun h => by cases List.mem_singleton.mp h
  have hfed : fedBytes [.feed (.bytes (frameBytes wireVersion1 4 [] 7 0 ++
      List.replicate 512 0))] = frameBytes wireVersion1 4 [] 7 0 ++ List.replicate 512 0 :=
    List.append_nil _
  have hfound := (valid_frame_not_lost wireVersion1 _ hno).2.1 0 (frameOf wireVersion1 4 [] 7 0)
  rw [hfed] at hfound
  have hlen : 0 + 524 ≤
      (frameBytes wireVersion1 4 [] 7 0 ++ List.replicate 512 (0 : UInt8)).length := by
    rw [List.length_append, length_frameBytes, List.length_replicate]
    decide
  rcases hfound (validFrameAt_frameBytes wireVersion1 4 7 0 hempty [] _) hlen with
    h | ⟨d, _, hbefore, _⟩
  · rw [h, List.drop_zero, declaredLength_frameBytes wireVersion1 4 7 0 hempty]
    rfl
  · omega

/-! ### Clean streams -/

/-- A string without the magic in front of one that starts with it is noise. -/
theorem run_noise (V : WireVersion) {noise rest : List UInt8}
    (h : ¬ [magic0, magic1] <:+: noise) (hrest : StartsMagic rest) :
    Run (frameScanner V) (noise ++ rest) (noise.map fun b => (.noise, [b])) rest := by
  have hlen := hrest.length
  have hunits := Run.units (S := frameScanner V) (w := noise ++ rest) (n := noise.length)
    (e := .noise) (by simp) fun i hi => ?_
  · rwa [List.take_left, List.drop_left] at hunits
  refine scanStep_noise ?_
  by_cases h0 : byteAt ((noise ++ rest).drop i) 0 = magic0
  swap
  · exact .inl ⟨by simp; omega, h0⟩
  refine .inr ⟨by simp; omega, ?_⟩
  intro h1
  rw [byteAt_drop] at h0 h1
  by_cases hend : i + 1 < noise.length
  · -- both bytes are in the noise
    rw [byteAt_append_left _ _ (by omega)] at h0 h1
    refine h ⟨noise.take i, noise.drop (i + 2), ?_⟩
    rw [← h0, ← h1, List.append_assoc, Nat.add_zero]
    conv_rhs => rw [← List.take_append_drop i noise]
    rw [drop_eq_byteAt_cons noise hi, drop_eq_byteAt_cons noise hend]
    rfl
  · -- the noise ends in `'O'` and what follows starts with `'O'` again
    have hi' : i + 1 = noise.length := by omega
    rw [hi', byteAt_append_right _ _ (Nat.le_refl _), Nat.sub_self, hrest.first] at h1
    exact absurd h1 (by decide)

/-- A stretch of noise and the encoder's output for a frame. -/
structure NoisyFrame (V : WireVersion) where
  noise : List UInt8
  messageType : UInt16
  payload : Span
  sequence : UInt16
  flags : UInt8
  bytes : List UInt8
  no_magic : ¬ [magic0, magic1] <:+: noise
  encoded : EncodesTo V messageType payload sequence flags bytes

namespace NoisyFrame

variable {V : WireVersion}

/-- The frame that was encoded. -/
def frame (item : NoisyFrame V) : DecodedFrame :=
  frameOf V item.messageType item.payload.data item.sequence item.flags

/-- What the scanner consumes for the item. -/
def pieces (item : NoisyFrame V) : List (ScanEvent × List UInt8) :=
  item.noise.map (fun b => (.noise, [b])) ++ [(.frame item.frame, item.bytes)]

/-- The frames of the items are what a run over them delivers. -/
theorem filterMap_pieces (items : List (NoisyFrame V)) :
    ((items.flatMap NoisyFrame.pieces).filterMap fun piece => piece.1.frame?) =
      items.map NoisyFrame.frame := by
  have hnoise : ∀ noise : List UInt8, (noise.map fun b => (ScanEvent.noise, [b])).filterMap
      (fun piece => piece.1.frame?) = [] := by
    intro noise
    rw [List.filterMap_map]
    exact List.filterMap_eq_nil_iff.mpr fun _ _ => rfl
  induction items with
  | nil => rfl
  | cons item items ih =>
    rw [List.flatMap_cons, List.filterMap_append, ih, pieces, List.filterMap_append, hnoise]
    rfl

/-- What the decoder counts for the items. -/
theorem recordAll_pieces (items : List (NoisyFrame V)) (stats : DecoderStats) :
    stats.recordAll (items.flatMap NoisyFrame.pieces) =
      { stats with
        frames := stats.frames + UInt32.ofNat items.length
        discardedBytes := stats.discardedBytes +
          UInt32.ofNat (items.map fun item => item.noise.length).sum } := by
  induction items generalizing stats with
  | nil => simp
  | cons item items ih =>
    -- an item counts its noise as discarded and one frame
    have hitem : stats.recordAll item.pieces =
        { stats with
          frames := stats.frames + 1
          discardedBytes := stats.discardedBytes + UInt32.ofNat item.noise.length } := by
      rw [pieces, recordAll_append, recordAll_noise]
      rfl
    have hframes : UInt32.ofNat (item :: items).length = 1 + UInt32.ofNat items.length := by
      rw [List.length_cons, Nat.add_comm, UInt32.ofNat_add]
      rfl
    rw [List.flatMap_cons, recordAll_append, hitem, ih, hframes, List.map_cons, List.sum_cons,
      UInt32.ofNat_add, ← UInt32.add_assoc, ← UInt32.add_assoc]

end NoisyFrame

/-- The stream of the items. -/
def noisyStream {V : WireVersion} (items : List (NoisyFrame V)) : List UInt8 :=
  items.flatMap fun item => item.noise ++ item.bytes

/-- The scanner reads a clean stream to its end. -/
theorem run_noisyStream {V : WireVersion} (items : List (NoisyFrame V)) :
    Run (frameScanner V) (noisyStream items) (items.flatMap NoisyFrame.pieces) [] := by
  induction items with
  | nil => exact .nil []
  | cons item items ih =>
    have hstep := item.encoded.scanned (noisyStream items)
    -- a frame starts with the magic, so the noise in front of it ends where it should
    have hmagic : StartsMagic (item.bytes ++ noisyStream items) := by
      rcases scanStep_magic hstep with ⟨h, _⟩ | ⟨_, h⟩
      · cases h
      · exact h
    have hframe : Run (frameScanner V) (item.bytes ++ noisyStream items)
        [(.frame item.frame, item.bytes)] (noisyStream items) := by
      have hone := Run.one (S := frameScanner V) hstep
      rwa [List.take_left, List.drop_left] at hone
    have hitem := (run_noise V item.no_magic hmagic).trans hframe
    rw [noisyStream, List.flatMap_cons, ← noisyStream, List.append_assoc, List.flatMap_cons]
    exact hitem.trans ih

/-- What the ledger and the counters of a clean stream are, when the scanner waits on the bytes
    behind it. -/
theorem accounts_noisyStream_append {V : WireVersion} (items : List (NoisyFrame V))
    {tail : List UInt8} (htail : scanStep V tail = none) {ops : List StreamOp}
    (hops : StreamOp.resetIncomplete ∉ ops) (hfed : fedBytes ops = noisyStream items ++ tail) :
    runSegments V ops = (items.flatMap NoisyFrame.pieces).map Segment.ofPiece ∧
      (opsTrace V streamDecoderInit ops).1.bufferedBytes = tail.length ∧
      (opsTrace V streamDecoderInit ops).1.stats =
        DecoderStats.recordAll .zero (items.flatMap NoisyFrame.pieces) := by
  obtain ⟨now, hbytes, hacc, hsegments⟩ := run_of_no_reset V hops
  have hrun := (run_noisyStream items).extend tail
  rw [List.nil_append, ← hfed, ← hbytes] at hrun
  have hlast : ∀ piece ∈ (items.flatMap NoisyFrame.pieces).getLast?, 1 < piece.2.length := by
    intro piece hpiece
    rcases items.eq_nil_or_concat with rfl | ⟨init, item, rfl⟩
    · cases hpiece
    · -- the last piece is the last frame
      have hframe : (ScanEvent.frame item.frame, item.bytes) = piece := by
        simpa [NoisyFrame.pieces] using hpiece
      rw [← hframe]
      show 1 < item.bytes.length
      rw [item.encoded.length_bytes]
      omega
  obtain ⟨hpieces, hleft⟩ := now.eq_of_settled_run hrun htail hlast
  refine ⟨by rw [hsegments, Epoch.segments, hpieces], ?_, by rw [hacc.stats_eq, hpieces]; rfl⟩
  rw [← StreamDecoder.length_live hacc.sized, hacc.live_eq, hleft]

/-- The same for a clean stream with nothing behind it. -/
theorem accounts_noisyStream {V : WireVersion} (items : List (NoisyFrame V))
    {ops : List StreamOp} (hops : StreamOp.resetIncomplete ∉ ops)
    (hfed : fedBytes ops = noisyStream items) :
    runSegments V ops = (items.flatMap NoisyFrame.pieces).map Segment.ofPiece ∧
      (opsTrace V streamDecoderInit ops).1.bufferedBytes = 0 ∧
      (opsTrace V streamDecoderInit ops).1.stats =
        DecoderStats.recordAll .zero (items.flatMap NoisyFrame.pieces) :=
  accounts_noisyStream_append items scanStep_nil hops (by rw [hfed, List.append_nil])

section CleanRun

variable {V : WireVersion} (items : List (NoisyFrame V)) {ops : List StreamOp}

/-- The callbacks of a clean stream are its frames. -/
theorem frames_noisyStream (hops : StreamOp.resetIncomplete ∉ ops)
    (hfed : fedBytes ops = noisyStream items) :
    (decoderRun V ops).context = items.map NoisyFrame.frame := by
  rw [decoderRun_eq]
  show segmentFrames (runSegments V ops) = _
  rw [(accounts_noisyStream items hops hfed).1, segmentFrames_ofPieces,
    NoisyFrame.filterMap_pieces]

/-- The counters of a clean stream weigh its frames and its noise. -/
theorem stats_noisyStream (hops : StreamOp.resetIncomplete ∉ ops)
    (hfed : fedBytes ops = noisyStream items) :
    (decoderRun V ops).decoder.stats =
      { frames := UInt32.ofNat items.length
        discardedBytes := UInt32.ofNat (items.map fun item => item.noise.length).sum
        crcErrors := 0, versionErrors := 0, lengthErrors := 0, gapResets := 0 } := by
  rw [decoderRun_eq]
  show (opsTrace V streamDecoderInit ops).1.stats = _
  rw [(accounts_noisyStream items hops hfed).2.2, NoisyFrame.recordAll_pieces]
  simp [DecoderStats.zero]

end CleanRun

/-- **Clean streams round-trip.** However a stream of encoded frames with noise before them is
    cut into calls, the callbacks are exactly these frames, nothing stays buffered, and nothing
    but the frames and the noise is counted. -/
theorem clean_stream_round_trip (V : WireVersion) (items : List (NoisyFrame V))
    (ops : List StreamOp) (hops : StreamOp.resetIncomplete ∉ ops)
    (hfed : fedBytes ops = noisyStream items) :
    let run := decoderRun V ops
    run.context = items.map NoisyFrame.frame ∧
      run.emitted = items.length ∧
      run.decoder.bufferedBytes = 0 ∧
      run.decoder.stats =
        { frames := UInt32.ofNat items.length
          discardedBytes := UInt32.ofNat (items.map fun item => item.noise.length).sum
          crcErrors := 0, versionErrors := 0, lengthErrors := 0, gapResets := 0 } := by
  have hframes := frames_noisyStream items hops hfed
  refine ⟨hframes, ?_, ?_, stats_noisyStream items hops hfed⟩
  · show (decoderRun V ops).emitted = _
    rw [← List.length_map NoisyFrame.frame, ← hframes, decoderRun_eq]
  · show (decoderRun V ops).decoder.bufferedBytes = 0
    rw [decoderRun_eq]
    exact (accounts_noisyStream items hops hfed).2.1

/-- Noise that ends in the first magic byte, in front of an identify request, in three calls. -/
theorem clean_stream_round_trip_request :
    (decoderRun wireVersion1 [.feed (.bytes [0x00, 0x4f]), .feed (.bytes []),
      .feed (.bytes (frameBytes wireVersion1 4 [] 7 0))]).context =
        [frameOf wireVersion1 4 [] 7 0] := by
  have hencoded : EncodesTo wireVersion1 4 (.bytes []) 7 0 (frameBytes wireVersion1 4 [] 7 0) :=
    encodesTo_iff.mpr ⟨.inl rfl, Nat.zero_le _, rfl⟩
  have hnoise : ¬ [magic0, magic1] <:+: [0x00, 0x4f] := by decide
  exact (clean_stream_round_trip wireVersion1
    [⟨[0x00, 0x4f], 4, .bytes [], 7, 0, _, hnoise, hencoded⟩] _ (by simp)
    (by simp [fedBytes, noisyStream])).1

end Oomwoo
