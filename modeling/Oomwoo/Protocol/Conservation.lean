import Oomwoo.Protocol.Epochs

namespace Oomwoo

open Bytes Scanning

/-!
# Conservation of bytes and candidates

Where every fed byte goes: it was discarded, it belongs to a delivered frame, or it is still
buffered.  The segments of the trace are the ghost ledger; this module weighs them against the
counters of the decoder, first for one run of the scanner and then for whole runs with resets.
-/

/-- The bytes of the discarded segments, counted. -/
def discardedLength : List Segment → Nat
  | [] => 0
  | .discarded bytes :: segments => bytes.length + discardedLength segments
  | .delivered _ _ :: segments => discardedLength segments

/-- The bytes of the delivered segments, counted. -/
def deliveredLength : List Segment → Nat
  | [] => 0
  | .discarded _ :: segments => deliveredLength segments
  | .delivered bytes _ :: segments => bytes.length + deliveredLength segments

/-- The stream positions of the discarded bytes, when the segments start at `p`. -/
def discardedPositions : Nat → List Segment → List Nat
  | _, [] => []
  | p, .discarded bytes :: segments =>
    List.range' p bytes.length ++ discardedPositions (p + bytes.length) segments
  | p, .delivered bytes _ :: segments => discardedPositions (p + bytes.length) segments

/-- The stream carries `'O'`, `'W'` at `p`, `p + 1`. -/
def magicAt (B : List UInt8) (p : Nat) : Bool :=
  byteAt B p == magic0 && byteAt B (p + 1) == magic1

theorem magicAt_eq (B : List UInt8) (p : Nat) :
    magicAt B p = (byteAt (B.drop p) 0 == magic0 && byteAt (B.drop p) 1 == magic1) := by
  rw [magicAt, byteAt_drop, byteAt_drop]
  rfl

theorem discardedLength_append (s t : List Segment) :
    discardedLength (s ++ t) = discardedLength s + discardedLength t := by
  induction s with
  | nil => simp [discardedLength]
  | cons segment s ih =>
    cases segment with
    | discarded bytes => simp [discardedLength, ih, Nat.add_assoc]
    | delivered bytes frame => simp [discardedLength, ih]

theorem discardedLength_gapSegments (left : List UInt8) :
    discardedLength (gapSegments left) = left.length := by
  cases left <;> simp [gapSegments, discardedLength]

/-- The ledger balances: its bytes are the discarded and the delivered ones. -/
theorem length_segmentBytes (segments : List Segment) :
    (segmentBytes segments).length = discardedLength segments + deliveredLength segments := by
  induction segments with
  | nil => rfl
  | cons segment segments ih =>
    rw [segmentBytes, List.flatMap_cons, List.length_append, ← segmentBytes, ih]
    cases segment with
    | discarded bytes => simp only [Segment.bytes, discardedLength, deliveredLength]; omega
    | delivered bytes frame => simp only [Segment.bytes, discardedLength, deliveredLength]; omega

/-! ### One run of the scanner -/

section OneRun

variable {V : WireVersion} {B w r : List UInt8} {pieces : List (ScanEvent × List UInt8)} {p : Nat}

/-- The frames of a run are read from exactly the bytes of their pieces. -/
theorem parseFrame_of_mem_run (h : Run (frameScanner V) w pieces r) {frame : DecodedFrame}
    {bytes : List UInt8} (hmem : (.frame frame, bytes) ∈ pieces) :
    parseFrame V bytes = .ok frame := by
  induction h with
  | nil w => cases hmem
  | cons hstep _ ih =>
    rcases List.mem_cons.mp hmem with heq | hmem
    · cases heq
      exact (scanStep_frame_iff.mp hstep).2
    · exact ih hmem

/-- The bytes that a step consumes are as many as it says. -/
theorem length_take_drop {k : Nat} (h : p + k ≤ B.length) : ((B.drop p).take k).length = k := by
  rw [List.length_take, List.length_drop]
  omega

/-- A discarded byte in the list of discarded positions. -/
theorem discardedPositions_discard {event : ScanEvent} (hevent : event.isFrame = false)
    (hp : p < B.length) :
    discardedPositions p (((event, (B.drop p).take 1) :: pieces).map Segment.ofPiece) =
      p :: discardedPositions (p + 1) (pieces.map Segment.ofPiece) := by
  rw [List.map_cons, ofPiece_of_not_frame _ hevent, discardedPositions, length_take_drop hp,
    List.range'_one, List.singleton_append]

/-- A frame is not there. -/
theorem discardedPositions_deliver {frame : DecodedFrame} {k : Nat} (hp : p + k ≤ B.length) :
    discardedPositions p (((.frame frame, (B.drop p).take k) :: pieces).map Segment.ofPiece) =
      discardedPositions (p + k) (pieces.map Segment.ofPiece) := by
  rw [List.map_cons, Segment.ofPiece, discardedPositions, length_take_drop hp]

/-- The discard counter of a run. -/
theorem discardedBytes_recordAll (h : RunAt V B r p pieces) (stats : DecoderStats) :
    (stats.recordAll pieces).discardedBytes =
      stats.discardedBytes + UInt32.ofNat (discardedLength (pieces.map Segment.ofPiece)) := by
  induction h generalizing stats with
  | rest _ => exact (UInt32.add_zero _).symm
  | @discard p event pieces hevent hp hstep hrun ih =>
    have hrecord : (stats.record event).discardedBytes =
        stats.discardedBytes + UInt32.ofNat 1 := by
      cases event with
      | frame frame => cases hevent
      | _ => rfl
    rw [recordAll_cons, ih, List.map_cons, ofPiece_of_not_frame _ hevent, discardedLength,
      length_take_drop hp, hrecord, UInt32.ofNat_add, UInt32.add_assoc]
  | deliver _ _ _ _ ih =>
    rw [recordAll_cons, ih]
    rfl

/-- A discarded position carries the magic exactly if a candidate was rejected there. -/
theorem magicAt_of_scanStep {event : ScanEvent} (hevent : event.isFrame = false)
    (hstep : scanStep V (B.drop p) = some (event, 1)) : magicAt B p = event.isError := by
  rw [magicAt_eq]
  rcases scanStep_magic hstep with ⟨rfl, _, hs | hs⟩ | ⟨hne, hs⟩
  · rw [beq_eq_false_iff_ne.mpr hs.2, Bool.false_and]
    rfl
  · rw [beq_eq_false_iff_ne.mpr hs.2, Bool.and_false]
    rfl
  · rw [hs.first, hs.second]
    cases event with
    | noise => exact absurd rfl hne
    | frame frame => cases hevent
    | _ => rfl

/-- **Every rejected candidate is counted once and nothing else is.** The errors of a run are
    its discarded positions with the magic. -/
theorem countP_isError_run (h : RunAt V B r p pieces) :
    pieces.countP (fun piece => piece.1.isError) =
      (discardedPositions p (pieces.map Segment.ofPiece)).countP (magicAt B) := by
  induction h with
  | rest _ => rfl
  | discard hevent hp hstep _ ih =>
    rw [discardedPositions_discard hevent hp, List.countP_cons, List.countP_cons, ih,
      magicAt_of_scanStep hevent hstep]
  | deliver _ hp _ _ ih =>
    rw [discardedPositions_deliver hp, ← ih]
    rfl

/-- A discarded position is one where the scanner consumes a single byte. -/
theorem scanStep_of_mem_discardedPositions {q : Nat} (h : RunAt V B r p pieces)
    (hmem : q ∈ discardedPositions p (pieces.map Segment.ofPiece)) :
    ∃ e, ScanEvent.isFrame e = false ∧ scanStep V (B.drop q) = some (e, 1) := by
  induction h with
  | rest _ => cases hmem
  | discard hevent hp hstep _ ih =>
    rw [discardedPositions_discard hevent hp] at hmem
    rcases List.mem_cons.mp hmem with rfl | hmem
    · exact ⟨_, hevent, hstep⟩
    · exact ih hmem
  | deliver _ hp _ _ ih =>
    rw [discardedPositions_deliver hp] at hmem
    exact ih hmem

end OneRun

/-! ### Whole runs -/

/-- Everything that left the buffer in a run from the initialised decoder. -/
def runSegments (V : WireVersion) (ops : List StreamOp) : List Segment :=
  (opsTrace V streamDecoderInit ops).2

section WholeRun

variable {V : WireVersion} {decoder : StreamDecoder} {segments : List Segment}
  {past : List (Epoch V)} {now : Epoch V}

theorem Epoch.segmentBytes_segments (epoch : Epoch V) :
    segmentBytes epoch.segments ++ epoch.left = epoch.bytes := by
  rw [Epoch.segments, segmentBytes_ofPieces, epoch.run.flatten]

/-- What an epoch delivers is read from exactly the bytes of its segment. -/
theorem Epoch.parseFrame_of_mem (epoch : Epoch V) {bytes : List UInt8} {frame : DecodedFrame}
    (hmem : .delivered bytes frame ∈ epoch.segments) : parseFrame V bytes = .ok frame := by
  obtain ⟨⟨event, piece⟩, hin, heq⟩ := List.mem_map.mp hmem
  cases event with
  | frame f =>
    cases heq
    exact parseFrame_of_mem_run epoch.run hin
  | _ => cases heq

/-- The ledger of the finished epochs is their bytes. -/
theorem segmentBytes_past (past : List (Epoch V)) :
    segmentBytes (past.flatMap Epoch.closedSegments) = (past.map Epoch.bytes).flatten := by
  induction past with
  | nil => rfl
  | cons epoch past ih =>
    rw [List.flatMap_cons, segmentBytes_append, ih, Epoch.closedSegments, segmentBytes_append,
      segmentBytes_gapSegments, epoch.segmentBytes_segments, List.map_cons, List.flatten_cons]

namespace Accounts

/-- A delivered segment is one complete frame, read from exactly its bytes. -/
theorem delivered (h : Accounts V decoder segments past now) {bytes : List UInt8}
    {frame : DecodedFrame} (hmem : .delivered bytes frame ∈ segments) :
    parseFrame V bytes = .ok frame := by
  rw [h.segments_eq] at hmem
  rcases List.mem_append.mp hmem with hmem | hmem
  · obtain ⟨epoch, _, hin⟩ := List.mem_flatMap.mp hmem
    rcases List.mem_append.mp hin with hin | hin
    · exact epoch.parseFrame_of_mem hin
    · -- a gap delivers nothing
      cases hleft : epoch.left with
      | nil =>
        rw [hleft] at hin
        cases hin
      | cons b bs =>
        rw [hleft] at hin
        cases List.mem_singleton.mp hin
  · exact now.parseFrame_of_mem hmem

/-- The discard counter of a run. -/
theorem discardedBytes_eq (h : Accounts V decoder segments past now) :
    decoder.stats.discardedBytes = UInt32.ofNat (discardedLength segments) := by
  have hpast : ∀ (past : List (Epoch V)) (stats : DecoderStats),
      (past.foldl DecoderStats.recordEpoch stats).discardedBytes = stats.discardedBytes +
        UInt32.ofNat (discardedLength (past.flatMap Epoch.closedSegments)) := by
    intro past
    -- a finished epoch counts its discarded pieces and what the gap dropped
    induction past with
    | nil => exact fun stats => (UInt32.add_zero _).symm
    | cons epoch past ih =>
      intro stats
      rw [List.foldl_cons, ih, DecoderStats.recordEpoch, discardedBytes_gap,
        discardedBytes_recordAll epoch.runAt, List.flatMap_cons, discardedLength_append,
        Epoch.closedSegments, discardedLength_append, discardedLength_gapSegments,
        UInt32.ofNat_add, UInt32.ofNat_add, Epoch.segments, UInt32.add_assoc, UInt32.add_assoc,
        UInt32.add_assoc]
  rw [h.stats_eq, discardedBytes_recordAll now.runAt, hpast, h.segments_eq, discardedLength_append,
    UInt32.ofNat_add, Epoch.segments]
  show 0 + _ + _ = _
  rw [UInt32.zero_add]

/-- The frame counter of a run. -/
theorem framesCounter_eq (h : Accounts V decoder segments past now) :
    decoder.stats.frames = UInt32.ofNat (segmentFrames segments).length := by
  rw [h.counter _ _ frames_record frames_gap, h.frames_eq, List.length_filterMap_eq_countP]
  exact UInt32.zero_add _

/-- The error counters of a run without resets. -/
theorem errors_eq (h : Accounts V decoder segments [] now) :
    decoder.stats.versionErrors + decoder.stats.lengthErrors + decoder.stats.crcErrors =
      UInt32.ofNat ((discardedPositions 0 segments).countP (magicAt now.bytes)) := by
  have hrecord : ∀ (stats : DecoderStats) (event : ScanEvent),
      (stats.record event).versionErrors + (stats.record event).lengthErrors +
        (stats.record event).crcErrors = stats.versionErrors + stats.lengthErrors +
          stats.crcErrors + UInt32.ofNat event.isError.toNat := by
    intro stats event
    cases event with
    | noise => exact (UInt32.add_zero _).symm
    | frame frame => exact (UInt32.add_zero _).symm
    | versionError =>
      show stats.versionErrors + 1 + _ + _ = _ + _ + _ + 1
      ac_rfl
    | lengthError =>
      show _ + (stats.lengthErrors + 1) + _ = _ + _ + _ + 1
      ac_rfl
    | crcError =>
      show _ + _ + (stats.crcErrors + 1) = _ + _ + _ + 1
      ac_rfl
  -- the three counters are counted together, as one
  have hcount := h.counter
    (fun stats => stats.versionErrors + stats.lengthErrors + stats.crcErrors)
    ScanEvent.isError hrecord (fun stats count => by simp)
  rw [h.segments_eq]
  refine hcount.trans ?_
  simp only [List.nil_append, List.flatMap_cons, List.flatMap_nil, List.append_nil,
    countP_isError_run now.runAt, Epoch.segments]
  exact UInt32.zero_add _

end Accounts

/-- **The ledger is complete**: what left the buffer and what is still in it are the fed bytes. -/
theorem fedBytes_eq (V : WireVersion) (ops : List StreamOp) :
    fedBytes ops =
      segmentBytes (runSegments V ops) ++ (opsTrace V streamDecoderInit ops).1.live := by
  obtain ⟨past, now, hcut, hacc⟩ := accounts_opsTrace V ops
  -- the fed bytes are those of the epochs, and each epoch is its segments and its rest
  rw [← List.nil_append (fedBytes ops), ← flatten_cutFrom, ← cutAtResets, hcut, runSegments,
    hacc.segments_eq, hacc.live_eq, segmentBytes_append, segmentBytes_past, List.append_assoc,
    now.segmentBytes_segments]
  simp

/-- Without a reset the fed bytes are one run of the scanner, and the ledger is its pieces. -/
theorem run_of_no_reset (V : WireVersion) {ops : List StreamOp}
    (h : StreamOp.resetIncomplete ∉ ops) :
    ∃ now : Epoch V, now.bytes = fedBytes ops ∧
      Accounts V (opsTrace V streamDecoderInit ops).1 (runSegments V ops) [] now ∧
      runSegments V ops = now.segments := by
  obtain ⟨past, now, hcut, hacc⟩ := accounts_opsTrace V ops
  rw [cutAtResets, cutFrom_of_no_reset [] h, List.nil_append] at hcut
  cases past with
  | cons epoch past => simp at hcut
  | nil =>
    obtain hbytes : fedBytes ops = now.bytes := by simpa using hcut
    exact ⟨now, hbytes.symm, hacc, hacc.segments_eq⟩

/-- **Conservation.** The fed bytes are, in order, the segments that left the buffer and the
    bytes still buffered; every delivered segment is the wire form of the frame handed to the
    callback for it, in the same order; the counters weigh the segments; and without resets the
    three error counters together count the discarded positions that carry the magic. -/
theorem streamDecoder_conserves (V : WireVersion) (ops : List StreamOp) :
    let run := decoderRun V ops
    let segments := runSegments V ops
    let buffered := run.decoder.buffer.take run.decoder.bufferedBytes
    fedBytes ops = segmentBytes segments ++ buffered ∧
      buffered.length = run.decoder.bufferedBytes ∧
      run.context = segmentFrames segments ∧
      (∀ bytes frame, .delivered bytes frame ∈ segments →
        ∃ payload, payload.length ≤ 512 ∧
          frame = frameOf V frame.messageType payload frame.sequence frame.flags ∧
          bytes = frameBytes V frame.messageType payload frame.sequence frame.flags) ∧
      run.decoder.stats.discardedBytes = UInt32.ofNat (discardedLength segments) ∧
      run.decoder.stats.frames = UInt32.ofNat (segmentFrames segments).length ∧
      (fedBytes ops).length =
        discardedLength segments + deliveredLength segments + run.decoder.bufferedBytes ∧
      (.resetIncomplete ∉ ops →
        run.decoder.stats.versionErrors + run.decoder.stats.lengthErrors +
            run.decoder.stats.crcErrors =
          UInt32.ofNat ((discardedPositions 0 segments).countP (magicAt (fedBytes ops)))) := by
  obtain ⟨past, now, hcut, hacc⟩ := accounts_opsTrace V ops
  have hfed := fedBytes_eq V ops
  have hlen := StreamDecoder.length_live hacc.sized
  rw [decoderRun_eq]
  refine ⟨hfed, hlen, rfl, ?_, hacc.discardedBytes_eq, hacc.framesCounter_eq, ?_, ?_⟩
  · intro bytes frame hmem
    exact frameBytes_of_parseFrame (hacc.delivered hmem)
  · rw [hfed, List.length_append, length_segmentBytes, hlen]
  · intro hno
    obtain ⟨whole, hbytes, hwhole, _⟩ := run_of_no_reset V hno
    rw [← hbytes]
    exact hwhole.errors_eq

end WholeRun

end Oomwoo
