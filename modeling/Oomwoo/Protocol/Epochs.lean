import Oomwoo.Protocol.LoopRun

namespace Oomwoo

open Bytes Scanning

/-!
# Whole runs: the bytes between two resets

A reset drops what is buffered, so a run of the decoder falls into epochs, the stretches of fed
bytes between resets, and each epoch is a run of the scanner of its own.  `Accounts` is the
invariant of a run: it explains the decoder, its statistics and everything that has left the
buffer by the finished epochs and the current one.  Feeding extends the current epoch, a reset
finishes it (`Accounts.feed`, `Accounts.reset`), and so every sequence of calls is accounted for
(`accounts_opsTrace`).
-/

/-! ### The trace of a run -/

/-- What a reset drops. -/
def gapSegments : List UInt8 → List Segment
  | [] => []
  | left => [.discarded left]

/-- The decoder after one call, and what left the buffer in it. -/
def opTrace (V : WireVersion) (decoder : StreamDecoder) : StreamOp → StreamDecoder × List Segment
  | .feed data => bytesTrace V decoder data.data
  | .resetIncomplete => (streamDecoderResetIncomplete decoder, gapSegments decoder.live)

/-- The same for a sequence of calls. -/
def opsTrace (V : WireVersion) : StreamDecoder → List StreamOp → StreamDecoder × List Segment
  | decoder, [] => (decoder, [])
  | decoder, op :: ops =>
    let first := opTrace V decoder op
    let rest := opsTrace V first.1 ops
    (rest.1, first.2 ++ rest.2)

theorem segmentFrames_gapSegments (left : List UInt8) : segmentFrames (gapSegments left) = [] := by
  cases left <;> rfl

theorem segmentBytes_gapSegments (left : List UInt8) : segmentBytes (gapSegments left) = left := by
  cases left <;> simp [gapSegments, segmentBytes, Segment.bytes]

theorem opsTrace_append (V : WireVersion) (decoder : StreamDecoder) (a b : List StreamOp) :
    opsTrace V decoder (a ++ b) =
      ((opsTrace V (opsTrace V decoder a).1 b).1,
        (opsTrace V decoder a).2 ++ (opsTrace V (opsTrace V decoder a).1 b).2) := by
  induction a generalizing decoder with
  | nil => simp [opsTrace]
  | cons op a ih => simp [opsTrace, ih]

/-- **Runs and traces.** Whatever the callback, a run leaves the decoder of the trace, has run
    the callback once on every delivered frame in order and has returned their number. -/
theorem runOps_eq {σ : Type} (V : WireVersion) (callback : Option (DecodedFrame → σ → σ))
    (state : FeedState σ) (ops : List StreamOp) :
    runOps V callback state ops =
      state.deliverAll callback (segmentFrames (opsTrace V state.decoder ops).2)
        (opsTrace V state.decoder ops).1 := by
  induction ops generalizing state with
  | nil => simp [runOps, opsTrace, FeedState.deliverAll, segmentFrames]
  | cons op ops ih =>
    -- one call first; the rest starts where its trace ends
    have hop : runOp V callback state op =
        state.deliverAll callback (segmentFrames (opTrace V state.decoder op).2)
          (opTrace V state.decoder op).1 := by
      cases op with
      | feed data =>
        simp only [runOp, streamDecoderFeed_eq, FeedState.deliverAll, opTrace, Nat.zero_add]
      | resetIncomplete =>
        rw [opTrace, segmentFrames_gapSegments]
        simp [runOp, FeedState.deliverAll]
    rw [runOps, List.foldl_cons, hop, ← runOps, ih, FeedState.deliverAll_deliverAll, opsTrace,
      segmentFrames_append]
    rfl

/-- Recording callbacks records the frames. -/
theorem foldl_recordFrame (frames log : List DecodedFrame) :
    frames.foldl (fun log frame => invokeCallback (some recordFrame) frame log) log =
      log ++ frames := by
  induction frames generalizing log with
  | nil => simp
  | cons frame frames ih =>
    rw [List.foldl_cons, ih]
    simp [invokeCallback, recordFrame]

/-- A run from the initialised decoder, by its trace. -/
theorem decoderRun_eq (V : WireVersion) (ops : List StreamOp) :
    decoderRun V ops =
      { decoder := (opsTrace V streamDecoderInit ops).1
        emitted := (segmentFrames (opsTrace V streamDecoderInit ops).2).length
        context := segmentFrames (opsTrace V streamDecoderInit ops).2 } := by
  rw [decoderRun, runOps_eq, FeedState.deliverAll, foldl_recordFrame]
  simp

/-! ### Epochs -/

/-- Cut the fed bytes at the resets; `current` has been fed since the last one. -/
def cutFrom (current : List UInt8) : List StreamOp → List (List UInt8)
  | [] => [current]
  | .feed data :: ops => cutFrom (current ++ data.data) ops
  | .resetIncomplete :: ops => current :: cutFrom [] ops

/-- The fed bytes, cut at the resets. -/
def cutAtResets (ops : List StreamOp) : List (List UInt8) := cutFrom [] ops

/-- The parts of the cut, joined, are the fed bytes. -/
theorem flatten_cutFrom (current : List UInt8) (ops : List StreamOp) :
    (cutFrom current ops).flatten = current ++ fedBytes ops := by
  induction ops generalizing current with
  | nil => simp [cutFrom, fedBytes]
  | cons op ops ih =>
    cases op with
    | feed data => simp [cutFrom, ih, fedBytes]
    | resetIncomplete => simp [cutFrom, ih, fedBytes]

/-- Without a reset there is one part. -/
theorem cutFrom_of_no_reset (current : List UInt8) {ops : List StreamOp}
    (h : StreamOp.resetIncomplete ∉ ops) : cutFrom current ops = [current ++ fedBytes ops] := by
  induction ops generalizing current with
  | nil => simp [cutFrom, fedBytes]
  | cons op ops ih =>
    cases op with
    | feed data =>
      rw [cutFrom, ih _ fun hmem => h (List.mem_cons_of_mem _ hmem)]
      simp [fedBytes]
    | resetIncomplete => exact absurd List.mem_cons_self h

theorem cutFrom_ne_nil (current : List UInt8) (ops : List StreamOp) : cutFrom current ops ≠ [] := by
  induction ops generalizing current with
  | nil => exact List.cons_ne_nil _ _
  | cons op ops ih =>
    cases op with
    | feed data => exact ih _
    | resetIncomplete => exact List.cons_ne_nil _ _

/-- More calls go on from the last part. -/
theorem cutFrom_append {current last : List UInt8} {parts : List (List UInt8)}
    {a : List StreamOp} (h : cutFrom current a = parts ++ [last]) (b : List StreamOp) :
    cutFrom current (a ++ b) = parts ++ cutFrom last b := by
  induction a generalizing current parts with
  | nil =>
    replace h : [] ++ [current] = parts ++ [last] := h
    obtain ⟨rfl, rfl⟩ := List.append_singleton_inj.mp h
    rfl
  | cons op a ih =>
    cases op with
    | feed data => exact ih h
    | resetIncomplete =>
      cases parts with
      | nil => exact absurd (List.cons.inj h).2 (cutFrom_ne_nil [] a)
      | cons part parts =>
        obtain ⟨rfl, hrest⟩ := List.cons.inj h
        exact congrArg (current :: ·) (ih hrest)

/-- The bytes fed since the last reset. -/
def fedSinceReset (ops : List StreamOp) : List UInt8 :=
  (cutAtResets ops).getLast (cutFrom_ne_nil [] ops)

theorem fedSinceReset_feed {ops : List StreamOp} {parts : List (List UInt8)} {last : List UInt8}
    (h : cutAtResets ops = parts ++ [last]) (data : Span) :
    fedSinceReset (ops ++ [.feed data]) = last ++ data.data := by
  have hcut : cutAtResets (ops ++ [.feed data]) = parts ++ [last ++ data.data] :=
    cutFrom_append h [.feed data]
  simp only [fedSinceReset, hcut, List.getLast_append_singleton]

/-- The bytes fed between two resets, as the scanner reads them. -/
structure Epoch (V : WireVersion) where
  bytes : List UInt8
  pieces : List (ScanEvent × List UInt8)
  left : List UInt8
  run : Run (frameScanner V) bytes pieces left
  quiet : Quiet V left

namespace Epoch

variable {V : WireVersion}

/-- Before the first byte. -/
def empty (V : WireVersion) : Epoch V := ⟨[], [], [], .nil [], .inl scanStep_nil⟩

/-- What has left the buffer so far. -/
def segments (epoch : Epoch V) : List Segment := epoch.pieces.map Segment.ofPiece

/-- What has left the buffer once a reset has dropped the rest. -/
def closedSegments (epoch : Epoch V) : List Segment := epoch.segments ++ gapSegments epoch.left

/-- The frames delivered from the epoch. -/
def frames (epoch : Epoch V) : List DecodedFrame := epoch.pieces.filterMap fun p => p.1.frame?

/-- The epoch read by position. -/
theorem runAt (epoch : Epoch V) : RunAt V epoch.bytes epoch.left 0 epoch.pieces :=
  runAt_of_run epoch.run

/-- If the bytes can be read to where the scanner waits, and not with a single byte last, the
    decoder has read them so far. -/
theorem eq_of_settled_run (epoch : Epoch V) {pieces : List (ScanEvent × List UInt8)}
    {rest : List UInt8} (h : Run (frameScanner V) epoch.bytes pieces rest)
    (hrest : scanStep V rest = none) (hlast : ∀ piece ∈ pieces.getLast?, 1 < piece.2.length) :
    epoch.pieces = pieces ∧ epoch.left = rest := by
  obtain ⟨more, rfl, hmore⟩ := epoch.run.prefix_of_settled h hrest
  rcases more.eq_nil_or_concat with rfl | ⟨init, piece, rfl⟩
  · exact ⟨(List.append_nil _).symm, hmore.flatten.symm⟩
  · -- what would be left to read is longer than what the decoder can leave
    exfalso
    have hlong := hlast piece (by simp)
    have hlen := hmore.length_add
    simp only [List.concat_eq_append, consumed_append, consumed_cons, consumed_nil,
      List.append_nil, List.length_append] at hlen
    rcases epoch.quiet with hquiet | hquiet
    · have hnil := (hmore.eq_nil_of_settled hquiet).1
      simp at hnil
    · omega

end Epoch

@[simp] theorem bytes_ofPiece (piece : ScanEvent × List UInt8) :
    (Segment.ofPiece piece).bytes = piece.2 := by
  obtain ⟨event, bytes⟩ := piece
  cases event <;> rfl

@[simp] theorem frame?_ofPiece (piece : ScanEvent × List UInt8) :
    (Segment.ofPiece piece).frame? = piece.1.frame? := by
  obtain ⟨event, bytes⟩ := piece
  cases event <;> rfl

theorem segmentBytes_ofPieces (pieces : List (ScanEvent × List UInt8)) :
    segmentBytes (pieces.map Segment.ofPiece) = consumed pieces := by
  simp [segmentBytes, consumed, List.flatMap_map]

theorem segmentFrames_ofPieces (pieces : List (ScanEvent × List UInt8)) :
    segmentFrames (pieces.map Segment.ofPiece) = pieces.filterMap fun p => p.1.frame? := by
  rw [segmentFrames, List.filterMap_map]
  congr 1
  funext piece
  exact frame?_ofPiece piece

/-- `++gap_resets` and the discard, for a reset that finds `count` bytes. -/
def DecoderStats.gap (stats : DecoderStats) (count : Nat) : DecoderStats :=
  if count = 0 then stats
  else { stats.discard count with gapResets := stats.gapResets + 1 }

section Gap

variable (stats : DecoderStats) (count : Nat)

@[simp] theorem frames_gap : (stats.gap count).frames = stats.frames := by
  rw [DecoderStats.gap]
  split <;> rfl

@[simp] theorem versionErrors_gap : (stats.gap count).versionErrors = stats.versionErrors := by
  rw [DecoderStats.gap]
  split <;> rfl

@[simp] theorem lengthErrors_gap : (stats.gap count).lengthErrors = stats.lengthErrors := by
  rw [DecoderStats.gap]
  split <;> rfl

@[simp] theorem crcErrors_gap : (stats.gap count).crcErrors = stats.crcErrors := by
  rw [DecoderStats.gap]
  split <;> rfl

@[simp] theorem discardedBytes_gap : (stats.gap count).discardedBytes =
    stats.discardedBytes + UInt32.ofNat count := by
  rw [DecoderStats.gap]
  split
  · rename_i h
    simp [h]
  · rfl

end Gap

/-- What the decoder counts for an epoch that a reset has ended. -/
def DecoderStats.recordEpoch {V : WireVersion} (stats : DecoderStats) (epoch : Epoch V) :
    DecoderStats :=
  (stats.recordAll epoch.pieces).gap epoch.left.length

/-! ### The invariant of a run -/

/-- The epochs that explain a decoder and everything that has left its buffer. -/
structure Accounts (V : WireVersion) (decoder : StreamDecoder) (segments : List Segment)
    (past : List (Epoch V)) (now : Epoch V) : Prop where
  sized : decoder.Sized
  live_eq : decoder.live = now.left
  segments_eq : segments = past.flatMap Epoch.closedSegments ++ now.segments
  stats_eq : decoder.stats = (past.foldl DecoderStats.recordEpoch .zero).recordAll now.pieces

namespace Accounts

variable {V : WireVersion} {decoder : StreamDecoder} {segments : List Segment}
  {past : List (Epoch V)} {now : Epoch V}

theorem init (V : WireVersion) : Accounts V streamDecoderInit [] [] (.empty V) :=
  ⟨streamDecoderInit_sized, rfl, rfl, rfl⟩

/-- **Feeding extends the current epoch.** -/
theorem feed (h : Accounts V decoder segments past now) (bytes : List UInt8) :
    ∃ next : Epoch V, next.bytes = now.bytes ++ bytes ∧
      Accounts V (bytesTrace V decoder bytes).1 (segments ++ (bytesTrace V decoder bytes).2) past
        next := by
  obtain ⟨⟨pieces, hdecodes⟩, hquiet⟩ :=
    bytesTrace_spec V h.sized (by rw [h.live_eq]; exact now.quiet) bytes
  have hrun := hdecodes.run
  rw [h.live_eq] at hrun
  refine ⟨⟨now.bytes ++ bytes, now.pieces ++ pieces, _, now.run.join hrun, hquiet⟩, rfl,
    hdecodes.sized, rfl, ?_, ?_⟩
  · rw [h.segments_eq, hdecodes.segments_eq, List.append_assoc, Epoch.segments, Epoch.segments,
      List.map_append]
  · rw [hdecodes.stats_eq, h.stats_eq, recordAll_append]

/-- **A reset finishes the current epoch.** -/
theorem reset (h : Accounts V decoder segments past now) :
    Accounts V (streamDecoderResetIncomplete decoder) (segments ++ gapSegments decoder.live)
      (past ++ [now]) (.empty V) := by
  obtain ⟨hsized, hlive⟩ := streamDecoderResetIncomplete_spec h.sized
  refine ⟨hsized, hlive, ?_, ?_⟩
  · rw [h.segments_eq, h.live_eq]
    simp [Epoch.closedSegments, Epoch.empty, Epoch.segments]
  · have hcount : now.left.length = decoder.bufferedBytes := by
      rw [← h.live_eq, decoder.length_live h.sized]
    rw [List.foldl_append, List.foldl_cons, List.foldl_nil, DecoderStats.recordEpoch, ← h.stats_eq,
      hcount]
    show _ = decoder.stats.gap decoder.bufferedBytes
    rw [streamDecoderResetIncomplete, DecoderStats.gap]
    split <;> rfl

/-- A sequence of calls extends the current epoch and finishes others, as the resets cut. -/
theorem run (h : Accounts V decoder segments past now) (ops : List StreamOp) :
    ∃ (more : List (Epoch V)) (last : Epoch V),
      cutFrom now.bytes ops = more.map Epoch.bytes ++ [last.bytes] ∧
      Accounts V (opsTrace V decoder ops).1 (segments ++ (opsTrace V decoder ops).2)
        (past ++ more) last := by
  induction ops generalizing decoder segments past now with
  | nil => exact ⟨[], now, rfl, by simpa [opsTrace] using h⟩
  | cons op ops ih =>
    cases op with
    | feed data =>
      -- the bytes extend the current epoch
      obtain ⟨next, hbytes, hnext⟩ := h.feed data.data
      obtain ⟨more, last, hcut, hlast⟩ := ih hnext
      rw [hbytes] at hcut
      rw [List.append_assoc] at hlast
      exact ⟨more, last, hcut, hlast⟩
    | resetIncomplete =>
      -- the current epoch is finished and a new one starts empty
      obtain ⟨more, last, hcut, hlast⟩ := ih h.reset
      rw [List.append_assoc, List.append_assoc] at hlast
      exact ⟨now :: more, last, by rw [cutFrom, List.map_cons, List.cons_append, ← hcut]; rfl,
        hlast⟩

/-- A counter that gaps leave alone counts the pieces of all the epochs. -/
theorem counter (h : Accounts V decoder segments past now) (counter : DecoderStats → UInt32)
    (counts : ScanEvent → Bool)
    (hrecord : ∀ stats event,
      counter (stats.record event) = counter stats + UInt32.ofNat (counts event).toNat)
    (hgap : ∀ stats count, counter (stats.gap count) = counter stats) :
    counter decoder.stats = counter .zero +
      UInt32.ofNat (((past ++ [now]).flatMap Epoch.pieces).countP fun piece => counts piece.1) := by
  -- over the finished epochs the counter adds up, from any start
  have hpast : ∀ (past : List (Epoch V)) (stats : DecoderStats),
      counter (past.foldl DecoderStats.recordEpoch stats) = counter stats +
        UInt32.ofNat ((past.flatMap Epoch.pieces).countP fun piece => counts piece.1) := by
    intro past
    induction past with
    | nil => simp
    | cons epoch past ih =>
      intro stats
      rw [List.foldl_cons, ih, DecoderStats.recordEpoch, hgap, recordAll_counter _ _ hrecord,
        List.flatMap_cons, List.countP_append, UInt32.ofNat_add, UInt32.add_assoc]
  rw [h.stats_eq, recordAll_counter _ _ hrecord, hpast, UInt32.add_assoc, ← UInt32.ofNat_add,
    ← List.countP_append, List.flatMap_append, List.flatMap_cons, List.flatMap_nil,
    List.append_nil]

/-- The delivered frames are those of the epochs. -/
theorem frames_eq (h : Accounts V decoder segments past now) :
    segmentFrames segments =
      ((past ++ [now]).flatMap Epoch.pieces).filterMap fun piece => piece.1.frame? := by
  have hpast : segmentFrames (past.flatMap Epoch.closedSegments) =
      (past.flatMap Epoch.pieces).filterMap fun piece => piece.1.frame? := by
    clear h
    induction past with
    | nil => rfl
    | cons epoch past ih =>
      rw [List.flatMap_cons, segmentFrames_append, ih, Epoch.closedSegments, segmentFrames_append,
        segmentFrames_gapSegments, List.append_nil, Epoch.segments, segmentFrames_ofPieces,
        List.flatMap_cons, List.filterMap_append]
  rw [h.segments_eq, segmentFrames_append, hpast, Epoch.segments, segmentFrames_ofPieces,
    ← List.filterMap_append, List.flatMap_append]
  simp

end Accounts

/-- **Every run of the decoder is accounted for**, by epochs that are the parts of the fed bytes
    between the resets. -/
theorem accounts_opsTrace (V : WireVersion) (ops : List StreamOp) :
    ∃ (past : List (Epoch V)) (now : Epoch V),
      cutAtResets ops = past.map Epoch.bytes ++ [now.bytes] ∧
      Accounts V (opsTrace V streamDecoderInit ops).1 (opsTrace V streamDecoderInit ops).2
        past now :=
  (Accounts.init V).run ops

/-- Between two calls the array has its size and what is buffered is quiet. -/
theorem quiet_opsTrace (V : WireVersion) (ops : List StreamOp) :
    (opsTrace V streamDecoderInit ops).1.Sized ∧
      Quiet V (opsTrace V streamDecoderInit ops).1.live := by
  obtain ⟨past, now, _, hacc⟩ := accounts_opsTrace V ops
  refine ⟨hacc.sized, ?_⟩
  rw [hacc.live_eq]
  exact now.quiet

end Oomwoo
