import Oomwoo.Protocol.LiveBuffer

namespace Oomwoo

open Bytes Scanning

/-!
# Which bytes leave the buffer, and why

Instrumentation of the processing loop.  `Pass.segments` reads off one pass the live bytes that
left the front of the buffer, tagged by whether the pass handed them to the callback as a frame;
`loopTrace`, `byteTrace` and `bytesTrace` collect these segments along the loop, one fed byte and
a fed string.  The trace follows the decoder of `Oomwoo.Protocol.StreamDecoder` step by step and
adds nothing to it: whatever the callback, the feed functions leave the decoder of the trace and
run the callback once on every delivered segment, in order (`streamDecoderFeed_eq`).
-/

/-- A piece of the fed bytes that has left the buffer. -/
inductive Segment where
  | discarded (bytes : List UInt8)
  | delivered (bytes : List UInt8) (frame : DecodedFrame)
  deriving DecidableEq, Repr

namespace Segment

/-- The bytes of the piece. -/
def bytes : Segment → List UInt8
  | discarded bytes => bytes
  | delivered bytes _ => bytes

/-- The frame the callback was given, if it was. -/
def frame? : Segment → Option DecodedFrame
  | discarded _ => none
  | delivered _ frame => some frame

end Segment

/-- The bytes of a list of segments, in order. -/
def segmentBytes (segments : List Segment) : List UInt8 := segments.flatMap Segment.bytes

/-- The frames of a list of segments, in order. -/
def segmentFrames (segments : List Segment) : List DecodedFrame :=
  segments.filterMap Segment.frame?

@[simp] theorem segmentFrames_append (s t : List Segment) :
    segmentFrames (s ++ t) = segmentFrames s ++ segmentFrames t := by
  simp [segmentFrames]

@[simp] theorem segmentBytes_append (s t : List Segment) :
    segmentBytes (s ++ t) = segmentBytes s ++ segmentBytes t := by
  simp [segmentBytes]

/-- What left the front of the buffer in one pass from `decoder`. -/
def Pass.segments (decoder : StreamDecoder) (pass : Pass) : List Segment :=
  let removed := decoder.live.take (decoder.bufferedBytes - pass.decoder.bufferedBytes)
  match pass.frame with
  | some frame => [.delivered removed frame]
  | none => removed.map fun b => .discarded [b]

/-- The decoder after the processing loop, and what left the buffer in it. -/
def loopTrace (V : WireVersion) : Nat → StreamDecoder → StreamDecoder × List Segment
  | 0, decoder => (decoder, [])
  | fuel + 1, decoder =>
    let pass := processPass V decoder
    let rest :=
      if pass.processing then loopTrace V fuel pass.decoder else (pass.decoder, [])
    (rest.1, pass.segments decoder ++ rest.2)

/-- The same for one fed byte. -/
def byteTrace (V : WireVersion) (decoder : StreamDecoder) (byte : UInt8) :
    StreamDecoder × List Segment :=
  let decoder := appendByte decoder byte
  loopTrace V decoder.bufferedBytes decoder

/-- The same for a fed string. -/
def bytesTrace (V : WireVersion) : StreamDecoder → List UInt8 → StreamDecoder × List Segment
  | decoder, [] => (decoder, [])
  | decoder, byte :: bytes =>
    let first := byteTrace V decoder byte
    let rest := bytesTrace V first.1 bytes
    (rest.1, first.2 ++ rest.2)

/-! ### The trace and the callback -/

variable {σ : Type}

/-- Hand frames to the callback one after the other. -/
def FeedState.deliverAll (callback : Option (DecodedFrame → σ → σ)) (frames : List DecodedFrame)
    (decoder : StreamDecoder) (state : FeedState σ) : FeedState σ where
  decoder := decoder
  emitted := state.emitted + frames.length
  context := frames.foldl (fun context frame => invokeCallback callback frame context) state.context

/-- Handing over two batches is handing over the joined batch. -/
theorem FeedState.deliverAll_deliverAll (callback : Option (DecodedFrame → σ → σ))
    (a b : List DecodedFrame) (d e : StreamDecoder) (state : FeedState σ) :
    (state.deliverAll callback a d).deliverAll callback b e =
      state.deliverAll callback (a ++ b) e := by
  simp [FeedState.deliverAll, Nat.add_assoc]

theorem segmentFrames_passSegments (decoder : StreamDecoder) (pass : Pass) :
    segmentFrames (pass.segments decoder) = pass.frame.toList := by
  cases h : pass.frame with
  | some frame => simp [Pass.segments, h, segmentFrames, Segment.frame?]
  | none =>
    rw [Pass.segments, h, segmentFrames, Option.toList_none, List.filterMap_eq_nil_iff]
    intro segment hs
    obtain ⟨b, -, rfl⟩ := List.mem_map.mp hs
    rfl

/-- One pass updates the feed variables by the frames of its segments. -/
theorem after_eq (callback : Option (DecodedFrame → σ → σ)) (decoder : StreamDecoder)
    (pass : Pass) (state : FeedState σ) :
    state.after callback pass =
      state.deliverAll callback (segmentFrames (pass.segments decoder)) pass.decoder := by
  rw [segmentFrames_passSegments, FeedState.after]
  cases pass.frame with
  | none => rfl
  | some frame => rfl

/-- The loop runs the callback on the delivered segments and leaves the decoder of the trace. -/
theorem processLoop_eq (V : WireVersion) (callback : Option (DecodedFrame → σ → σ)) (fuel : Nat)
    (state : FeedState σ) :
    processLoop V callback fuel state =
      state.deliverAll callback (segmentFrames (loopTrace V fuel state.decoder).2)
        (loopTrace V fuel state.decoder).1 := by
  induction fuel generalizing state with
  | zero => rfl
  | succ fuel ih =>
    rw [processLoop, loopTrace, after_eq callback state.decoder]
    split
    · rw [ih, FeedState.deliverAll_deliverAll, segmentFrames_append]
      rfl
    · simp

/-- One byte. -/
theorem feedByte_eq (V : WireVersion) (callback : Option (DecodedFrame → σ → σ))
    (state : FeedState σ) (byte : UInt8) :
    feedByte V callback state byte =
      state.deliverAll callback (segmentFrames (byteTrace V state.decoder byte).2)
        (byteTrace V state.decoder byte).1 := by
  rw [feedByte, processLoop_eq]
  rfl

/-- The `for` loop over the input. -/
theorem foldl_feedByte_eq (V : WireVersion) (callback : Option (DecodedFrame → σ → σ))
    (state : FeedState σ) (bytes : List UInt8) :
    bytes.foldl (feedByte V callback) state =
      state.deliverAll callback (segmentFrames (bytesTrace V state.decoder bytes).2)
        (bytesTrace V state.decoder bytes).1 := by
  induction bytes generalizing state with
  | nil => simp [bytesTrace, FeedState.deliverAll, segmentFrames]
  | cons byte bytes ih =>
    rw [List.foldl_cons, feedByte_eq, ih, FeedState.deliverAll_deliverAll, bytesTrace,
      segmentFrames_append]
    rfl

/-- **What a feed call does, whatever the callback**: it leaves the decoder of the trace, runs
    the callback once on every delivered frame in order, and returns how many there were. -/
theorem streamDecoderFeed_eq (V : WireVersion) (callback : Option (DecodedFrame → σ → σ))
    (decoder : StreamDecoder) (data : Span) (context : σ) :
    streamDecoderFeed V callback decoder data context =
      (FeedState.mk decoder 0 context).deliverAll callback
        (segmentFrames (bytesTrace V decoder data.data).2) (bytesTrace V decoder data.data).1 := by
  rw [streamDecoderFeed, foldl_feedByte_eq]
  split
  · rename_i h
    -- a null pointer with a length is refused and feeds nothing
    cases data with
    | null n => simp [bytesTrace, FeedState.deliverAll, segmentFrames]
    | bytes bs => simp at h
  · rfl

end Oomwoo
