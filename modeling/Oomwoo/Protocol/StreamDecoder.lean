import Oomwoo.Protocol.Frame

namespace Oomwoo

open Bytes

/-!
# The bounded incremental stream decoder

`oomwoo_stream_decoder_init`, `_feed` and `_reset_incomplete` with their helpers.  The buffer is
the C array: its first `bufferedBytes` bytes are live and the rest is whatever earlier moves left
there.  The `while (processing)` loop is split into its body, `processPass`, and the iteration,
`processLoop`; a fuel argument bounds the iteration, and `processLoop_enough` (in
`Oomwoo.Protocol.LoopRun`) shows that the fuel it is called with never runs out.

`callback` is what the frame callback does to the memory behind `context`; `none` is a null
callback.
-/

structure DecoderStats where
  frames : UInt32
  discardedBytes : UInt32
  crcErrors : UInt32
  versionErrors : UInt32
  lengthErrors : UInt32
  gapResets : UInt32
  deriving DecidableEq, Repr

structure StreamDecoder where
  buffer : List UInt8
  bufferedBytes : Nat
  stats : DecoderStats
  deriving DecidableEq, Repr

def DecoderStats.zero : DecoderStats := ⟨0, 0, 0, 0, 0, 0⟩

/-- `memset(decoder, 0, sizeof(*decoder))` -/
def streamDecoderInit : StreamDecoder where
  buffer := List.replicate maxFrameSize 0
  bufferedBytes := 0
  stats := .zero

/-! ### Leaving the buffer -/

def removePrefix (decoder : StreamDecoder) (count : Nat) (discarded : Bool) : StreamDecoder :=
  if count = 0 ∨ decoder.bufferedBytes < count then decoder
  else
    let stats :=
      if discarded then
        { decoder.stats with
          discardedBytes := decoder.stats.discardedBytes + UInt32.ofNat count }
      else decoder.stats
    let remaining := decoder.bufferedBytes - count
    let buffer :=
      if remaining ≠ 0 then writeAt decoder.buffer 0 ((decoder.buffer.drop count).take remaining)
      else decoder.buffer
    { buffer := buffer, bufferedBytes := remaining, stats := stats }

/-- The `for` loop of the resync: the first `index ≥ 1` with the magic at `index, index + 1`,
    both inside the live bytes. -/
def findMagic (decoder : StreamDecoder) : Option Nat :=
  (List.range' 1 (decoder.bufferedBytes - 2)).find? fun index =>
    byteAt decoder.buffer index == magic0 && byteAt decoder.buffer (index + 1) == magic1

def resyncAfterError (decoder : StreamDecoder) : StreamDecoder :=
  match findMagic decoder with
  | some index => removePrefix decoder index true
  | none =>
    if decoder.bufferedBytes ≠ 0 ∧
        byteAt decoder.buffer (decoder.bufferedBytes - 1) = magic0 then
      removePrefix decoder (decoder.bufferedBytes - 1) true
    else
      removePrefix decoder decoder.bufferedBytes true

/-! ### The processing loop -/

/-- What one pass of the loop body leaves: the decoder, the frame handed to the callback if the
    pass delivered one, and the new value of `processing`. -/
structure Pass where
  decoder : StreamDecoder
  frame : Option DecodedFrame
  processing : Bool

/-- A `continue` with `processing` still `0`. -/
def Pass.wait (decoder : StreamDecoder) : Pass := ⟨decoder, none, false⟩

/-- The resync exits: after the counter, resync and go on while two bytes are left. -/
def Pass.resync (decoder : StreamDecoder) : Pass :=
  let decoder := resyncAfterError decoder
  ⟨decoder, none, decide (2 ≤ decoder.bufferedBytes)⟩

/-- The delivery exit. -/
def Pass.deliver (decoder : StreamDecoder) (frame : DecodedFrame) (frameLength : Nat) : Pass :=
  let decoder := { decoder with stats.frames := decoder.stats.frames + 1 }
  let decoder := removePrefix decoder frameLength false
  ⟨decoder, some frame, decide (2 ≤ decoder.bufferedBytes)⟩

/-- The body of `while (processing)`. -/
def processPass (V : WireVersion) (decoder : StreamDecoder) : Pass :=
  if decoder.bufferedBytes = 1 then
    if byteAt decoder.buffer 0 ≠ magic0 then .wait (removePrefix decoder 1 true)
    else .wait decoder
  else if decoder.bufferedBytes < 2 then .wait decoder
  else if byteAt decoder.buffer 0 ≠ magic0 ∨ byteAt decoder.buffer 1 ≠ magic1 then
    .resync decoder
  else if decoder.bufferedBytes < headerSize then .wait decoder
  else if byteAt decoder.buffer 2 ≠ V.byte then
    .resync { decoder with stats.versionErrors := decoder.stats.versionErrors + 1 }
  else
    let payloadLength := (readU16Le (decoder.buffer.drop 8)).toNat
    if maxPayloadSize < payloadLength then
      .resync { decoder with stats.lengthErrors := decoder.stats.lengthErrors + 1 }
    else
      let frameLength := headerSize + payloadLength + crcSize
      if decoder.bufferedBytes < frameLength then .wait decoder
      else
        match decodeFrame V (.bytes (decoder.buffer.take frameLength)) (some .zero) with
        | (.ok, some frame) => .deliver decoder frame frameLength
        | (.badCrc, _) =>
          .resync { decoder with stats.crcErrors := decoder.stats.crcErrors + 1 }
        | _ => .resync { decoder with stats.lengthErrors := decoder.stats.lengthErrors + 1 }

/-- The variables of `oomwoo_stream_decoder_feed` that the loop updates. -/
structure FeedState (σ : Type) where
  decoder : StreamDecoder
  emitted : Nat
  context : σ

variable {σ : Type}

/-- `if (callback != NULL) callback(&frame, context)` -/
def invokeCallback (callback : Option (DecodedFrame → σ → σ)) (frame : DecodedFrame)
    (context : σ) : σ :=
  match callback with
  | none => context
  | some run => run frame context

/-- The state after one pass. -/
def FeedState.after (callback : Option (DecodedFrame → σ → σ)) (pass : Pass)
    (state : FeedState σ) : FeedState σ :=
  match pass.frame with
  | none => { state with decoder := pass.decoder }
  | some frame =>
    { decoder := pass.decoder
      emitted := state.emitted + 1
      context := invokeCallback callback frame state.context }

/-- `while (processing)`, with `fuel` passes at most. -/
def processLoop (V : WireVersion) (callback : Option (DecodedFrame → σ → σ)) :
    Nat → FeedState σ → FeedState σ
  | 0, state => state
  | fuel + 1, state =>
    let pass := processPass V state.decoder
    let state := state.after callback pass
    if pass.processing then processLoop V callback fuel state else state

/-- Make room if the buffer is full, then append the byte. -/
def appendByte (decoder : StreamDecoder) (byte : UInt8) : StreamDecoder :=
  let decoder :=
    if decoder.bufferedBytes = maxFrameSize then resyncAfterError decoder else decoder
  { decoder with
    buffer := writeAt decoder.buffer decoder.bufferedBytes [byte]
    bufferedBytes := decoder.bufferedBytes + 1 }

/-- The body of the `for` loop over the input. -/
def feedByte (V : WireVersion) (callback : Option (DecodedFrame → σ → σ)) (state : FeedState σ)
    (byte : UInt8) : FeedState σ :=
  let decoder := appendByte state.decoder byte
  processLoop V callback decoder.bufferedBytes { state with decoder := decoder }

/-- Returns the state behind `decoder` and `context` and the number of frames emitted. -/
def streamDecoderFeed (V : WireVersion) (callback : Option (DecodedFrame → σ → σ))
    (decoder : StreamDecoder) (data : Span) (context : σ) : FeedState σ :=
  if data.isNull && data.length ≠ 0 then ⟨decoder, 0, context⟩
  else data.data.foldl (feedByte V callback) ⟨decoder, 0, context⟩

def streamDecoderResetIncomplete (decoder : StreamDecoder) : StreamDecoder :=
  if decoder.bufferedBytes = 0 then decoder
  else
    { decoder with
      stats.discardedBytes := decoder.stats.discardedBytes + UInt32.ofNat decoder.bufferedBytes
      stats.gapResets := decoder.stats.gapResets + 1
      bufferedBytes := 0 }

/-! ### Runs -/

/-- A call a user of the decoder can make after the initialisation. -/
inductive StreamOp where
  | feed (data : Span)
  | resetIncomplete

/-- One call; `emitted` adds up the return values. -/
def runOp (V : WireVersion) (callback : Option (DecodedFrame → σ → σ)) (state : FeedState σ) :
    StreamOp → FeedState σ
  | .feed data =>
    let result := streamDecoderFeed V callback state.decoder data state.context
    { result with emitted := state.emitted + result.emitted }
  | .resetIncomplete =>
    { state with decoder := streamDecoderResetIncomplete state.decoder }

/-- A sequence of calls. -/
def runOps (V : WireVersion) (callback : Option (DecodedFrame → σ → σ)) (state : FeedState σ)
    (ops : List StreamOp) : FeedState σ :=
  ops.foldl (runOp V callback) state

/-- A callback that appends every frame it is given to its context. -/
def recordFrame (frame : DecodedFrame) (log : List DecodedFrame) : List DecodedFrame :=
  log ++ [frame]

/-- A run from the initialised decoder, every callback recorded. -/
def decoderRun (V : WireVersion) (ops : List StreamOp) : FeedState (List DecodedFrame) :=
  runOps V (some recordFrame) ⟨streamDecoderInit, 0, []⟩ ops

/-- The bytes fed by a sequence of calls. -/
def fedBytes (ops : List StreamOp) : List UInt8 :=
  ops.flatMap fun
    | .feed data => data.data
    | .resetIncomplete => []

theorem fedBytes_append (a b : List StreamOp) : fedBytes (a ++ b) = fedBytes a ++ fedBytes b :=
  List.flatMap_append

end Oomwoo
