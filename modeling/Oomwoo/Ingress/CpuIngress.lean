import Oomwoo.Messages.Payload
import Oomwoo.Protocol.StreamDecoder

namespace Oomwoo

open Bytes

/-!
# The CPU ingress gate

`oomwoo_cpu_ingress.c`: the decoder of the byte stream with a frame callback that lets a frame
pass only after version, direction, payload and values have been checked, counts every frame, and
hands the passed ones to the consumer as typed messages.

`callback` is what the consumer does to the memory behind `callbackContext`; it has no access to
the ingress object, as the header asks.  `none` is a null callback.
-/

inductive CpuIngressResult where
  | ok
  | nullArgument
  | badVersion
  | wrongDirection
  | unknownType
  | payloadUndefined
  | wrongPayloadLength
  | valueOutOfRange
  | codecError
  deriving DecidableEq, Repr

structure CpuIngressStats where
  acceptedMessages : UInt32
  wrongDirection : UInt32
  unknownType : UInt32
  undefinedPayload : UInt32
  wrongPayloadLength : UInt32
  valueOutOfRange : UInt32
  codecErrors : UInt32
  deriving DecidableEq, Repr

def CpuIngressStats.zero : CpuIngressStats := ⟨0, 0, 0, 0, 0, 0, 0⟩

variable {κ : Type}

structure CpuIngress (κ : Type) where
  decoder : StreamDecoder
  stats : CpuIngressStats
  callback : Option (DecodedFrame → Message → κ → κ)
  callbackContext : κ

/-! ### The gate -/

def mapMessageResult : MessageResult → CpuIngressResult
  | .ok => .ok
  | .nullArgument => .nullArgument
  | .unknownType => .unknownType
  | .payloadUndefined => .payloadUndefined
  | .wrongPayloadLength => .wrongPayloadLength
  | .valueOutOfRange => .valueOutOfRange
  | .outputTooSmall => .codecError

def cpuIngressValidateFrame (V : WireVersion) (frame : Option DecodedFrame)
    (output : Option Message) : CpuIngressResult × Option Message :=
  match output with
  | none => (.nullArgument, none)
  | some _ =>
    let output := some Message.zero
    match frame with
    | none => (.nullArgument, output)
    | some frame =>
      if frame.payload.isNull && frame.payloadLength ≠ 0 then (.nullArgument, output)
      else if frame.version ≠ V.byte then (.badVersion, output)
      else
        let direction := messageDirection frame.messageType
        if direction = .unknown then (.unknownType, output)
        else if direction ≠ .cpuToMcu ∧ direction ≠ .both then (.wrongDirection, output)
        else
          let (result, output) := messageDecodePayload frame.messageType frame.payload output
          (mapMessageResult result, output)

def countRejection (stats : CpuIngressStats) : CpuIngressResult → CpuIngressStats
  | .wrongDirection => { stats with wrongDirection := stats.wrongDirection + 1 }
  | .unknownType => { stats with unknownType := stats.unknownType + 1 }
  | .payloadUndefined => { stats with undefinedPayload := stats.undefinedPayload + 1 }
  | .wrongPayloadLength => { stats with wrongPayloadLength := stats.wrongPayloadLength + 1 }
  | .valueOutOfRange => { stats with valueOutOfRange := stats.valueOutOfRange + 1 }
  | .codecError => { stats with codecErrors := stats.codecErrors + 1 }
  | .ok | .nullArgument | .badVersion => stats

/-! ### The frame callback and the calls of the header -/

/-- What the frame callback can reach: `feed->accepted`, and of `feed->ingress` everything but
    the decoder that is running it and the callback itself. -/
structure FeedContext (κ : Type) where
  stats : CpuIngressStats
  callbackContext : κ
  accepted : Nat

/-- `if (callback != NULL) callback(frame, &message, callback_context)` -/
def invokeMessageCallback (callback : Option (DecodedFrame → Message → κ → κ))
    (frame : DecodedFrame) (message : Message) (context : κ) : κ :=
  match callback with
  | none => context
  | some run => run frame message context

/-- The `message` local is not initialised; `.zero` stands for what it holds. -/
def handleFrame (V : WireVersion) (callback : Option (DecodedFrame → Message → κ → κ))
    (frame : DecodedFrame) (feed : FeedContext κ) : FeedContext κ :=
  match cpuIngressValidateFrame V (some frame) (some .zero) with
  | (.ok, some message) =>
    { stats := { feed.stats with acceptedMessages := feed.stats.acceptedMessages + 1 }
      callbackContext := invokeMessageCallback callback frame message feed.callbackContext
      accepted := feed.accepted + 1 }
  | (result, _) => { feed with stats := countRejection feed.stats result }

def cpuIngressInit (callback : Option (DecodedFrame → Message → κ → κ)) (callbackContext : κ) :
    CpuIngress κ where
  decoder := streamDecoderInit
  stats := .zero
  callback := callback
  callbackContext := callbackContext

/-- Returns the ingress and the number of messages accepted. -/
def cpuIngressFeed (V : WireVersion) (ingress : CpuIngress κ) (data : Span) :
    CpuIngress κ × Nat :=
  if data.isNull && data.length ≠ 0 then (ingress, 0)
  else
    let fed := streamDecoderFeed V (some (handleFrame V ingress.callback)) ingress.decoder data
      { stats := ingress.stats, callbackContext := ingress.callbackContext, accepted := 0 }
    ({ ingress with
        decoder := fed.decoder
        stats := fed.context.stats
        callbackContext := fed.context.callbackContext },
      fed.context.accepted)

def cpuIngressResetIncomplete (ingress : CpuIngress κ) : CpuIngress κ :=
  { ingress with decoder := streamDecoderResetIncomplete ingress.decoder }

/-! ### Runs -/

/-- One call of `_feed` or `_reset_incomplete`. -/
def ingressOp (V : WireVersion) (ingress : CpuIngress κ) : StreamOp → CpuIngress κ
  | .feed data => (cpuIngressFeed V ingress data).1
  | .resetIncomplete => cpuIngressResetIncomplete ingress

/-- A sequence of calls. -/
def ingressOps (V : WireVersion) (ingress : CpuIngress κ) (ops : List StreamOp) : CpuIngress κ :=
  ops.foldl (ingressOp V) ingress

theorem ingressOps_append (V : WireVersion) (ingress : CpuIngress κ) (a b : List StreamOp) :
    ingressOps V ingress (a ++ b) = ingressOps V (ingressOps V ingress a) b :=
  List.foldl_append

/-- A run from the initialised ingress. -/
def ingressRun (V : WireVersion) (callback : Option (DecodedFrame → Message → κ → κ))
    (callbackContext : κ) (ops : List StreamOp) : CpuIngress κ :=
  ingressOps V (cpuIngressInit callback callbackContext) ops

/-- A callback that appends the pair it is given to its context. -/
def recordMessage (frame : DecodedFrame) (message : Message) (log : List (DecodedFrame × Message)) :
    List (DecodedFrame × Message) :=
  log ++ [(frame, message)]

/-- The pairs the callback is given in a run, in order. -/
def ingressLog (V : WireVersion) (ops : List StreamOp) : List (DecodedFrame × Message) :=
  (ingressRun V (some recordMessage) [] ops).callbackContext

end Oomwoo
