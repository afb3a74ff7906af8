import Oomwoo.Identity.Service
import Oomwoo.Ingress.CpuIngress

namespace Oomwoo

open Bytes

/-!
# The firmware harness

`main.cpp`: the globals behind the ingress callback, the callback that answers identify requests,
`setup` and `loop`.  The callback gets a null context and reaches the globals directly, so the
globals are the memory behind `callbackContext` here.  `Serial` transmits everything it is given;
`serial` lists the bytes written to it.

`loop` feeds the ingress one received byte at a time and resets it after a receive gap.
`harnessRun` is `setup` followed by any sequence of feed and reset calls; a run of the firmware
is one of these (`firmwareRun_eq`).
-/

/-- The compile-time settings of the firmware, and the sequence number `setup` starts from (`0` in
    the firmware). -/
structure Firmware where
  versionMajor : UInt16
  versionMinor : UInt16
  buildId : UInt32
  initialSequence : UInt16

structure Globals where
  identity : Identity
  txBuffer : List UInt8
  serial : List UInt8
  deriving DecidableEq, Repr

/-- The globals before `setup`, in static storage. -/
def Globals.zero : Globals where
  identity := ⟨0, 0, 0, 0⟩
  txBuffer := List.replicate identityHelloFrameSize 0
  serial := []

/-- What a call of the identity service with `&identity` and `tx_buffer` leaves, after
    `if (... == OOMWOO_IDENTITY_OK) Serial.write(tx_buffer, frame_length)`. -/
def Globals.after (globals : Globals) (call : IdentityCall) : Globals where
  identity := call.identity.getD globals.identity
  txBuffer := call.output.data
  serial :=
    if call.result = .ok then
      globals.serial ++ call.output.data.take (call.outputLength.getD 0)
    else globals.serial

def sendHello (V : WireVersion) (globals : Globals) : Globals :=
  globals.after (identityEmitHello V (some globals.identity) (.bytes globals.txBuffer) (some 0))

def handleMessage (V : WireVersion) (_ : DecodedFrame) (message : Message) (globals : Globals) :
    Globals :=
  globals.after (identityHandleMessage V (some globals.identity) (some message)
    (.bytes globals.txBuffer) (some 0))

def setup (V : WireVersion) (firmware : Firmware) : CpuIngress Globals :=
  let globals := Globals.zero
  let ingress := cpuIngressInit (some (handleMessage V)) globals
  let identity := identityInit (some globals.identity) firmware.versionMajor
    firmware.versionMinor firmware.buildId firmware.initialSequence
  let globals := { globals with identity := identity.getD globals.identity }
  { ingress with callbackContext := sendHello V globals }

/-! ### The main loop -/

/-- `kFramingGapMs` -/
def framingGapMs : UInt32 := 50

/-- The ingress with the globals behind it, and `last_rx_ms`. -/
structure Harness where
  ingress : CpuIngress Globals
  lastRxMs : UInt32

/-- The body of the read loop, for a byte and the `millis()` of its read. -/
def receiveByte (V : WireVersion) (harness : Harness) (read : UInt8 × UInt32) : Harness where
  ingress := (cpuIngressFeed V harness.ingress (.bytes [read.1])).1
  lastRxMs := read.2

/-- One call of `loop`: the bytes that were available, and the `millis()` of the gap test.  The
    subtraction wraps. -/
def loop (V : WireVersion) (harness : Harness) (reads : List (UInt8 × UInt32)) (now : UInt32) :
    Harness :=
  let harness := reads.foldl (receiveByte V) harness
  if harness.ingress.decoder.bufferedBytes ≠ 0 ∧ now - harness.lastRxMs > framingGapMs then
    { harness with ingress := cpuIngressResetIncomplete harness.ingress }
  else harness

/-- A run of the firmware, by what each call of `loop` finds. -/
def firmwareRun (V : WireVersion) (firmware : Firmware)
    (calls : List (List (UInt8 × UInt32) × UInt32)) : Harness :=
  calls.foldl (fun harness call => loop V harness call.1 call.2) ⟨setup V firmware, 0⟩

/-- `setup`, then any sequence of feed and reset calls. -/
def harnessRun (V : WireVersion) (firmware : Firmware) (ops : List StreamOp) :
    CpuIngress Globals :=
  ingressOps V (setup V firmware) ops

/-- The globals after `setup` and after the decoder has handed `frames` to the ingress. -/
def globalsAfter (V : WireVersion) (firmware : Firmware) (frames : List DecodedFrame) : Globals :=
  let feed : FeedContext Globals :=
    { stats := (setup V firmware).stats
      callbackContext := (setup V firmware).callbackContext
      accepted := 0 }
  (frames.foldl (fun feed frame => handleFrame V (setup V firmware).callback frame feed)
    feed).callbackContext

/-! ### Runs of the firmware are runs of the ingress -/

/-- The read loop feeds its bytes. -/
theorem foldl_receiveByte (V : WireVersion) (harness : Harness) (reads : List (UInt8 × UInt32)) :
    (reads.foldl (receiveByte V) harness).ingress =
      ingressOps V harness.ingress (reads.map fun read => .feed (.bytes [read.1])) := by
  induction reads generalizing harness with
  | nil => rfl
  | cons read reads ih =>
    rw [List.foldl_cons, ih]
    rfl

theorem fedBytes_reads (reads : List (UInt8 × UInt32)) :
    fedBytes (reads.map fun read => .feed (.bytes [read.1])) = reads.map Prod.fst := by
  induction reads with
  | nil => rfl
  | cons read reads ih =>
    rw [List.map_cons, List.map_cons, ← ih]
    rfl

/-- One call of `loop` feeds its bytes and may reset. -/
theorem loop_eq (V : WireVersion) (harness : Harness) (reads : List (UInt8 × UInt32))
    (now : UInt32) :
    ∃ ops, (loop V harness reads now).ingress = ingressOps V harness.ingress ops ∧
      fedBytes ops = reads.map Prod.fst := by
  have hreads := foldl_receiveByte V harness reads
  unfold loop
  simp only
  split
  · -- the gap test resets behind the last byte
    refine ⟨(reads.map fun read => .feed (.bytes [read.1])) ++ [.resetIncomplete], ?_, ?_⟩
    · rw [ingressOps_append, ← hreads]
      rfl
    · rw [fedBytes_append, fedBytes_reads]
      exact List.append_nil _
  · exact ⟨_, hreads, fedBytes_reads reads⟩

/-- **Every run of the firmware** is `setup` followed by feed and reset calls that feed the bytes
    read. -/
theorem firmwareRun_eq (V : WireVersion) (firmware : Firmware)
    (calls : List (List (UInt8 × UInt32) × UInt32)) :
    ∃ ops, (firmwareRun V firmware calls).ingress = harnessRun V firmware ops ∧
      fedBytes ops = calls.flatMap fun call => call.1.map Prod.fst := by
  have hrun : ∀ harness : Harness, ∃ ops,
      (calls.foldl (fun harness call => loop V harness call.1 call.2) harness).ingress =
        ingressOps V harness.ingress ops ∧
      fedBytes ops = calls.flatMap fun call => call.1.map Prod.fst := by
    induction calls with
    | nil => exact fun harness => ⟨[], rfl, rfl⟩
    | cons call calls ih =>
      intro harness
      obtain ⟨first, hfirst, hfed⟩ := loop_eq V harness call.1 call.2
      obtain ⟨rest, hrest, hfed'⟩ := ih (loop V harness call.1 call.2)
      refine ⟨first ++ rest, ?_, ?_⟩
      · rw [List.foldl_cons, hrest, hfirst, ingressOps_append]
      · rw [fedBytes_append, hfed, hfed', List.flatMap_cons]
  exact hrun ⟨setup V firmware, 0⟩

end Oomwoo
