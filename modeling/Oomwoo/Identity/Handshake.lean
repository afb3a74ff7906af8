import Oomwoo.Identity.Harness
import Oomwoo.Ingress.Admission

namespace Oomwoo

open Bytes

/-!
# The identity handshake over whole runs

A request that the gate admits makes the harness write one hello and advance its counter; no
other message changes anything (`handleMessage_eq`).  So in every run the serial port carries one
hello for the start and one for every admitted request, numbered without a gap
(`identity_handshake`).
-/

/-! ### Answers -/

/-- The harness after one more hello. -/
def Globals.answer (V : WireVersion) (globals : Globals) : Globals where
  identity := globals.identity.advance
  txBuffer := helloFrame V globals.identity
  serial := globals.serial ++ helloFrame V globals.identity

/-- The transmit buffer has the size of a hello. -/
def Globals.Sized (globals : Globals) : Prop := globals.txBuffer.length = 20

/-- The admitted identify requests. -/
def requestCount (pairs : List (DecodedFrame × Message)) : Nat :=
  pairs.countP fun pair => pair.2.type == MessageType.identifyRequest.code

section Answers

variable {V : WireVersion} {globals : Globals}

theorem Globals.sized_answer : (globals.answer V).Sized := length_helloFrame V globals.identity

/-- **The exact-fit buffer is enough**: emitting a hello never fails. -/
theorem sendHello_eq (h : globals.Sized) : sendHello V globals = globals.answer V := by
  unfold Globals.Sized at h
  have hlen := length_helloFrame V globals.identity
  -- the frame covers the whole buffer, so nothing of the last one is left
  have hstored : writeAt globals.txBuffer 0 (helloFrame V globals.identity) =
      helloFrame V globals.identity := by
    rw [writeAt_zero, hlen, ← h, List.drop_length, List.append_nil]
  unfold sendHello
  rw [identityEmitHello_ok V globals.identity globals.txBuffer 0 (Nat.le_of_eq h.symm), hstored]
  unfold Globals.after Globals.answer
  show Globals.mk _ _ (globals.serial ++ (helloFrame V globals.identity).take 20) = _
  rw [List.take_of_length_le (Nat.le_of_eq hlen)]
  rfl

/-- **The callback** answers an identify request and ignores everything else. -/
theorem handleMessage_eq (h : globals.Sized) (frame : DecodedFrame) (message : Message) :
    handleMessage V frame message globals =
      if message.type = MessageType.identifyRequest.code then globals.answer V else globals := by
  unfold handleMessage
  rw [identityHandleMessage_eq]
  split
  · exact sendHello_eq h
  · rfl

/-- The callback on a list of admitted messages: one answer for each request. -/
theorem callAll_handleMessage (h : globals.Sized) (pairs : List (DecodedFrame × Message)) :
    callAll (some (handleMessage V)) pairs globals =
      (Globals.answer V)^[requestCount pairs] globals := by
  induction pairs generalizing globals with
  | nil => rfl
  | cons pair pairs ih =>
    have hstep : callAll (some (handleMessage V)) (pair :: pairs) globals =
        callAll (some (handleMessage V)) pairs (handleMessage V pair.1 pair.2 globals) := rfl
    rw [hstep, handleMessage_eq h]
    by_cases hrequest : pair.2.type = MessageType.identifyRequest.code
    · rw [if_pos hrequest, ih Globals.sized_answer, requestCount, requestCount,
        List.countP_cons_of_pos (by simpa using hrequest), Function.iterate_succ_apply]
    · rw [if_neg hrequest, ih h, requestCount, requestCount,
        List.countP_cons_of_neg (by simpa using hrequest)]

end Answers

/-! ### The hellos of a run -/

/-- The identity when `i` hellos are out. -/
def Firmware.identityAt (firmware : Firmware) (i : Nat) : Identity where
  firmwareMajor := firmware.versionMajor
  firmwareMinor := firmware.versionMinor
  buildId := firmware.buildId
  nextSequence := firmware.initialSequence + UInt16.ofNat i

/-- The hello frames of a run, in order. -/
def hello (V : WireVersion) (firmware : Firmware) (i : Nat) : List UInt8 :=
  helloFrame V (firmware.identityAt i)

theorem advance_identityAt (firmware : Firmware) (i : Nat) :
    (firmware.identityAt i).advance = firmware.identityAt (i + 1) := by
  unfold Identity.advance Firmware.identityAt
  simp only [Identity.mk.injEq, true_and]
  rw [UInt16.ofNat_add, UInt16.add_assoc]
  rfl

/-- The globals when `n` hellos are out. -/
structure Hellos (V : WireVersion) (firmware : Firmware) (n : Nat) (globals : Globals) : Prop where
  sized : globals.Sized
  identity : globals.identity = firmware.identityAt n
  serial : globals.serial = (List.range n).flatMap (hello V firmware)

section Runs

variable {V : WireVersion} {firmware : Firmware} {globals : Globals} {n : Nat}

/-- **One answer sends the next hello.** -/
theorem Hellos.answer (h : Hellos V firmware n globals) :
    Hellos V firmware (n + 1) (globals.answer V) := by
  refine ⟨Globals.sized_answer, ?_, ?_⟩
  · show globals.identity.advance = _
    rw [h.identity, advance_identityAt]
  · show globals.serial ++ helloFrame V globals.identity = _
    rw [h.serial, h.identity, List.range_succ, List.flatMap_append, List.flatMap_singleton]
    rfl

/-- And so do several. -/
theorem Hellos.iterate (h : Hellos V firmware n globals) (k : Nat) :
    Hellos V firmware (n + k) ((Globals.answer V)^[k] globals) := by
  induction k with
  | zero => exact h
  | succ k ih =>
    rw [Function.iterate_succ_apply']
    exact ih.answer

/-- `setup` sends the first hello. -/
theorem hellos_setup (V : WireVersion) (firmware : Firmware) :
    Hellos V firmware 1 (setup V firmware).callbackContext := by
  have hstart : Hellos V firmware 0
      { Globals.zero with identity := firmware.identityAt 0 } :=
    ⟨List.length_replicate, rfl, rfl⟩
  have hsetup : (setup V firmware).callbackContext =
      sendHello V { Globals.zero with identity := firmware.identityAt 0 } := by
    unfold setup Firmware.identityAt
    rw [show UInt16.ofNat 0 = 0 from rfl, UInt16.add_zero]
    rfl
  rw [hsetup, sendHello_eq hstart.sized]
  exact hstart.answer

/-- **After any frames** the hellos are one for the start and one for each admitted request. -/
theorem hellos_globalsAfter (V : WireVersion) (firmware : Firmware)
    (frames : List DecodedFrame) :
    Hellos V firmware (1 + requestCount (frames.filterMap (admitted V)))
      (globalsAfter V firmware frames) := by
  have hsetup := hellos_setup V firmware
  -- what the frame callback does is known for every consumer
  have hcalls := foldl_handleFrame V (setup V firmware).callback frames
    ⟨(setup V firmware).stats, (setup V firmware).callbackContext, 0⟩
  unfold globalsAfter
  show Hellos V firmware _ (List.foldl (fun feed frame =>
    invokeCallback (some (handleFrame V (setup V firmware).callback)) frame feed) _
    frames).callbackContext
  rw [hcalls]
  show Hellos V firmware _ (callAll (some (handleMessage V)) _ (setup V firmware).callbackContext)
  rw [callAll_handleMessage hsetup.sized]
  exact hsetup.iterate _

/-- The globals of a run are those after its delivered frames. -/
theorem harnessRun_callbackContext (V : WireVersion) (firmware : Firmware)
    (ops : List StreamOp) :
    (harnessRun V firmware ops).callbackContext =
      globalsAfter V firmware (decoderRun V ops).context := by
  have hcalls := foldl_handleFrame V (setup V firmware).callback (decoderRun V ops).context
    ⟨(setup V firmware).stats, (setup V firmware).callbackContext, 0⟩
  have hrun := ingressOps_eq V (setup V firmware) ops
  rw [decoderRun_eq] at hcalls ⊢
  unfold harnessRun
  rw [hrun]
  exact (congrArg FeedContext.callbackContext hcalls).symm

end Runs

/-- `bytes` is a complete frame that announces the firmware as the hello number `i`. -/
structure AnnouncesFirmware (V : WireVersion) (firmware : Firmware) (i : Nat)
    (frame : DecodedFrame) (message : Message) (bytes : List UInt8) : Prop where
  decoded : decodeFrame V (.bytes bytes) (some .zero) = (.ok, some frame)
  isHello : frame.messageType = MessageType.mcuHello.code
  sequence : frame.sequence.toNat = (firmware.initialSequence.toNat + i) % 2 ^ 16
  flags : frame.flags = 0
  payload : messageDecodePayload frame.messageType frame.payload (some .zero) =
    (.ok, some message)
  identity : message.payload.mcuHello =
    ⟨firmware.versionMajor, firmware.versionMinor, firmware.buildId⟩

theorem announces_hello (V : WireVersion) (firmware : Firmware) (i : Nat) :
    ∃ frame message, AnnouncesFirmware V firmware i frame message (hello V firmware i) := by
  obtain ⟨hframe, message, hpayload, hfields⟩ := decode_helloFrame V (firmware.identityAt i)
  refine ⟨_, message, hframe, rfl, ?_, rfl, hpayload, hfields⟩
  show (firmware.initialSequence + UInt16.ofNat i).toNat = _
  rw [UInt16.toNat_add, UInt16.toNat_ofNat', Nat.add_mod_mod]

/-- **The identity handshake.** There is one list of hello frames, numbered from the initial
    sequence with wrap-around and announcing the configured firmware, such that in every run, at
    every moment between two frames handed to the ingress, the bytes transmitted so far are its
    first `1 + k` frames, where `k` requests have been admitted so far, and the counter has
    advanced by as many. -/
theorem identity_handshake (V : WireVersion) (firmware : Firmware) :
    ∃ hello : Nat → List UInt8,
      (∀ i, ∃ frame message, AnnouncesFirmware V firmware i frame message (hello i)) ∧
      ∀ ops : List StreamOp,
        let globals := (harnessRun V firmware ops).callbackContext
        let frames := (decoderRun V ops).context
        let k := requestCount (ingressLog V ops)
        globals.serial = (List.range (1 + k)).flatMap hello ∧
          globals.identity.nextSequence.toNat =
            (firmware.initialSequence.toNat + 1 + k) % 2 ^ 16 ∧
          globals = globalsAfter V firmware frames ∧
          ingressLog V ops = frames.filterMap (admitted V) ∧
          ∀ n, (globalsAfter V firmware (frames.take n)).serial =
            (List.range (1 + requestCount ((frames.take n).filterMap (admitted V)))).flatMap
              hello := by
  refine ⟨hello V firmware, announces_hello V firmware, ?_⟩
  intro ops
  have hrun := hellos_globalsAfter V firmware (decoderRun V ops).context
  rw [← ingressLog_eq, ← harnessRun_callbackContext] at hrun
  refine ⟨hrun.serial, ?_, harnessRun_callbackContext V firmware ops, ingressLog_eq V ops, ?_⟩
  · rw [hrun.identity]
    show (firmware.initialSequence + UInt16.ofNat _).toNat = _
    rw [UInt16.toNat_add, UInt16.toNat_ofNat', Nat.add_mod_mod, Nat.add_assoc]
  · intro n
    exact (hellos_globalsAfter V firmware _).serial

end Oomwoo
