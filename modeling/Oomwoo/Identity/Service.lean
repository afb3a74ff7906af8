import Oomwoo.Messages.RoundTrip
import Oomwoo.Protocol.FrameCodec

namespace Oomwoo

open Bytes

/-!
# The identity service

`oomwoo_identity.c`: the configured firmware identity with its sequence counter, and the hello
frame that announces it.  The two functions that may fail return what every pointer argument
designates afterwards as an `IdentityCall`.

`helloFrame` is the wire form of the hello as a mathematical value; with usable pointers and room
for it the service stores exactly these bytes and advances the counter (`identityEmitHello_ok`).
-/

structure Identity where
  firmwareMajor : UInt16
  firmwareMinor : UInt16
  buildId : UInt32
  nextSequence : UInt16
  deriving DecidableEq, Repr

inductive IdentityResult where
  | ok
  | ignored
  | nullArgument
  | outputTooSmall
  | codecError
  deriving DecidableEq, Repr

def identityHelloPayloadSize : Nat := 8
def identityHelloFrameSize : Nat := headerSize + identityHelloPayloadSize + crcSize

/-- The result of a call, and what its pointer arguments designate afterwards. -/
structure IdentityCall where
  result : IdentityResult
  identity : Option Identity
  output : Span
  outputLength : Option Nat

def identityInit (identity : Option Identity) (firmwareMajor firmwareMinor : UInt16)
    (buildId : UInt32) (initialSequence : UInt16) : Option Identity :=
  identity.map fun _ => ⟨firmwareMajor, firmwareMinor, buildId, initialSequence⟩

/-- The local `message` of the emitter. -/
def Identity.helloMessage (identity : Identity) : Message where
  type := MessageType.mcuHello.code
  payload := { Message.zero.payload with
    mcuHello := {
      firmwareMajor := identity.firmwareMajor
      firmwareMinor := identity.firmwareMinor
      buildId := identity.buildId } }

def identityEmitHello (V : WireVersion) (identity : Option Identity) (output : Span)
    (outputLength : Option Nat) : IdentityCall :=
  match outputLength with
  | none => ⟨.nullArgument, identity, output, none⟩
  | some _ =>
    match identity with
    | none => ⟨.nullArgument, none, output, some 0⟩
    | some state =>
      if output.isNull then ⟨.nullArgument, some state, output, some 0⟩
      else if output.length < identityHelloFrameSize then
        ⟨.outputTooSmall, some state, output, some 0⟩
      else
        let message := state.helloMessage
        -- the local payload array is not initialised; zeros stand for what it holds
        match messageEncodePayload (some message)
            (.bytes (List.replicate identityHelloPayloadSize 0)) (some 0) with
        | (.ok, payload, some payloadLength) =>
          match encodeFrame V message.type (.bytes (payload.data.take payloadLength))
              state.nextSequence 0 output (some 0) with
          | (.ok, output, outputLength) =>
            ⟨.ok, some { state with nextSequence := state.nextSequence + 1 }, output,
              outputLength⟩
          | (.outputTooSmall, output, _) => ⟨.outputTooSmall, some state, output, some 0⟩
          | (_, output, _) => ⟨.codecError, some state, output, some 0⟩
        | _ => ⟨.codecError, some state, output, some 0⟩

def identityHandleMessage (V : WireVersion) (identity : Option Identity)
    (message : Option Message) (output : Span) (outputLength : Option Nat) : IdentityCall :=
  match outputLength with
  | none => ⟨.nullArgument, identity, output, none⟩
  | some _ =>
    match identity, message with
    | some state, some message =>
      if message.type ≠ MessageType.identifyRequest.code then
        ⟨.ignored, some state, output, some 0⟩
      else identityEmitHello V (some state) output (some 0)
    | _, _ => ⟨.nullArgument, identity, output, some 0⟩

/-! ### The hello frame -/

/-- The payload of the hello on the wire. -/
def Identity.helloPayload (identity : Identity) : List UInt8 :=
  MessageType.mcuHello.layout.encode (MessageType.mcuHello.view identity.helloMessage.payload)

/-- The wire form of the next hello. -/
def helloFrame (V : WireVersion) (identity : Identity) : List UInt8 :=
  frameBytes V MessageType.mcuHello.code identity.helloPayload identity.nextSequence 0

/-- The identity once the hello is out; the counter wraps. -/
def Identity.advance (identity : Identity) : Identity :=
  { identity with nextSequence := identity.nextSequence + 1 }

section Hello

variable (V : WireVersion) (identity : Identity)

@[simp] theorem length_helloPayload : identity.helloPayload.length = 8 :=
  MessageType.mcuHello.layout.length_encode _

@[simp] theorem length_helloFrame : (helloFrame V identity).length = 20 := by
  unfold helloFrame
  rw [length_frameBytes, length_helloPayload]

/-- The hello is always valid. -/
theorem helloMessage_code : MessageType.ofCode? identity.helloMessage.type = some .mcuHello :=
  MessageType.ofCode?_code .mcuHello

/-- The payload encoder stores the hello's layout in the local array. -/
theorem messageEncodePayload_hello (scratch : List UInt8) (reported : Nat)
    (hroom : scratch.length = 8) :
    ∃ payload, messageEncodePayload (some identity.helloMessage) (.bytes scratch)
        (some reported) = (.ok, payload, some 8) ∧ payload.data.take 8 = identity.helloPayload := by
  have hdefined : MessageType.mcuHello.isDefined := by
    unfold MessageType.isDefined
    decide
  have hfits : MessageType.mcuHello.layout.width ≤ (Span.bytes scratch).length := by
    rw [Span.length_bytes, hroom]
    exact Nat.le_refl 8
  refine ⟨_, messageEncodePayload_ok_iff.mpr
    ⟨.mcuHello, helloMessage_code identity, hdefined, rfl, hfits, .inl rfl, rfl, rfl⟩, ?_⟩
  show (writeAt scratch 0 identity.helloPayload).take 8 = _
  rw [writeAt_zero]
  exact List.take_left' (length_helloPayload identity)

/-- **A hello is emitted** whenever the pointers are usable and the frame fits: it is stored at
    the start of the output and the counter advances by one. -/
theorem identityEmitHello_ok (output : List UInt8) (reported : Nat) (hroom : 20 ≤ output.length) :
    identityEmitHello V (some identity) (.bytes output) (some reported) =
      { result := .ok
        identity := some identity.advance
        output := .bytes (writeAt output 0 (helloFrame V identity))
        outputLength := some 20 } := by
  obtain ⟨payload, hencode, hpayload⟩ := messageEncodePayload_hello identity
    (List.replicate identityHelloPayloadSize 0) 0 List.length_replicate
  have hlen := length_helloPayload identity
  have hframe := encodeFrame_ok V MessageType.mcuHello.code (.bytes identity.helloPayload)
    identity.nextSequence 0 output 0 (.inl rfl) (by rw [Span.length_bytes, hlen]; omega)
    (by rw [Span.length_bytes, hlen]; exact hroom)
  -- every check of the emitter and of the frame encoder passes
  have hfits : ¬ (Span.bytes output).length < identityHelloFrameSize := by
    show ¬ output.length < 20
    omega
  unfold identityEmitHello
  simp only [Span.isNull_bytes, Bool.false_eq_true, if_false, hfits, hencode, hpayload]
  show (match encodeFrame V MessageType.mcuHello.code (.bytes identity.helloPayload)
    identity.nextSequence 0 (.bytes output) (some 0) with
    | (.ok, output, outputLength) => _
    | (.outputTooSmall, output, _) => _
    | (_, output, _) => _) = _
  rw [hframe, Span.length_bytes, hlen]
  rfl

/-- A request is answered with a hello, and nothing else is answered. -/
theorem identityHandleMessage_eq (message : Message) (output : List UInt8) (reported : Nat) :
    identityHandleMessage V (some identity) (some message) (.bytes output) (some reported) =
      if message.type = MessageType.identifyRequest.code then
        identityEmitHello V (some identity) (.bytes output) (some 0)
      else
        { result := .ignored
          identity := some identity
          output := .bytes output
          outputLength := some 0 } := by
  unfold identityHandleMessage
  by_cases h : message.type = MessageType.identifyRequest.code
  · simp only [h, ne_eq, not_true_eq_false, if_false, if_true]
  · simp only [h, ne_eq, not_false_eq_true, if_true, if_false]

/-- **The hello frame announces the identity**: both decoders accept it and return the configured
    fields. -/
theorem decode_helloFrame :
    decodeFrame V (.bytes (helloFrame V identity)) (some .zero) =
        (.ok, some (frameOf V MessageType.mcuHello.code identity.helloPayload
          identity.nextSequence 0)) ∧
      ∃ message, messageDecodePayload MessageType.mcuHello.code (.bytes identity.helloPayload)
          (some .zero) = (.ok, some message) ∧
        message.payload.mcuHello =
          ⟨identity.firmwareMajor, identity.firmwareMinor, identity.buildId⟩ := by
  constructor
  · rw [decodeFrame_ok_iff]
    apply parseFrame_frameBytes
    rw [length_helloPayload]
    omega
  · -- the payload was encoded from the hello, so it decodes to its fields
    obtain ⟨payload, hencode, hpayload⟩ := messageEncodePayload_hello identity
      (List.replicate 8 0) 0 List.length_replicate
    obtain ⟨decoded, hdecode, hsame⟩ :=
      decode_of_payloadEncodesTo ⟨_, payload, 0, 8, hencode, hpayload.symm⟩ .zero
    exact ⟨decoded, hdecode, (hsame.2 .mcuHello (helloMessage_code identity)).symm⟩

end Hello

end Oomwoo
