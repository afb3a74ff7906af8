import Oomwoo.Messages.RoundTrip
import Oomwoo.Protocol.FrameCodec

namespace Oomwoo

open Bytes Reading Reads

/-!
# What the codecs read, write and leave behind

The two encoders write exactly the bytes they report and nothing when they fail, and the payload
decoder reads inside the payload it is given (`encoders_write_what_they_report`).  After a failed
decode the output is cleared, except behind one exit that comes before the clear
(`messageDecodePayload_cleared_iff`).
-/

/-! ### The decoder as a program that reads the payload -/

/-- The reads of the decoder's `switch`, into the view of the type. -/
def decodeFieldsReads (type : MessageType) (output : MessagePayload) :
    Reads Nat UInt8 (Option MessagePayload) :=
  match type with
  | .heartbeat => do
    let cpuTimeMs ← readU32LeReads 0
    let cpuMode ← get 4
    pure (some { output with heartbeat := ⟨cpuTimeMs, cpuMode⟩ })
  | .estopSet => do
    let active ← get 0
    let reason ← readU16LeReads 1
    pure (some { output with estopSet := ⟨active, reason⟩ })
  | .clearLatchedFault => do
    let faultMask ← readU16LeReads 0
    pure (some { output with clearLatchedFault := ⟨faultMask⟩ })
  | .identifyRequest => pure (some output)
  | .driveSetpoint => do
    let linearMmS ← readI16LeReads 0
    let angularMradS ← readI16LeReads 2
    let durationMs ← readU16LeReads 4
    pure (some { output with driveSetpoint := ⟨linearMmS, angularMradS, durationMs⟩ })
  | .cleaningMotorsSet => do
    let mainBrushPct ← get 0
    let sideBrushPct ← get 1
    let fanPct ← get 2
    let pumpPct ← get 3
    pure (some { output with cleaningMotorsSet := ⟨mainBrushPct, sideBrushPct, fanPct, pumpPct⟩ })
  | .lidarMotorSet => do
    let pwmPct ← get 0
    pure (some { output with lidarMotorSet := ⟨pwmPct⟩ })
  | .ledSet => do
    let ledId ← get 0
    let mode ← get 1
    let brightnessPct ← get 2
    pure (some { output with ledSet := ⟨ledId, mode, brightnessPct⟩ })
  | .ack => do
    let ackedSequence ← readU16LeReads 0
    let status ← readU16LeReads 2
    pure (some { output with ack := ⟨ackedSequence, status⟩ })
  | .nack => do
    let rejectedSequence ← readU16LeReads 0
    let errorCode ← readU16LeReads 2
    pure (some { output with nack := ⟨rejectedSequence, errorCode⟩ })
  | .mcuHello => do
    let firmwareMajor ← readU16LeReads 0
    let firmwareMinor ← readU16LeReads 2
    let buildId ← readU32LeReads 4
    pure (some { output with mcuHello := ⟨firmwareMajor, firmwareMinor, buildId⟩ })
  | .fastTelemetry => do
    let timestampMs ← readU32LeReads 0
    let leftTicks ← readI32LeReads 4
    let rightTicks ← readI32LeReads 8
    let bumperFlags ← get 12
    let cliffFlags ← get 13
    let wheelDropFlags ← get 14
    let dockFlags ← get 15
    let safetyLatchedFlags ← get 16
    let batteryMv ← readU16LeReads 17
    pure (some { output with fastTelemetry := ⟨timestampMs, leftTicks, rightTicks, bumperFlags,
      cliffFlags, wheelDropFlags, dockFlags, safetyLatchedFlags, batteryMv⟩ })
  | .safetyEvent => do
    let event ← readU16LeReads 0
    let active ← get 2
    let detail ← readU16LeReads 3
    pure (some { output with safetyEvent := ⟨event, active, detail⟩ })
  | .safetyState => do
    let timestampMs ← readU32LeReads 0
    let activeFlags ← readU16LeReads 4
    let latchedFlags ← readU16LeReads 6
    pure (some { output with safetyState := ⟨timestampMs, activeFlags, latchedFlags⟩ })
  | .powerTelemetry | .mcuDiagnostic => pure none

/-- The decoder on a pointer that is null or not and a length. -/
def messageDecodePayloadReads (messageType : UInt16) (isNull : Bool) (length : Nat)
    (output : Option Message) : Reads Nat UInt8 (MessageResult × Option Message) :=
  match output with
  | none => pure (.nullArgument, none)
  | some prior =>
    if isNull && length ≠ 0 then pure (.nullArgument, some prior)
    else
      match messagePayloadSize messageType (some 0) with
      | (.ok, some expectedLength) =>
        if length ≠ expectedLength then pure (.wrongPayloadLength, some .zero)
        else do
          let fields ←
            match MessageType.ofCode? messageType with
            | none => pure none
            | some type => decodeFieldsReads type Message.zero.payload
          match fields with
          | none => pure (.unknownType, some { Message.zero with type := messageType })
          | some fields =>
            let result := messageValidate (some ⟨messageType, fields⟩)
            if result ≠ .ok then pure (result, some .zero)
            else pure (result, some ⟨messageType, fields⟩)
      | (result, _) => pure (result, some .zero)

/-- The program of the `switch` is the `switch`. -/
theorem eval_decodeFieldsReads (type : MessageType) (payload : List UInt8)
    (output : MessagePayload) :
    (decodeFieldsReads type output).eval (byteAt payload) = decodeFields type payload output := by
  unfold decodeFieldsReads decodeFields
  cases type <;>
    simp only [eval_bind, eval_get, eval_pure, eval_readU16LeReads, eval_readU32LeReads,
      eval_readI16LeReads, eval_readI32LeReads, List.drop_zero]

/-- **Every byte of the payload is read once, in order, and no other.** -/
theorem addresses_decodeFieldsReads {type : MessageType} (h : type.isDefined)
    (mem : Nat → UInt8) (output : MessagePayload) :
    (decodeFieldsReads type output).addresses mem = List.range' 0 type.layout.width := by
  cases type with
  | powerTelemetry => exact absurd rfl h.1
  | mcuDiagnostic => exact absurd rfl h.2
  | _ => rfl

/-- The program of the decoder is the decoder. -/
theorem eval_messageDecodePayloadReads (messageType : UInt16) (payload : Span)
    (output : Option Message) :
    (messageDecodePayloadReads messageType payload.isNull payload.length output).eval
      (byteAt payload.data) = messageDecodePayload messageType payload output := by
  unfold messageDecodePayloadReads messageDecodePayload
  cases output with
  | none => rfl
  | some prior =>
    dsimp only
    rw [eval_ite]
    by_cases hguard : (payload.isNull && decide (payload.length ≠ 0)) = true
    · rw [if_pos hguard, if_pos hguard, eval_pure]
    rw [if_neg hguard, if_neg hguard]
    rcases code_situations messageType with h | ⟨type, h, hopen⟩ | ⟨type, h, hdefined⟩
    · rw [messagePayloadSize_unknown h]
      rfl
    · rw [messagePayloadSize_undefined h hopen]
      rfl
    rw [messagePayloadSize_defined h hdefined]
    dsimp only
    rw [eval_ite]
    by_cases hlen : payload.length ≠ type.layout.width
    · rw [if_pos hlen, if_pos hlen, eval_pure]
    rw [if_neg hlen, if_neg hlen, h, eval_bind, eval_decodeFieldsReads, Option.bind_some]
    -- the fields are checked once they are there
    cases decodeFields type payload.data Message.zero.payload with
    | none => rfl
    | some fields =>
      dsimp only
      rw [eval_ite]
      rfl

theorem messageDecodePayloadReads_within (messageType : UInt16) (isNull : Bool) (length : Nat)
    (output : Option Message) (mem : Nat → UInt8) :
    Within mem (· < length) (messageDecodePayloadReads messageType isNull length output) := by
  unfold messageDecodePayloadReads
  split
  · exact within_pure _
  refine within_ite (fun _ => within_pure _) fun _ => ?_
  rcases code_situations messageType with h | ⟨type, h, hopen⟩ | ⟨type, h, hdefined⟩
  · rw [messagePayloadSize_unknown h]
    exact within_pure _
  · rw [messagePayloadSize_undefined h hopen]
    exact within_pure _
  rw [messagePayloadSize_defined h hdefined, h]
  refine within_ite (fun _ => within_pure _) fun hlen => within_bind ?_ ?_
  · -- the length is the width of the layout, which is what the switch reads
    intro i hi
    rw [addresses_decodeFieldsReads hdefined, ← not_not.mp hlen, List.mem_range'_1] at hi
    omega
  · cases eval mem (decodeFieldsReads type Message.zero.payload) with
    | none => exact within_pure _
    | some fields => exact within_ite (fun _ => within_pure _) fun _ => within_pure _

/-! ### The encoders -/

/-- A successful encoder has stored `wire` at the start of the output, reports its length, and has
    left the rest as it was. -/
def Wrote (wire : List UInt8) (output stored : Span) (reported : Option Nat) : Prop :=
  reported = some wire.length ∧ wire.length ≤ output.length ∧
    stored = output.store (wire ++ output.data.drop wire.length)

/-- The frame encoder. -/
theorem encodeFrame_wrote (V : WireVersion) (messageType : UInt16) (payload : Span)
    (sequence : UInt16) (flags : UInt8) (output : Span) (reported : Option Nat) :
    let encoded := encodeFrame V messageType payload sequence flags output reported
    (encoded.1 = .ok →
      Wrote (frameBytes V messageType payload.data sequence flags) output encoded.2.1
        encoded.2.2) ∧
      (encoded.1 ≠ .ok → encoded.2 = (output, reported)) := by
  constructor
  · intro hok
    obtain ⟨hptr, _, hstored, hroom, hlength⟩ := encodeFrame_eq_ok (Prod.ext hok rfl)
    have hsize : (frameBytes V messageType payload.data sequence flags).length =
        12 + payload.length := by
      rw [length_frameBytes, payload.length_data hptr]
    refine ⟨by rw [hsize]; exact hlength, by rw [hsize]; exact hroom, ?_⟩
    rw [hstored, writeAt_zero]
    -- the frame encoder refuses a null output
    cases output with
    | null n =>
      rw [encodeFrame] at hok
      simp at hok
    | bytes data => rfl
  · intro herror
    revert herror
    simp only [encodeFrame]
    split
    · exact fun _ => rfl
    split
    · exact fun _ => rfl
    split
    · exact fun _ => rfl
    · exact fun h => absurd rfl h

/-- What the payload encoder stores for a message. -/
def payloadBytes (message : Option Message) : List UInt8 :=
  match message with
  | none => []
  | some message =>
    match MessageType.ofCode? message.type with
    | none => []
    | some type => type.layout.encode (type.view message.payload)

/-- The payload encoder. -/
theorem messageEncodePayload_wrote (message : Option Message) (output : Span)
    (reported : Option Nat) :
    let encoded := messageEncodePayload message output reported
    (encoded.1 = .ok → Wrote (payloadBytes message) output encoded.2.1 encoded.2.2) ∧
      (encoded.1 ≠ .ok → encoded.2 = (output, reported.map fun _ => 0)) := by
  cases reported with
  | none => exact ⟨fun h => (by cases h), fun _ => rfl⟩
  | some reported =>
  cases message with
  | none => exact ⟨fun h => (by cases h), fun _ => rfl⟩
  | some message =>
    constructor
    · intro hok
      obtain ⟨type, hcode, _, _, hroom, _, hstored, hlength⟩ :=
        messageEncodePayload_ok_iff.mp (Prod.ext hok rfl)
      have hwire : payloadBytes (some message) =
          type.layout.encode (type.view message.payload) := by
        simp only [payloadBytes, hcode]
      unfold Wrote
      rw [hwire, type.layout.length_encode]
      refine ⟨hlength, hroom, ?_⟩
      rw [hstored, writeAt_zero, type.layout.length_encode]
    · intro herror
      by_cases hvalid : messageValidate (some message) = .ok
      swap
      · rw [messageEncodePayload_invalid hvalid]
        rfl
      obtain ⟨type, hcode, hdefined, hrange⟩ := messageValidate_ok_iff.mp hvalid
      revert herror
      rw [messageEncodePayload_valid hcode hdefined hrange]
      split
      · exact fun _ => rfl
      split
      · exact fun _ => rfl
      · exact fun h => absurd rfl h

/-- **Encoders write exactly what they report and nothing on failure.** The bytes that a
    successful encoder stores depend on its arguments alone; behind them the output is unchanged.
    A failed encoder leaves the output as it was, the payload encoder with the reported length set
    to zero, the frame encoder with the reported length as it was.  And the payload decoder, read
    as a program, looks only at offsets below the given length. -/
theorem encoders_write_what_they_report :
    (∀ (V : WireVersion) (messageType : UInt16) (payload : Span) (sequence : UInt16)
        (flags : UInt8), ∃ wire : List UInt8, ∀ (output : Span) (reported : Option Nat),
      let encoded := encodeFrame V messageType payload sequence flags output reported
      (encoded.1 = .ok → Wrote wire output encoded.2.1 encoded.2.2) ∧
        (encoded.1 ≠ .ok → encoded.2 = (output, reported))) ∧
      (∀ message : Option Message, ∃ wire : List UInt8, ∀ (output : Span) (reported : Option Nat),
        let encoded := messageEncodePayload message output reported
        (encoded.1 = .ok → Wrote wire output encoded.2.1 encoded.2.2) ∧
          (encoded.1 ≠ .ok → encoded.2 = (output, reported.map fun _ => 0))) ∧
      ∀ (messageType : UInt16) (payload : Span) (output : Option Message),
        let decode :=
          messageDecodePayloadReads messageType payload.isNull payload.length output
        decode.eval (byteAt payload.data) = messageDecodePayload messageType payload output ∧
          ∀ offset ∈ decode.addresses (byteAt payload.data), offset < payload.length := by
  refine ⟨?_, ?_, ?_⟩
  · intro V messageType payload sequence flags
    exact ⟨_, encodeFrame_wrote V messageType payload sequence flags⟩
  · intro message
    exact ⟨_, messageEncodePayload_wrote message⟩
  · intro messageType payload output
    exact ⟨eval_messageDecodePayloadReads messageType payload output,
      messageDecodePayloadReads_within messageType _ _ output _⟩

/-! ### After a failed decode -/

/-- **When a failed decode leaves a cleared output**: always, unless the pointer is null with a
    length, which is refused before the output is cleared. -/
theorem messageDecodePayload_cleared_iff (messageType : UInt16) (payload : Span)
    (prior : Message) :
    let decoded := messageDecodePayload messageType payload (some prior)
    (decoded.1 ≠ .ok → decoded.2 = some .zero) ↔
      payload.isNull = false ∨ payload.length = 0 ∨ prior = .zero := by
  by_cases hptr : payload.isNull = false ∨ payload.length = 0
  · have hcleared : (messageDecodePayload messageType payload (some prior)).1 ≠ .ok →
        (messageDecodePayload messageType payload (some prior)).2 = some .zero := by
      rcases code_situations messageType with h | ⟨type, h, hopen⟩ | ⟨type, h, hdefined⟩
      · rw [messageDecodePayload_unknown hptr h]
        exact fun _ => rfl
      · rw [messageDecodePayload_undefined hptr h hopen]
        exact fun _ => rfl
      · rw [messageDecodePayload_defined hptr h hdefined]
        split
        · exact fun _ => rfl
        split
        · exact fun hok => absurd rfl hok
        · exact fun _ => rfl
    rw [← or_assoc]
    exact iff_of_true hcleared (.inl hptr)
  · -- refused before the clear
    rw [messageDecodePayload_null hptr, ← or_assoc]
    simp [hptr]

/-- **An output that is not cleared.** A heartbeat with a null pointer and length five: the
    decoder reports the null argument and leaves the mode of an earlier heartbeat. -/
theorem messageDecodePayload_keeps_prior :
    let prior : Message := ⟨0x0001, { Message.zero.payload with heartbeat := ⟨7, 1⟩ }⟩
    let decoded := messageDecodePayload 0x0001 (.null 5) (some prior)
    decoded.1 = .nullArgument ∧ decoded.2 = some prior ∧ decoded.2 ≠ some .zero := by
  decide

end Oomwoo
