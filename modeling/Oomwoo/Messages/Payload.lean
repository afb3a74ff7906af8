import Oomwoo.Messages.Types
import Oomwoo.Words

namespace Oomwoo

open Bytes

/-!
# Typed messages: decoding and encoding a payload

`oomwoo_message_decode_payload` and `oomwoo_message_encode_payload`.  `decodeFields` and
`encodeFields` are their two `switch` statements, with the literal offsets; `none` is the
`default` branch.
-/

/-! ### Decoding -/

/-- The reads of the decoder, into the view of the type. -/
def decodeFields (type : MessageType) (payload : List UInt8) (output : MessagePayload) :
    Option MessagePayload :=
  match type with
  | .heartbeat => some { output with
      heartbeat := {
        cpuTimeMs := readU32Le payload
        cpuMode := byteAt payload 4 } }
  | .estopSet => some { output with
      estopSet := {
        active := byteAt payload 0
        reason := readU16Le (payload.drop 1) } }
  | .clearLatchedFault => some { output with
      clearLatchedFault := { faultMask := readU16Le payload } }
  | .identifyRequest => some output
  | .driveSetpoint => some { output with
      driveSetpoint := {
        linearMmS := readI16Le payload
        angularMradS := readI16Le (payload.drop 2)
        durationMs := readU16Le (payload.drop 4) } }
  | .cleaningMotorsSet => some { output with
      cleaningMotorsSet := {
        mainBrushPct := byteAt payload 0
        sideBrushPct := byteAt payload 1
        fanPct := byteAt payload 2
        pumpPct := byteAt payload 3 } }
  | .lidarMotorSet => some { output with
      lidarMotorSet := { pwmPct := byteAt payload 0 } }
  | .ledSet => some { output with
      ledSet := {
        ledId := byteAt payload 0
        mode := byteAt payload 1
        brightnessPct := byteAt payload 2 } }
  | .ack => some { output with
      ack := {
        ackedSequence := readU16Le payload
        status := readU16Le (payload.drop 2) } }
  | .nack => some { output with
      nack := {
        rejectedSequence := readU16Le payload
        errorCode := readU16Le (payload.drop 2) } }
  | .mcuHello => some { output with
      mcuHello := {
        firmwareMajor := readU16Le payload
        firmwareMinor := readU16Le (payload.drop 2)
        buildId := readU32Le (payload.drop 4) } }
  | .fastTelemetry => some { output with
      fastTelemetry := {
        timestampMs := readU32Le payload
        leftTicks := readI32Le (payload.drop 4)
        rightTicks := readI32Le (payload.drop 8)
        bumperFlags := byteAt payload 12
        cliffFlags := byteAt payload 13
        wheelDropFlags := byteAt payload 14
        dockFlags := byteAt payload 15
        safetyLatchedFlags := byteAt payload 16
        batteryMv := readU16Le (payload.drop 17) } }
  | .safetyEvent => some { output with
      safetyEvent := {
        event := readU16Le payload
        active := byteAt payload 2
        detail := readU16Le (payload.drop 3) } }
  | .safetyState => some { output with
      safetyState := {
        timestampMs := readU32Le payload
        activeFlags := readU16Le (payload.drop 4)
        latchedFlags := readU16Le (payload.drop 6) } }
  | .powerTelemetry | .mcuDiagnostic => none

def messageDecodePayload (messageType : UInt16) (payload : Span) (output : Option Message) :
    MessageResult × Option Message :=
  match output with
  | none => (.nullArgument, none)
  | some prior =>
    if payload.isNull && payload.length ≠ 0 then (.nullArgument, some prior)
    else
      let output := Message.zero
      match messagePayloadSize messageType (some 0) with
      | (.ok, some expectedLength) =>
        if payload.length ≠ expectedLength then (.wrongPayloadLength, some output)
        else
          let output := { output with type := messageType }
          match (MessageType.ofCode? messageType).bind fun type =>
              decodeFields type payload.data output.payload with
          | none => (.unknownType, some output)
          | some fields =>
            let output := { output with payload := fields }
            let result := messageValidate (some output)
            if result ≠ .ok then (result, some .zero) else (result, some output)
      | (result, _) => (result, some output)

/-! ### Encoding -/

/-- The stores of the encoder, from the view of the type. -/
def encodeFields (type : MessageType) (payload : MessagePayload) (output : List UInt8) :
    Option (List UInt8) :=
  match type with
  | .heartbeat =>
    let output := writeU32Le output 0 payload.heartbeat.cpuTimeMs
    some (writeAt output 4 [payload.heartbeat.cpuMode])
  | .estopSet =>
    let output := writeAt output 0 [payload.estopSet.active]
    some (writeU16Le output 1 payload.estopSet.reason)
  | .clearLatchedFault => some (writeU16Le output 0 payload.clearLatchedFault.faultMask)
  | .identifyRequest => some output
  | .driveSetpoint =>
    let output := writeI16Le output 0 payload.driveSetpoint.linearMmS
    let output := writeI16Le output 2 payload.driveSetpoint.angularMradS
    some (writeU16Le output 4 payload.driveSetpoint.durationMs)
  | .cleaningMotorsSet =>
    let output := writeAt output 0 [payload.cleaningMotorsSet.mainBrushPct]
    let output := writeAt output 1 [payload.cleaningMotorsSet.sideBrushPct]
    let output := writeAt output 2 [payload.cleaningMotorsSet.fanPct]
    some (writeAt output 3 [payload.cleaningMotorsSet.pumpPct])
  | .lidarMotorSet => some (writeAt output 0 [payload.lidarMotorSet.pwmPct])
  | .ledSet =>
    let output := writeAt output 0 [payload.ledSet.ledId]
    let output := writeAt output 1 [payload.ledSet.mode]
    some (writeAt output 2 [payload.ledSet.brightnessPct])
  | .ack =>
    let output := writeU16Le output 0 payload.ack.ackedSequence
    some (writeU16Le output 2 payload.ack.status)
  | .nack =>
    let output := writeU16Le output 0 payload.nack.rejectedSequence
    some (writeU16Le output 2 payload.nack.errorCode)
  | .mcuHello =>
    let output := writeU16Le output 0 payload.mcuHello.firmwareMajor
    let output := writeU16Le output 2 payload.mcuHello.firmwareMinor
    some (writeU32Le output 4 payload.mcuHello.buildId)
  | .fastTelemetry =>
    let output := writeU32Le output 0 payload.fastTelemetry.timestampMs
    let output := writeI32Le output 4 payload.fastTelemetry.leftTicks
    let output := writeI32Le output 8 payload.fastTelemetry.rightTicks
    let output := writeAt output 12 [payload.fastTelemetry.bumperFlags]
    let output := writeAt output 13 [payload.fastTelemetry.cliffFlags]
    let output := writeAt output 14 [payload.fastTelemetry.wheelDropFlags]
    let output := writeAt output 15 [payload.fastTelemetry.dockFlags]
    let output := writeAt output 16 [payload.fastTelemetry.safetyLatchedFlags]
    some (writeU16Le output 17 payload.fastTelemetry.batteryMv)
  | .safetyEvent =>
    let output := writeU16Le output 0 payload.safetyEvent.event
    let output := writeAt output 2 [payload.safetyEvent.active]
    some (writeU16Le output 3 payload.safetyEvent.detail)
  | .safetyState =>
    let output := writeU32Le output 0 payload.safetyState.timestampMs
    let output := writeU16Le output 4 payload.safetyState.activeFlags
    some (writeU16Le output 6 payload.safetyState.latchedFlags)
  | .powerTelemetry | .mcuDiagnostic => none

def messageEncodePayload (message : Option Message) (output : Span) (outputLength : Option Nat) :
    MessageResult × Span × Option Nat :=
  match outputLength, message with
  | none, _ => (.nullArgument, output, none)
  | some _, none => (.nullArgument, output, some 0)
  | some _, some message =>
    match messageValidate (some message) with
    | .ok =>
      match messagePayloadSize message.type (some 0) with
      | (.ok, some requiredLength) =>
        if output.length < requiredLength then (.outputTooSmall, output, some 0)
        else if requiredLength ≠ 0 && output.isNull then (.nullArgument, output, some 0)
        else
          match (MessageType.ofCode? message.type).bind fun type =>
              encodeFields type message.payload output.data with
          | none => (.unknownType, output, some 0)
          | some stored => (.ok, output.store stored, some requiredLength)
      | (result, _) => (result, output, some 0)
    | result => (result, output, some 0)

end Oomwoo
