import Oomwoo.Lib.StructFormat
import Oomwoo.Messages.RoundTrip

namespace Oomwoo

open Bytes

/-!
# The contract manifest

`protocol_v1.json` gives every defined message the format of its payload as a packed little-endian
record.  The codec agrees with it in both tables: the payload sizes are the widths of the formats
(`packedSize_structFormat`), and what the decoder leaves in the members of the active view are the
values of the record (`fieldValues_decodedMessage`).
-/

namespace MessageType

/-- `struct_format`; the two open payloads have none. -/
def structFormat : MessageType → List FieldFormat
  | heartbeat => [.I, .B]
  | estopSet => [.B, .H]
  | clearLatchedFault => [.H]
  | identifyRequest => []
  | driveSetpoint => [.h, .h, .H]
  | cleaningMotorsSet => [.B, .B, .B, .B]
  | lidarMotorSet => [.B]
  | ledSet => [.B, .B, .B]
  | ack => [.H, .H]
  | nack => [.H, .H]
  | mcuHello => [.H, .H, .I]
  | fastTelemetry => [.I, .i, .i, .B, .B, .B, .B, .B, .H]
  | safetyEvent => [.H, .B, .H]
  | powerTelemetry => []
  | mcuDiagnostic => []
  | safetyState => [.I, .H, .H]

/-- The members of the active view, in the order of the struct. -/
def fieldValues (type : MessageType) (payload : MessagePayload) : List Int :=
  match type with
  | heartbeat => [payload.heartbeat.cpuTimeMs.toNat, payload.heartbeat.cpuMode.toNat]
  | estopSet => [payload.estopSet.active.toNat, payload.estopSet.reason.toNat]
  | clearLatchedFault => [payload.clearLatchedFault.faultMask.toNat]
  | identifyRequest => []
  | driveSetpoint =>
    [payload.driveSetpoint.linearMmS.toInt, payload.driveSetpoint.angularMradS.toInt,
      payload.driveSetpoint.durationMs.toNat]
  | cleaningMotorsSet =>
    [payload.cleaningMotorsSet.mainBrushPct.toNat, payload.cleaningMotorsSet.sideBrushPct.toNat,
      payload.cleaningMotorsSet.fanPct.toNat, payload.cleaningMotorsSet.pumpPct.toNat]
  | lidarMotorSet => [payload.lidarMotorSet.pwmPct.toNat]
  | ledSet =>
    [payload.ledSet.ledId.toNat, payload.ledSet.mode.toNat, payload.ledSet.brightnessPct.toNat]
  | ack => [payload.ack.ackedSequence.toNat, payload.ack.status.toNat]
  | nack => [payload.nack.rejectedSequence.toNat, payload.nack.errorCode.toNat]
  | mcuHello =>
    [payload.mcuHello.firmwareMajor.toNat, payload.mcuHello.firmwareMinor.toNat,
      payload.mcuHello.buildId.toNat]
  | fastTelemetry =>
    [payload.fastTelemetry.timestampMs.toNat, payload.fastTelemetry.leftTicks.toInt,
      payload.fastTelemetry.rightTicks.toInt, payload.fastTelemetry.bumperFlags.toNat,
      payload.fastTelemetry.cliffFlags.toNat, payload.fastTelemetry.wheelDropFlags.toNat,
      payload.fastTelemetry.dockFlags.toNat, payload.fastTelemetry.safetyLatchedFlags.toNat,
      payload.fastTelemetry.batteryMv.toNat]
  | safetyEvent =>
    [payload.safetyEvent.event.toNat, payload.safetyEvent.active.toNat,
      payload.safetyEvent.detail.toNat]
  | powerTelemetry => []
  | mcuDiagnostic => []
  | safetyState =>
    [payload.safetyState.timestampMs.toNat, payload.safetyState.activeFlags.toNat,
      payload.safetyState.latchedFlags.toNat]

/-- **The size table holds the widths of the formats.** -/
theorem packedSize_structFormat {type : MessageType} (h : type.isDefined) :
    packedSize type.structFormat = type.layout.width := by
  cases type with
  | powerTelemetry => exact absurd rfl h.1
  | mcuDiagnostic => exact absurd rfl h.2
  | _ => rfl

end MessageType

/-! ### The readers read fields -/

section Fields

variable (bytes : List UInt8)

theorem value_B : FieldFormat.B.value bytes = (byteAt bytes 0).toNat := by
  rw [FieldFormat.value_unsigned bytes rfl, FieldFormat.size, leNat_take_one]

theorem value_H : FieldFormat.H.value bytes = (readU16Le bytes).toNat := by
  rw [FieldFormat.value_unsigned bytes rfl, FieldFormat.size, readU16Le_leNat]

theorem value_I : FieldFormat.I.value bytes = (readU32Le bytes).toNat := by
  rw [FieldFormat.value_unsigned bytes rfl, FieldFormat.size, readU32Le_leNat]

theorem value_h : FieldFormat.h.value bytes = (readI16Le bytes).toInt := by
  rw [readI16Le_eq]
  exact FieldFormat.value_signed bytes rfl 16 rfl (readU16Le_leNat bytes)

theorem value_i : FieldFormat.i.value bytes = (readI32Le bytes).toInt := by
  rw [readI32Le_eq]
  exact FieldFormat.value_signed bytes rfl 32 rfl (readU32Le_leNat bytes)

end Fields

/-- **The decoder's reads are the values of the format.** -/
theorem fieldValues_decodeFields {type : MessageType} {bytes : List UInt8}
    {output fields : MessagePayload} (h : decodeFields type bytes output = some fields) :
    type.fieldValues fields = unpack type.structFormat bytes := by
  cases type with
  | powerTelemetry => cases h
  | mcuDiagnostic => cases h
  | _ =>
    cases h
    simp only [MessageType.fieldValues, MessageType.structFormat, unpack, value_B, value_H,
      value_I, value_h, value_i, FieldFormat.size, List.drop_drop, byteAt_drop, Nat.add_zero,
      Nat.reduceAdd]

/-- The same for the message that the decoder assembles. -/
theorem fieldValues_decodedMessage {type : MessageType} (h : type.isDefined) (messageType : UInt16)
    (bytes : List UInt8) :
    type.fieldValues (decodedMessage messageType type bytes).payload =
      unpack type.structFormat bytes :=
  fieldValues_decodeFields (MessageType.decodeFields_eq h bytes Message.zero.payload)

end Oomwoo
