import Oomwoo.Lib.FixedCodec
import Oomwoo.Messages.Payload

namespace Oomwoo

open Bytes

/-!
# Payload layouts as codecs

Each message type has a view of the payload union and a layout, a fixed-width codec put together
from the codecs of its fields in wire order.  The encoder's `switch` stores what the layout
writes (`encodeFields_eq`), the decoder's `switch` reads what the layout reads
(`decodeFields_eq`), and the size table holds the layout's width (`payloadSize?_eq`): three
tables with one source of truth.
-/

/-! ### Fields -/

/-- `uint16_t`, low byte first. -/
def u16 : Codec UInt16 where
  width := 2
  encode v := leBytes 2 v.toNat
  decode := readU16Le
  length_encode _ := length_leBytes _ _
  decode_encode := readU16Le_leBytes
  encode_decode _ h := leBytes_readU16Le h

/-- `uint32_t`, low byte first. -/
def u32 : Codec UInt32 where
  width := 4
  encode v := leBytes 4 v.toNat
  decode := readU32Le
  length_encode _ := length_leBytes _ _
  decode_encode := readU32Le_leBytes
  encode_decode _ h := leBytes_readU32Le h

/-- Two's complement: a signed word and its bits. -/
def int16Bits : Int16 ≃ UInt16 := ⟨Int16.toUInt16, UInt16.toInt16, fun _ => rfl, fun _ => rfl⟩

def int32Bits : Int32 ≃ UInt32 := ⟨Int32.toUInt32, UInt32.toInt32, fun _ => rfl, fun _ => rfl⟩

/-- `int16_t`, low byte first. -/
def i16 : Codec Int16 := u16.equiv int16Bits

/-- `int32_t`, low byte first. -/
def i32 : Codec Int32 := u32.equiv int32Bits

/-! ### Views and layouts -/

namespace MessageType

/-- The member of the union that belongs to a type; a type without fields has none. -/
def View : MessageType → Type
  | heartbeat => Heartbeat
  | estopSet => EstopSet
  | clearLatchedFault => ClearLatchedFault
  | identifyRequest => Unit
  | driveSetpoint => DriveSetpoint
  | cleaningMotorsSet => CleaningMotorsSet
  | lidarMotorSet => LidarMotorSet
  | ledSet => LedSet
  | ack => Ack
  | nack => Nack
  | mcuHello => McuHello
  | fastTelemetry => FastTelemetry
  | safetyEvent => SafetyEvent
  | powerTelemetry => Unit
  | mcuDiagnostic => Unit
  | safetyState => SafetyState

/-- The active view of a payload. -/
def view : (type : MessageType) → MessagePayload → type.View
  | heartbeat, payload => payload.heartbeat
  | estopSet, payload => payload.estopSet
  | clearLatchedFault, payload => payload.clearLatchedFault
  | identifyRequest, _ => ()
  | driveSetpoint, payload => payload.driveSetpoint
  | cleaningMotorsSet, payload => payload.cleaningMotorsSet
  | lidarMotorSet, payload => payload.lidarMotorSet
  | ledSet, payload => payload.ledSet
  | ack, payload => payload.ack
  | nack, payload => payload.nack
  | mcuHello, payload => payload.mcuHello
  | fastTelemetry, payload => payload.fastTelemetry
  | safetyEvent, payload => payload.safetyEvent
  | powerTelemetry, _ => ()
  | mcuDiagnostic, _ => ()
  | safetyState, payload => payload.safetyState

/-- The payload with another active view. -/
def setView : (type : MessageType) → type.View → MessagePayload → MessagePayload
  | heartbeat, v, payload => { payload with heartbeat := v }
  | estopSet, v, payload => { payload with estopSet := v }
  | clearLatchedFault, v, payload => { payload with clearLatchedFault := v }
  | identifyRequest, _, payload => payload
  | driveSetpoint, v, payload => { payload with driveSetpoint := v }
  | cleaningMotorsSet, v, payload => { payload with cleaningMotorsSet := v }
  | lidarMotorSet, v, payload => { payload with lidarMotorSet := v }
  | ledSet, v, payload => { payload with ledSet := v }
  | ack, v, payload => { payload with ack := v }
  | nack, v, payload => { payload with nack := v }
  | mcuHello, v, payload => { payload with mcuHello := v }
  | fastTelemetry, v, payload => { payload with fastTelemetry := v }
  | safetyEvent, v, payload => { payload with safetyEvent := v }
  | powerTelemetry, _, payload => payload
  | mcuDiagnostic, _, payload => payload
  | safetyState, v, payload => { payload with safetyState := v }

@[simp] theorem view_setView (type : MessageType) (v : type.View) (payload : MessagePayload) :
    type.view (type.setView v payload) = v := by
  cases type <;> rfl

/-- The fields of a type in wire order. -/
def layout : (type : MessageType) → Codec type.View
  | heartbeat => (u32.pair .byte).equiv
      ⟨fun v => (v.cpuTimeMs, v.cpuMode), fun p => ⟨p.1, p.2⟩, fun _ => rfl, fun _ => rfl⟩
  | estopSet => (Codec.byte.pair u16).equiv
      ⟨fun v => (v.active, v.reason), fun p => ⟨p.1, p.2⟩, fun _ => rfl, fun _ => rfl⟩
  | clearLatchedFault => u16.equiv
      ⟨fun v => v.faultMask, fun p => ⟨p⟩, fun _ => rfl, fun _ => rfl⟩
  | identifyRequest => .unit
  | driveSetpoint => (i16.pair (i16.pair u16)).equiv
      ⟨fun v => (v.linearMmS, v.angularMradS, v.durationMs), fun p => ⟨p.1, p.2.1, p.2.2⟩,
        fun _ => rfl, fun _ => rfl⟩
  | cleaningMotorsSet => (Codec.byte.pair (Codec.byte.pair (Codec.byte.pair .byte))).equiv
      ⟨fun v => (v.mainBrushPct, v.sideBrushPct, v.fanPct, v.pumpPct),
        fun p => ⟨p.1, p.2.1, p.2.2.1, p.2.2.2⟩, fun _ => rfl, fun _ => rfl⟩
  | lidarMotorSet => Codec.byte.equiv
      ⟨fun v => v.pwmPct, fun p => ⟨p⟩, fun _ => rfl, fun _ => rfl⟩
  | ledSet => (Codec.byte.pair (Codec.byte.pair .byte)).equiv
      ⟨fun v => (v.ledId, v.mode, v.brightnessPct), fun p => ⟨p.1, p.2.1, p.2.2⟩,
        fun _ => rfl, fun _ => rfl⟩
  | ack => (u16.pair u16).equiv
      ⟨fun v => (v.ackedSequence, v.status), fun p => ⟨p.1, p.2⟩, fun _ => rfl, fun _ => rfl⟩
  | nack => (u16.pair u16).equiv
      ⟨fun v => (v.rejectedSequence, v.errorCode), fun p => ⟨p.1, p.2⟩, fun _ => rfl, fun _ => rfl⟩
  | mcuHello => (u16.pair (u16.pair u32)).equiv
      ⟨fun v => (v.firmwareMajor, v.firmwareMinor, v.buildId), fun p => ⟨p.1, p.2.1, p.2.2⟩,
        fun _ => rfl, fun _ => rfl⟩
  | fastTelemetry =>
    (u32.pair (i32.pair (i32.pair (Codec.byte.pair (Codec.byte.pair (Codec.byte.pair
      (Codec.byte.pair (Codec.byte.pair u16)))))))).equiv
      ⟨fun v => (v.timestampMs, v.leftTicks, v.rightTicks, v.bumperFlags, v.cliffFlags,
          v.wheelDropFlags, v.dockFlags, v.safetyLatchedFlags, v.batteryMv),
        fun ⟨p0, p1, p2, p3, p4, p5, p6, p7, p8⟩ => ⟨p0, p1, p2, p3, p4, p5, p6, p7, p8⟩,
        fun _ => rfl, fun _ => rfl⟩
  | safetyEvent => (u16.pair (Codec.byte.pair u16)).equiv
      ⟨fun v => (v.event, v.active, v.detail), fun p => ⟨p.1, p.2.1, p.2.2⟩,
        fun _ => rfl, fun _ => rfl⟩
  | powerTelemetry => .unit
  | mcuDiagnostic => .unit
  | safetyState => (u32.pair (u16.pair u16)).equiv
      ⟨fun v => (v.timestampMs, v.activeFlags, v.latchedFlags), fun p => ⟨p.1, p.2.1, p.2.2⟩,
        fun _ => rfl, fun _ => rfl⟩

/-- Whether the payload of the type is defined. -/
def isDefined (type : MessageType) : Prop := type ≠ powerTelemetry ∧ type ≠ mcuDiagnostic

/-- The size table holds the widths of the layouts. -/
theorem payloadSize?_eq (type : MessageType) {size : Nat} :
    type.payloadSize? = some size ↔ type.isDefined ∧ size = type.layout.width := by
  cases type <;> simp [payloadSize?, isDefined, layout, Codec.equiv, Codec.pair, Codec.byte,
    Codec.unit, u16, u32, i16, i32, eq_comm]

/-! ### The two switches are the layouts -/

/-- **The decoder reads the layout** into the view of the type. -/
theorem decodeFields_eq {type : MessageType} (h : type.isDefined) (payload : List UInt8)
    (output : MessagePayload) :
    decodeFields type payload output =
      some (type.setView (type.layout.decode payload) output) := by
  cases type with
  | powerTelemetry => exact absurd rfl h.1
  | mcuDiagnostic => exact absurd rfl h.2
  | identifyRequest => rfl
  | _ =>
    simp only [decodeFields, readI16Le_eq, readI32Le_eq, layout, setView, Codec.equiv, Codec.pair,
      Codec.byte, u16, u32, i16, i32, byteAt_drop, List.drop_drop]
    rfl

/-- The stores of the encoder go one behind the other. -/
theorem encodeFields_writeAt {type : MessageType} (h : type.isDefined) (payload : MessagePayload)
    (output : List UInt8) :
    encodeFields type payload (writeAt output 0 []) =
      some (writeAt output 0 (type.layout.encode (type.view payload))) := by
  cases type with
  | powerTelemetry => exact absurd rfl h.1
  | mcuDiagnostic => exact absurd rfl h.2
  | identifyRequest => rfl
  | _ =>
    simp (disch := simp) only [encodeFields, writeI16Le, writeI32Le, writeU16Le_writeAt,
      writeU32Le_writeAt, writeAt_zero_writeAt, List.nil_append, List.append_assoc]
    rfl

/-- **The encoder stores the layout** at the start of the output. -/
theorem encodeFields_eq {type : MessageType} (h : type.isDefined) (payload : MessagePayload)
    (output : List UInt8) :
    encodeFields type payload output =
      some (writeAt output 0 (type.layout.encode (type.view payload))) := by
  have hstores := encodeFields_writeAt h payload output
  rwa [writeAt_nil] at hstores

/-- The bounds are bounds on the active view. -/
theorem inRange_congr {type : MessageType} {a b : MessagePayload}
    (h : type.view a = type.view b) : type.inRange a = type.inRange b := by
  cases type with
  | heartbeat => simp only [inRange, show a.heartbeat = b.heartbeat from h]
  | estopSet => simp only [inRange, show a.estopSet = b.estopSet from h]
  | driveSetpoint => simp only [inRange, show a.driveSetpoint = b.driveSetpoint from h]
  | cleaningMotorsSet =>
    simp only [inRange, show a.cleaningMotorsSet = b.cleaningMotorsSet from h]
  | lidarMotorSet => simp only [inRange, show a.lidarMotorSet = b.lidarMotorSet from h]
  | ledSet => simp only [inRange, show a.ledSet = b.ledSet from h]
  | safetyEvent => simp only [inRange, show a.safetyEvent = b.safetyEvent from h]
  | _ => rfl

end MessageType

end Oomwoo
