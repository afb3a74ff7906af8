import Oomwoo.Lib.Bytes

namespace Oomwoo

open Bytes

/-!
# Typed messages: the types, the tables and the validator

The types of `oomwoo_messages.h` and the three tables of `oomwoo_messages.c` that are indexed by
the message type: direction, payload size and value bounds.  The union of the C struct is the
record `MessagePayload` of its views; every function looks at the view of the message's type
only.  A `switch` over the 16-bit type is a match on `MessageType.ofCode?`, whose `none` is the
`default` branch.
-/

/-! ### Message types -/

inductive MessageType where
  | heartbeat
  | estopSet
  | clearLatchedFault
  | identifyRequest
  | driveSetpoint
  | cleaningMotorsSet
  | lidarMotorSet
  | ledSet
  | ack
  | nack
  | mcuHello
  | fastTelemetry
  | safetyEvent
  | powerTelemetry
  | mcuDiagnostic
  | safetyState
  deriving DecidableEq, Repr

namespace MessageType

/-- The value of the enumerator on the wire. -/
def code : MessageType → UInt16
  | heartbeat => 0x0001
  | estopSet => 0x0002
  | clearLatchedFault => 0x0003
  | identifyRequest => 0x0004
  | driveSetpoint => 0x0101
  | cleaningMotorsSet => 0x0102
  | lidarMotorSet => 0x0103
  | ledSet => 0x0104
  | ack => 0x7001
  | nack => 0x7002
  | mcuHello => 0x8000
  | fastTelemetry => 0x8001
  | safetyEvent => 0x8002
  | powerTelemetry => 0x8003
  | mcuDiagnostic => 0x8004
  | safetyState => 0x8005

def all : List MessageType :=
  [heartbeat, estopSet, clearLatchedFault, identifyRequest, driveSetpoint, cleaningMotorsSet,
    lidarMotorSet, ledSet, ack, nack, mcuHello, fastTelemetry, safetyEvent, powerTelemetry,
    mcuDiagnostic, safetyState]

/-- The enumerator with a given value, if there is one. -/
def ofCode? (code : UInt16) : Option MessageType := all.find? fun type => type.code == code

@[simp] theorem ofCode?_code (type : MessageType) : ofCode? type.code = some type := by
  cases type <;> rfl

theorem code_of_ofCode? {code : UInt16} {type : MessageType} (h : ofCode? code = some type) :
    type.code = code := by
  simpa using List.find?_some h

end MessageType

inductive MessageDirection where
  | unknown
  | cpuToMcu
  | mcuToCpu
  | both
  deriving DecidableEq, Repr

inductive MessageResult where
  | ok
  | nullArgument
  | unknownType
  | payloadUndefined
  | wrongPayloadLength
  | outputTooSmall
  | valueOutOfRange
  deriving DecidableEq, Repr

/-! ### Message contents -/

structure Heartbeat where
  cpuTimeMs : UInt32
  cpuMode : UInt8
  deriving DecidableEq, Repr

structure EstopSet where
  active : UInt8
  reason : UInt16
  deriving DecidableEq, Repr

structure ClearLatchedFault where
  faultMask : UInt16
  deriving DecidableEq, Repr

structure DriveSetpoint where
  linearMmS : Int16
  angularMradS : Int16
  durationMs : UInt16
  deriving DecidableEq, Repr

structure CleaningMotorsSet where
  mainBrushPct : UInt8
  sideBrushPct : UInt8
  fanPct : UInt8
  pumpPct : UInt8
  deriving DecidableEq, Repr

structure LidarMotorSet where
  pwmPct : UInt8
  deriving DecidableEq, Repr

structure LedSet where
  ledId : UInt8
  mode : UInt8
  brightnessPct : UInt8
  deriving DecidableEq, Repr

structure Ack where
  ackedSequence : UInt16
  status : UInt16
  deriving DecidableEq, Repr

structure Nack where
  rejectedSequence : UInt16
  errorCode : UInt16
  deriving DecidableEq, Repr

structure McuHello where
  firmwareMajor : UInt16
  firmwareMinor : UInt16
  buildId : UInt32
  deriving DecidableEq, Repr

structure FastTelemetry where
  timestampMs : UInt32
  leftTicks : Int32
  rightTicks : Int32
  bumperFlags : UInt8
  cliffFlags : UInt8
  wheelDropFlags : UInt8
  dockFlags : UInt8
  safetyLatchedFlags : UInt8
  batteryMv : UInt16
  deriving DecidableEq, Repr

structure SafetyEvent where
  event : UInt16
  active : UInt8
  detail : UInt16
  deriving DecidableEq, Repr

structure SafetyState where
  timestampMs : UInt32
  activeFlags : UInt16
  latchedFlags : UInt16
  deriving DecidableEq, Repr

/-- The views of the payload union. -/
structure MessagePayload where
  heartbeat : Heartbeat
  estopSet : EstopSet
  clearLatchedFault : ClearLatchedFault
  driveSetpoint : DriveSetpoint
  cleaningMotorsSet : CleaningMotorsSet
  lidarMotorSet : LidarMotorSet
  ledSet : LedSet
  ack : Ack
  nack : Nack
  mcuHello : McuHello
  fastTelemetry : FastTelemetry
  safetyEvent : SafetyEvent
  safetyState : SafetyState
  deriving DecidableEq, Repr

structure Message where
  type : UInt16
  payload : MessagePayload
  deriving DecidableEq, Repr

/-- `memset(message, 0, sizeof(*message))` -/
def Message.zero : Message where
  type := 0
  payload := {
    heartbeat := ⟨0, 0⟩
    estopSet := ⟨0, 0⟩
    clearLatchedFault := ⟨0⟩
    driveSetpoint := ⟨0, 0, 0⟩
    cleaningMotorsSet := ⟨0, 0, 0, 0⟩
    lidarMotorSet := ⟨0⟩
    ledSet := ⟨0, 0, 0⟩
    ack := ⟨0, 0⟩
    nack := ⟨0, 0⟩
    mcuHello := ⟨0, 0, 0⟩
    fastTelemetry := ⟨0, 0, 0, 0, 0, 0, 0, 0, 0⟩
    safetyEvent := ⟨0, 0, 0⟩
    safetyState := ⟨0, 0, 0⟩ }

/-! ### Direction and payload size -/

def messageDirection (messageType : UInt16) : MessageDirection :=
  match MessageType.ofCode? messageType with
  | some .heartbeat | some .estopSet | some .clearLatchedFault | some .identifyRequest
  | some .driveSetpoint | some .cleaningMotorsSet | some .lidarMotorSet | some .ledSet =>
    .cpuToMcu
  | some .ack | some .nack => .both
  | some .mcuHello | some .fastTelemetry | some .safetyEvent | some .powerTelemetry
  | some .mcuDiagnostic | some .safetyState => .mcuToCpu
  | none => .unknown

/-- The size macros; the two types whose payload is still open have none. -/
def MessageType.payloadSize? : MessageType → Option Nat
  | heartbeat => some 5
  | estopSet => some 3
  | clearLatchedFault => some 2
  | identifyRequest => some 0
  | driveSetpoint => some 6
  | cleaningMotorsSet => some 4
  | lidarMotorSet => some 1
  | ledSet => some 3
  | ack => some 4
  | nack => some 4
  | mcuHello => some 8
  | fastTelemetry => some 19
  | safetyEvent => some 5
  | powerTelemetry => none
  | mcuDiagnostic => none
  | safetyState => some 8

def messagePayloadSize (messageType : UInt16) (payloadSize : Option Nat) :
    MessageResult × Option Nat :=
  match payloadSize with
  | none => (.nullArgument, none)
  | some _ =>
    match MessageType.ofCode? messageType with
    | none => (.unknownType, some 0)
    | some type =>
      match type.payloadSize? with
      | none => (.payloadUndefined, some 0)
      | some size => (.ok, some size)

/-! ### Validation -/

def maxLinearMmS : Int16 := 500
def maxAngularMradS : Int16 := 4000
def maxSetpointDurationMs : UInt16 := 250
def maxPercent : UInt8 := 100

/-- `OOMWOO_CPU_MODE_DISARMED` or `OOMWOO_CPU_MODE_STACK_HEALTHY` -/
def messageIsKnownCpuMode (cpuMode : UInt8) : Bool := cpuMode == 0 || cpuMode == 1

/-- The `switch` of the validator: the bounds on the fields of each type. -/
def MessageType.inRange (type : MessageType) (payload : MessagePayload) : Bool :=
  match type with
  | heartbeat => messageIsKnownCpuMode payload.heartbeat.cpuMode
  | estopSet => decide (payload.estopSet.active ≤ 1)
  | driveSetpoint =>
    !(decide (payload.driveSetpoint.linearMmS < -maxLinearMmS) ||
      decide (payload.driveSetpoint.linearMmS > maxLinearMmS) ||
      decide (payload.driveSetpoint.angularMradS < -maxAngularMradS) ||
      decide (payload.driveSetpoint.angularMradS > maxAngularMradS) ||
      payload.driveSetpoint.durationMs == 0 ||
      decide (payload.driveSetpoint.durationMs > maxSetpointDurationMs))
  | cleaningMotorsSet =>
    !(decide (payload.cleaningMotorsSet.mainBrushPct > maxPercent) ||
      decide (payload.cleaningMotorsSet.sideBrushPct > maxPercent) ||
      decide (payload.cleaningMotorsSet.fanPct > maxPercent) ||
      decide (payload.cleaningMotorsSet.pumpPct > maxPercent))
  | lidarMotorSet => decide (payload.lidarMotorSet.pwmPct ≤ maxPercent)
  | ledSet => decide (payload.ledSet.brightnessPct ≤ maxPercent)
  | safetyEvent =>
    !(payload.safetyEvent.event == 0 ||
      decide (payload.safetyEvent.event > 16) ||
      decide (payload.safetyEvent.active > 1))
  | _ => true

def messageValidate (message : Option Message) : MessageResult :=
  match message with
  | none => .nullArgument
  | some message =>
    match messagePayloadSize message.type (some 0) with
    | (.ok, _) =>
      match MessageType.ofCode? message.type with
      | some type => if type.inRange message.payload then .ok else .valueOutOfRange
      | none => .ok
    | (result, _) => result

end Oomwoo
