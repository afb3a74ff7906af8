import Oomwoo.Ingress.Gate
import Oomwoo.Messages.Manifest

namespace Oomwoo

open Bytes

/-!
# The decision of the command gate

What the gate is for, in the words of the contract manifest: `gateDecision` looks at the version,
the type, the direction, the length of the payload and the values of its record, in this order,
and knows nothing of the tables and switches of the code.  `gate_decides` says that the code's
gate gives this answer on every frame, that an accepted message carries the values of the record,
and that every other answer leaves a message of zeros.
-/

namespace MessageType

/-- The messages that only the MCU sends. -/
def mcuToCpu : List MessageType :=
  [mcuHello, fastTelemetry, safetyEvent, powerTelemetry, mcuDiagnostic, safetyState]

/-- The bounds of the contract on the values of a command. -/
def valuesAllowed (type : MessageType) (values : List Int) : Bool :=
  match type, values with
  | heartbeat, [_, cpuMode] => cpuMode ≤ 1
  | estopSet, [active, _] => active ≤ 1
  | driveSetpoint, [linear, angular, duration] =>
    linear.natAbs ≤ 500 && angular.natAbs ≤ 4000 && duration ≠ 0 && duration ≤ 250
  | cleaningMotorsSet, percentages => percentages.all (· ≤ 100)
  | lidarMotorSet, [pwmPct] => pwmPct ≤ 100
  | ledSet, [_, _, brightnessPct] => brightnessPct ≤ 100
  | _, _ => true

end MessageType

/-- The first objection to a frame, or none. -/
def gateDecision (V : WireVersion) (frame : DecodedFrame) : CpuIngressResult :=
  if frame.version ≠ V.byte then .badVersion
  else
    match MessageType.ofCode? frame.messageType with
    | none => .unknownType
    | some type =>
      if type ∈ MessageType.mcuToCpu then .wrongDirection
      else if frame.payloadLength ≠ packedSize type.structFormat then .wrongPayloadLength
      else if type.valuesAllowed (unpack type.structFormat frame.payload.data) then .ok
      else .valueOutOfRange

/-! ### The tables of the code against the manifest -/

section Tables

variable {type : MessageType}

theorem mem_mcuToCpu_iff : type ∈ MessageType.mcuToCpu ↔ type.towardsMcu = false := by
  cases type <;> decide

/-- **The validator's comparisons are the bounds of the contract**, for everything that may
    travel towards the MCU. -/
theorem valuesAllowed_fieldValues (h : type.towardsMcu = true) (payload : MessagePayload) :
    type.valuesAllowed (type.fieldValues payload) = type.inRange payload := by
  apply Bool.eq_iff_iff.mpr
  unfold MessageType.valuesAllowed MessageType.fieldValues
  cases type with
  | heartbeat =>
    simp only [MessageType.inRange, messageIsKnownCpuMode, decide_eq_true_eq, Bool.or_eq_true,
      beq_iff_eq, ← UInt8.toNat_inj, UInt8.reduceToNat]
    omega
  | estopSet =>
    simp only [MessageType.inRange, decide_eq_true_eq, UInt8.le_iff_toNat_le, UInt8.reduceToNat]
    omega
  | driveSetpoint =>
    rw [inRange_driveSetpoint_iff]
    simp only [Bool.and_eq_true, decide_eq_true_eq]
    omega
  | cleaningMotorsSet =>
    simp only [MessageType.inRange, List.all_cons, List.all_nil, Bool.and_true,
      Bool.and_eq_true, decide_eq_true_eq, Bool.not_eq_true', Bool.or_eq_false_iff,
      decide_eq_false_iff_not, gt_iff_lt, maxPercent, UInt8.lt_iff_toNat_lt, UInt8.reduceToNat]
    omega
  | lidarMotorSet =>
    simp only [MessageType.inRange, decide_eq_true_eq, UInt8.le_iff_toNat_le, maxPercent,
      UInt8.reduceToNat]
    omega
  | ledSet =>
    simp only [MessageType.inRange, decide_eq_true_eq, UInt8.le_iff_toNat_le, maxPercent,
      UInt8.reduceToNat]
    omega
  | clearLatchedFault => rfl
  | identifyRequest => rfl
  | ack => rfl
  | nack => rfl
  | _ => cases h

end Tables

/-! ### The decision -/

section Decision

variable {V : WireVersion} {frame : DecodedFrame} {type : MessageType}

/-- The decision on a type that may travel towards the MCU, by the tables of the code. -/
theorem gateDecision_towardsMcu (hversion : frame.version = V.byte)
    (h : MessageType.ofCode? frame.messageType = some type) (hto : type.towardsMcu = true) :
    gateDecision V frame =
      if frame.payloadLength ≠ type.layout.width then .wrongPayloadLength
      else if type.inRange (decodedMessage frame.messageType type frame.payload.data).payload then
        .ok
      else .valueOutOfRange := by
  have hdefined := MessageType.isDefined_of_towardsMcu hto
  have hmember : type ∉ MessageType.mcuToCpu := by
    rw [mem_mcuToCpu_iff, hto]
    exact Bool.false_ne_true.symm
  unfold gateDecision
  rw [if_neg (not_not.mpr hversion), h]
  simp only [if_neg hmember, MessageType.packedSize_structFormat hdefined,
    ← fieldValues_decodedMessage hdefined frame.messageType, valuesAllowed_fieldValues hto]

/-- The decision on everything else. -/
theorem gateDecision_refused (hversion : frame.version = V.byte)
    (h : ∀ type, MessageType.ofCode? frame.messageType = some type → type.towardsMcu = false) :
    gateDecision V frame =
      if MessageType.ofCode? frame.messageType = none then .unknownType else .wrongDirection := by
  unfold gateDecision
  rw [if_neg (not_not.mpr hversion)]
  cases hcode : MessageType.ofCode? frame.messageType with
  | none => rfl
  | some type =>
    simp only [if_pos (mem_mcuToCpu_iff.mpr (h type hcode)), reduceCtorEq, if_false]

/-- The answer of the gate, without the message. -/
theorem fst_cpuIngressValidateFrame {prior : Message}
    (hptr : frame.payload.isNull = false ∨ frame.payloadLength = 0) :
    (cpuIngressValidateFrame V (some frame) (some prior)).1 = gateDecision V frame := by
  by_cases hversion : frame.version = V.byte
  swap
  · rw [cpuIngressValidateFrame_version hptr hversion, gateDecision, if_pos hversion]
  by_cases hto : ∃ type, MessageType.ofCode? frame.messageType = some type ∧
      type.towardsMcu = true
  · obtain ⟨type, hcode, hto⟩ := hto
    rw [cpuIngressValidateFrame_towardsMcu hptr hversion hcode hto,
      gateDecision_towardsMcu hversion hcode hto]
    split
    · rfl
    split <;> rfl
  · have hrefused : ∀ type, MessageType.ofCode? frame.messageType = some type →
        type.towardsMcu = false :=
      fun type hcode => Bool.eq_false_iff.mpr fun h => hto ⟨type, hcode, h⟩
    rw [cpuIngressValidateFrame_refused hptr hversion hrefused,
      gateDecision_refused hversion hrefused]

end Decision

/-- **The gate decides by the contract.** On every frame with a usable payload pointer and
    whatever the output held, the gate answers with the first objection, in the order version,
    type, direction, length and values; a message it accepts has the type of the frame and the
    values of the record, and every other answer leaves a message of zeros. -/
theorem gate_decides (V : WireVersion) (frame : DecodedFrame) (prior : Message)
    (hptr : frame.payload.isNull = false ∨ frame.payloadLength = 0) :
    let answer := cpuIngressValidateFrame V (some frame) (some prior)
    answer.1 = gateDecision V frame ∧
      (answer.1 ≠ .ok → answer.2 = some .zero) ∧
      (answer.1 = .ok →
        ∃ type message, MessageType.ofCode? frame.messageType = some type ∧
          answer.2 = some message ∧ message.type = frame.messageType ∧
          type.fieldValues message.payload = unpack type.structFormat frame.payload.data) := by
  by_cases hversion : frame.version = V.byte
  swap
  · rw [cpuIngressValidateFrame_version hptr hversion, gateDecision, if_pos hversion]
    exact ⟨rfl, fun _ => rfl, fun h => by cases h⟩
  by_cases hto : ∃ type, MessageType.ofCode? frame.messageType = some type ∧
      type.towardsMcu = true
  · obtain ⟨type, hcode, hto⟩ := hto
    have hdefined := MessageType.isDefined_of_towardsMcu hto
    rw [cpuIngressValidateFrame_towardsMcu hptr hversion hcode hto,
      gateDecision_towardsMcu hversion hcode hto]
    split
    · exact ⟨rfl, fun _ => rfl, fun h => by cases h⟩
    split
    · refine ⟨rfl, fun h => absurd rfl h, fun _ => ?_⟩
      exact ⟨type, _, hcode, rfl, rfl,
        fieldValues_decodedMessage hdefined frame.messageType frame.payload.data⟩
    · exact ⟨rfl, fun _ => rfl, fun h => by cases h⟩
  · have hrefused : ∀ type, MessageType.ofCode? frame.messageType = some type →
        type.towardsMcu = false :=
      fun type hcode => Bool.eq_false_iff.mpr fun h => hto ⟨type, hcode, h⟩
    rw [cpuIngressValidateFrame_refused hptr hversion hrefused,
      gateDecision_refused hversion hrefused]
    refine ⟨rfl, fun _ => rfl, fun h => ?_⟩
    simp only at h
    split at h <;> cases h

/-- A drive setpoint at the lower bound of the linear speed. -/
theorem gate_decides_setpoint :
    (cpuIngressValidateFrame wireVersion1
      (some ⟨1, 0, 5, 0x0101, .bytes [0x0c, 0xfe, 0xf4, 0x01, 0x64, 0x00]⟩) (some .zero)).1 =
        .ok := by
  have hdecides := gate_decides wireVersion1
    ⟨1, 0, 5, 0x0101, .bytes [0x0c, 0xfe, 0xf4, 0x01, 0x64, 0x00]⟩ .zero (.inl rfl)
  rw [hdecides.1]
  decide +kernel

end Oomwoo
