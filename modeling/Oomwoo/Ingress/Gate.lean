import Oomwoo.Ingress.CpuIngress
import Oomwoo.Messages.RoundTrip
import Oomwoo.Protocol.Deliveries

namespace Oomwoo

open Bytes Scanning

/-!
# What the gate lets through

First the gate on one frame: which of the tables decides, and what an accepted frame says about
its message (`cpuIngressValidateFrame_ok_iff`).  Then whole runs: the ingress is the stream
decoder with every delivered frame put through the gate, so the consumer sees exactly the
admitted frames (`ingressRun_eq`), each read from its own stretch of the bytes between two resets
(`ingress_delivers_admitted`).
-/

/-! ### One frame -/

/-- The types that may travel towards the MCU. -/
def MessageType.towardsMcu (type : MessageType) : Bool :=
  messageDirection type.code == .cpuToMcu || messageDirection type.code == .both

/-- The two open payloads are telemetry, so what travels towards the MCU has a layout. -/
theorem MessageType.isDefined_of_towardsMcu {type : MessageType} (h : type.towardsMcu = true) :
    type.isDefined := by
  constructor
  · rintro rfl
    cases h
  · rintro rfl
    cases h

section Directions

variable {messageType : UInt16} {type : MessageType}

theorem messageDirection_unknown_iff :
    messageDirection messageType = .unknown ↔ MessageType.ofCode? messageType = none := by
  unfold messageDirection
  constructor
  · intro h
    split at h <;> first | assumption | cases h
  · intro h
    rw [h]

/-- **The direction table** on the codes that are in use. -/
theorem towardsMcu_iff (h : MessageType.ofCode? messageType = some type) :
    type.towardsMcu = true ↔
      messageDirection messageType = .cpuToMcu ∨ messageDirection messageType = .both := by
  rw [← MessageType.code_of_ofCode? h, MessageType.towardsMcu, Bool.or_eq_true, beq_iff_eq,
    beq_iff_eq]

end Directions

/-- With a usable output the payload decoder leaves a message there, whatever it answers. -/
theorem messageDecodePayload_output (messageType : UInt16) (payload : Span) (prior : Message) :
    ∃ message, (messageDecodePayload messageType payload (some prior)).2 = some message := by
  by_cases hptr : payload.isNull = false ∨ payload.length = 0
  swap
  · exact ⟨prior, by rw [messageDecodePayload_null hptr]⟩
  rcases code_situations messageType with h | ⟨type, h, hopen⟩ | ⟨type, h, hdefined⟩
  · exact ⟨.zero, by rw [messageDecodePayload_unknown hptr h]⟩
  · exact ⟨.zero, by rw [messageDecodePayload_undefined hptr h hopen]⟩
  · rw [messageDecodePayload_defined hptr h hdefined]
    split
    · exact ⟨_, rfl⟩
    split
    · exact ⟨_, rfl⟩
    · exact ⟨_, rfl⟩

section OneFrame

variable {V : WireVersion} {frame : DecodedFrame} {type : MessageType} {prior message : Message}

theorem cpuIngressValidateFrame_null
    (hptr : ¬ (frame.payload.isNull = false ∨ frame.payloadLength = 0)) :
    cpuIngressValidateFrame V (some frame) (some prior) = (.nullArgument, some .zero) := by
  have hguard : (frame.payload.isNull && decide (frame.payloadLength ≠ 0)) = true := by
    simpa [not_or] using hptr
  unfold cpuIngressValidateFrame
  simp only [hguard, if_true]

theorem cpuIngressValidateFrame_version
    (hptr : frame.payload.isNull = false ∨ frame.payloadLength = 0)
    (hversion : frame.version ≠ V.byte) :
    cpuIngressValidateFrame V (some frame) (some prior) = (.badVersion, some .zero) := by
  have hguard : (frame.payload.isNull && decide (frame.payloadLength ≠ 0)) = false :=
    decode_guard hptr
  unfold cpuIngressValidateFrame
  simp only [hguard, Bool.false_eq_true, if_false, if_pos hversion]

/-- Behind the pointer and the version check. -/
theorem cpuIngressValidateFrame_checked
    (hptr : frame.payload.isNull = false ∨ frame.payloadLength = 0)
    (hversion : frame.version = V.byte) :
    cpuIngressValidateFrame V (some frame) (some prior) =
      if messageDirection frame.messageType = .unknown then (.unknownType, some .zero)
      else if messageDirection frame.messageType ≠ .cpuToMcu ∧
          messageDirection frame.messageType ≠ .both then (.wrongDirection, some .zero)
      else
        (mapMessageResult
            (messageDecodePayload frame.messageType frame.payload (some .zero)).1,
          (messageDecodePayload frame.messageType frame.payload (some .zero)).2) := by
  have hguard : (frame.payload.isNull && decide (frame.payloadLength ≠ 0)) = false :=
    decode_guard hptr
  unfold cpuIngressValidateFrame
  simp only [hguard, Bool.false_eq_true, if_false, if_neg (not_not.mpr hversion)]

/-- The gate on a frame whose type may travel towards the MCU: length, then bounds. -/
theorem cpuIngressValidateFrame_towardsMcu
    (hptr : frame.payload.isNull = false ∨ frame.payloadLength = 0)
    (hversion : frame.version = V.byte) (h : MessageType.ofCode? frame.messageType = some type)
    (hdir : type.towardsMcu = true) :
    cpuIngressValidateFrame V (some frame) (some prior) =
      if frame.payloadLength ≠ type.layout.width then (.wrongPayloadLength, some .zero)
      else if type.inRange (decodedMessage frame.messageType type frame.payload.data).payload then
        (.ok, some (decodedMessage frame.messageType type frame.payload.data))
      else (.valueOutOfRange, some .zero) := by
  have hknown : messageDirection frame.messageType ≠ .unknown := by
    rw [ne_eq, messageDirection_unknown_iff, h]
    exact Option.some_ne_none type
  have hto := (towardsMcu_iff h).mp hdir
  have hguard : ¬ (messageDirection frame.messageType ≠ .cpuToMcu ∧
      messageDirection frame.messageType ≠ .both) := by
    rw [not_and_or, not_not, not_not]
    exact hto
  rw [cpuIngressValidateFrame_checked hptr hversion, if_neg hknown, if_neg hguard,
    messageDecodePayload_defined hptr h (MessageType.isDefined_of_towardsMcu hdir)]
  -- the result map keeps the three answers of the decoder apart
  unfold DecodedFrame.payloadLength
  by_cases hlen : frame.payload.length ≠ type.layout.width
  · rw [if_pos hlen, if_pos hlen]
    rfl
  rw [if_neg hlen, if_neg hlen]
  split
  · rfl
  · rfl

/-- The gate on telemetry, and on an unknown type. -/
theorem cpuIngressValidateFrame_refused
    (hptr : frame.payload.isNull = false ∨ frame.payloadLength = 0)
    (hversion : frame.version = V.byte)
    (h : ∀ type, MessageType.ofCode? frame.messageType = some type → type.towardsMcu = false) :
    cpuIngressValidateFrame V (some frame) (some prior) =
      (if MessageType.ofCode? frame.messageType = none then .unknownType else .wrongDirection,
        some .zero) := by
  rw [cpuIngressValidateFrame_checked hptr hversion]
  cases hcode : MessageType.ofCode? frame.messageType with
  | none =>
    rw [if_pos (messageDirection_unknown_iff.mpr hcode)]
    rfl
  | some type =>
    have hknown : messageDirection frame.messageType ≠ .unknown := by
      rw [ne_eq, messageDirection_unknown_iff, hcode]
      exact Option.some_ne_none type
    -- a known type that is not accepted is telemetry
    have hguard : messageDirection frame.messageType ≠ .cpuToMcu ∧
        messageDirection frame.messageType ≠ .both := by
      rw [← not_or, ← towardsMcu_iff hcode, h type hcode]
      exact Bool.false_ne_true
    rw [if_neg hknown, if_pos hguard, if_neg (Option.some_ne_none type)]

/-- **When the gate says OK**, and which message it then leaves. -/
theorem cpuIngressValidateFrame_ok_iff :
    cpuIngressValidateFrame V (some frame) (some prior) = (.ok, some message) ↔
      frame.version = V.byte ∧
        (messageDirection frame.messageType = .cpuToMcu ∨
          messageDirection frame.messageType = .both) ∧
        messageDecodePayload frame.messageType frame.payload (some .zero) =
          (.ok, some message) := by
  by_cases hptr : frame.payload.isNull = false ∨ frame.payloadLength = 0
  swap
  · -- a null payload with a length stops both
    rw [messageDecodePayload_null hptr, cpuIngressValidateFrame_null hptr]
    simp
  by_cases hversion : frame.version = V.byte
  swap
  · rw [cpuIngressValidateFrame_version hptr hversion]
    simp [hversion]
  by_cases hdir : messageDirection frame.messageType = .cpuToMcu ∨
      messageDirection frame.messageType = .both
  · cases hcode : MessageType.ofCode? frame.messageType with
    | none =>
      rw [messageDirection_unknown_iff.mpr hcode] at hdir
      rcases hdir with h | h <;> cases h
    | some type =>
      have hto := (towardsMcu_iff hcode).mpr hdir
      rw [cpuIngressValidateFrame_towardsMcu hptr hversion hcode hto,
        messageDecodePayload_defined hptr hcode (MessageType.isDefined_of_towardsMcu hto)]
      simp only [hversion, hdir, true_and]
      -- both answer by the same tests
      show _ ↔ (if frame.payloadLength ≠ type.layout.width then _ else _) = _
      split
      · simp
      split
      · simp
      · simp
  · rw [cpuIngressValidateFrame_refused hptr hversion]
    · simp only [hversion, hdir, false_and, and_false, iff_false, Prod.mk.injEq, not_and]
      intro h
      split at h <;> cases h
    · intro type hcode
      rw [Bool.eq_false_iff, ne_eq, towardsMcu_iff hcode]
      exact hdir

/-- The gate leaves a message in a usable output, whatever it answers. -/
theorem cpuIngressValidateFrame_output (V : WireVersion) (frame : DecodedFrame)
    (prior : Message) :
    ∃ message, (cpuIngressValidateFrame V (some frame) (some prior)).2 = some message := by
  unfold cpuIngressValidateFrame
  simp only
  split
  · exact ⟨_, rfl⟩
  split
  · exact ⟨_, rfl⟩
  split
  · exact ⟨_, rfl⟩
  split
  · exact ⟨_, rfl⟩
  exact messageDecodePayload_output _ _ _

end OneFrame

end Oomwoo
