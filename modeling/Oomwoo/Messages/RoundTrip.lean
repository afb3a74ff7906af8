import Oomwoo.Messages.Layout

namespace Oomwoo

open Bytes

/-!
# The payload codec is a bijection

What success of the validator, the decoder and the encoder means, each as one equivalence, and
from these the two round trips: the payloads the decoder accepts for a type are exactly the
encodings of its valid messages.
-/

/-! ### The three kinds of type codes -/

section Codes

variable {messageType : UInt16} {type : MessageType} {prior : Nat}

theorem messagePayloadSize_unknown (h : MessageType.ofCode? messageType = none) :
    messagePayloadSize messageType (some prior) = (.unknownType, some 0) := by
  rw [messagePayloadSize, h]

theorem messagePayloadSize_undefined (h : MessageType.ofCode? messageType = some type)
    (hopen : ¬ type.isDefined) :
    messagePayloadSize messageType (some prior) = (.payloadUndefined, some 0) := by
  have hsize : type.payloadSize? = none :=
    Option.eq_none_iff_forall_ne_some.mpr fun _ hs => hopen (type.payloadSize?_eq.mp hs).1
  simp only [messagePayloadSize, h, hsize]

theorem messagePayloadSize_defined (h : MessageType.ofCode? messageType = some type)
    (hdefined : type.isDefined) :
    messagePayloadSize messageType (some prior) = (.ok, some type.layout.width) := by
  have hsize := type.payloadSize?_eq.mpr ⟨hdefined, rfl⟩
  simp only [messagePayloadSize, h, hsize]

/-- **The codes**: no type, a type whose payload is still open, or a type with a layout. -/
theorem code_situations (messageType : UInt16) :
    MessageType.ofCode? messageType = none ∨
      (∃ type, MessageType.ofCode? messageType = some type ∧ ¬ type.isDefined) ∨
      ∃ type, MessageType.ofCode? messageType = some type ∧ type.isDefined := by
  cases h : MessageType.ofCode? messageType with
  | none => exact .inl rfl
  | some type =>
    by_cases hdefined : type.isDefined
    · exact .inr (.inr ⟨type, rfl, hdefined⟩)
    · exact .inr (.inl ⟨type, rfl, hdefined⟩)

end Codes

/-! ### What success means -/

/-- A message is valid if its type has a payload and the active fields are in range. -/
theorem messageValidate_ok_iff {message : Message} :
    messageValidate (some message) = .ok ↔
      ∃ type, MessageType.ofCode? message.type = some type ∧ type.isDefined ∧
        type.inRange message.payload = true := by
  rcases code_situations message.type with h | ⟨type, h, hopen⟩ | ⟨type, h, hdefined⟩
  · simp [messageValidate, messagePayloadSize_unknown h, h]
  · simp [messageValidate, messagePayloadSize_undefined h hopen, h, hopen]
  · simp only [messageValidate, messagePayloadSize_defined h hdefined, h, Option.some.injEq,
      exists_eq_left', hdefined, true_and]
    cases type.inRange message.payload <;> simp

/-- The comparisons on a drive setpoint as bounds on the integers its fields stand for. -/
theorem inRange_driveSetpoint_iff (payload : MessagePayload) :
    MessageType.driveSetpoint.inRange payload = true ↔
      payload.driveSetpoint.linearMmS.toInt.natAbs ≤ 500 ∧
        payload.driveSetpoint.angularMradS.toInt.natAbs ≤ 4000 ∧
        1 ≤ payload.driveSetpoint.durationMs.toNat ∧
        payload.driveSetpoint.durationMs.toNat ≤ 250 := by
  have hlinear : (-maxLinearMmS).toInt = -500 ∧ maxLinearMmS.toInt = 500 := by decide
  have hangular : (-maxAngularMradS).toInt = -4000 ∧ maxAngularMradS.toInt = 4000 := by decide
  have hduration : maxSetpointDurationMs.toNat = 250 := by decide
  -- the two signed fields are compared as such
  simp only [MessageType.inRange, Bool.not_eq_true', Bool.or_eq_false_iff,
    decide_eq_false_iff_not, beq_eq_false_iff_ne, Int16.lt_iff_toInt_lt, UInt16.lt_iff_toNat_lt,
    gt_iff_lt, hlinear, hangular, hduration, ne_eq, ← UInt16.toNat_inj, UInt16.reduceToNat]
  omega

/-- The message that the decoder assembles from a payload of the right length. -/
def decodedMessage (messageType : UInt16) (type : MessageType) (payload : List UInt8) : Message :=
  ⟨messageType, type.setView (type.layout.decode payload) Message.zero.payload⟩

@[simp] theorem view_decodedMessage (messageType : UInt16) (type : MessageType)
    (payload : List UInt8) :
    type.view (decodedMessage messageType type payload).payload = type.layout.decode payload :=
  type.view_setView _ _

section Decode

variable {messageType : UInt16} {type : MessageType} {payload : Span} {prior : Message}

theorem decode_guard (hptr : payload.isNull = false ∨ payload.length = 0) :
    (payload.isNull && decide (payload.length ≠ 0)) = false := by
  rcases hptr with h | h <;> simp [h]

theorem messageDecodePayload_null (hptr : ¬ (payload.isNull = false ∨ payload.length = 0)) :
    messageDecodePayload messageType payload (some prior) = (.nullArgument, some prior) := by
  have hguard : (payload.isNull && decide (payload.length ≠ 0)) = true := by
    simpa [not_or] using hptr
  simp only [messageDecodePayload, hguard, if_true]

theorem messageDecodePayload_unknown (hptr : payload.isNull = false ∨ payload.length = 0)
    (h : MessageType.ofCode? messageType = none) :
    messageDecodePayload messageType payload (some prior) = (.unknownType, some .zero) := by
  simp only [messageDecodePayload, decode_guard hptr, messagePayloadSize_unknown h,
    Bool.false_eq_true, if_false]

theorem messageDecodePayload_undefined (hptr : payload.isNull = false ∨ payload.length = 0)
    (h : MessageType.ofCode? messageType = some type) (hopen : ¬ type.isDefined) :
    messageDecodePayload messageType payload (some prior) = (.payloadUndefined, some .zero) := by
  simp only [messageDecodePayload, decode_guard hptr, messagePayloadSize_undefined h hopen,
    Bool.false_eq_true, if_false]

/-- The decoder on a type with a layout: length, then bounds, then success. -/
theorem messageDecodePayload_defined (hptr : payload.isNull = false ∨ payload.length = 0)
    (h : MessageType.ofCode? messageType = some type) (hdefined : type.isDefined) :
    messageDecodePayload messageType payload (some prior) =
      if payload.length ≠ type.layout.width then (.wrongPayloadLength, some .zero)
      else if type.inRange (decodedMessage messageType type payload.data).payload then
        (.ok, some (decodedMessage messageType type payload.data))
      else (.valueOutOfRange, some .zero) := by
  simp only [messageDecodePayload, decode_guard hptr, Bool.false_eq_true, if_false,
    messagePayloadSize_defined h hdefined, h, Option.bind_some,
    MessageType.decodeFields_eq hdefined]
  by_cases hlen : payload.length ≠ type.layout.width
  · rw [if_pos hlen, if_pos hlen]
  rw [if_neg hlen, if_neg hlen]
  -- the validator looks up the same type again and checks its bounds
  have hvalidate : messageValidate (some (decodedMessage messageType type payload.data)) =
      if type.inRange (decodedMessage messageType type payload.data).payload then .ok
      else .valueOutOfRange := by
    simp only [messageValidate, decodedMessage, messagePayloadSize_defined h hdefined, h]
  rw [← decodedMessage, hvalidate]
  split <;> rfl

/-- **When the decoder accepts**, and what it then returns. -/
theorem messageDecodePayload_ok_iff {message : Message} :
    messageDecodePayload messageType payload (some prior) = (.ok, some message) ↔
      (payload.isNull = false ∨ payload.length = 0) ∧
        ∃ type, MessageType.ofCode? messageType = some type ∧ type.isDefined ∧
          payload.length = type.layout.width ∧
          message = decodedMessage messageType type payload.data ∧
          type.inRange message.payload = true := by
  by_cases hptr : payload.isNull = false ∨ payload.length = 0
  swap
  · simp [messageDecodePayload_null hptr, hptr]
  -- only a type with a layout gets as far as the length check
  rcases code_situations messageType with h | ⟨type, h, hopen⟩ | ⟨type, h, hdefined⟩
  · simp [messageDecodePayload_unknown hptr h, h]
  · simp [messageDecodePayload_undefined hptr h hopen, h, hopen]
  · rw [messageDecodePayload_defined hptr h hdefined]
    simp only [h, Option.some.injEq, exists_eq_left', hdefined, true_and, hptr]
    constructor
    · intro heq
      split at heq
      · cases heq
      split at heq
      · rename_i hlen hrange
        cases heq
        exact ⟨not_not.mp hlen, rfl, hrange⟩
      · cases heq
    · rintro ⟨hlen, rfl, hrange⟩
      rw [if_neg (not_not.mpr hlen), if_pos hrange]

end Decode

section Encode

variable {message : Message} {type : MessageType} {output : Span} {reported : Nat}

/-- The encoder on a valid message. -/
theorem messageEncodePayload_valid (h : MessageType.ofCode? message.type = some type)
    (hdefined : type.isDefined) (hrange : type.inRange message.payload = true) :
    messageEncodePayload (some message) output (some reported) =
      if output.length < type.layout.width then (.outputTooSmall, output, some 0)
      else if type.layout.width ≠ 0 && output.isNull then (.nullArgument, output, some 0)
      else (.ok, output.store (writeAt output.data 0
        (type.layout.encode (type.view message.payload))), some type.layout.width) := by
  have hvalid : messageValidate (some message) = .ok :=
    messageValidate_ok_iff.mpr ⟨type, h, hdefined, hrange⟩
  simp only [messageEncodePayload, hvalid, messagePayloadSize_defined h hdefined, h,
    Option.bind_some, MessageType.encodeFields_eq hdefined]

/-- On any other message it fails. -/
theorem messageEncodePayload_invalid (h : messageValidate (some message) ≠ .ok) :
    messageEncodePayload (some message) output (some reported) =
      (messageValidate (some message), output, some 0) := by
  simp only [messageEncodePayload]

/-- **When the encoder succeeds**, and what it then stores. -/
theorem messageEncodePayload_ok_iff {stored : Span} {length : Option Nat} :
    messageEncodePayload (some message) output (some reported) = (.ok, stored, length) ↔
      ∃ type, MessageType.ofCode? message.type = some type ∧ type.isDefined ∧
        type.inRange message.payload = true ∧ type.layout.width ≤ output.length ∧
        (output.isNull = false ∨ type.layout.width = 0) ∧
        stored = output.store (writeAt output.data 0
          (type.layout.encode (type.view message.payload))) ∧
        length = some type.layout.width := by
  constructor
  · intro heq
    by_cases hvalid : messageValidate (some message) = .ok
    swap
    · rw [messageEncodePayload_invalid hvalid] at heq
      exact absurd (congrArg Prod.fst heq) hvalid
    obtain ⟨type, h, hdefined, hrange⟩ := messageValidate_ok_iff.mp hvalid
    rw [messageEncodePayload_valid h hdefined hrange] at heq
    split at heq
    · cases heq
    split at heq
    · cases heq
    rename_i hroom hnull
    cases heq
    refine ⟨type, h, hdefined, hrange, not_lt.mp hroom, ?_, rfl, rfl⟩
    cases hout : output.isNull with
    | false => exact .inl rfl
    | true => exact .inr (by simpa [hout] using hnull)
  · rintro ⟨type, h, hdefined, hrange, hroom, hptr, rfl, rfl⟩
    -- a null output is fine if there is nothing to store
    have hguard : (decide (type.layout.width ≠ 0) && output.isNull) = false := by
      rcases hptr with hptr | hptr <;> simp [hptr]
    rw [messageEncodePayload_valid h hdefined hrange, if_neg (not_lt.mpr hroom), hguard]
    rfl

end Encode

/-! ### The round trips -/

/-- Two messages of one type that agree on the fields of that type. -/
def Message.SameActive (a b : Message) : Prop :=
  a.type = b.type ∧
    ∀ type, MessageType.ofCode? a.type = some type → type.view a.payload = type.view b.payload

/-- `bytes` is what the payload encoder stores and reports for a message, in some output. -/
def PayloadEncodesTo (message : Message) (bytes : List UInt8) : Prop :=
  ∃ (output stored : Span) (reported length : Nat),
    messageEncodePayload (some message) output (some reported) = (.ok, stored, some length) ∧
      bytes = stored.data.take length

/-- The stored bytes are the layout's, also behind the null pointer of an empty payload. -/
theorem take_store_writeAt (output : Span) (bytes : List UInt8)
    (hptr : output.isNull = false ∨ bytes.length = 0) :
    (output.store (writeAt output.data 0 bytes)).data.take bytes.length = bytes := by
  cases output with
  | null n =>
    have hnil : bytes = [] := by simpa using hptr
    rw [hnil]
    rfl
  | bytes output =>
    rw [Span.store_bytes, Span.data_bytes, Span.data_bytes, writeAt_zero, List.take_left]

/-- **What the encoder produces is the layout's wire form** of a valid message. -/
theorem payloadEncodesTo_iff {message : Message} {bytes : List UInt8} :
    PayloadEncodesTo message bytes ↔
      ∃ type, MessageType.ofCode? message.type = some type ∧ type.isDefined ∧
        type.inRange message.payload = true ∧
        bytes = type.layout.encode (type.view message.payload) := by
  constructor
  · rintro ⟨output, stored, reported, length, h, rfl⟩
    obtain ⟨type, hcode, hdefined, hrange, hroom, hptr, rfl, hlength⟩ :=
      messageEncodePayload_ok_iff.mp h
    cases hlength
    refine ⟨type, hcode, hdefined, hrange, ?_⟩
    rw [← type.layout.length_encode (type.view message.payload)] at hptr ⊢
    exact take_store_writeAt output _ hptr
  · rintro ⟨type, hcode, hdefined, hrange, rfl⟩
    refine ⟨.bytes (List.replicate type.layout.width 0), _, 0, _,
      messageEncodePayload_ok_iff.mpr ⟨type, hcode, hdefined, hrange, by simp, .inl rfl, rfl, rfl⟩,
      ?_⟩
    rw [← type.layout.length_encode (type.view message.payload)]
    exact (take_store_writeAt _ _ (.inl rfl)).symm

theorem Message.SameActive.symm {a b : Message} (h : a.SameActive b) : b.SameActive a :=
  ⟨h.1.symm, fun type hcode => (h.2 type (h.1 ▸ hcode)).symm⟩

/-- The encoder looks at the active fields only. -/
theorem PayloadEncodesTo.congr {a b : Message} {bytes : List UInt8} (h : PayloadEncodesTo a bytes)
    (hsame : a.SameActive b) : PayloadEncodesTo b bytes := by
  obtain ⟨type, hcode, hdefined, hrange, rfl⟩ := payloadEncodesTo_iff.mp h
  have hview := hsame.2 type hcode
  refine payloadEncodesTo_iff.mpr ⟨type, hsame.1 ▸ hcode, hdefined, ?_, by rw [hview]⟩
  rw [← MessageType.inRange_congr hview, hrange]

/-- What was encoded is decoded to the same fields. -/
theorem decode_of_payloadEncodesTo {message : Message} {bytes : List UInt8}
    (h : PayloadEncodesTo message bytes) (prior : Message) :
    ∃ decoded, messageDecodePayload message.type (.bytes bytes) (some prior) =
      (.ok, some decoded) ∧ message.SameActive decoded := by
  obtain ⟨type, hcode, hdefined, hrange, rfl⟩ := payloadEncodesTo_iff.mp h
  have hview : type.view (decodedMessage message.type type
      (type.layout.encode (type.view message.payload))).payload = type.view message.payload := by
    rw [view_decodedMessage, type.layout.decode_encode_self]
  refine ⟨decodedMessage message.type type (type.layout.encode (type.view message.payload)), ?_,
    rfl, ?_⟩
  · refine messageDecodePayload_ok_iff.mpr ⟨.inl rfl, type, hcode, hdefined, ?_, rfl, ?_⟩
    · exact type.layout.length_encode _
    · rw [MessageType.inRange_congr hview, hrange]
  · intro type' hcode'
    rw [hcode] at hcode'
    cases hcode'
    exact hview.symm

/-- What was decoded is encoded to the same bytes. -/
theorem payloadEncodesTo_of_decode {messageType : UInt16} {payload : Span}
    {prior message : Message}
    (h : messageDecodePayload messageType payload (some prior) = (.ok, some message)) :
    message.type = messageType ∧ PayloadEncodesTo message payload.data := by
  obtain ⟨hptr, type, hcode, hdefined, hlen, rfl, hrange⟩ := messageDecodePayload_ok_iff.mp h
  refine ⟨rfl, payloadEncodesTo_iff.mpr ⟨type, hcode, hdefined, hrange, ?_⟩⟩
  rw [view_decodedMessage, type.layout.encode_decode_self]
  rw [payload.length_data hptr, hlen]

/-- What a valid message is encoded to, wherever there is room, decodes to its active fields. -/
theorem encode_then_decode {message : Message} {type : MessageType}
    (hcode : MessageType.ofCode? message.type = some type) (hdefined : type.isDefined)
    (hrange : type.inRange message.payload = true) (output : Span) (reported : Nat)
    (prior : Message) (hroom : type.layout.width ≤ output.length)
    (hptr : output.isNull = false ∨ type.layout.width = 0) :
    ∃ stored decoded,
      messageEncodePayload (some message) output (some reported) =
        (.ok, stored, some type.layout.width) ∧
      messageDecodePayload message.type (.bytes (stored.data.take type.layout.width))
        (some prior) = (.ok, some decoded) ∧
      message.SameActive decoded := by
  have hencode : messageEncodePayload (some message) output (some reported) = (.ok, _, _) :=
    messageEncodePayload_ok_iff.mpr ⟨type, hcode, hdefined, hrange, hroom, hptr, rfl, rfl⟩
  have hbytes : PayloadEncodesTo message _ := ⟨output, _, reported, _, hencode, rfl⟩
  obtain ⟨decoded, hdecode, hsame⟩ := decode_of_payloadEncodesTo hbytes prior
  exact ⟨_, decoded, hencode, hdecode, hsame⟩

/-- What was decoded is valid and, wherever there is room, encoded to the bytes it came from. -/
theorem decode_then_encode {messageType : UInt16} {payload : Span} {prior message : Message}
    (hdecode : messageDecodePayload messageType payload (some prior) = (.ok, some message))
    (output : Span) (reported : Nat) (hroom : payload.length ≤ output.length)
    (hout : output.isNull = false ∨ payload.length = 0) :
    ∃ stored,
      messageEncodePayload (some message) output (some reported) =
        (.ok, stored, some payload.length) ∧
      stored.data.take payload.length = payload.data := by
  obtain ⟨hptr, type, hcode, hdefined, hlen, rfl, hrange⟩ :=
    messageDecodePayload_ok_iff.mp hdecode
  have hwidth : payload.data.length = type.layout.width := by rw [payload.length_data hptr, hlen]
  -- the layout writes back what it read
  have hwritten : type.layout.encode (type.view (decodedMessage messageType type
      payload.data).payload) = payload.data := by
    rw [view_decodedMessage, type.layout.encode_decode_self hwidth]
  rw [hlen] at hroom hout ⊢
  refine ⟨_, messageEncodePayload_ok_iff.mpr
    ⟨type, hcode, hdefined, hrange, hroom, hout, rfl, rfl⟩, ?_⟩
  rw [hwritten, ← hwidth]
  rw [← hwidth] at hout
  exact take_store_writeAt output _ hout

/-- What is encoded is valid. -/
theorem PayloadEncodesTo.valid {message : Message} {bytes : List UInt8}
    (h : PayloadEncodesTo message bytes) : messageValidate (some message) = .ok := by
  obtain ⟨type, hcode, hdefined, hrange, _⟩ := payloadEncodesTo_iff.mp h
  exact messageValidate_ok_iff.mpr ⟨type, hcode, hdefined, hrange⟩

/-- **The payload codec is a bijection onto the accepted payloads.** A valid message is encoded
    with the length of the size table and decoded to the same active fields; a decoded message is
    valid and encoded to the bytes it came from; so the accepted payloads of a type are the
    encodings of its valid messages, and the encoder rejects exactly what is never decoded. -/
theorem payload_codec_bijective :
    (∀ message : Message, messageValidate (some message) = .ok →
      ∃ size, messagePayloadSize message.type (some 0) = (.ok, some size) ∧
        ∀ (output : Span) (reported : Nat) (prior : Message), size ≤ output.length →
          (output.isNull = false ∨ size = 0) →
          ∃ stored decoded,
            messageEncodePayload (some message) output (some reported) =
              (.ok, stored, some size) ∧
            messageDecodePayload message.type (.bytes (stored.data.take size)) (some prior) =
              (.ok, some decoded) ∧
            message.SameActive decoded) ∧
    (∀ (messageType : UInt16) (payload : Span) (prior message : Message),
      messageDecodePayload messageType payload (some prior) = (.ok, some message) →
      message.type = messageType ∧ messageValidate (some message) = .ok ∧
        ∀ (output : Span) (reported : Nat), payload.length ≤ output.length →
          (output.isNull = false ∨ payload.length = 0) →
          ∃ stored,
            messageEncodePayload (some message) output (some reported) =
              (.ok, stored, some payload.length) ∧
            stored.data.take payload.length = payload.data) ∧
    (∀ (messageType : UInt16) (bytes : List UInt8),
      (∃ prior message,
        messageDecodePayload messageType (.bytes bytes) (some prior) = (.ok, some message)) ↔
      ∃ message, message.type = messageType ∧ messageValidate (some message) = .ok ∧
        PayloadEncodesTo message bytes) ∧
    (∀ message : Message,
      (∀ (output : Span) (reported : Nat),
        (messageEncodePayload (some message) output (some reported)).1 ≠ .ok) ↔
      ¬ ∃ payload prior decoded,
        messageDecodePayload message.type payload (some prior) = (.ok, some decoded) ∧
          message.SameActive decoded) := by
  refine ⟨?_, ?_, fun messageType bytes => ⟨?_, ?_⟩, fun message => ⟨?_, ?_⟩⟩
  · intro message hvalid
    obtain ⟨type, hcode, hdefined, hrange⟩ := messageValidate_ok_iff.mp hvalid
    exact ⟨_, messagePayloadSize_defined hcode hdefined,
      encode_then_decode hcode hdefined hrange⟩
  · intro messageType payload prior message hdecode
    obtain ⟨htype, hencodes⟩ := payloadEncodesTo_of_decode hdecode
    exact ⟨htype, hencodes.valid, decode_then_encode hdecode⟩
  · rintro ⟨prior, message, hdecode⟩
    obtain ⟨htype, hencodes⟩ := payloadEncodesTo_of_decode hdecode
    exact ⟨message, htype, hencodes.valid, hencodes⟩
  · rintro ⟨message, rfl, _, hencodes⟩
    obtain ⟨decoded, hdecode, _⟩ := decode_of_payloadEncodesTo hencodes .zero
    exact ⟨.zero, decoded, hdecode⟩
  · rintro hrejects ⟨payload, prior, decoded, hdecode, hsame⟩
    have hencodes := (payloadEncodesTo_of_decode hdecode).2.congr hsame.symm
    obtain ⟨output, stored, reported, length, hencode, _⟩ := hencodes
    exact hrejects output reported (by rw [hencode])
  · rintro hnever output reported hok
    obtain ⟨type, hcode, hdefined, hrange, hroom, hptr, hstored, hlength⟩ :=
      messageEncodePayload_ok_iff.mp (Prod.ext hok rfl)
    have hencodes : PayloadEncodesTo message _ :=
      payloadEncodesTo_iff.mpr ⟨type, hcode, hdefined, hrange, rfl⟩
    obtain ⟨decoded, hdecode, hsame⟩ := decode_of_payloadEncodesTo hencodes .zero
    exact hnever ⟨_, .zero, decoded, hdecode, hsame⟩

end Oomwoo
