import Oomwoo.Lib.Checks
import Oomwoo.Messages.Manifest
import Oomwoo.Protocol.Remainder

namespace Oomwoo

open Bytes Checks

/-!
# The golden vectors

`load_and_validate` of `tools/generate_message_vectors.py` checks the golden vectors against the
manifest before it writes them out as a C fixture.  It takes every frame apart on its own, with
`struct` and a checksum on unbounded integers; still it accepts exactly the documents whose frames
are what `oomwoo_encode_frame` writes, with a payload of the declared size and at least one vector
for every defined message (`load_and_validate_iff`).

JSON numbers are integers of any size, and hex strings stand here for the bytes they spell.
-/

namespace VectorGenerator

/-! ### The two documents -/

/-- An entry of `messages` in the manifest, its `struct_format` read as a list of fields. -/
structure ManifestMessage where
  name : String
  id : Int
  payloadStatus : String
  structFormat : List FieldFormat
  deriving DecidableEq, Repr

structure Manifest where
  wireVersion : Int
  magicAscii : String
  byteOrder : String
  crc : String
  messages : List ManifestMessage

structure GoldenVector where
  name : String
  messageName : String
  messageType : Int
  sequence : Int
  flags : Int
  payload : List UInt8
  frame : List UInt8
  deriving DecidableEq, Repr

structure OpenMessage where
  name : String
  messageType : Int
  deriving DecidableEq, Repr

structure GoldenVectors where
  generatedFrom : String
  wireVersion : Int
  vectors : List GoldenVector
  openMessages : List OpenMessage

/-- What a `ValueError` complains about. -/
inductive Invalid where
  | wireVersion
  | framingMetadata
  | duplicateMessageNames
  | duplicateMessageIds
  | duplicateVectorName (name : String)
  | undefinedMessage (messageName : String)
  | messageId (messageName : String)
  | payloadSize (name : String)
  | frameSize (name : String)
  | frameFields (name : String)
  | frameCrc (name : String)
  | coverage
  | openMessages
  deriving DecidableEq, Repr

/-! ### The checks -/

/-- `HEADER_FORMAT` behind the two bytes of the magic. -/
def headerFormat : List FieldFormat := [.B, .B, .H, .H, .H]

def headerSize : Nat := 2 + packedSize headerFormat

/-- `CRC_FORMAT` -/
def crcFormat : List FieldFormat := [.H]

def crcSize : Nat := packedSize crcFormat

/-- The body of the loop over the vectors, behind the check of the name. -/
def checkVector (messages : List ManifestMessage) (vector : GoldenVector) :
    Except Invalid Unit :=
  match messages.find? fun message => message.name == vector.messageName with
  | none => .error (.undefinedMessage vector.messageName)
  | some message =>
    if message.payloadStatus ≠ "defined" then .error (.undefinedMessage vector.messageName)
    else if vector.messageType ≠ message.id then .error (.messageId vector.messageName)
    else if vector.payload.length ≠ packedSize message.structFormat then
      .error (.payloadSize vector.name)
    else if vector.frame.length ≠ headerSize + vector.payload.length + crcSize then
      .error (.frameSize vector.name)
    else
      let crcOffset := vector.frame.length - crcSize
      if vector.frame.take 2 ≠ [0x4f, 0x57] ∨
          unpack headerFormat (vector.frame.drop 2) ≠
            [1, vector.flags, vector.sequence, vector.messageType, vector.payload.length] ∨
          (vector.frame.take crcOffset).drop headerSize ≠ vector.payload then
        .error (.frameFields vector.name)
      else if unpack crcFormat (vector.frame.drop crcOffset) ≠
          [(crc16CcittFalse (vector.frame.take crcOffset) : Int)] then
        .error (.frameCrc vector.name)
      else .ok ()

/-- The loop over the vectors; `vectorNames` and `covered` are the sets it fills. -/
def checkVectors (messages : List ManifestMessage) (vectorNames covered : List String) :
    List GoldenVector → Except Invalid (List String)
  | [] => .ok covered
  | vector :: vectors =>
    if vector.name ∈ vectorNames then .error (.duplicateVectorName vector.name)
    else
      match checkVector messages vector with
      | .error invalid => .error invalid
      | .ok () =>
        checkVectors messages (vector.name :: vectorNames) (vector.messageName :: covered) vectors

/-- Two lists with the same elements. -/
def sameSet {α : Type} [DecidableEq α] (a b : List α) : Bool :=
  a.all (fun x => decide (x ∈ b)) && b.all (fun x => decide (x ∈ a))

def loadAndValidate (manifest : Manifest) (document : GoldenVectors) :
    Except Invalid (List GoldenVector) :=
  let messages := manifest.messages
  if manifest.wireVersion ≠ 1 ∨ document.wireVersion ≠ 1 then .error .wireVersion
  else if manifest.magicAscii ≠ "OW" ∨ manifest.byteOrder ≠ "little" ∨
      manifest.crc ≠ "CRC-16/CCITT-FALSE" ∨ document.generatedFrom ≠ "protocol_v1.json" then
    .error .framingMetadata
  else if ¬ (messages.map ManifestMessage.name).Nodup then .error .duplicateMessageNames
  else if ¬ (messages.map ManifestMessage.id).Nodup then .error .duplicateMessageIds
  else
    match checkVectors messages [] [] document.vectors with
    | .error invalid => .error invalid
    | .ok covered =>
      let named (status : String) := messages.filter fun message => message.payloadStatus == status
      if ¬ sameSet covered ((named "defined").map ManifestMessage.name) then .error .coverage
      else if ¬ sameSet ((named "open").map fun message => (message.name, message.id))
          (document.openMessages.map fun message => (message.name, message.messageType)) then
        .error .openMessages
      else .ok document.vectors

/-! ### The frames that pass -/

section Frames

variable (frame : List UInt8)

theorem unpack_headerFormat :
    unpack headerFormat (frame.drop 2) =
      [((byteAt frame 2).toNat : Int), (byteAt frame 3).toNat, (readU16Le (frame.drop 4)).toNat,
        (readU16Le (frame.drop 6)).toNat, (readU16Le (frame.drop 8)).toNat] := by
  simp only [headerFormat, unpack, value_B, value_H, FieldFormat.size, List.drop_drop,
    byteAt_drop, Nat.add_zero, Nat.reduceAdd]

theorem unpack_crcFormat : unpack crcFormat frame = [((readU16Le frame).toNat : Int)] := by
  simp only [crcFormat, unpack, value_H]

/-- The checksum of the tool is the one in the trailer, as a number. -/
theorem crc16CcittFalse_eq : crc16CcittFalse frame = (crcBytes frame).toNat :=
  (toNat_foldl_crcByte frame 0xffff).symm

theorem take_two_iff (h : 2 ≤ frame.length) :
    frame.take 2 = [0x4f, 0x57] ↔ byteAt frame 0 = magic0 ∧ byteAt frame 1 = magic1 := by
  match frame, h with
  | b0 :: b1 :: rest, _ => simp [magic0, magic1]

end Frames

/-- The checks of the body that look at the frame. -/
structure FramePasses (vector : GoldenVector) : Prop where
  size : vector.frame.length = headerSize + vector.payload.length + crcSize
  magic : vector.frame.take 2 = [0x4f, 0x57]
  header : unpack headerFormat (vector.frame.drop 2) =
    [1, vector.flags, vector.sequence, vector.messageType, vector.payload.length]
  payload : (vector.frame.take (vector.frame.length - crcSize)).drop headerSize = vector.payload
  crc : unpack crcFormat (vector.frame.drop (vector.frame.length - crcSize)) =
    [(crc16CcittFalse (vector.frame.take (vector.frame.length - crcSize)) : Int)]

/-- **The frames that pass are wire forms** of the fields of the vector. -/
theorem framePasses_iff {vector : GoldenVector} (hlen : vector.payload.length ≤ 512) :
    FramePasses vector ↔
      ∃ (messageType sequence : UInt16) (flags : UInt8),
        vector.messageType = messageType.toNat ∧ vector.sequence = sequence.toNat ∧
          vector.flags = flags.toNat ∧
          vector.frame = frameBytes wireVersion1 messageType vector.payload sequence flags := by
  have hheaderSize : headerSize = 10 := rfl
  have hcrcSize : crcSize = 2 := rfl
  constructor
  · rintro ⟨hsize, hmagic, hheader, hpayload, hcrc⟩
    rw [hheaderSize, hcrcSize] at hsize
    rw [hcrcSize, hheaderSize, List.drop_take] at hpayload
    rw [hcrcSize, unpack_crcFormat, crc16CcittFalse_eq] at hcrc
    rw [unpack_headerFormat] at hheader
    obtain ⟨h0, h1⟩ := (take_two_iff _ (by omega)).mp hmagic
    simp only [List.cons.injEq, and_true] at hheader hcrc
    obtain ⟨hversion, hflags, hsequence, htype, hlength⟩ := hheader
    have hdeclared : (readU16Le (vector.frame.drop 8)).toNat = vector.payload.length := by omega
    -- so the complete-frame decoder accepts it, and what it accepts is a wire form
    have hparse : parseFrame wireVersion1 vector.frame = .ok
        { version := byteAt vector.frame 2
          flags := byteAt vector.frame 3
          sequence := readU16Le (vector.frame.drop 4)
          messageType := readU16Le (vector.frame.drop 6)
          payload := .bytes
            ((vector.frame.drop 10).take (readU16Le (vector.frame.drop 8)).toNat) } := by
      refine (parseFrame_ok_iff _ _ _).mpr ⟨by omega, h0, h1, ?_, by omega, by omega, ?_, rfl⟩
      · exact UInt8.toNat_inj.mp (by exact_mod_cast hversion)
      · exact UInt16.toNat_inj.mp (by exact_mod_cast hcrc)
    obtain ⟨payload, _, hfields, hframe⟩ := frameBytes_of_parseFrame hparse
    have hsame : vector.payload = payload := by
      have hspan : Span.bytes ((vector.frame.drop 10).take
          (readU16Le (vector.frame.drop 8)).toNat) = Span.bytes payload :=
        congrArg DecodedFrame.payload hfields
      have hcut : vector.frame.length - 2 - 10 = vector.payload.length := by omega
      rw [← Span.bytes.inj hspan, hdeclared, ← hcut, hpayload]
    rw [← hsame] at hframe
    exact ⟨_, _, _, htype.symm, hsequence.symm, hflags.symm, hframe⟩
  · rintro ⟨messageType, sequence, flags, htype, hsequence, hflags, hframe⟩
    have hparse := parseFrame_frameBytes wireVersion1 messageType vector.payload sequence flags hlen
    rw [← hframe] at hparse
    -- what it accepts has passed the checks of the complete-frame decoder
    obtain ⟨hshort, h0, h1, h2, _, hexpected, hcrc, hfields⟩ :=
      (parseFrame_ok_iff wireVersion1 _ _).mp hparse
    simp only [frameOf, DecodedFrame.mk.injEq, Span.bytes.injEq] at hfields
    obtain ⟨_, hflags', hsequence', htype', hpayload⟩ := hfields
    have hlength := congrArg List.length hframe
    rw [length_frameBytes] at hlength
    have hdeclared : (readU16Le (vector.frame.drop 8)).toNat = vector.payload.length := by omega
    refine ⟨by omega, (take_two_iff _ (by omega)).mpr ⟨h0, h1⟩, ?_, ?_, ?_⟩
    · rw [unpack_headerFormat, h2, ← hflags', ← hsequence', ← htype', hdeclared, htype, hsequence,
        hflags]
      rfl
    · have hcut : vector.frame.length - 2 - 10 = vector.payload.length := by omega
      rw [hcrcSize, hheaderSize, List.drop_take, hcut, ← hdeclared, ← hpayload]
    · rw [hcrcSize, unpack_crcFormat, crc16CcittFalse_eq, hcrc]

/-! ### The manifest of the repository -/

/-- `name` -/
def manifestName : MessageType → String
  | .heartbeat => "HEARTBEAT"
  | .estopSet => "ESTOP_SET"
  | .clearLatchedFault => "CLEAR_LATCHED_FAULT"
  | .identifyRequest => "IDENTIFY_REQUEST"
  | .driveSetpoint => "DRIVE_SETPOINT"
  | .cleaningMotorsSet => "CLEANING_MOTORS_SET"
  | .lidarMotorSet => "LIDAR_MOTOR_SET"
  | .ledSet => "LED_SET"
  | .ack => "ACK"
  | .nack => "NACK"
  | .mcuHello => "MCU_HELLO"
  | .fastTelemetry => "FAST_TELEMETRY"
  | .safetyEvent => "SAFETY_EVENT"
  | .powerTelemetry => "POWER_TELEMETRY"
  | .mcuDiagnostic => "MCU_DIAGNOSTIC"
  | .safetyState => "SAFETY_STATE"

/-- `payload_status` -/
def payloadStatus : MessageType → String
  | .powerTelemetry | .mcuDiagnostic => "open"
  | _ => "defined"

def manifestMessage (type : MessageType) : ManifestMessage where
  name := manifestName type
  id := type.code.toNat
  payloadStatus := payloadStatus type
  structFormat := type.structFormat

/-- `tests/conformance/protocol_v1.json` -/
def protocolV1 : Manifest where
  wireVersion := 1
  magicAscii := "OW"
  byteOrder := "little"
  crc := "CRC-16/CCITT-FALSE"
  messages := MessageType.all.map manifestMessage

theorem payloadStatus_defined_iff (type : MessageType) :
    payloadStatus type = "defined" ↔ type.isDefined := by
  cases type <;> simp [payloadStatus, MessageType.isDefined]

/-- Every message is found under its name. -/
theorem find_manifestName (type : MessageType) :
    (protocolV1.messages.find? fun message => message.name == manifestName type) =
      some (manifestMessage type) := by
  cases type <;> decide +kernel

/-- And what is found is a message of that name. -/
theorem eq_of_find {name : String} {message : ManifestMessage}
    (h : (protocolV1.messages.find? fun message => message.name == name) = some message) :
    ∃ type, message = manifestMessage type ∧ name = manifestName type := by
  obtain ⟨type, _, rfl⟩ := List.mem_map.mp (List.mem_of_find?_eq_some h)
  have hname := List.find?_some h
  exact ⟨type, rfl, (beq_iff_eq.mp hname).symm⟩

/-- Names are names of one message. -/
theorem manifestName_inj {a b : MessageType} (h : manifestName a = manifestName b) : a = b := by
  have hfind := find_manifestName a
  rw [h, find_manifestName b] at hfind
  have hid : ((b.code.toNat : ℕ) : Int) = a.code.toNat :=
    congrArg ManifestMessage.id (Option.some.inj hfind)
  have hcode : b.code = a.code := UInt16.toNat_inj.mp (by exact_mod_cast hid)
  have htype := congrArg MessageType.ofCode? hcode
  rw [MessageType.ofCode?_code, MessageType.ofCode?_code] at htype
  exact (Option.some.inj htype).symm

/-- A vector for a message type: its fields are fields of a frame, its payload has the size of the
    type, and its frame is what the encoder writes for them. -/
structure IsGolden (type : MessageType) (vector : GoldenVector) : Prop where
  defined : type.isDefined
  messageName : vector.messageName = manifestName type
  messageType : vector.messageType = type.code.toNat
  payload : vector.payload.length = type.layout.width
  encoded : ∃ (sequence : UInt16) (flags : UInt8), vector.sequence = sequence.toNat ∧
    vector.flags = flags.toNat ∧
    EncodesTo wireVersion1 type.code (.bytes vector.payload) sequence flags vector.frame

/-- The frame checks of a vector whose other fields are those of a message type. -/
theorem framePasses_of_fields {type : MessageType} {vector : GoldenVector}
    (hmessageType : vector.messageType = type.code.toNat)
    (hpayload : vector.payload.length = type.layout.width) :
    FramePasses vector ↔
      ∃ (sequence : UInt16) (flags : UInt8), vector.sequence = sequence.toNat ∧
        vector.flags = flags.toNat ∧
        EncodesTo wireVersion1 type.code (.bytes vector.payload) sequence flags vector.frame := by
  have hwidth : type.layout.width ≤ 512 := by cases type <;> decide
  rw [framePasses_iff (by omega)]
  constructor
  · rintro ⟨messageType, sequence, flags, htype, hsequence, hflags, hframe⟩
    rw [hmessageType] at htype
    obtain rfl : type.code = messageType := UInt16.toNat_inj.mp (by exact_mod_cast htype)
    refine ⟨sequence, flags, hsequence, hflags, encodesTo_iff.mpr ⟨.inl rfl, ?_, hframe⟩⟩
    rw [Span.length_bytes]
    omega
  · rintro ⟨sequence, flags, hsequence, hflags, hencoded⟩
    exact ⟨type.code, sequence, flags, hmessageType, hsequence, hflags, hencoded.eq_frameBytes⟩

/-- **One vector passes** if it is what the encoder makes of a message. -/
theorem checkVector_ok_iff (vector : GoldenVector) :
    checkVector protocolV1.messages vector = .ok () ↔ ∃ type, IsGolden type vector := by
  unfold checkVector
  cases hfind : protocolV1.messages.find? fun message => message.name == vector.messageName with
  | none =>
    constructor
    · intro h
      cases h
    · rintro ⟨type, hgolden⟩
      rw [hgolden.messageName, find_manifestName] at hfind
      cases hfind
  | some message =>
    obtain ⟨type, rfl, hname⟩ := eq_of_find hfind
    simp only [ite_error_eq_ok_iff, not_or, not_not, and_true]
    constructor
    · -- every check has passed
      rintro ⟨hstatus, htype, hpayload, hsize, ⟨hmagic, hheader, hbody⟩, hcrc⟩
      have hdefined := (payloadStatus_defined_iff type).mp hstatus
      have hwidth := hpayload.trans (MessageType.packedSize_structFormat hdefined)
      have hpasses : FramePasses vector := ⟨hsize, hmagic, hheader, hbody, hcrc⟩
      exact ⟨type, hdefined, hname, htype, hwidth,
        (framePasses_of_fields htype hwidth).mp hpasses⟩
    · rintro ⟨other, hgolden⟩
      obtain rfl := manifestName_inj (hname.symm.trans hgolden.messageName)
      obtain ⟨hsize, hmagic, hheader, hbody, hcrc⟩ :=
        (framePasses_of_fields hgolden.messageType hgolden.payload).mpr hgolden.encoded
      exact ⟨(payloadStatus_defined_iff type).mpr hgolden.defined, hgolden.messageType,
        hgolden.payload.trans (MessageType.packedSize_structFormat hgolden.defined).symm, hsize,
        ⟨hmagic, hheader, hbody⟩, hcrc⟩

example : checkVector protocolV1.messages
    { name := "heartbeat"
      messageName := "HEARTBEAT"
      messageType := 1
      sequence := 1
      flags := 0
      payload := [0x78, 0x56, 0x34, 0x12, 0x01]
      frame := [0x4f, 0x57, 0x01, 0x00, 0x01, 0x00, 0x01, 0x00, 0x05, 0x00,
        0x78, 0x56, 0x34, 0x12, 0x01, 0xa4, 0x88] } = .ok () := by decide +kernel

/-! ### The document -/

/-- The loop accepts vectors with names of their own that all pass, and has covered their
    messages. -/
theorem checkVectors_ok_iff (vectors : List GoldenVector)
    (vectorNames covered result : List String) :
    checkVectors protocolV1.messages vectorNames covered vectors = .ok result ↔
      (vectors.map GoldenVector.name).Nodup ∧
        (∀ vector ∈ vectors, vector.name ∉ vectorNames) ∧
        (∀ vector ∈ vectors, ∃ type, IsGolden type vector) ∧
        result = (vectors.map GoldenVector.messageName).reverse ++ covered := by
  induction vectors generalizing vectorNames covered with
  | nil =>
    simp only [checkVectors, Except.ok.injEq]
    simp [eq_comm]
  | cons vector vectors ih =>
    rw [checkVectors]
    by_cases hname : vector.name ∈ vectorNames
    · simp [hname]
    rw [if_neg hname]
    cases hcheck : checkVector protocolV1.messages vector with
    | error invalid =>
      have hbad : ¬ ∃ type, IsGolden type vector := by
        rw [← checkVector_ok_iff, hcheck]
        exact fun h => by cases h
      simp [hbad]
    | ok _ =>
      have hgood := (checkVector_ok_iff vector).mp hcheck
      simp only [ih, List.map_cons, List.nodup_cons, List.forall_mem_cons, List.reverse_cons,
        List.append_assoc, List.singleton_append, hname, hgood, not_false_iff, true_and]
      rw [fresh_cons_iff]
      exact ⟨fun ⟨h1, ⟨h2, h3⟩, h4⟩ => ⟨⟨h2, h1⟩, h3, h4⟩,
        fun ⟨⟨h2, h1⟩, h3, h4⟩ => ⟨h1, ⟨h2, h3⟩, h4⟩⟩

theorem sameSet_iff {α : Type} [DecidableEq α] (a b : List α) :
    sameSet a b = true ↔ ∀ x, x ∈ a ↔ x ∈ b := by
  unfold sameSet
  simp only [Bool.and_eq_true, List.all_eq_true, decide_eq_true_eq]
  exact ⟨fun h x => ⟨h.1 x, h.2 x⟩, fun h => ⟨fun x => (h x).mp, fun x => (h x).mpr⟩⟩

/-- The messages with a status, as the filter of the manifest finds them. -/
theorem mem_status_iff (status : String) (message : ManifestMessage) :
    message ∈ protocolV1.messages.filter (fun message => message.payloadStatus == status) ↔
      ∃ type, payloadStatus type = status ∧ message = manifestMessage type := by
  rw [List.mem_filter, beq_iff_eq]
  constructor
  · rintro ⟨hmem, rfl⟩
    obtain ⟨type, _, rfl⟩ := List.mem_map.mp hmem
    exact ⟨type, rfl, rfl⟩
  · rintro ⟨type, rfl, rfl⟩
    exact ⟨List.mem_map_of_mem (by cases type <;> decide), rfl⟩

theorem payloadStatus_open_iff (type : MessageType) :
    payloadStatus type = "open" ↔ ¬ type.isDefined := by
  cases type <;> simp [payloadStatus, MessageType.isDefined]

/-- **Coverage**: the messages of vectors that pass are the defined ones exactly if each of these
    has a vector. -/
theorem covered_iff {vectors : List GoldenVector}
    (h : ∀ vector ∈ vectors, ∃ type, IsGolden type vector) :
    sameSet ((vectors.map GoldenVector.messageName).reverse ++ [])
        ((protocolV1.messages.filter fun message => message.payloadStatus == "defined").map
          ManifestMessage.name) = true ↔
      ∀ type : MessageType, type.isDefined → ∃ vector ∈ vectors, IsGolden type vector := by
  have hdefined : ∀ name, name ∈ (protocolV1.messages.filter fun message =>
      message.payloadStatus == "defined").map ManifestMessage.name ↔
        ∃ type : MessageType, type.isDefined ∧ name = manifestName type := by
    intro name
    simp only [List.mem_map, mem_status_iff, payloadStatus_defined_iff]
    constructor
    · rintro ⟨_, ⟨type, hdefined, rfl⟩, rfl⟩
      exact ⟨type, hdefined, rfl⟩
    · rintro ⟨type, hdefined, rfl⟩
      exact ⟨_, ⟨type, hdefined, rfl⟩, rfl⟩
  rw [sameSet_iff]
  simp only [List.append_nil, List.mem_reverse, hdefined]
  constructor
  · intro hsame type htype
    obtain ⟨vector, hmem, hname⟩ := List.mem_map.mp ((hsame _).mpr ⟨type, htype, rfl⟩)
    obtain ⟨other, hgolden⟩ := h vector hmem
    obtain rfl := manifestName_inj (hname.symm.trans hgolden.messageName)
    exact ⟨vector, hmem, hgolden⟩
  · intro hall name
    constructor
    · intro hmem
      obtain ⟨vector, hvector, rfl⟩ := List.mem_map.mp hmem
      obtain ⟨type, hgolden⟩ := h vector hvector
      exact ⟨type, hgolden.defined, hgolden.messageName⟩
    · rintro ⟨type, htype, rfl⟩
      obtain ⟨vector, hvector, hgolden⟩ := hall type htype
      exact List.mem_map.mpr ⟨vector, hvector, hgolden.messageName⟩

/-- The open messages of the document are those of the manifest. -/
theorem open_iff (messages : List OpenMessage) :
    sameSet ((protocolV1.messages.filter fun message => message.payloadStatus == "open").map
        fun message => (message.name, message.id))
        (messages.map fun message => (message.name, message.messageType)) = true ↔
      ∀ name messageType,
        (∃ message ∈ messages, message.name = name ∧ message.messageType = messageType) ↔
          ∃ type : MessageType, ¬ type.isDefined ∧ name = manifestName type ∧
            messageType = type.code.toNat := by
  rw [sameSet_iff, Prod.forall]
  refine forall_congr' fun name => forall_congr' fun messageType => ?_
  have hopen : (name, messageType) ∈ (protocolV1.messages.filter fun message =>
      message.payloadStatus == "open").map (fun message => (message.name, message.id)) ↔
        ∃ type : MessageType, ¬ type.isDefined ∧ name = manifestName type ∧
          messageType = type.code.toNat := by
    simp only [List.mem_map, mem_status_iff, payloadStatus_open_iff, Prod.mk.injEq]
    constructor
    · rintro ⟨_, ⟨type, hstatus, rfl⟩, rfl, rfl⟩
      exact ⟨type, hstatus, rfl, rfl⟩
    · rintro ⟨type, hstatus, rfl, rfl⟩
      exact ⟨_, ⟨type, hstatus, rfl⟩, rfl, rfl⟩
  rw [hopen]
  simp only [List.mem_map, Prod.mk.injEq]
  exact ⟨Iff.symm, Iff.symm⟩

/-- **The generator accepts what the encoder writes.** Against the manifest of the repository
    `load_and_validate` accepts a document exactly if it is for wire version 1 and this manifest,
    its vectors have names of their own, every one of them is what `oomwoo_encode_frame` writes
    for the code of a defined message, a payload of the size the firmware's table has for it and
    some sequence number and flags, every defined message has a vector, and the open messages are
    the two that have no layout; and then the vectors are returned as they are. -/
theorem load_and_validate_iff (document : GoldenVectors) (accepted : List GoldenVector) :
    loadAndValidate protocolV1 document = .ok accepted ↔
      accepted = document.vectors ∧ document.wireVersion = 1 ∧
        document.generatedFrom = "protocol_v1.json" ∧
        (document.vectors.map GoldenVector.name).Nodup ∧
        (∀ vector ∈ document.vectors, ∃ type, IsGolden type vector) ∧
        (∀ type : MessageType, type.isDefined →
          ∃ vector ∈ document.vectors, IsGolden type vector) ∧
        ∀ name messageType,
          (∃ message ∈ document.openMessages,
            message.name = name ∧ message.messageType = messageType) ↔
          ∃ type : MessageType, ¬ type.isDefined ∧ name = manifestName type ∧
            messageType = type.code.toNat := by
  have hnames : (protocolV1.messages.map ManifestMessage.name).Nodup := by decide +kernel
  have hids : (protocolV1.messages.map ManifestMessage.id).Nodup := by decide +kernel
  have hloop := checkVectors_ok_iff document.vectors [] []
  unfold loadAndValidate
  simp only [ite_error_eq_ok_iff, hnames, hids, not_true, not_false_iff, true_and, not_or, not_not]
  cases hcheck : checkVectors protocolV1.messages [] [] document.vectors with
  | error invalid =>
    -- what the right side says of the vectors would let the loop pass
    constructor
    · rintro ⟨_, _, h⟩
      cases h
    · rintro ⟨_, _, _, hnodup, hgolden, _⟩
      have hpass := (hloop _).mpr ⟨hnodup, fun _ _ => List.not_mem_nil, hgolden, rfl⟩
      rw [hcheck] at hpass
      cases hpass
  | ok covered =>
    obtain ⟨hnodup, _, hgolden, rfl⟩ := (hloop covered).mp hcheck
    simp only [ite_error_eq_ok_iff, not_not, Except.ok.injEq]
    rw [covered_iff hgolden, open_iff document.openMessages]
    constructor
    · rintro ⟨⟨_, hversion⟩, ⟨_, _, _, hgenerated⟩, hall, hlisted, rfl⟩
      exact ⟨rfl, hversion, hgenerated, hnodup, hgolden, hall, hlisted⟩
    · rintro ⟨rfl, hversion, hgenerated, _, _, hall, hlisted⟩
      exact ⟨⟨rfl, hversion⟩, ⟨rfl, rfl, rfl, hgenerated⟩, hall, hlisted, rfl⟩

end VectorGenerator

end Oomwoo
