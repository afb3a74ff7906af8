import Oomwoo.Protocol.Frame

namespace Oomwoo

open Bytes

/-!
# The wire form of a frame

`frameBytes` is the wire form as a mathematical value: header, payload and the checksum over
both.  The encoder writes exactly these bytes (`encodeFrame_ok`), the complete-frame decoder
accepts exactly these strings (`parseFrame_frameBytes`, `frameBytes_of_parseFrame`), and so the
two are inverse to each other.
-/

/-- The ten header bytes. -/
def frameHeader (V : WireVersion) (messageType sequence : UInt16) (flags : UInt8)
    (payloadLength : Nat) : List UInt8 :=
  [magic0, magic1, V.byte, flags] ++ leBytes 2 sequence.toNat ++ leBytes 2 messageType.toNat ++
    leBytes 2 payloadLength

/-- Header and payload: what the checksum covers. -/
def frameBody (V : WireVersion) (messageType : UInt16) (payload : List UInt8) (sequence : UInt16)
    (flags : UInt8) : List UInt8 :=
  frameHeader V messageType sequence flags payload.length ++ payload

/-- The wire form of a frame. -/
def frameBytes (V : WireVersion) (messageType : UInt16) (payload : List UInt8) (sequence : UInt16)
    (flags : UInt8) : List UInt8 :=
  let body := frameBody V messageType payload sequence flags
  body ++ leBytes 2 (crcBytes body).toNat

section Lengths

variable (V : WireVersion) (messageType : UInt16) (payload : List UInt8) (sequence : UInt16)
  (flags : UInt8)

@[simp] theorem length_frameHeader (n : Nat) :
    (frameHeader V messageType sequence flags n).length = 10 := by
  simp [frameHeader]

@[simp] theorem length_frameBody :
    (frameBody V messageType payload sequence flags).length = 10 + payload.length := by
  simp [frameBody]

@[simp] theorem length_frameBytes :
    (frameBytes V messageType payload sequence flags).length = 12 + payload.length := by
  simp [frameBytes]
  omega

end Lengths

/-! ### The encoder -/

/-- The checksum of a readable pointer argument is the loop's value. -/
@[simp] theorem crc16CcittFalse_bytes (data : List UInt8) :
    crc16CcittFalse (.bytes data) = crcBytes data := by
  simp [crc16CcittFalse]

/-- Every store of the encoder lands right behind the one before it. -/
theorem encodeFrameBody_eq (V : WireVersion) (messageType : UInt16) (payload : List UInt8)
    (sequence : UInt16) (flags : UInt8) (output : List UInt8) (hlen : payload.length ≤ 512) :
    encodeFrameBody V messageType payload sequence flags output =
      writeAt output 0 (frameBytes V messageType payload sequence flags) := by
  have hn : (UInt16.ofNat payload.length).toNat = payload.length := by
    simp only [UInt16.toNat_ofNat']
    omega
  have hpayload : ∀ out : List UInt8,
      (if payload.length ≠ 0 then writeAt out headerSize payload else out) =
        writeAt out headerSize payload := by
    intro out
    cases payload with
    | nil => simp
    | cons b bs => simp
  -- the header and the payload, as one store
  have hbody : writeAt (writeU16Le (writeU16Le (writeU16Le (writeAt (writeAt (writeAt
      (writeAt output 0 [magic0]) 1 [magic1]) 2 [V.byte]) 3 [flags]) 4 sequence) 6 messageType) 8
      (UInt16.ofNat payload.length)) headerSize payload =
        writeAt output 0 (frameBody V messageType payload sequence flags) := by
    rw [writeAt_zero_writeAt _ _ _ (by simp), writeAt_zero_writeAt _ _ _ (by simp),
      writeAt_zero_writeAt _ _ _ (by simp), writeU16Le_writeAt _ _ _ (by simp),
      writeU16Le_writeAt _ _ _ (by simp), writeU16Le_writeAt _ _ _ (by simp),
      writeAt_zero_writeAt _ _ _ (by simp [headerSize]), hn]
    rfl
  have hcovered : (writeAt output 0 (frameBody V messageType payload sequence flags)).take
      (headerSize + payload.length) = frameBody V messageType payload sequence flags := by
    rw [writeAt_zero]
    exact List.take_left' (by simp [headerSize])
  simp only [encodeFrameBody, hpayload]
  rw [hbody, hcovered, crc16CcittFalse_bytes, writeU16Le_writeAt _ _ _ (by simp [headerSize])]
  rfl

/-- **What the encoder does.** With usable pointers, a payload within the limit and enough room,
    it stores the wire form at the start of the output and reports its length. -/
theorem encodeFrame_ok (V : WireVersion) (messageType : UInt16) (payload : Span)
    (sequence : UInt16) (flags : UInt8) (output : List UInt8) (reported : Nat)
    (hptr : payload.isNull = false ∨ payload.length = 0) (hlen : payload.length ≤ 512)
    (hroom : 12 + payload.length ≤ output.length) :
    encodeFrame V messageType payload sequence flags (.bytes output) (some reported) =
      (.ok, .bytes (writeAt output 0 (frameBytes V messageType payload.data sequence flags)),
        some (12 + payload.length)) := by
  have hdata := payload.length_data hptr
  have hnull : (payload.isNull && decide (payload.length ≠ 0)) = false := by
    rcases hptr with h | h <;> simp [h]
  have hsmall : ¬ maxPayloadSize < payload.length := by simp [maxPayloadSize, hlen]
  have hfits : ¬ (Span.bytes output).length < headerSize + payload.length + crcSize := by
    simp only [Span.length_bytes, headerSize, crcSize]
    omega
  have hsize : headerSize + payload.length + crcSize = 12 + payload.length := by
    simp only [headerSize, crcSize]
    omega
  simp only [encodeFrame, Span.isNull_bytes, hnull, Option.isNone_some, Bool.or_self,
    Bool.false_eq_true, if_false, hsmall, hfits, Span.data_bytes]
  rw [encodeFrameBody_eq V messageType payload.data sequence flags output (by omega), hsize]

/-- Success means usable pointers, a payload within the limit and enough room. -/
theorem encodeFrame_eq_ok {V : WireVersion} {messageType : UInt16} {payload output stored : Span}
    {sequence : UInt16} {flags : UInt8} {reported length : Option Nat}
    (h : encodeFrame V messageType payload sequence flags output reported =
      (.ok, stored, length)) :
    (payload.isNull = false ∨ payload.length = 0) ∧ payload.length ≤ 512 ∧
      stored = .bytes (writeAt output.data 0
        (frameBytes V messageType payload.data sequence flags)) ∧
      12 + payload.length ≤ output.length ∧ length = some (12 + payload.length) := by
  have hcopy := h
  rw [encodeFrame] at h
  split at h
  · cases h
  split at h
  · cases h
  simp only at h
  split at h
  · cases h
  rename_i hnull hsmall hfits
  simp only [Bool.or_eq_true, Bool.and_eq_true, decide_eq_true_eq, not_or, not_and,
    Bool.not_eq_true, not_not] at hnull
  obtain ⟨⟨hout, hrep⟩, hptr⟩ := hnull
  simp only [headerSize, crcSize, maxPayloadSize, not_lt] at hsmall hfits
  -- the first guard leaves usable pointers only
  have hptr' : payload.isNull = false ∨ payload.length = 0 := by
    cases hp : payload.isNull with
    | false => exact .inl rfl
    | true => exact .inr (by simpa using hptr hp)
  cases output with
  | null n => cases hout
  | bytes output =>
    cases reported with
    | none => cases hrep
    | some reported =>
      rw [encodeFrame_ok V messageType payload sequence flags output reported hptr' hsmall
        (by simpa [Nat.add_right_comm] using hfits)] at hcopy
      cases hcopy
      exact ⟨hptr', hsmall, rfl, by simpa [Nat.add_right_comm] using hfits, rfl⟩

/-- `bytes` is what the encoder stores and reports for its arguments, in some output array. -/
def EncodesTo (V : WireVersion) (messageType : UInt16) (payload : Span) (sequence : UInt16)
    (flags : UInt8) (bytes : List UInt8) : Prop :=
  ∃ (output stored : List UInt8) (reported length : Nat),
    encodeFrame V messageType payload sequence flags (.bytes output) (some reported) =
      (.ok, .bytes stored, some length) ∧ bytes = stored.take length

/-- **What the encoder produces is the wire form**, whatever the output array held. -/
theorem encodesTo_iff {V : WireVersion} {messageType : UInt16} {payload : Span}
    {sequence : UInt16} {flags : UInt8} {bytes : List UInt8} :
    EncodesTo V messageType payload sequence flags bytes ↔
      (payload.isNull = false ∨ payload.length = 0) ∧ payload.length ≤ 512 ∧
        bytes = frameBytes V messageType payload.data sequence flags := by
  constructor
  · rintro ⟨output, stored, reported, length, h, rfl⟩
    obtain ⟨hptr, hlen, hstored, hroom, hlength⟩ := encodeFrame_eq_ok h
    cases hstored
    cases hlength
    refine ⟨hptr, hlen, ?_⟩
    rw [Span.data_bytes, writeAt_zero]
    exact List.take_left' (by simp [payload.length_data hptr])
  · rintro ⟨hptr, hlen, rfl⟩
    refine ⟨List.replicate (12 + payload.length) 0, _, 0, _,
      encodeFrame_ok V messageType payload sequence flags _ 0 hptr hlen (by simp), ?_⟩
    rw [writeAt_zero]
    exact (List.take_left' (by simp [payload.length_data hptr])).symm

/-! ### The decoder -/

/-- The frame that `frameBytes` is the wire form of. -/
def frameOf (V : WireVersion) (messageType : UInt16) (payload : List UInt8) (sequence : UInt16)
    (flags : UInt8) : DecodedFrame where
  version := V.byte
  flags := flags
  sequence := sequence
  messageType := messageType
  payload := .bytes payload

/-- The fields of a string that starts with a header. -/
theorem frameHeader_fields (V : WireVersion) (messageType sequence : UInt16) (flags : UInt8)
    {n : Nat} (rest : List UInt8) (hn : n ≤ 512) :
    let data := frameHeader V messageType sequence flags n ++ rest
    byteAt data 0 = magic0 ∧ byteAt data 1 = magic1 ∧ byteAt data 2 = V.byte ∧
      byteAt data 3 = flags ∧ readU16Le (data.drop 4) = sequence ∧
      readU16Le (data.drop 6) = messageType ∧ (readU16Le (data.drop 8)).toNat = n := by
  have hword : ∀ (m : Nat) (tail : List UInt8), m ≤ 512 →
      (readU16Le (leBytes 2 m ++ tail)).toNat = m := by
    intro m tail hm
    rw [readU16Le_leNat, List.take_left' (by simp), leNat_leBytes]
    omega
  refine ⟨rfl, rfl, rfl, rfl, ?_, ?_, ?_⟩
  · exact readU16Le_leBytes _ _
  · exact readU16Le_leBytes _ _
  · exact hword n rest hn

/-- **The decoder accepts every wire form** and returns the frame it is the form of. -/
theorem parseFrame_frameBytes (V : WireVersion) (messageType : UInt16) (payload : List UInt8)
    (sequence : UInt16) (flags : UInt8) (hlen : payload.length ≤ 512) :
    parseFrame V (frameBytes V messageType payload sequence flags) =
      .ok (frameOf V messageType payload sequence flags) := by
  -- the header fields are read from the front, the trailer from the back
  have hform : frameBytes V messageType payload sequence flags =
      frameHeader V messageType sequence flags payload.length ++
        (payload ++ leBytes 2
          (crcBytes (frameBody V messageType payload sequence flags)).toNat) := by
    simp [frameBytes, frameBody]
  obtain ⟨h0, h1, h2, h3, h4, h6, h8⟩ := frameHeader_fields V messageType sequence flags
    (payload ++ leBytes 2 (crcBytes (frameBody V messageType payload sequence flags)).toNat) hlen
  rw [← hform] at h0 h1 h2 h3 h4 h6 h8
  have hsize := length_frameBytes V messageType payload sequence flags
  have hcut : (frameBytes V messageType payload sequence flags).length - crcSize =
      (frameBody V messageType payload sequence flags).length := by
    simp only [length_frameBytes, length_frameBody, crcSize]
    omega
  have hcovered : (frameBytes V messageType payload sequence flags).take
      ((frameBytes V messageType payload sequence flags).length - crcSize) =
        frameBody V messageType payload sequence flags := by
    rw [hcut, frameBytes, List.take_left]
  have htrailer : readU16Le ((frameBytes V messageType payload sequence flags).drop
      ((frameBytes V messageType payload sequence flags).length - crcSize)) =
        crcBytes (frameBody V messageType payload sequence flags) := by
    rw [hcut, frameBytes, List.drop_left]
    simpa using readU16Le_leBytes (crcBytes (frameBody V messageType payload sequence flags)) []
  have hpayload : ((frameBytes V messageType payload sequence flags).drop headerSize).take
      payload.length = payload := by
    rw [hform, List.drop_left' (by simp [headerSize]), List.take_left]
  have hshort : ¬ (frameBytes V messageType payload sequence flags).length <
      headerSize + crcSize := by
    simp only [hsize, headerSize, crcSize]
    omega
  have hlarge : ¬ maxPayloadSize < payload.length := by simp [maxPayloadSize, hlen]
  have hexpected : ¬ (frameBytes V messageType payload sequence flags).length ≠
      headerSize + payload.length + crcSize := by
    simp only [hsize, headerSize, crcSize]
    omega
  simp only [parseFrame, hshort, h0, h1, h2, h3, h4, h6, h8, hlarge, hexpected, hcovered,
    htrailer, hpayload, crc16CcittFalse_bytes, ne_eq, not_true_eq_false, or_self, if_false,
    frameOf]

/-- What acceptance says about the bytes, check by check. -/
theorem parseFrame_ok_iff (V : WireVersion) (data : List UInt8) (frame : DecodedFrame) :
    parseFrame V data = .ok frame ↔
      12 ≤ data.length ∧ byteAt data 0 = magic0 ∧ byteAt data 1 = magic1 ∧
        byteAt data 2 = V.byte ∧ (readU16Le (data.drop 8)).toNat ≤ 512 ∧
        data.length = 12 + (readU16Le (data.drop 8)).toNat ∧
        readU16Le (data.drop (data.length - 2)) = crcBytes (data.take (data.length - 2)) ∧
        frame = {
          version := byteAt data 2
          flags := byteAt data 3
          sequence := readU16Le (data.drop 4)
          messageType := readU16Le (data.drop 6)
          payload := .bytes ((data.drop 10).take (readU16Le (data.drop 8)).toNat) } := by
  simp only [parseFrame, headerSize, crcSize, maxPayloadSize, crc16CcittFalse_bytes]
  constructor
  · intro h
    split at h
    · cases h
    split at h
    · cases h
    split at h
    · cases h
    split at h
    · cases h
    split at h
    · cases h
    split at h
    · cases h
    -- every check was passed, so the checks are the conjunction
    rename_i hshort hmagic hversion hlarge hexpected hcrc
    simp only [not_or, ne_eq, not_not] at hmagic hversion hexpected hcrc
    injection h with h
    exact ⟨by omega, hmagic.1, hmagic.2, hversion, by omega, by omega, hcrc, h.symm⟩
  · rintro ⟨hshort, h0, h1, h2, hlarge, hexpected, hcrc, rfl⟩
    rw [if_neg (by omega), if_neg (by simp [h0, h1]), if_neg (by simp [h2]), if_neg (by omega),
      if_neg (by omega), if_neg (by simp [hcrc])]

/-- **Whatever the decoder accepts is a wire form**, that of the frame it returns. -/
theorem frameBytes_of_parseFrame {V : WireVersion} {data : List UInt8} {frame : DecodedFrame}
    (h : parseFrame V data = .ok frame) :
    ∃ payload, payload.length ≤ 512 ∧
      frame = frameOf V frame.messageType payload frame.sequence frame.flags ∧
      data = frameBytes V frame.messageType payload frame.sequence frame.flags := by
  obtain ⟨hshort, h0, h1, h2, hlarge, hexpected, hcrc, rfl⟩ := (parseFrame_ok_iff V data frame).mp h
  set n := (readU16Le (data.drop 8)).toNat with hn
  refine ⟨(data.drop 10).take n, by simp; omega, by simp [frameOf, h2], ?_⟩
  have hpl : ((data.drop 10).take n).length = n := by simp; omega
  have hword : ∀ i, i + 2 ≤ data.length →
      leBytes 2 (readU16Le (data.drop i)).toNat = (data.drop i).take 2 := by
    intro i hi
    exact leBytes_readU16Le (by simp; omega)
  -- the first ten bytes are the header of the fields read from them
  have hheader : frameHeader V (readU16Le (data.drop 6)) (readU16Le (data.drop 4))
      (byteAt data 3) n = data.take 10 := by
    rw [frameHeader, hn, hword 4 (by omega), hword 6 (by omega), hword 8 (by omega), ← h0, ← h1,
      ← h2]
    match data, hshort with
    | b0 :: b1 :: b2 :: b3 :: b4 :: b5 :: b6 :: b7 :: b8 :: b9 :: rest, _ => simp
  have hbody : frameBody V (readU16Le (data.drop 6)) ((data.drop 10).take n)
      (readU16Le (data.drop 4)) (byteAt data 3) = data.take (data.length - 2) := by
    rw [frameBody, hpl, hheader, ← List.take_add]
    congr 1
    omega
  have htrailer : leBytes 2 (crcBytes (data.take (data.length - 2))).toNat =
      data.drop (data.length - 2) := by
    rw [← hcrc, hword _ (by omega)]
    exact List.take_of_length_le (by simp; omega)
  simp only [frameBytes, hbody, htrailer, List.take_append_drop]

/-- No check of the decoder reports success. -/
theorem parseFrame_ne_error_ok (V : WireVersion) (data : List UInt8) :
    parseFrame V data ≠ .error .ok := by
  intro h
  simp only [parseFrame] at h
  repeat' split at h
  all_goals cases h

/-- The complete-frame decoder on readable arguments. -/
theorem decodeFrame_ok_iff (V : WireVersion) (data : List UInt8) (prior frame : DecodedFrame) :
    decodeFrame V (.bytes data) (some prior) = (.ok, some frame) ↔
      parseFrame V data = .ok frame := by
  simp only [decodeFrame]
  cases h : parseFrame V data with
  | ok f => simp
  | error e =>
    simp only [Prod.mk.injEq, reduceCtorEq, iff_false, not_and]
    rintro rfl
    exact absurd h (parseFrame_ne_error_ok V data)

/-- The wire form determines the frame. -/
theorem frameBytes_injective {V : WireVersion} {type₁ type₂ sequence₁ sequence₂ : UInt16}
    {flags₁ flags₂ : UInt8} {payload₁ payload₂ : List UInt8} (hlen₁ : payload₁.length ≤ 512)
    (hlen₂ : payload₂.length ≤ 512)
    (h : frameBytes V type₁ payload₁ sequence₁ flags₁ =
      frameBytes V type₂ payload₂ sequence₂ flags₂) :
    type₁ = type₂ ∧ payload₁ = payload₂ ∧ sequence₁ = sequence₂ ∧ flags₁ = flags₂ := by
  have hframe := parseFrame_frameBytes V type₁ payload₁ sequence₁ flags₁ hlen₁
  rw [h, parseFrame_frameBytes V _ _ _ _ hlen₂] at hframe
  cases hframe
  exact ⟨rfl, rfl, rfl, rfl⟩

/-! ### Both directions -/

/-- Encoding succeeds whenever the payload and the capacity allow it, and decoding the written
    bytes gives the frame back. -/
theorem encodeFrame_then_decodeFrame (V : WireVersion) (messageType : UInt16) {payload : Span}
    (sequence : UInt16) (flags : UInt8) {output : List UInt8} (reported : Nat)
    (prior : DecodedFrame) (hptr : payload.isNull = false ∨ payload.length = 0)
    (hlen : payload.length ≤ 512) (hroom : 12 + payload.length ≤ output.length) :
    ∃ stored : List UInt8,
      encodeFrame V messageType payload sequence flags (.bytes output) (some reported) =
        (.ok, .bytes stored, some (12 + payload.length)) ∧
      decodeFrame V (.bytes (stored.take (12 + payload.length))) (some prior) =
        (.ok, some ⟨V.byte, flags, sequence, messageType, .bytes payload.data⟩) := by
  have hdata := payload.length_data hptr
  refine ⟨_, encodeFrame_ok V messageType payload sequence flags output reported hptr hlen hroom,
    ?_⟩
  rw [decodeFrame_ok_iff, writeAt_zero, List.take_left' (by simp [hdata])]
  exact parseFrame_frameBytes V _ _ _ _ (by omega)

/-- Encoding a decoded frame gives the string it was decoded from. -/
theorem decodeFrame_then_encodeFrame {V : WireVersion} {data : List UInt8}
    {prior frame : DecodedFrame} (h : decodeFrame V (.bytes data) (some prior) = (.ok, some frame))
    {output : List UInt8} (reported : Nat) (hroom : data.length ≤ output.length) :
    ∃ stored : List UInt8,
      encodeFrame V frame.messageType frame.payload frame.sequence frame.flags (.bytes output)
        (some reported) = (.ok, .bytes stored, some data.length) ∧
      stored.take data.length = data := by
  obtain ⟨payload, hlen, hframe, hdata⟩ :=
    frameBytes_of_parseFrame ((decodeFrame_ok_iff V data prior frame).mp h)
  have hpayload : frame.payload = .bytes payload := by rw [hframe]; rfl
  have hsize : data.length = 12 + payload.length := by rw [hdata]; simp
  have hencode := encodeFrame_ok V frame.messageType (.bytes payload) frame.sequence frame.flags
    output reported (.inl rfl) hlen (by simp only [Span.length_bytes]; omega)
  rw [Span.data_bytes, ← hdata, Span.length_bytes, ← hsize] at hencode
  rw [hpayload]
  exact ⟨_, hencode, by rw [writeAt_zero, List.take_left]⟩

section Encoded

variable {V : WireVersion} {messageType sequence : UInt16} {payload : Span} {flags : UInt8}
  {bytes : List UInt8} (h : EncodesTo V messageType payload sequence flags bytes)
include h

theorem EncodesTo.eq_frameBytes : bytes = frameBytes V messageType payload.data sequence flags :=
  (encodesTo_iff.mp h).2.2

theorem EncodesTo.length_data : payload.data.length = payload.length :=
  payload.length_data (encodesTo_iff.mp h).1

theorem EncodesTo.length_data_le : payload.data.length ≤ 512 := by
  rw [h.length_data]
  exact (encodesTo_iff.mp h).2.1

theorem EncodesTo.length_bytes : bytes.length = 12 + payload.data.length := by
  rw [h.eq_frameBytes, length_frameBytes]

/-- What the encoder outputs, the decoder accepts. -/
theorem EncodesTo.accepted :
    parseFrame V bytes = .ok (frameOf V messageType payload.data sequence flags) := by
  rw [h.eq_frameBytes]
  exact parseFrame_frameBytes V messageType payload.data sequence flags h.length_data_le

end Encoded

/-- The decoder accepts exactly what the encoder outputs. -/
theorem decodeFrame_accepts_iff (V : WireVersion) (data : List UInt8) :
    (∃ prior frame, decodeFrame V (.bytes data) (some prior) = (.ok, some frame)) ↔
      ∃ messageType payload sequence flags,
        EncodesTo V messageType payload sequence flags data := by
  constructor
  · rintro ⟨prior, frame, hdecode⟩
    obtain ⟨payload, hlen, _, hdata⟩ :=
      frameBytes_of_parseFrame ((decodeFrame_ok_iff V data prior frame).mp hdecode)
    exact ⟨frame.messageType, .bytes payload, frame.sequence, frame.flags,
      encodesTo_iff.mpr ⟨.inl rfl, hlen, hdata⟩⟩
  · rintro ⟨messageType, payload, sequence, flags, hencode⟩
    exact ⟨.zero, _, (decodeFrame_ok_iff V data _ _).mpr hencode.accepted⟩

/-- Different frames have different wire forms. -/
theorem encodesTo_injective {V : WireVersion} {type₁ type₂ sequence₁ sequence₂ : UInt16}
    {flags₁ flags₂ : UInt8} {payload₁ payload₂ : Span} {data : List UInt8}
    (h₁ : EncodesTo V type₁ payload₁ sequence₁ flags₁ data)
    (h₂ : EncodesTo V type₂ payload₂ sequence₂ flags₂ data) :
    type₁ = type₂ ∧ payload₁.data = payload₂.data ∧ sequence₁ = sequence₂ ∧ flags₁ = flags₂ := by
  have hsame := h₁.eq_frameBytes.symm.trans h₂.eq_frameBytes
  exact frameBytes_injective h₁.length_data_le h₂.length_data_le hsame

/-- **The frame codec is a bijection onto the accepted strings.** Encoding succeeds whenever the
    payload and the capacity allow it, and decoding its output gives the frame back; encoding
    what was decoded gives the string back; so the accepted strings are exactly the encoder's
    outputs, and different frames have different wire forms. -/
theorem frame_codec_bijective (V : WireVersion) :
    (∀ (messageType : UInt16) (payload : Span) (sequence : UInt16) (flags : UInt8)
        (output : List UInt8) (reported : Nat) (prior : DecodedFrame),
      (payload.isNull = false ∨ payload.length = 0) → payload.length ≤ 512 →
      12 + payload.length ≤ output.length →
      ∃ stored : List UInt8,
        encodeFrame V messageType payload sequence flags (.bytes output) (some reported) =
          (.ok, .bytes stored, some (12 + payload.length)) ∧
        decodeFrame V (.bytes (stored.take (12 + payload.length))) (some prior) =
          (.ok, some ⟨V.byte, flags, sequence, messageType, .bytes payload.data⟩)) ∧
    (∀ (data : List UInt8) (prior frame : DecodedFrame) (output : List UInt8) (reported : Nat),
      decodeFrame V (.bytes data) (some prior) = (.ok, some frame) →
      data.length ≤ output.length →
      ∃ stored : List UInt8,
        encodeFrame V frame.messageType frame.payload frame.sequence frame.flags (.bytes output)
          (some reported) = (.ok, .bytes stored, some data.length) ∧
        stored.take data.length = data) ∧
    (∀ data : List UInt8,
      (∃ prior frame, decodeFrame V (.bytes data) (some prior) = (.ok, some frame)) ↔
        ∃ messageType payload sequence flags, EncodesTo V messageType payload sequence flags data) ∧
    (∀ (type₁ type₂ sequence₁ sequence₂ : UInt16) (flags₁ flags₂ : UInt8) (payload₁ payload₂ : Span)
        (data : List UInt8),
      EncodesTo V type₁ payload₁ sequence₁ flags₁ data →
      EncodesTo V type₂ payload₂ sequence₂ flags₂ data →
      type₁ = type₂ ∧ payload₁.data = payload₂.data ∧ sequence₁ = sequence₂ ∧ flags₁ = flags₂) := by
  refine ⟨?_, ?_, decodeFrame_accepts_iff V, ?_⟩
  · intro messageType payload sequence flags output reported prior hptr hlen hroom
    exact encodeFrame_then_decodeFrame V messageType sequence flags reported prior hptr hlen hroom
  · intro data prior frame output reported hdecode hroom
    exact decodeFrame_then_encodeFrame hdecode reported hroom
  · intro type₁ type₂ sequence₁ sequence₂ flags₁ flags₂ payload₁ payload₂ data h₁ h₂
    exact encodesTo_injective h₁ h₂

end Oomwoo
