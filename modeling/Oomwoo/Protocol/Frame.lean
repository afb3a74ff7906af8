import Oomwoo.Words

namespace Oomwoo

open Bytes

/-!
# Frames: the checksum, the encoder and the complete-frame decoder

`oomwoo_crc16_ccitt_false`, `oomwoo_encode_frame` and `oomwoo_decode_frame`.  A pointer with a
length is a `Span`; an out-parameter is the `Option` of what it points to (`none` is null), and
each function returns its result together with what the out-parameters hold afterwards.
-/

/-! ### Constants of `oomwoo_protocol.h` -/

/-- `'O'` -/
def magic0 : UInt8 := 0x4f

/-- `'W'` -/
def magic1 : UInt8 := 0x57

def headerSize : Nat := 10
def crcSize : Nat := 2
def maxPayloadSize : Nat := 512
def maxFrameSize : Nat := headerSize + maxPayloadSize + crcSize

/-- The compile-time `OOMWOO_PROTOCOL_VERSION`; the header refuses values outside `1..255`. -/
structure WireVersion where
  byte : UInt8
  ne_zero : byte ≠ 0

/-- The version the default build compiles. -/
def wireVersion1 : WireVersion := ⟨1, by decide⟩

inductive ProtocolResult where
  | ok
  | nullArgument
  | outputTooSmall
  | frameTooShort
  | badMagic
  | badVersion
  | payloadTooLarge
  | lengthMismatch
  | badCrc
  deriving DecidableEq, Repr

/-- A decoded frame.  `payload` stands for the fields `payload` and `payload_length`: the bytes
    the pointer designates, or the null pointer with a claimed length. -/
structure DecodedFrame where
  version : UInt8
  flags : UInt8
  sequence : UInt16
  messageType : UInt16
  payload : Span
  deriving DecidableEq, Repr

/-- The field `payload_length`. -/
def DecodedFrame.payloadLength (frame : DecodedFrame) : Nat := frame.payload.length

/-- A frame struct filled with zeros; it stands for a local the caller has not initialised. -/
def DecodedFrame.zero : DecodedFrame := ⟨0, 0, 0, 0, .null 0⟩

/-! ### The checksum -/

/-- One turn of the inner loop. -/
def crcBit (crc : UInt16) : UInt16 :=
  if crc &&& 0x8000 ≠ 0 then (crc <<< 1) ^^^ 0x1021 else crc <<< 1

/-- One turn of the outer loop. -/
def crcByte (crc : UInt16) (byte : UInt8) : UInt16 :=
  crcBit^[8] (crc ^^^ byte.toUInt16 <<< 8)

/-- The loop over the bytes from the preset `0xffff`. -/
def crcBytes (data : List UInt8) : UInt16 := data.foldl crcByte 0xffff

def crc16CcittFalse (data : Span) : UInt16 :=
  if data.isNull && data.length ≠ 0 then 0 else crcBytes data.data

/-! ### The encoder -/

/-- The stores of the encoder once every argument check has passed. -/
def encodeFrameBody (V : WireVersion) (messageType : UInt16) (payload : List UInt8)
    (sequence : UInt16) (flags : UInt8) (output : List UInt8) : List UInt8 :=
  let frameLength := headerSize + payload.length + crcSize
  let output := writeAt output 0 [magic0]
  let output := writeAt output 1 [magic1]
  let output := writeAt output 2 [V.byte]
  let output := writeAt output 3 [flags]
  let output := writeU16Le output 4 sequence
  let output := writeU16Le output 6 messageType
  let output := writeU16Le output 8 (UInt16.ofNat payload.length)
  let output := if payload.length ≠ 0 then writeAt output headerSize payload else output
  let crc := crc16CcittFalse (.bytes (output.take (headerSize + payload.length)))
  writeU16Le output (frameLength - crcSize) crc

def encodeFrame (V : WireVersion) (messageType : UInt16) (payload : Span) (sequence : UInt16)
    (flags : UInt8) (output : Span) (outputLength : Option Nat) :
    ProtocolResult × Span × Option Nat :=
  if output.isNull || outputLength.isNone || (payload.isNull && payload.length ≠ 0) then
    (.nullArgument, output, outputLength)
  else if maxPayloadSize < payload.length then
    (.payloadTooLarge, output, outputLength)
  else
    let frameLength := headerSize + payload.length + crcSize
    if output.length < frameLength then
      (.outputTooSmall, output, outputLength)
    else
      (.ok, .bytes (encodeFrameBody V messageType payload.data sequence flags output.data),
        some frameLength)

/-! ### The complete-frame decoder -/

/-- The checks of the decoder on non-null arguments, in their order. -/
def parseFrame (V : WireVersion) (data : List UInt8) : Except ProtocolResult DecodedFrame :=
  if data.length < headerSize + crcSize then .error .frameTooShort
  else if byteAt data 0 ≠ magic0 ∨ byteAt data 1 ≠ magic1 then .error .badMagic
  else if byteAt data 2 ≠ V.byte then .error .badVersion
  else
    let payloadLength := (readU16Le (data.drop 8)).toNat
    if maxPayloadSize < payloadLength then .error .payloadTooLarge
    else
      let expectedLength := headerSize + payloadLength + crcSize
      if data.length ≠ expectedLength then .error .lengthMismatch
      else
        let expectedCrc := readU16Le (data.drop (data.length - crcSize))
        let actualCrc := crc16CcittFalse (.bytes (data.take (data.length - crcSize)))
        if expectedCrc ≠ actualCrc then .error .badCrc
        else
          .ok {
            version := byteAt data 2
            flags := byteAt data 3
            sequence := readU16Le (data.drop 4)
            messageType := readU16Le (data.drop 6)
            payload := .bytes ((data.drop headerSize).take payloadLength) }

def decodeFrame (V : WireVersion) (data : Span) (output : Option DecodedFrame) :
    ProtocolResult × Option DecodedFrame :=
  match data, output with
  | .null _, output => (.nullArgument, output)
  | .bytes _, none => (.nullArgument, none)
  | .bytes data, some prior =>
    match parseFrame V data with
    | .error result => (result, some prior)
    | .ok frame => (.ok, some frame)

-- the documented check value of CRC-16/CCITT-FALSE
example : crcBytes [0x31, 0x32, 0x33, 0x34, 0x35, 0x36, 0x37, 0x38, 0x39] = 0x29b1 := by
  decide +kernel

end Oomwoo
