import Oomwoo.Lib.Scanner
import Oomwoo.Protocol.FrameCodec

namespace Oomwoo

open Bytes Scanning

/-!
# The abstract decoder: a scanner over the unread bytes

What the stream decoder is for, without its buffer: look at the unread bytes, wait while they may
still become a frame, otherwise consume either one byte (noise or a rejected candidate) or one
whole frame.  `frameScanner` is an instance of the incremental scanners of `Oomwoo.Lib.Scanner`;
its law `step_append` says that no later byte can change a decision, which is what the online
decoder relies on.

The six lemmas `scanStep_*` are all that later proofs use of `scanStep`; `scanStep_cases` is
their converse.
-/

/-- Why the scanner consumed bytes. -/
inductive ScanEvent where
  | noise
  | versionError
  | lengthError
  | crcError
  | frame (frame : DecodedFrame)
  deriving DecidableEq, Repr

namespace ScanEvent

/-- The frame that was found, if it is one. -/
def frame? : ScanEvent → Option DecodedFrame
  | .frame f => some f
  | _ => none

def isFrame (event : ScanEvent) : Bool := event.frame?.isSome

/-- Whether a candidate was rejected. -/
def isError (event : ScanEvent) : Bool :=
  event == versionError || event == lengthError || event == crcError

end ScanEvent

/-- The payload length a header at the start of `w` declares. -/
def declaredLength (w : List UInt8) : Nat := (readU16Le (w.drop 8)).toNat

theorem readU16Le_drop_take {w : List UInt8} {i n : Nat} (h : i + 1 < n) :
    readU16Le ((w.take n).drop i) = readU16Le (w.drop i) := by
  simp only [readU16Le, byteAt_drop, byteAt_take w (show i + 0 < n by omega), byteAt_take w h]

/-- One decision on the unread bytes `w`. -/
def scanStep (V : WireVersion) (w : List UInt8) : Option (ScanEvent × Nat) :=
  if w.length = 0 then none
  else if byteAt w 0 ≠ magic0 then some (.noise, 1)
  else if w.length = 1 then none
  else if byteAt w 1 ≠ magic1 then some (.noise, 1)
  else if w.length < 10 then none
  else if byteAt w 2 ≠ V.byte then some (.versionError, 1)
  else if 512 < declaredLength w then some (.lengthError, 1)
  else if w.length < 12 + declaredLength w then none
  else
    match parseFrame V (w.take (12 + declaredLength w)) with
    | .ok frame => some (.frame frame, 12 + declaredLength w)
    | .error _ => some (.crcError, 1)

/-- The bytes cannot be the start of a frame: the magic is already wrong. -/
def NotMagic (w : List UInt8) : Prop :=
  (1 ≤ w.length ∧ byteAt w 0 ≠ magic0) ∨ (2 ≤ w.length ∧ byteAt w 1 ≠ magic1)

/-- The bytes start with `'O'`, `'W'`. -/
structure StartsMagic (w : List UInt8) : Prop where
  length : 2 ≤ w.length
  first : byteAt w 0 = magic0
  second : byteAt w 1 = magic1

/-- A complete header that passes every check on it: magic, version and declared length. -/
structure Candidate (V : WireVersion) (w : List UInt8) : Prop where
  magic : StartsMagic w
  header : 10 ≤ w.length
  version : byteAt w 2 = V.byte
  declared : declaredLength w ≤ 512

section

variable {V : WireVersion} {w : List UInt8}

/-! ### What the scanner decides -/

theorem scanStep_noise (h : NotMagic w) : scanStep V w = some (.noise, 1) := by
  rcases h with ⟨hlen, h0⟩ | ⟨hlen, h1⟩
  · rw [scanStep, if_neg (by omega), if_pos h0]
  · rw [scanStep, if_neg (by omega)]
    by_cases h0 : byteAt w 0 ≠ magic0
    · rw [if_pos h0]
    · rw [if_neg h0, if_neg (by omega), if_pos h1]

theorem scanStep_short (h : StartsMagic w) (hlen : w.length < 10) : scanStep V w = none := by
  have h2 := h.length
  rw [scanStep, if_neg (by omega), if_neg (by simp [h.first]), if_neg (by omega),
    if_neg (by simp [h.second]), if_pos hlen]

theorem scanStep_version (h : StartsMagic w) (hlen : 10 ≤ w.length) (hv : byteAt w 2 ≠ V.byte) :
    scanStep V w = some (.versionError, 1) := by
  rw [scanStep, if_neg (by omega), if_neg (by simp [h.first]), if_neg (by omega),
    if_neg (by simp [h.second]), if_neg (by omega), if_pos hv]

theorem scanStep_length (h : StartsMagic w) (hlen : 10 ≤ w.length) (hv : byteAt w 2 = V.byte)
    (hn : 512 < declaredLength w) : scanStep V w = some (.lengthError, 1) := by
  rw [scanStep, if_neg (by omega), if_neg (by simp [h.first]), if_neg (by omega),
    if_neg (by simp [h.second]), if_neg (by omega), if_neg (by simp [hv]), if_pos hn]

theorem scanStep_open (h : Candidate V w) (hlen : w.length < 12 + declaredLength w) :
    scanStep V w = none := by
  have h10 := h.header
  have hn := h.declared
  rw [scanStep, if_neg (by omega), if_neg (by simp [h.magic.first]), if_neg (by omega),
    if_neg (by simp [h.magic.second]), if_neg (by omega), if_neg (by simp [h.version]),
    if_neg (by omega), if_pos hlen]

theorem scanStep_closed (h : Candidate V w) (hlen : 12 + declaredLength w ≤ w.length) :
    scanStep V w =
      match parseFrame V (w.take (12 + declaredLength w)) with
      | .ok frame => some (.frame frame, 12 + declaredLength w)
      | .error _ => some (.crcError, 1) := by
  have h10 := h.header
  have hn := h.declared
  rw [scanStep, if_neg (by omega), if_neg (by simp [h.magic.first]), if_neg (by omega),
    if_neg (by simp [h.magic.second]), if_neg (by omega), if_neg (by simp [h.version]),
    if_neg (by omega), if_neg (by omega)]

/-- **The situations are exhaustive**: nothing unread, a lone `'O'`, a wrong magic, a short
    header, a wrong version, a length beyond the limit, or a header that passes every check. -/
theorem scan_situations (V : WireVersion) (w : List UInt8) :
    w = [] ∨ w = [magic0] ∨ NotMagic w ∨ (StartsMagic w ∧ w.length < 10) ∨
      (StartsMagic w ∧ 10 ≤ w.length ∧ byteAt w 2 ≠ V.byte) ∨
      (StartsMagic w ∧ 10 ≤ w.length ∧ byteAt w 2 = V.byte ∧ 512 < declaredLength w) ∨
      Candidate V w := by
  match w with
  | [] => exact .inl rfl
  | [b] =>
    by_cases h : b = magic0
    · exact .inr (.inl (by rw [h]))
    · exact .inr (.inr (.inl (.inl ⟨by simp, h⟩)))
  | b0 :: b1 :: rest =>
    refine .inr (.inr ?_)
    by_cases h0 : b0 = magic0
    swap
    · exact .inl (.inl ⟨by simp, h0⟩)
    by_cases h1 : b1 = magic1
    swap
    · exact .inl (.inr ⟨by simp, h1⟩)
    -- both magic bytes are there: the header decides
    have hmagic : StartsMagic (b0 :: b1 :: rest) := ⟨by simp, h0, h1⟩
    refine .inr ?_
    by_cases hlen : (b0 :: b1 :: rest).length < 10
    · exact .inl ⟨hmagic, hlen⟩
    have h10 : 10 ≤ (b0 :: b1 :: rest).length := by omega
    refine .inr ?_
    by_cases hv : byteAt (b0 :: b1 :: rest) 2 = V.byte
    swap
    · exact .inl ⟨hmagic, h10, hv⟩
    refine .inr ?_
    by_cases hn : 512 < declaredLength (b0 :: b1 :: rest)
    · exact .inl ⟨hmagic, h10, hv, hn⟩
    · exact .inr ⟨hmagic, h10, hv, by omega⟩

theorem scanStep_nil : scanStep V [] = none := rfl

theorem scanStep_lone : scanStep V [magic0] = none := by
  simp [scanStep]

/-- **Inversion.** What a decision says about the bytes. -/
theorem scanStep_cases {e : ScanEvent} {k : Nat} (h : scanStep V w = some (e, k)) :
    (e = .noise ∧ k = 1 ∧ NotMagic w) ∨
    (e = .versionError ∧ k = 1 ∧ StartsMagic w ∧ 10 ≤ w.length ∧ byteAt w 2 ≠ V.byte) ∨
    (e = .lengthError ∧ k = 1 ∧ StartsMagic w ∧ 10 ≤ w.length ∧ byteAt w 2 = V.byte ∧
      512 < declaredLength w) ∨
    (e = .crcError ∧ k = 1 ∧ Candidate V w ∧ 12 + declaredLength w ≤ w.length ∧
      ∃ result, parseFrame V (w.take (12 + declaredLength w)) = .error result) ∨
    (∃ frame, e = .frame frame ∧ k = 12 + declaredLength w ∧ Candidate V w ∧ k ≤ w.length ∧
      parseFrame V (w.take k) = .ok frame) := by
  rcases scan_situations V w with rfl | rfl | hs | ⟨hs, hlen⟩ | ⟨hs, hlen, hv⟩ |
    ⟨hs, hlen, hv, hn⟩ | hs
  · rw [scanStep_nil] at h; cases h
  · rw [scanStep_lone] at h; cases h
  · rw [scanStep_noise hs] at h; cases h
    exact .inl ⟨rfl, rfl, hs⟩
  · rw [scanStep_short hs hlen] at h; cases h
  · rw [scanStep_version hs hlen hv] at h; cases h
    exact .inr (.inl ⟨rfl, rfl, hs, hlen, hv⟩)
  · rw [scanStep_length hs hlen hv hn] at h; cases h
    exact .inr (.inr (.inl ⟨rfl, rfl, hs, hlen, hv, hn⟩))
  · -- a candidate: open, or complete and then decided by the decoder
    by_cases hlen : w.length < 12 + declaredLength w
    · rw [scanStep_open hs hlen] at h; cases h
    · rw [scanStep_closed hs (by omega)] at h
      cases hp : parseFrame V (w.take (12 + declaredLength w)) with
      | error result =>
        rw [hp] at h; cases h
        exact .inr (.inr (.inr (.inl ⟨rfl, rfl, hs, by omega, result, rfl⟩)))
      | ok frame =>
        rw [hp] at h; cases h
        exact .inr (.inr (.inr (.inr ⟨frame, rfl, rfl, hs, by omega, hp⟩)))

/-- **Inversion for frames.** A frame is found behind a header that passes every check, and the
    complete-frame decoder accepts the stretch that the length field declares. -/
theorem scanStep_frame {frame : DecodedFrame} {k : Nat}
    (h : scanStep V w = some (.frame frame, k)) :
    Candidate V w ∧ k = 12 + declaredLength w ∧ parseFrame V (w.take k) = .ok frame := by
  rcases scanStep_cases h with ⟨h, _⟩ | ⟨h, _⟩ | ⟨h, _⟩ | ⟨h, _⟩ | ⟨f, h, hk, hs, _, hp⟩
  · cases h
  · cases h
  · cases h
  · cases h
  · cases h
    exact ⟨hs, hk, hp⟩

/-- **A frame is found exactly where the complete-frame decoder accepts** the stretch that the
    length field declares. -/
theorem scanStep_frame_iff {frame : DecodedFrame} {k : Nat} :
    scanStep V w = some (.frame frame, k) ↔
      k = 12 + declaredLength w ∧ parseFrame V (w.take k) = .ok frame := by
  constructor
  · intro h
    exact (scanStep_frame h).2
  · rintro ⟨rfl, hp⟩
    obtain ⟨hshort, h0, h1, h2, hlarge, hexpected, _⟩ := (parseFrame_ok_iff V _ _).mp hp
    rw [byteAt_take _ (by omega)] at h0 h1 h2
    rw [readU16Le_drop_take (by omega), ← declaredLength] at hlarge hexpected
    rw [List.length_take] at hexpected
    have hcandidate : Candidate V w := ⟨⟨by omega, h0, h1⟩, by omega, h2, hlarge⟩
    rw [scanStep_closed hcandidate (by omega), hp]

theorem StartsMagic.not_notMagic (h : StartsMagic w) : ¬ NotMagic w := by
  rintro (hs | hs)
  · exact hs.2 h.first
  · exact hs.2 h.second

/-- Noise is a wrong magic; everything else the scanner consumes starts with the magic. -/
theorem scanStep_magic {e : ScanEvent} {k : Nat} (h : scanStep V w = some (e, k)) :
    (e = .noise ∧ k = 1 ∧ NotMagic w) ∨ (e ≠ .noise ∧ StartsMagic w) := by
  rcases scanStep_cases h with hs | ⟨rfl, _, hs, _⟩ | ⟨rfl, _, hs, _⟩ | ⟨rfl, _, hs, _⟩ |
    ⟨_, rfl, _, hs, _⟩
  · exact .inl hs
  · exact .inr ⟨by simp, hs⟩
  · exact .inr ⟨by simp, hs⟩
  · exact .inr ⟨by simp, hs.magic⟩
  · exact .inr ⟨by simp, hs.magic⟩

/-! ### The situations do not change when bytes arrive -/

theorem NotMagic.append (h : NotMagic w) (x : List UInt8) : NotMagic (w ++ x) := by
  rcases h with ⟨hlen, h0⟩ | ⟨hlen, h1⟩
  · exact .inl ⟨by simp; omega, by rwa [byteAt_append_left _ _ (by omega)]⟩
  · exact .inr ⟨by simp; omega, by rwa [byteAt_append_left _ _ (by omega)]⟩

theorem StartsMagic.append (h : StartsMagic w) (x : List UInt8) : StartsMagic (w ++ x) := by
  have hlen := h.length
  exact ⟨by simp; omega, by rw [byteAt_append_left _ _ (by omega), h.first],
    by rw [byteAt_append_left _ _ (by omega), h.second]⟩

/-- Reads the two bytes of the length field only. -/
theorem declaredLength_eq (w : List UInt8) :
    declaredLength w = (byteAt w 8).toNat + 256 * (byteAt w 9).toNat := by
  rw [declaredLength, readU16Le_toNat, byteAt_drop, byteAt_drop]

theorem declaredLength_append (hlen : 10 ≤ w.length) (x : List UInt8) :
    declaredLength (w ++ x) = declaredLength w := by
  rw [declaredLength_eq, declaredLength_eq, byteAt_append_left _ _ (by omega),
    byteAt_append_left _ _ (by omega)]

theorem Candidate.append (h : Candidate V w) (x : List UInt8) : Candidate V (w ++ x) := by
  have hlen := h.header
  exact ⟨h.magic.append x, by simp; omega,
    by rw [byteAt_append_left _ _ (by omega), h.version],
    by rw [declaredLength_append hlen]; exact h.declared⟩

/-- No later byte changes a decision. -/
theorem scanStep_append {r : ScanEvent × Nat} (x : List UInt8) (h : scanStep V w = some r) :
    scanStep V (w ++ x) = some r := by
  obtain ⟨e, k⟩ := r
  rcases scanStep_cases h with ⟨rfl, rfl, hs⟩ | ⟨rfl, rfl, hs, hlen, hv⟩ |
    ⟨rfl, rfl, hs, hlen, hv, hn⟩ | ⟨rfl, rfl, hs, hlen, result, hp⟩ |
    ⟨frame, rfl, rfl, hs, hlen, hp⟩
  · exact scanStep_noise (hs.append x)
  · exact scanStep_version (hs.append x) (by simp; omega)
      (by rwa [byteAt_append_left _ _ (by omega)])
  · exact scanStep_length (hs.append x) (by simp; omega)
      (by rwa [byteAt_append_left _ _ (by omega)]) (by rwa [declaredLength_append hlen])
  · rw [scanStep_closed (hs.append x) (by rw [declaredLength_append hs.header]; simp; omega),
      declaredLength_append hs.header, List.take_append_of_le_length hlen, hp]
  · rw [scanStep_closed (hs.append x) (by rw [declaredLength_append hs.header]; simp; omega),
      declaredLength_append hs.header, List.take_append_of_le_length hlen, hp]

end

/-- The abstract decoder. -/
def frameScanner (V : WireVersion) : Scanner UInt8 ScanEvent where
  step := scanStep V
  step_pos := by
    intro w e k h
    rcases scanStep_cases h with ⟨_, rfl, _⟩ | ⟨_, rfl, _⟩ | ⟨_, rfl, _⟩ | ⟨_, rfl, _⟩ |
      ⟨_, _, rfl, _⟩ <;> omega
  step_le := by
    intro w e k h
    rcases scanStep_cases h with ⟨_, rfl, hs⟩ | ⟨_, rfl, _, hlen, _⟩ | ⟨_, rfl, _, hlen, _⟩ |
      ⟨_, rfl, hs, _⟩ | ⟨_, _, _, _, hlen, _⟩
    · rcases hs with hs | hs <;> omega
    · omega
    · omega
    · have := hs.header
      omega
    · exact hlen
  step_append := scanStep_append

@[simp] theorem frameScanner_step (V : WireVersion) : (frameScanner V).step = scanStep V := rfl

/-- An undecided candidate is shorter than the largest frame. -/
theorem length_lt_of_scanStep_none {V : WireVersion} {w : List UInt8} (h : scanStep V w = none) :
    w.length < maxFrameSize := by
  simp only [maxFrameSize, headerSize, maxPayloadSize, crcSize]
  rcases scan_situations V w with rfl | rfl | hs | ⟨hs, hlen⟩ | ⟨hs, hlen, hv⟩ |
    ⟨hs, hlen, hv, hn⟩ | hs
  · simp
  · simp
  · rw [scanStep_noise hs] at h; cases h
  · omega
  · rw [scanStep_version hs hlen hv] at h; cases h
  · rw [scanStep_length hs hlen hv hn] at h; cases h
  · have hn := hs.declared
    by_contra hlong
    rw [scanStep_closed hs (by omega)] at h
    split at h <;> cases h

/-! ### Runs by position -/

/-- An event is a frame, or it is not. -/
theorem ScanEvent.frame_or_not (event : ScanEvent) :
    (∃ frame, event = .frame frame) ∨ event.isFrame = false := by
  cases event with
  | frame frame => exact .inl ⟨frame, rfl⟩
  | _ => exact .inr rfl

/-- A decision that is not a frame consumes a single byte. -/
theorem eq_one_of_scanStep {V : WireVersion} {w : List UInt8} {event : ScanEvent} {k : Nat}
    (h : scanStep V w = some (event, k)) (hevent : event.isFrame = false) : k = 1 := by
  rcases scanStep_cases h with ⟨_, hk, _⟩ | ⟨_, hk, _⟩ | ⟨_, hk, _⟩ | ⟨_, hk, _⟩ | ⟨_, rfl, _⟩
  · exact hk
  · exact hk
  · exact hk
  · exact hk
  · cases hevent

/-- A run of the scanner over `B` from position `p` on: at each position it stops at, it discards
    one byte or consumes a frame, and in the end it leaves `r`. -/
inductive RunAt (V : WireVersion) (B r : List UInt8) :
    Nat → List (ScanEvent × List UInt8) → Prop
  | rest {p : Nat} (hrest : B.drop p = r) : RunAt V B r p []
  | discard {p : Nat} {event : ScanEvent} {pieces : List (ScanEvent × List UInt8)}
      (hevent : event.isFrame = false) (hp : p < B.length)
      (hstep : scanStep V (B.drop p) = some (event, 1)) (hrun : RunAt V B r (p + 1) pieces) :
      RunAt V B r p ((event, (B.drop p).take 1) :: pieces)
  | deliver {p k : Nat} {frame : DecodedFrame} {pieces : List (ScanEvent × List UInt8)}
      (hk : 0 < k) (hp : p + k ≤ B.length)
      (hstep : scanStep V (B.drop p) = some (.frame frame, k))
      (hrun : RunAt V B r (p + k) pieces) :
      RunAt V B r p ((.frame frame, (B.drop p).take k) :: pieces)

/-- Every run can be read by position. -/
theorem runAt_of_run {V : WireVersion} {B r : List UInt8} {pieces : List (ScanEvent × List UInt8)}
    {p : Nat} (h : Run (frameScanner V) (B.drop p) pieces r) : RunAt V B r p pieces := by
  generalize hw : B.drop p = w at h
  induction h generalizing p with
  | nil w => exact .rest hw
  | @cons w event k pieces r hstep _ ih =>
    subst hw
    have hpos := (frameScanner V).step_pos hstep
    have hle := (frameScanner V).step_le hstep
    rw [List.length_drop] at hle
    have hrun := ih (p := p + k) List.drop_drop.symm
    rcases event.frame_or_not with ⟨frame, rfl⟩ | hevent
    · exact .deliver hpos (by omega) hstep hrun
    · obtain rfl := eq_one_of_scanStep hstep hevent
      exact .discard hevent (by omega) hstep hrun

/-- The frame whose header and payload stand at the start of `w`. -/
def frameAt (w : List UInt8) : DecodedFrame where
  version := byteAt w 2
  flags := byteAt w 3
  sequence := readU16Le (w.drop 4)
  messageType := readU16Le (w.drop 6)
  payload := .bytes ((w.drop 10).take (declaredLength w))

/-! ### The wire form of a frame -/

section

variable (V : WireVersion) (messageType : UInt16) {payload : List UInt8} (sequence : UInt16)
  (flags : UInt8)

theorem declaredLength_frameBytes (hlen : payload.length ≤ 512) (x : List UInt8) :
    declaredLength (frameBytes V messageType payload sequence flags ++ x) = payload.length := by
  have hform : frameBytes V messageType payload sequence flags ++ x =
      frameHeader V messageType sequence flags payload.length ++ (payload ++ leBytes 2
        (crcBytes (frameBody V messageType payload sequence flags)).toNat ++ x) := by
    simp [frameBytes, frameBody]
  rw [hform, declaredLength]
  exact (frameHeader_fields V messageType sequence flags _ hlen).2.2.2.2.2.2

/-- The scanner finds a frame where its wire form stands. -/
theorem scanStep_frameBytes (hlen : payload.length ≤ 512) (x : List UInt8) :
    scanStep V (frameBytes V messageType payload sequence flags ++ x) =
      some (.frame (frameOf V messageType payload sequence flags), 12 + payload.length) := by
  refine scanStep_frame_iff.mpr ⟨by rw [declaredLength_frameBytes V _ _ _ hlen], ?_⟩
  rw [List.take_left' (by simp), parseFrame_frameBytes V _ _ _ _ hlen]

end

section Encoded

variable {V : WireVersion} {messageType sequence : UInt16} {payload : Span} {flags : UInt8}
  {bytes : List UInt8} (h : EncodesTo V messageType payload sequence flags bytes)
include h

/-- The scanner finds what the encoder outputs. -/
theorem EncodesTo.scanned (x : List UInt8) :
    scanStep V (bytes ++ x) =
      some (.frame (frameOf V messageType payload.data sequence flags), bytes.length) := by
  rw [h.length_bytes, h.eq_frameBytes]
  exact scanStep_frameBytes V messageType sequence flags h.length_data_le x

theorem EncodesTo.declared (x : List UInt8) : 12 + declaredLength (bytes ++ x) = bytes.length := by
  have hdeclared := declaredLength_frameBytes V messageType sequence flags h.length_data_le x
  rw [← h.eq_frameBytes] at hdeclared
  rw [hdeclared, h.length_bytes]

end Encoded

/-- On a complete candidate only the checksum is left to check: the complete-frame
    decoder makes the other checks a second time. -/
theorem parseFrame_of_candidate {V : WireVersion} {w : List UInt8} (h : Candidate V w)
    (hlen : 12 + declaredLength w ≤ w.length) :
    parseFrame V (w.take (12 + declaredLength w)) =
      if readU16Le (w.drop (10 + declaredLength w)) ≠ crcBytes (w.take (10 + declaredLength w))
      then .error .badCrc else .ok (frameAt w) := by
  have hn := h.declared
  have hsize : (w.take (12 + declaredLength w)).length = 12 + declaredLength w := by simp [hlen]
  -- what the decoder reads inside the frame it would read in `w`
  have hbyte : ∀ i < 12, byteAt (w.take (12 + declaredLength w)) i = byteAt w i :=
    fun i hi => byteAt_take _ (by omega)
  have hword : ∀ i < 11, readU16Le ((w.take (12 + declaredLength w)).drop i) =
      readU16Le (w.drop i) := fun i hi => readU16Le_drop_take (by omega)
  have hcut : 12 + declaredLength w - 2 = 10 + declaredLength w := by omega
  have hpayload : ((w.take (12 + declaredLength w)).drop 10).take (declaredLength w) =
      (w.drop 10).take (declaredLength w) := by
    rw [List.drop_take, List.take_take, Nat.min_eq_left (by omega)]
  have hdecl : (readU16Le (w.drop 8)).toNat = declaredLength w := rfl
  simp only [parseFrame, headerSize, crcSize, maxPayloadSize, crc16CcittFalse_bytes, hsize,
    hbyte 0 (by omega), hbyte 1 (by omega), hbyte 2 (by omega), hbyte 3 (by omega),
    hword 4 (by omega), hword 6 (by omega), hword 8 (by omega), h.magic.first, h.magic.second,
    h.version, hdecl, hpayload, hcut]
  rw [if_neg (by omega), if_neg (by simp), if_neg (by simp), if_neg (by omega),
    if_neg (by omega), readU16Le_drop_take (by omega), List.take_take,
    Nat.min_eq_left (by omega), frameAt, h.version]

end Oomwoo
