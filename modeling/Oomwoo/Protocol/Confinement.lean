import Oomwoo.Protocol.ErrorDetection
import Oomwoo.Protocol.Recovery

namespace Oomwoo

open Bytes Scanning ShiftRegister Polynomial

/-!
# Damaged frames cost nothing but themselves

`ErrorPattern` collects the damage that the checksum shows for certain: up to three flipped bits,
any odd number of them, and flipped bits of header and payload that lie within sixteen consecutive
ones, counted as the checksum reads them, the high bit of a byte first (`patterns_detected`).

In a stream a damaged frame, or one of another wire version, costs no other frame, as long as no
magic appears in it and magic and length have arrived: the decoder rejects it at its first byte,
skips the rest as noise and goes on with the next frame.  So of a stream of frames of any versions,
damaged and intact, exactly the intact ones of its own version are delivered, and the error counters
count the others (`damage_confined`).
-/

/-! ### Error patterns -/

/-- The place of a bit among those the checksum reads: byte by byte, the highest bit first. -/
def readingOrder (p : ℕ) : ℕ := 8 * (p / 8) + (7 - p % 8)

/-- Flipped bits of a frame of `length` bytes that the checksum shows. -/
structure ErrorPattern (length : ℕ) (positions : List ℕ) : Prop where
  distinct : positions.Nodup
  inside : ∀ p ∈ positions, p < 8 * length
  some : positions ≠ []
  detectable : positions.length ≤ 3 ∨ Odd positions.length ∨
    ∃ k, ∀ p ∈ positions, p / 8 + 2 < length ∧ k ≤ readingOrder p ∧ readingOrder p < k + 16

section Patterns

variable {V : WireVersion} {messageType sequence : UInt16} {payload : Span} {flags : UInt8}
  {sent : List UInt8} {positions : List ℕ}

/-- In what the checksum covers, the powers of `X` fall along the reading order. -/
theorem wireExponent_add {length p : ℕ} (hp : p / 8 + 2 < length) :
    wireExponent length p + readingOrder p + 1 = 8 * length := by
  unfold wireExponent wireRank readingOrder
  rw [if_pos hp]
  omega

/-- **The generator divides no error pattern.** -/
theorem ErrorPattern.not_dvd {length : ℕ} (h : ErrorPattern length positions) (hlen : 2 ≤ length)
    (hmax : length ≤ 524) :
    ¬ generator crcTaps ∣
      ((positions.map (wireExponent length)).map fun e => (X : (ZMod 2)[X]) ^ e).sum := by
  have hdistinct : (positions.map (wireExponent length)).Nodup := by
    refine h.distinct.map_on ?_
    intro p hp q hq heq
    exact wireExponent_inj (h.inside p hp) (h.inside q hq) heq
  have hsome : positions.map (wireExponent length) ≠ [] := by
    rw [ne_eq, List.map_eq_nil_iff]
    exact h.some
  rcases h.detectable with hfew | hodd | ⟨k, hburst⟩
  · refine not_dvd_few (by norm_num) coeff_zero_generator eval_one_generator
      (fun d hpos hd => crc_period hpos hd) hdistinct hsome (by rwa [List.length_map]) ?_
    intro e he
    obtain ⟨p, hp, rfl⟩ := List.mem_map.mp he
    have hinside := h.inside p hp
    have hrank := wireRank_lt (by omega : p / 8 < length) hlen
    unfold wireExponent
    omega
  · exact not_dvd_of_odd eval_one_generator (by rwa [List.length_map])
  · -- sixteen consecutive bits are sixteen consecutive powers
    obtain ⟨p, hp⟩ := List.exists_mem_of_ne_nil _ h.some
    refine not_dvd_window coeff_zero_generator (k := 8 * length - (k + 16)) hdistinct hsome ?_
    intro e he
    obtain ⟨q, hq, rfl⟩ := List.mem_map.mp he
    obtain ⟨hcovered, hlow, hhigh⟩ := hburst q hq
    have hsum := wireExponent_add hcovered
    omega

/-- **An error pattern breaks the checksum** of a frame. -/
theorem ErrorPattern.not_checksumHolds (h : ErrorPattern sent.length positions)
    (hsent : EncodesTo V messageType payload sequence flags sent) :
    ¬ ChecksumHolds (flipBits sent positions) := by
  obtain ⟨hshort, hlong⟩ := length_of_parseFrame hsent.accepted
  rw [checksumHolds_add_iff (length_flipBits sent positions)
    (checksumHolds_of_parseFrame hsent.accepted) (wirePoly_flipBits h.inside (by omega))]
  exact h.not_dvd (by omega) hlong

end Patterns

/-- **Error patterns are detected.** A frame with up to three flipped bits, with an odd number of
    them, or with flipped bits of header and payload that lie within sixteen consecutive ones (byte
    by byte, the high bit of each first), is rejected, wherever they are. -/
theorem patterns_detected (V : WireVersion) (messageType : UInt16) (payload : Span)
    (sequence : UInt16) (flags : UInt8) (sent : List UInt8)
    (h : EncodesTo V messageType payload sequence flags sent) (positions : List ℕ)
    (hpattern : ErrorPattern sent.length positions) (prior : DecodedFrame) :
    (decodeFrame V (.bytes (flipBits sent positions)) (some prior)).1 ≠ .ok := by
  intro hok
  obtain ⟨frame, hframe⟩ := decodeFrame_ok_fst.mp hok
  exact hpattern.not_checksumHolds h (checksumHolds_of_parseFrame hframe)

/-- Six flipped bits of an identify request, from the flags to the sequence number. -/
theorem patterns_detected_request :
    (decodeFrame wireVersion1
      (.bytes (flipBits (frameBytes wireVersion1 4 [] 7 0) [31, 29, 27, 25, 38, 32]))
      (some .zero)).1 ≠ .ok :=
  patterns_detected wireVersion1 4 (.bytes []) 7 0 _
    (encodesTo_iff.mpr ⟨.inl rfl, Nat.zero_le _, rfl⟩) [31, 29, 27, 25, 38, 32]
    ⟨by decide, by rw [length_frameBytes]; decide, by decide,
      .inr (.inr ⟨24, by rw [length_frameBytes]; decide⟩)⟩ .zero

/-! ### A damaged frame in the stream -/

/-- The header bytes that the decoder finds a frame and its end by: magic and length. -/
def framing : List ℕ := [0, 1, 8, 9]

/-- A frame as it arrives: the wire version of its sender, what was encoded, the bits flipped on
    the way, and the noise behind it.  If bits are flipped, they are an error pattern that leaves
    magic and length alone; no magic appears in the noise, nor behind the first byte of a frame
    that is damaged or of another version. -/
structure Arrival (V : WireVersion) where
  sender : WireVersion
  messageType : UInt16
  payload : Span
  sequence : UInt16
  flags : UInt8
  sent : List UInt8
  encoded : EncodesTo sender messageType payload sequence flags sent
  flipped : List ℕ
  noise : List UInt8
  pattern : flipped ≠ [] → ErrorPattern sent.length flipped ∧ ∀ p ∈ flipped, p / 8 ∉ framing
  no_magic : ¬ [magic0, magic1] <:+:
    (if flipped = [] ∧ sender.byte = V.byte then noise
      else (flipBits sent flipped).drop 1 ++ noise)

namespace Arrival

variable {V : WireVersion}

/-- What arrives. -/
def received (arrival : Arrival V) : List UInt8 :=
  flipBits arrival.sent arrival.flipped ++ arrival.noise

/-- The frame that was encoded. -/
def frame (arrival : Arrival V) : DecodedFrame :=
  frameOf V arrival.messageType arrival.payload.data arrival.sequence arrival.flags

/-- No bit was flipped, and the sender has the version of the decoder. -/
def readable (arrival : Arrival V) : Bool :=
  arrival.flipped.isEmpty && arrival.sender.byte == V.byte

/-- The version byte that arrives is not the decoder's. -/
def otherVersion (arrival : Arrival V) : Bool :=
  byteAt (flipBits arrival.sent arrival.flipped) 2 != V.byte

/-- What the scanner decides at the first byte. -/
def event (arrival : Arrival V) : ScanEvent :=
  if arrival.readable then .frame arrival.frame
  else if arrival.otherVersion then .versionError
  else .crcError

end Arrival

/-- A byte none of whose bits is flipped. -/
theorem byteAt_flipBits {data : List UInt8} {positions : List ℕ}
    (hinside : ∀ p ∈ positions, p < 8 * data.length) {i : ℕ} (hi : ∀ p ∈ positions, p / 8 ≠ i) :
    byteAt (flipBits data positions) i = byteAt data i := by
  induction positions generalizing data with
  | nil => rfl
  | cons p positions ih =>
    have hp := hinside p List.mem_cons_self
    have hlength : (flipBit data p).length = data.length := length_changeByte _ _ _
    have hfirst : byteAt (flipBit data p) i = byteAt data i := by
      unfold flipBit
      rw [byteAt_changeByte (by omega), if_neg (hi p List.mem_cons_self)]
    rw [← hfirst]
    refine ih ?_ fun q hq => hi q (List.mem_cons_of_mem _ hq)
    intro q hq
    rw [hlength]
    exact hinside q (List.mem_cons_of_mem _ hq)

theorem WireVersion.eq_of_byte {V W : WireVersion} (h : V.byte = W.byte) : V = W := by
  cases V
  cases W
  cases h
  rfl

section Damaged

variable {V : WireVersion} (arrival : Arrival V)

/-- Magic and length arrive as they were sent. -/
theorem Arrival.byteAt_framing {i : ℕ} (hi : i ∈ framing) :
    byteAt (flipBits arrival.sent arrival.flipped) i = byteAt arrival.sent i := by
  by_cases hintact : arrival.flipped = []
  · rw [hintact]
    rfl
  · obtain ⟨hpattern, hframing⟩ := arrival.pattern hintact
    refine byteAt_flipBits hpattern.inside ?_
    rintro p hp rfl
    exact hframing p hp hi

/-- What arrives starts with the magic and is as long as its length field says. -/
theorem Arrival.starts (x : List UInt8) :
    StartsMagic (flipBits arrival.sent arrival.flipped ++ x) ∧
      12 + declaredLength (flipBits arrival.sent arrival.flipped ++ x) = arrival.sent.length := by
  obtain ⟨hcandidate, _, _⟩ := scanStep_frame (arrival.encoded.scanned [])
  have hlen := arrival.encoded.length_bytes
  have hdeclared := arrival.encoded.declared []
  have hsize := length_flipBits arrival.sent arrival.flipped
  rw [List.append_nil] at hcandidate hdeclared
  rw [declaredLength_eq] at hdeclared
  refine ⟨⟨?_, ?_, ?_⟩, ?_⟩
  · rw [List.length_append]
    omega
  · rw [byteAt_append_left _ _ (by omega), arrival.byteAt_framing (by decide),
      hcandidate.magic.first]
  · rw [byteAt_append_left _ _ (by omega), arrival.byteAt_framing (by decide),
      hcandidate.magic.second]
  · rw [declaredLength_eq, byteAt_append_left _ _ (by omega), byteAt_append_left _ _ (by omega),
      arrival.byteAt_framing (by decide), arrival.byteAt_framing (by decide), hdeclared]

theorem Arrival.readable_iff :
    arrival.readable = true ↔ arrival.flipped = [] ∧ arrival.sender.byte = V.byte := by
  rw [readable, Bool.and_eq_true, List.isEmpty_iff, beq_iff_eq]

/-- **A frame that is damaged or of another version is rejected at its first byte**, for its
    version or for its checksum. -/
theorem Arrival.rejected (hbad : arrival.readable = false) (x : List UInt8) :
    scanStep V (flipBits arrival.sent arrival.flipped ++ x) = some (arrival.event, 1) := by
  obtain ⟨hmagic, hdeclared⟩ := arrival.starts x
  have hlen := arrival.encoded.length_bytes
  have hdata := arrival.encoded.length_data_le
  have hsize := length_flipBits arrival.sent arrival.flipped
  have h2 : byteAt (flipBits arrival.sent arrival.flipped ++ x) 2 =
      byteAt (flipBits arrival.sent arrival.flipped) 2 := byteAt_append_left _ _ (by omega)
  unfold event
  rw [hbad, if_neg Bool.false_ne_true]
  by_cases hversion : byteAt (flipBits arrival.sent arrival.flipped) 2 = V.byte
  swap
  · rw [if_pos (by simpa [otherVersion] using hversion)]
    exact scanStep_version hmagic (by rw [List.length_append]; omega) (by rwa [h2])
  rw [if_neg (by simpa [otherVersion] using hversion)]
  have hflipped : arrival.flipped ≠ [] := by
    intro hnil
    rw [hnil] at hversion
    have hsender : byteAt arrival.sent 2 = arrival.sender.byte := by
      obtain ⟨hcandidate, _, _⟩ := scanStep_frame (arrival.encoded.scanned [])
      rw [← hcandidate.version, List.append_nil]
    have hreadable := arrival.readable_iff.mpr ⟨hnil, hsender.symm.trans hversion⟩
    rw [hbad] at hreadable
    cases hreadable
  -- the header is in order, so the whole frame is looked at, and its checksum is wrong
  rw [scanStep_closed ⟨hmagic, by rw [List.length_append]; omega, by rw [h2, hversion], by omega⟩
    (by rw [List.length_append]; omega), hdeclared, List.take_left' hsize]
  cases hparse : parseFrame V (flipBits arrival.sent arrival.flipped) with
  | error result => rfl
  | ok frame =>
    exact absurd (checksumHolds_of_parseFrame hparse)
      ((arrival.pattern hflipped).1.not_checksumHolds arrival.encoded)

end Damaged

/-! ### The whole stream -/

/-- Nothing follows, or a frame does. -/
def FrameOrEnd (w : List UInt8) : Prop := w = [] ∨ StartsMagic w

/-- The end of a stream that the decoder waits on. -/
def Settled (w : List UInt8) : Prop := w = [] ∨ w = [magic0]

theorem Settled.scanStep {w : List UInt8} (h : Settled w) (V : WireVersion) :
    scanStep V w = none := by
  rcases h with rfl | rfl
  · exact scanStep_nil
  · exact scanStep_lone

/-- The decisions of a run that are not noise. -/
def findings (pieces : List (ScanEvent × List UInt8)) : List ScanEvent :=
  (pieces.map Prod.fst).filter (· ≠ .noise)

theorem findings_append (p q : List (ScanEvent × List UInt8)) :
    findings (p ++ q) = findings p ++ findings q := by
  unfold findings
  rw [List.map_append, List.filter_append]

/-- **Noise is skipped** up to the next frame; at the end of the stream an `'O'` may stay. -/
theorem run_junk (V : WireVersion) {junk rest : List UInt8}
    (h : ¬ [magic0, magic1] <:+: junk) (hrest : FrameOrEnd rest) :
    ∃ pieces left, Run (frameScanner V) (junk ++ rest) pieces left ∧ findings pieces = [] ∧
      (left = rest ∨ rest = [] ∧ left = [magic0]) := by
  induction junk with
  | nil => exact ⟨[], rest, .nil rest, rfl, .inl rfl⟩
  | cons b junk ih =>
    obtain ⟨pieces, left, hrun, hnone, hleft⟩ :=
      ih fun hmagic => h (hmagic.trans (List.suffix_cons b junk).isInfix)
    have hskip : NotMagic (b :: (junk ++ rest)) →
        ∃ pieces left, Run (frameScanner V) (b :: (junk ++ rest)) pieces left ∧
          findings pieces = [] ∧ (left = rest ∨ rest = [] ∧ left = [magic0]) := by
      intro hnoise
      exact ⟨(.noise, [b]) :: pieces, left, .cons (k := 1) (scanStep_noise hnoise) hrun, hnone,
        hleft⟩
    rw [List.cons_append]
    by_cases hb : b = magic0
    swap
    · exact hskip (.inl ⟨by simp, hb⟩)
    -- an `'O'` is noise if it is not the last byte, since no `'W'` follows
    subst hb
    cases junk with
    | cons c junk =>
      refine hskip (.inr ⟨by simp, ?_⟩)
      rintro rfl
      exact h ⟨[], junk, rfl⟩
    | nil =>
      rcases hrest with rfl | hmagic
      · exact ⟨[], [magic0], .nil _, rfl, .inr ⟨rfl, rfl⟩⟩
      · refine hskip (.inr ⟨by simpa using Nat.le_of_succ_le hmagic.length, ?_⟩)
        show byteAt rest 0 ≠ magic1
        rw [hmagic.first]
        decide

section Stream

variable {V : WireVersion}

/-- What arrives of a list of frames. -/
def receivedAll (arrivals : List (Arrival V)) : List UInt8 := arrivals.flatMap Arrival.received

theorem frameOrEnd_receivedAll (arrivals : List (Arrival V)) :
    FrameOrEnd (receivedAll arrivals) := by
  cases arrivals with
  | nil => exact .inl rfl
  | cons arrival arrivals =>
    right
    unfold receivedAll Arrival.received
    rw [List.flatMap_cons, List.append_assoc]
    exact (arrival.starts _).1

/-- **One frame as it arrives**: a single finding, and the scanner stands behind it and its
    noise. -/
theorem Arrival.run (arrival : Arrival V) {rest : List UInt8} (hrest : FrameOrEnd rest) :
    ∃ pieces left, Run (frameScanner V) (arrival.received ++ rest) pieces left ∧
      findings pieces = [arrival.event] ∧ (left = rest ∨ rest = [] ∧ left = [magic0]) := by
  have hjunk := arrival.no_magic
  unfold Arrival.received
  rw [List.append_assoc]
  by_cases hreadable : arrival.flipped = [] ∧ arrival.sender.byte = V.byte
  · -- the frame is found, and the noise behind it skipped
    rw [if_pos hreadable] at hjunk
    obtain ⟨pieces, left, hrun, hnone, hleft⟩ := run_junk V hjunk hrest
    have hevent : arrival.event = .frame arrival.frame := by
      rw [event, arrival.readable_iff.mpr hreadable]
      rfl
    have hencoded := arrival.encoded
    rw [WireVersion.eq_of_byte hreadable.2] at hencoded
    have hone := Run.one (S := frameScanner V) (hencoded.scanned (arrival.noise ++ rest))
    rw [List.take_left, List.drop_left] at hone
    rw [hreadable.1]
    refine ⟨_, left, hone.trans hrun, ?_, hleft⟩
    rw [findings_append, hnone, List.append_nil, hevent]
    rfl
  · -- the first byte is rejected, and what follows is noise
    rw [if_neg hreadable] at hjunk
    obtain ⟨pieces, left, hrun, hnone, hleft⟩ := run_junk V hjunk hrest
    have hbad : arrival.readable = false :=
      Bool.eq_false_iff.mpr fun h => hreadable (arrival.readable_iff.mp h)
    have hlen := arrival.encoded.length_bytes
    have hsize := length_flipBits arrival.sent arrival.flipped
    have hone := Run.one (S := frameScanner V) (arrival.rejected hbad (arrival.noise ++ rest))
    rw [List.drop_append_of_le_length (by omega)] at hone
    rw [List.append_assoc] at hrun
    refine ⟨_, left, hone.trans hrun, ?_, hleft⟩
    have hnoise : arrival.event ≠ .noise := by
      unfold event
      rw [hbad, if_neg Bool.false_ne_true]
      split <;> exact nofun
    rw [findings_append, hnone, List.append_nil]
    exact List.filter_cons_of_pos (by simpa using hnoise)

/-- **The stream**: the findings are those of its frames, in order. -/
theorem run_receivedAll (arrivals : List (Arrival V)) :
    ∃ pieces left, Run (frameScanner V) (receivedAll arrivals) pieces left ∧
      findings pieces = arrivals.map Arrival.event ∧ Settled left := by
  induction arrivals with
  | nil => exact ⟨[], [], .nil [], rfl, .inl rfl⟩
  | cons arrival arrivals ih =>
    obtain ⟨first, left, hfirst, hevent, hleft⟩ :=
      arrival.run (frameOrEnd_receivedAll arrivals)
    obtain ⟨pieces, last, hrun, hevents, hsettled⟩ := ih
    have hcons : receivedAll (arrival :: arrivals) = arrival.received ++ receivedAll arrivals :=
      List.flatMap_cons
    rw [hcons, List.map_cons, ← hevents]
    rcases hleft with rfl | ⟨hend, rfl⟩
    · refine ⟨first ++ pieces, last, hfirst.trans hrun, ?_, hsettled⟩
      rw [findings_append, hevent]
      rfl
    · -- nothing follows, so the rest has no findings either
      rw [hend] at hrun
      obtain ⟨rfl, _⟩ := hrun.eq_nil_of_settled (scanStep_nil (V := V))
      exact ⟨first, [magic0], hfirst, by rw [hevent]; rfl, .inr rfl⟩

/-- A single byte makes no finding. -/
theorem findings_of_short {w left : List UInt8} {pieces : List (ScanEvent × List UInt8)}
    (h : Run (frameScanner V) w pieces left) (hshort : w.length ≤ 1) : findings pieces = [] := by
  cases h with
  | nil => rfl
  | cons hstep hrest =>
    rcases scanStep_magic hstep with ⟨rfl, rfl, _⟩ | ⟨_, hmagic⟩
    · have hnil := List.drop_eq_nil_of_le hshort
      rw [hnil] at hrest
      obtain ⟨rfl, _⟩ := hrest.eq_nil_of_settled (scanStep_nil (V := V))
      rfl
    · have := hmagic.length
      omega

/-- The stream behind some noise: the noise adds nothing, and the scanner reads all of it. -/
theorem run_junk_receivedAll {junk : List UInt8} (hjunk : ¬ [magic0, magic1] <:+: junk)
    (arrivals : List (Arrival V)) :
    ∃ pieces last, Run (frameScanner V) (junk ++ receivedAll arrivals) pieces last ∧
      findings pieces = arrivals.map Arrival.event ∧ Settled last := by
  obtain ⟨pieces, last, hrun, hevents, hsettled⟩ := run_receivedAll arrivals
  obtain ⟨before, left, hbefore, hnone, hleft⟩ :=
    run_junk V hjunk (frameOrEnd_receivedAll arrivals)
  rw [← hevents]
  rcases hleft with rfl | ⟨hend, rfl⟩
  · refine ⟨before ++ pieces, last, hbefore.trans hrun, ?_, hsettled⟩
    rw [findings_append, hnone, List.nil_append]
  · rw [hend] at hrun
    obtain ⟨rfl, _⟩ := hrun.eq_nil_of_settled (scanStep_nil (V := V))
    exact ⟨before, [magic0], hbefore, hnone, .inr rfl⟩

/-- A decoder that has read up to the last byte has found what there is to find, and has kept at
    most one byte. -/
theorem findings_of_quiet {w left last : List UInt8} {pieces all : List (ScanEvent × List UInt8)}
    (h : Run (frameScanner V) w pieces left) (hquiet : Quiet V left)
    (hall : Run (frameScanner V) w all last) (hsettled : Settled last) :
    findings pieces = findings all ∧ left.length ≤ 1 := by
  obtain ⟨rest, rfl, hrest⟩ := h.prefix_of_settled hall (hsettled.scanStep V)
  rw [findings_append]
  rcases hquiet with hquiet | hquiet
  · obtain ⟨rfl, rfl⟩ := hrest.eq_nil_of_settled hquiet
    refine ⟨(List.append_nil _).symm, ?_⟩
    rcases hsettled with rfl | rfl
    · exact Nat.zero_le _
    · exact Nat.le_refl _
  · rw [findings_of_short hrest hquiet.le, List.append_nil]
    exact ⟨rfl, hquiet.le⟩

/-- **What the decoder finds** in a stream of arrivals, however it is cut into calls. -/
theorem findings_arrivals {lead : List UInt8} (hlead : ¬ [magic0, magic1] <:+: lead)
    (arrivals : List (Arrival V)) {epoch : Epoch V}
    (hbytes : epoch.bytes = lead ++ receivedAll arrivals) :
    findings epoch.pieces = arrivals.map Arrival.event := by
  obtain ⟨all, last, hall, hevents, hsettled⟩ := run_junk_receivedAll hlead arrivals
  rw [← hbytes] at hall
  rw [← hevents]
  exact (findings_of_quiet epoch.run epoch.quiet hall hsettled).1

/-- Counting what is not noise. -/
theorem countP_findings (pieces : List (ScanEvent × List UInt8)) {counts : ScanEvent → Bool}
    (hnoise : counts .noise = false) :
    (pieces.countP fun piece => counts piece.1) = (findings pieces).countP counts := by
  unfold findings
  rw [List.countP_filter, List.countP_map]
  apply List.countP_congr
  rintro ⟨event, bytes⟩ _
  cases event <;> simp [hnoise]

/-- The frames among the findings. -/
theorem frames_findings (pieces : List (ScanEvent × List UInt8)) :
    (pieces.filterMap fun piece => piece.1.frame?) =
      (findings pieces).filterMap ScanEvent.frame? := by
  induction pieces with
  | nil => rfl
  | cons piece pieces ih =>
    obtain ⟨event, bytes⟩ := piece
    have hcons : findings ((event, bytes) :: pieces) =
        (if event ≠ .noise then [event] else []) ++ findings pieces := by
      by_cases hnoise : event = .noise <;> simp [findings, hnoise]
    rw [hcons, List.filterMap_append, ← ih, List.filterMap_cons]
    cases event <;> rfl

/-- The frame of an arrival is found exactly if it is readable. -/
theorem filterMap_event (arrivals : List (Arrival V)) :
    (arrivals.map Arrival.event).filterMap ScanEvent.frame? =
      (arrivals.filter Arrival.readable).map Arrival.frame := by
  induction arrivals with
  | nil => rfl
  | cons arrival arrivals ih =>
    rw [List.map_cons, List.filterMap_cons, ih, List.filter_cons]
    unfold Arrival.event
    cases arrival.readable with
    | true => rfl
    | false => cases arrival.otherVersion <;> rfl

/-- Which finding an arrival is. -/
theorem Arrival.event_kind (arrival : Arrival V) :
    arrival.event.isFrame = arrival.readable ∧
      (arrival.event == .versionError) = (!arrival.readable && arrival.otherVersion) ∧
      (arrival.event == .crcError) = (!arrival.readable && !arrival.otherVersion) ∧
      (arrival.event == .lengthError) = false := by
  unfold event
  cases arrival.readable with
  | true => exact ⟨rfl, rfl, rfl, rfl⟩
  | false => cases arrival.otherVersion <;> exact ⟨rfl, rfl, rfl, rfl⟩

end Stream

/-- **Damage is confined to the damaged frames.** Of a stream of encoded frames with noise between
    them, of which some arrive damaged and some come from senders of other wire versions, within
    what an `Arrival` allows, exactly the intact ones of the decoder's version are delivered, in
    order, however the stream is cut into calls; every other one is counted once, as a version
    error or as a checksum error by the version byte that arrives, and nothing as a length error. -/
theorem damage_confined (V : WireVersion) (lead : List UInt8)
    (hlead : ¬ [magic0, magic1] <:+: lead) (arrivals : List (Arrival V)) (ops : List StreamOp)
    (hops : StreamOp.resetIncomplete ∉ ops) (hfed : fedBytes ops = lead ++ receivedAll arrivals) :
    let run := decoderRun V ops
    run.context = (arrivals.filter Arrival.readable).map Arrival.frame ∧
      run.emitted = arrivals.countP Arrival.readable ∧
      run.decoder.stats.frames = UInt32.ofNat (arrivals.countP Arrival.readable) ∧
      run.decoder.stats.versionErrors = UInt32.ofNat
        (arrivals.countP fun arrival => !arrival.readable && arrival.otherVersion) ∧
      run.decoder.stats.crcErrors = UInt32.ofNat
        (arrivals.countP fun arrival => !arrival.readable && !arrival.otherVersion) ∧
      run.decoder.stats.lengthErrors = 0 := by
  obtain ⟨now, hbytes, hacc, hsegments⟩ := run_of_no_reset V hops
  rw [hfed] at hbytes
  have hfound := findings_arrivals hlead arrivals hbytes
  have hframes : segmentFrames (runSegments V ops) =
      (arrivals.filter Arrival.readable).map Arrival.frame := by
    rw [hsegments, Epoch.segments, segmentFrames_ofPieces, frames_findings, hfound,
      filterMap_event]
  -- every counter counts the findings of its kind
  have hcounter : ∀ (counter : DecoderStats → UInt32) (counts : ScanEvent → Bool),
      (∀ stats event,
        counter (stats.record event) = counter stats + UInt32.ofNat (counts event).toNat) →
      (∀ stats count, counter (stats.gap count) = counter stats) → counter .zero = 0 →
      counts .noise = false →
      counter (opsTrace V streamDecoderInit ops).1.stats =
        UInt32.ofNat (arrivals.countP fun arrival => counts arrival.event) := by
    intro counter counts hrecord hgap hzero hnoise
    rw [hacc.counter counter counts hrecord hgap, hzero, UInt32.zero_add]
    simp only [List.nil_append, List.flatMap_cons, List.flatMap_nil, List.append_nil]
    rw [countP_findings _ hnoise, hfound, List.countP_map]
    rfl
  have hkind := fun arrival : Arrival V => arrival.event_kind
  rw [decoderRun_eq]
  refine ⟨hframes, ?_, ?_, ?_, ?_, ?_⟩
  · show (segmentFrames (runSegments V ops)).length = _
    rw [hframes, List.length_map, List.countP_eq_length_filter]
  · rw [hcounter _ _ frames_record frames_gap rfl rfl]
    simp only [hkind]
  · rw [hcounter _ _ versionErrors_record versionErrors_gap rfl rfl]
    simp only [hkind]
  · rw [hcounter _ _ crcErrors_record crcErrors_gap rfl rfl]
    simp only [hkind]
  · rw [hcounter _ _ lengthErrors_record lengthErrors_gap rfl rfl]
    simp only [hkind]
    simp

/-- An identify request with a flipped flag bit, one of the next wire version, and an intact one. -/
theorem damage_confined_request :
    (decoderRun wireVersion1 [.feed (.bytes ([0x00, 0x4f] ++
        (flipBits (frameBytes wireVersion1 4 [] 7 0) [24] ++ [] ++
          (flipBits (frameBytes ⟨2, by decide⟩ 4 [] 9 0) [] ++ [0x57] ++
            (flipBits (frameBytes wireVersion1 4 [] 8 0) [] ++ [0x4f])))))]).context =
      [frameOf wireVersion1 4 [] 8 0] := by
  have hencoded : ∀ (V : WireVersion) sequence, EncodesTo V 4 (.bytes []) sequence 0
      (frameBytes V 4 [] sequence 0) :=
    fun V sequence => encodesTo_iff.mpr ⟨.inl rfl, Nat.zero_le _, rfl⟩
  have hpattern : ErrorPattern (frameBytes wireVersion1 4 [] 7 0).length [24] := by
    rw [length_frameBytes]
    exact ⟨by decide, by decide, by decide, .inl (by decide)⟩
  have hconfined := damage_confined wireVersion1 [0x00, 0x4f] (by decide)
    [⟨wireVersion1, 4, .bytes [], 7, 0, _, hencoded _ 7, [24], [],
        fun _ => ⟨hpattern, by decide⟩, by decide +kernel⟩,
      ⟨⟨2, by decide⟩, 4, .bytes [], 9, 0, _, hencoded _ 9, [], [0x57],
        fun h => absurd rfl h, by decide +kernel⟩,
      ⟨wireVersion1, 4, .bytes [], 8, 0, _, hencoded _ 8, [], [0x4f],
        fun h => absurd rfl h, by decide +kernel⟩]
    [.feed (.bytes ([0x00, 0x4f] ++ (flipBits (frameBytes wireVersion1 4 [] 7 0) [24] ++ [] ++
      (flipBits (frameBytes ⟨2, by decide⟩ 4 [] 9 0) [] ++ [0x57] ++
        (flipBits (frameBytes wireVersion1 4 [] 8 0) [] ++ [0x4f])))))] (by simp)
    (by simp [fedBytes, receivedAll, Arrival.received])
  exact hconfined.1

end Oomwoo
