import Oomwoo.Protocol.Recovery
import Oomwoo.Protocol.Retained
import Oomwoo.Protocol.StaleBytes

namespace Oomwoo

open Bytes Scanning

/-!
# Filler bytes flush the decoder

A byte other than `'O'` cannot start a frame, so whatever is buffered, enough such bytes complete
or refute it and leave nothing behind: 523 do, since an `'O'` that was buffered last can open the
largest frame, and with a smaller number that frame may still be open, if the wire version is not
itself an `'O'` (`filler_flushes`).  A sender that does not know what the decoder holds can thus
bring it back to its start without a receive gap.
-/

variable {V : WireVersion} {decoder : StreamDecoder}

/-! ### Decoders that hold nothing -/

/-- An empty buffer is all there is to a new decoder. -/
theorem alike_init (h : decoder.Sized) (hempty : decoder.bufferedBytes = 0) :
    Alike decoder streamDecoderInit := by
  refine ⟨h, streamDecoderInit_sized, hempty, ?_⟩
  unfold StreamDecoder.live
  rw [hempty]
  rfl

theorem live_eq_nil_iff (h : decoder.Sized) : decoder.live = [] ↔ decoder.bufferedBytes = 0 := by
  rw [← decoder.length_live h, List.length_eq_zero_iff]

/-- **A frame that finds nothing buffered** leaves at once, and nothing stays behind. -/
theorem opsTrace_frame {before request : List StreamOp}
    (hempty : (opsTrace V streamDecoderInit before).1.bufferedBytes = 0)
    (hrequest : StreamOp.resetIncomplete ∉ request) {messageType sequence : UInt16}
    {payload : Span} {flags : UInt8} {bytes : List UInt8}
    (h : EncodesTo V messageType payload sequence flags bytes) (hfed : fedBytes request = bytes) :
    (opsTrace V (opsTrace V streamDecoderInit before).1 request).2 =
      [.delivered bytes (frameOf V messageType payload.data sequence flags)] := by
  have hnew := alike_init (quiet_opsTrace V before).1 hempty
  obtain ⟨_, hsame, _⟩ := sameStep_opsTrace V hnew (by rw [hempty]; decide) request
  have hclean := accounts_noisyStream
    [(⟨[], messageType, payload, sequence, flags, bytes, by decide, h⟩ : NoisyFrame V)] hrequest
    (by simp [noisyStream, hfed])
  rw [hsame]
  exact hclean.1

/-! ### One call -/

/-- A byte that is not in a list does not stand in it. -/
theorem byteAt_ne_of_notMem {bytes : List UInt8} {b : UInt8} (h : b ∉ bytes) {i : Nat}
    (hi : i < bytes.length) : byteAt bytes i ≠ b := by
  intro heq
  apply h
  rw [← heq, byteAt, List.getD_eq_getElem?_getD, List.getElem?_eq_getElem hi]
  exact List.getElem_mem hi

/-- An `'O'` in front of filler stands before it. -/
theorem lt_of_magic {kept filler : List UInt8} (hfiller : magic0 ∉ filler) {p : Nat}
    (hp : p < (kept ++ filler).length) (hmagic : byteAt (kept ++ filler) p = magic0) :
    p < kept.length := by
  by_contra hlate
  rw [List.length_append] at hp
  rw [byteAt_append_right _ _ (by omega)] at hmagic
  exact byteAt_ne_of_notMem hfiller (by omega) hmagic

/-- A valid frame starts with `'O'`. -/
theorem ValidFrameAt.magic {B : List UInt8} {p : Nat} {frame : DecodedFrame}
    (h : ValidFrameAt V B p frame) : byteAt B p = magic0 := by
  have hfirst := (scanStep_frame h.scanStep).1.magic.first
  rwa [byteAt_drop, Nat.add_zero] at hfirst

/-- Filler strands no byte: the candidate that its last byte would complete is too far back. -/
theorem not_strands_of_filler {kept filler : List UInt8} (hfiller : magic0 ∉ filler)
    (hlong : 523 ≤ filler.length ∨ kept = []) : ¬ Strands V (kept ++ filler) := by
  intro hstrands
  obtain ⟨p, frame, hvalid, _, _, q, hq, _, hcandidate, hend⟩ := hstrands.inner
  have hsize := hcandidate.declared
  have hp : p < kept.length := by
    apply lt_of_magic hfiller _ hvalid.magic
    have := hvalid.length_le
    omega
  rw [List.length_append] at hend
  rcases hlong with hlong | rfl
  · omega
  · cases hp

/-- **One call with filler** leaves nothing buffered, if it is long enough or finds nothing. -/
theorem live_bytesTrace_filler (h : decoder.Sized) (hquiet : Quiet V decoder.live)
    {filler : List UInt8} (hfiller : magic0 ∉ filler) (hne : filler ≠ [])
    (hlong : 523 ≤ filler.length ∨ decoder.live = []) :
    (bytesTrace V decoder filler).1.live = [] := by
  obtain ⟨⟨pieces, hdecodes⟩, hquiet'⟩ := bytesTrace_spec V h hquiet filler
  have hundecided := (undecided_feed_iff V h (.nil _) hquiet hne).mpr
    (not_strands_of_filler hfiller hlong)
  have hflatten := hdecodes.run.flatten
  have hlength := hdecodes.run.length_add
  have hshort := hquiet'.length_lt
  simp only [maxFrameSize, headerSize, maxPayloadSize, crcSize] at hshort
  by_contra hleft
  -- what is left starts with an `'O'`, which was there before the filler
  have hfirst := hundecided.first hleft
  have hpos := List.length_pos_of_ne_nil hleft
  have hplace : byteAt (decoder.live ++ filler) (consumed pieces).length = magic0 := by
    rw [← hflatten, byteAt_append_right _ _ (Nat.le_refl _), Nat.sub_self, hfirst]
  have hbefore := lt_of_magic hfiller (by omega) hplace
  rw [List.length_append] at hlength
  rcases hlong with hlong | hnil
  · omega
  · rw [hnil] at hbefore
    cases hbefore

/-! ### Any calls -/

theorem bytesTrace_append (V : WireVersion) (decoder : StreamDecoder) (a b : List UInt8) :
    bytesTrace V decoder (a ++ b) =
      ((bytesTrace V (bytesTrace V decoder a).1 b).1,
        (bytesTrace V decoder a).2 ++ (bytesTrace V (bytesTrace V decoder a).1 b).2) := by
  induction a generalizing decoder with
  | nil => rfl
  | cons byte a ih => simp [bytesTrace, ih]

/-- Without a reset only the fed bytes matter, not how they are cut into calls. -/
theorem opsTrace_of_no_reset (V : WireVersion) (decoder : StreamDecoder) {ops : List StreamOp}
    (h : StreamOp.resetIncomplete ∉ ops) :
    opsTrace V decoder ops = bytesTrace V decoder (fedBytes ops) := by
  induction ops generalizing decoder with
  | nil => rfl
  | cons op ops ih =>
    cases op with
    | resetIncomplete => exact absurd List.mem_cons_self h
    | feed data =>
      rw [opsTrace, ih _ fun hmem => h (List.mem_cons_of_mem _ hmem)]
      show _ = bytesTrace V decoder (data.data ++ fedBytes ops)
      rw [bytesTrace_append]
      rfl

/-- Calls without a byte hand over nothing. -/
theorem segmentFrames_of_no_bytes (V : WireVersion) (decoder : StreamDecoder)
    {ops : List StreamOp} (h : fedBytes ops = []) :
    segmentFrames (opsTrace V decoder ops).2 = [] := by
  induction ops generalizing decoder with
  | nil => rfl
  | cons op ops ih =>
    rw [opsTrace, segmentFrames_append]
    cases op with
    | resetIncomplete =>
      rw [ih _ h, List.append_nil]
      exact segmentFrames_gapSegments decoder.live
    | feed data =>
      replace h : data.data ++ fedBytes ops = [] := h
      obtain ⟨hdata, hrest⟩ := List.append_eq_nil_iff.mp h
      rw [ih _ hrest, List.append_nil, opTrace, hdata]
      rfl

/-- Calls with filler that find nothing leave nothing. -/
theorem live_opsTrace_of_empty (V : WireVersion) (h : decoder.Sized) (hempty : decoder.live = [])
    {ops : List StreamOp} (hfiller : magic0 ∉ fedBytes ops) :
    (opsTrace V decoder ops).1.live = [] := by
  induction ops generalizing decoder with
  | nil => exact hempty
  | cons op ops ih =>
    have hquiet : Quiet V decoder.live := .inl (by rw [hempty, scanStep_nil])
    cases op with
    | resetIncomplete =>
      obtain ⟨hsized, hlive⟩ := streamDecoderResetIncomplete_spec h
      exact ih hsized hlive hfiller
    | feed data =>
      have hfed : fedBytes (.feed data :: ops) = data.data ++ fedBytes ops := rfl
      rw [hfed, List.mem_append, not_or] at hfiller
      obtain ⟨⟨_, hdecodes⟩, _⟩ := bytesTrace_spec V h hquiet data.data
      refine ih hdecodes.sized ?_ hfiller.2
      by_cases hne : data.data = []
      · rw [opTrace, hne]
        exact hempty
      · exact live_bytesTrace_filler h hquiet hfiller.1 hne (.inr hempty)

/-- **Enough filler leaves nothing**, after any calls, in any calls and with resets anywhere between
    them. -/
theorem live_opsTrace_filler (V : WireVersion) (before : List StreamOp) {filler : List StreamOp}
    (hfiller : magic0 ∉ fedBytes filler) (hlong : 523 ≤ (fedBytes filler).length) :
    (opsTrace V streamDecoderInit (before ++ filler)).1.live = [] := by
  by_cases hreset : StreamOp.resetIncomplete ∈ filler
  · -- a reset leaves nothing, and the filler behind it neither
    obtain ⟨a, b, rfl⟩ := List.append_of_mem hreset
    have hrest : magic0 ∉ fedBytes b := by
      intro hmem
      apply hfiller
      rw [fedBytes_append]
      exact List.mem_append_right _ hmem
    obtain ⟨hsized, hlive⟩ := streamDecoderResetIncomplete_spec (quiet_opsTrace V (before ++ a)).1
    rw [← List.append_assoc, opsTrace_append]
    exact live_opsTrace_of_empty V hsized hlive hrest
  · obtain ⟨hsized, hquiet⟩ := quiet_opsTrace V before
    rw [opsTrace_append, opsTrace_of_no_reset V _ hreset]
    refine live_bytesTrace_filler hsized hquiet hfiller ?_ (.inl hlong)
    rintro hnil
    rw [hnil] at hlong
    cases hlong

/-- No frame that is delivered starts in filler. -/
theorem start_lt_of_filler {before filler : List StreamOp} (hfiller : magic0 ∉ fedBytes filler)
    {d : Delivery} (h : d ∈ deliveries 0 (runSegments V (before ++ filler))) :
    d.start < (fedBytes before).length := by
  have hdecode := decodeFrame_of_mem_deliveries h
  rw [decodeFrame_ok_iff] at hdecode
  obtain ⟨hlen, hmagic, _⟩ := (parseFrame_ok_iff V _ _).mp hdecode
  rw [List.length_take, List.length_drop] at hlen
  rw [byteAt_take _ (by omega), byteAt_drop, Nat.add_zero] at hmagic
  rw [fedBytes_append] at hlen hmagic
  exact lt_of_magic hfiller (by omega) hmagic

/-- The header of a largest frame and 513 bytes behind it: one byte is missing. -/
theorem scanStep_largest (V : WireVersion) {rest : List UInt8} (hrest : rest.length = 513) :
    scanStep V (frameHeader V 0 0 0 512 ++ rest) = none := by
  obtain ⟨h0, h1, h2, _, _, _, hn⟩ := frameHeader_fields V 0 0 0 rest (Nat.le_refl 512)
  rw [← declaredLength] at hn
  have hlen : (frameHeader V 0 0 0 512 ++ rest).length = 523 := by
    rw [List.length_append, length_frameHeader, hrest]
  exact scanStep_open ⟨⟨by omega, h0, h1⟩, by omega, h2, by omega⟩ (by omega)

/-- Nothing is decided on bytes that the scanner waits on. -/
theorem live_of_scanStep_none {ops : List StreamOp} (hops : StreamOp.resetIncomplete ∉ ops)
    (hwait : scanStep V (fedBytes ops) = none) :
    (opsTrace V streamDecoderInit ops).1.live = fedBytes ops := by
  obtain ⟨now, hbytes, hacc, _⟩ := run_of_no_reset V hops
  rw [← hbytes] at hwait ⊢
  rw [hacc.live_eq]
  exact (now.run.eq_nil_of_settled hwait).2

/-- **Filler bytes bring the decoder back to its start.** After any calls, 523 bytes without an
    `'O'`, however they are cut into calls and with resets anywhere between them, leave nothing
    buffered; every later input is then decoded as by a newly initialised decoder, and no frame
    delivered starts in the filler.  For every wire version other than `'O'` a byte less is not
    enough. -/
theorem filler_flushes (V : WireVersion) :
    (∀ before filler : List StreamOp, magic0 ∉ fedBytes filler →
      523 ≤ (fedBytes filler).length →
        (decoderRun V (before ++ filler)).decoder.bufferedBytes = 0 ∧
          SameOutcome V (decoderRun V (before ++ filler)).decoder streamDecoderInit ∧
          ∀ d ∈ deliveries 0 (runSegments V (before ++ filler)),
            d.start < (fedBytes before).length) ∧
      (V.byte ≠ magic0 → ∃ before filler : List StreamOp, magic0 ∉ fedBytes filler ∧
        (fedBytes filler).length = 522 ∧
        (decoderRun V (before ++ filler)).decoder.bufferedBytes = 523) := by
  constructor
  · intro before filler hfiller hlong
    have hsized := (quiet_opsTrace V (before ++ filler)).1
    have hempty := (live_eq_nil_iff hsized).mp (live_opsTrace_filler V before hfiller hlong)
    rw [decoderRun_eq]
    exact ⟨hempty, (alike_init hsized hempty).sameOutcome V (by rw [hempty]; decide),
      fun d hd => start_lt_of_filler hfiller hd⟩
  · intro hversion
    obtain ⟨rest, hrest, hfiller⟩ : ∃ rest : List UInt8, rest.length = 513 ∧ magic0 ∉ rest :=
      ⟨List.replicate 513 0, List.length_replicate, fun h => by cases List.eq_of_mem_replicate h⟩
    -- an `'O'` first, and the rest of the largest frame but one byte
    have hfed : fedBytes ([.feed (.bytes [magic0])] ++
        [.feed (.bytes ((frameHeader V 0 0 0 512).drop 1 ++ rest))]) =
          frameHeader V 0 0 0 512 ++ rest := by
      simp [fedBytes, frameHeader]
    refine ⟨[.feed (.bytes [magic0])],
      [.feed (.bytes ((frameHeader V 0 0 0 512).drop 1 ++ rest))], ?_, ?_, ?_⟩
    · intro hmem
      simp [fedBytes, frameHeader, magic0, magic1, leBytes] at hmem
      exact hmem.elim (fun h => hversion h.symm) hfiller
    · simp [fedBytes, hrest]
    · rw [decoderRun_eq]
      show (opsTrace V streamDecoderInit _).1.bufferedBytes = 523
      rw [← StreamDecoder.length_live (quiet_opsTrace V _).1,
        live_of_scanStep_none (by simp) (by rw [hfed]; exact scanStep_largest V hrest), hfed,
        List.length_append, length_frameHeader, hrest]

end Oomwoo
