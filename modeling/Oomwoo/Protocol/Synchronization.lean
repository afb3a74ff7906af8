import Oomwoo.Protocol.Confinement
import Oomwoo.Protocol.Flush

namespace Oomwoo

open Bytes Scanning

/-!
# Traffic brings the decoder back into step

Whatever the decoder has been fed, it may hold the start of something that looks like a frame, and
take the traffic that follows for the rest of it.  That cannot last: what it holds ends at most 523
bytes into the traffic, and from there on the decoder finds what was sent.  So of frames that carry
no magic behind their first byte, intact ones and ones damaged in ways that the checksum shows and
that leave magic and length alone, only intact ones that start in the first 523 bytes are lost
(`traffic_synchronizes`).
-/

variable {V : WireVersion}

/-- No magic appears behind the first byte, in the frame or in the noise behind it. -/
def Arrival.Plain (arrival : Arrival V) : Prop :=
  ¬ [magic0, magic1] <:+: arrival.received.drop 1

/-- Where an arrival starts in the stream. -/
def startOf (lead : List UInt8) (arrivals : List (Arrival V)) (i : ℕ) : ℕ :=
  (lead ++ receivedAll (arrivals.take i)).length

/-! ### The stream from some place on -/

theorem Arrival.received_ne_nil (arrival : Arrival V) : arrival.received ≠ [] := by
  intro hnil
  have hlength := congrArg List.length hnil
  have hsent := arrival.encoded.length_bytes
  rw [received, List.length_append, length_flipBits, List.length_nil] at hlength
  omega

/-- **From any place on, plain traffic is noise and then frames**: the rest of the frame or of the
    noise at that place, and all the frames that start later. -/
theorem exists_suffix {lead : List UInt8} (hlead : ¬ [magic0, magic1] <:+: lead)
    {arrivals : List (Arrival V)} (hplain : ∀ arrival ∈ arrivals, arrival.Plain) {k : ℕ}
    (hk : k ≤ (lead ++ receivedAll arrivals).length) :
    ∃ junk lost, lost ≤ arrivals.length ∧
      (lead ++ receivedAll arrivals).drop k = junk ++ receivedAll (arrivals.drop lost) ∧
      ¬ [magic0, magic1] <:+: junk ∧ ∀ i < lost, startOf lead arrivals i < k := by
  induction arrivals generalizing lead k with
  | nil =>
    rw [receivedAll, List.flatMap_nil, List.append_nil] at hk ⊢
    refine ⟨lead.drop k, 0, Nat.le_refl _, by simp [receivedAll], ?_, by simp⟩
    exact fun hmagic => hlead (hmagic.trans (List.drop_suffix k lead).isInfix)
  | cons arrival arrivals ih =>
    by_cases hinside : k ≤ lead.length
    · refine ⟨lead.drop k, 0, Nat.zero_le _, List.drop_append_of_le_length hinside, ?_, by simp⟩
      exact fun hmagic => hlead (hmagic.trans (List.drop_suffix k lead).isInfix)
    · -- the place is behind the first byte of the arrival, whose rest is noise
      obtain ⟨b, rest, hreceived⟩ := List.exists_cons_of_ne_nil arrival.received_ne_nil
      have hcons : receivedAll (arrival :: arrivals) = b :: (rest ++ receivedAll arrivals) := by
        rw [receivedAll, List.flatMap_cons, hreceived, List.cons_append, receivedAll]
      have hrest : ¬ [magic0, magic1] <:+: rest := by
        have hfirst := hplain arrival List.mem_cons_self
        rwa [Arrival.Plain, hreceived, List.drop_one, List.tail_cons] at hfirst
      rw [hcons, List.length_append, List.length_cons] at hk
      obtain ⟨junk, lost, hlost, hdrop, hjunk, hstarts⟩ :=
        ih hrest (fun a ha => hplain a (List.mem_cons_of_mem _ ha))
          (k := k - lead.length - 1) (by omega)
      refine ⟨junk, lost + 1, Nat.succ_le_succ hlost, ?_, hjunk, ?_⟩
      · rw [hcons, List.drop_append, List.drop_eq_nil_of_le (by omega), List.nil_append,
          List.drop_succ_cons, ← hdrop]
        obtain ⟨n, hn⟩ : ∃ n, k - lead.length = n + 1 := ⟨k - lead.length - 1, by omega⟩
        rw [hn, List.drop_succ_cons, Nat.add_sub_cancel]
      · intro i hi
        cases i with
        | zero =>
          rw [startOf, List.take_zero, receivedAll, List.flatMap_nil, List.append_nil]
          omega
        | succ i =>
          have hstart := hstarts i (by omega)
          have hlength : arrival.received.length = rest.length + 1 := by
            rw [hreceived, List.length_cons]
          rw [startOf, List.length_append] at hstart ⊢
          rw [List.take_succ_cons, receivedAll, List.flatMap_cons, List.length_append, hlength,
            ← receivedAll]
          omega

/-! ### Where a run delivers -/

/-- No step of the scanner is longer than a frame. -/
theorem scanStep_le {w : List UInt8} {e : ScanEvent} {k : ℕ} (h : scanStep V w = some (e, k)) :
    k ≤ 524 := by
  rcases scanStep_cases h with ⟨_, rfl, _⟩ | ⟨_, rfl, _⟩ | ⟨_, rfl, _⟩ | ⟨_, rfl, _⟩ |
    ⟨_, _, rfl, hcandidate, _⟩
  · decide
  · decide
  · decide
  · decide
  · have := hcandidate.declared
    omega

/-- A delivery starts behind the pieces before it. -/
theorem start_of_mem_deliveries {q : ℕ} {pieces : List (ScanEvent × List UInt8)} {d : Delivery}
    (h : d ∈ deliveries q (pieces.map Segment.ofPiece)) :
    ∃ a piece b, pieces = a ++ piece :: b ∧ d.start = q + (consumed a).length := by
  induction pieces generalizing q with
  | nil => cases h
  | cons piece pieces ih =>
    have hlater : d ∈ deliveries (q + piece.2.length) (pieces.map Segment.ofPiece) →
        ∃ a p b, piece :: pieces = a ++ p :: b ∧ d.start = q + (consumed a).length := by
      intro hd
      obtain ⟨a, p, b, rfl, hstart⟩ := ih hd
      refine ⟨piece :: a, p, b, rfl, ?_⟩
      rw [hstart, consumed_cons, List.length_append, Nat.add_assoc]
    have hbytes := bytes_ofPiece piece
    rw [List.map_cons] at h
    cases hsegment : Segment.ofPiece piece with
    | discarded bytes =>
      rw [hsegment] at h hbytes
      exact hlater (hbytes ▸ h)
    | delivered bytes frame =>
      rw [hsegment] at h hbytes
      rcases List.mem_cons.mp h with rfl | h
      · exact ⟨[], piece, pieces, rfl, rfl⟩
      · exact hlater (hbytes ▸ h)

/-- No delivery is empty. -/
theorem length_pos_of_mem_runSegments {ops : List StreamOp} {d : Delivery}
    (h : d ∈ deliveries 0 (runSegments V ops)) : 0 < d.length := by
  have hparse := (decodeFrame_ok_iff _ _ _ _).mp (decodeFrame_of_mem_deliveries h)
  have hlength := (length_of_parseFrame hparse).1
  rw [List.length_take] at hlength
  omega

/-- Deliveries of segments behind a place start behind it. -/
theorem filter_deliveries_of_le {p q : ℕ} (h : q ≤ p) (segments : List Segment) :
    (deliveries p segments).filter (fun d => q ≤ d.start) = deliveries p segments := by
  rw [List.filter_eq_self]
  intro d hd
  have hstart := (deliveries_bounds hd).1
  exact decide_eq_true (by omega)

/-- Deliveries that start in front of a place do not start behind it. -/
theorem filter_deliveries_of_lt {p q : ℕ} {segments : List Segment}
    (h : ∀ d ∈ deliveries p segments, d.start < q) :
    (deliveries p segments).filter (fun d => q ≤ d.start) = [] := by
  rw [List.filter_eq_nil_iff]
  intro d hd
  have hstart := h d hd
  simpa using hstart

/-! ### The run -/

section Traffic

variable {traffic : List StreamOp} {lead : List UInt8} {arrivals : List (Arrival V)}

/-- What the traffic adds to a run: the scanner goes on from what is buffered. -/
theorem exists_traffic_run (V : WireVersion) (before : List StreamOp)
    (hreset : StreamOp.resetIncomplete ∉ traffic) :
    let held := (opsTrace V streamDecoderInit before).1.live
    let left := (opsTrace V streamDecoderInit (before ++ traffic)).1.live
    ∃ pieces, Run (frameScanner V) (held ++ fedBytes traffic) pieces left ∧ Quiet V left ∧
      runSegments V (before ++ traffic) = runSegments V before ++ pieces.map Segment.ofPiece := by
  obtain ⟨hsized, hquiet⟩ := quiet_opsTrace V before
  obtain ⟨⟨pieces, hdecodes⟩, hleft⟩ := bytesTrace_spec V hsized hquiet (fedBytes traffic)
  simp only
  rw [runSegments, runSegments, opsTrace_append, opsTrace_of_no_reset V _ hreset]
  exact ⟨pieces, hdecodes.run, hleft, by rw [hdecodes.segments_eq]⟩

/-- **Back in step**: the scanner takes some pieces that start in what was held, and what it finds
    behind them are the arrivals but for some that start in the first 523 bytes. -/
theorem exists_in_step (hlead : ¬ [magic0, magic1] <:+: lead)
    (hplain : ∀ arrival ∈ arrivals, arrival.Plain) {held left : List UInt8}
    {pieces : List (ScanEvent × List UInt8)}
    (h : Run (frameScanner V) (held ++ (lead ++ receivedAll arrivals)) pieces left)
    (hquiet : Quiet V left) :
    ∃ front behind lost, pieces = front ++ behind ∧ lost ≤ arrivals.length ∧
      (∀ i < lost, startOf lead arrivals i < 523) ∧
      (∀ a piece b, front = a ++ piece :: b → (consumed a).length < held.length) ∧
      (behind = [] ∨ held.length ≤ (consumed front).length) ∧
      findings behind = (arrivals.drop lost).map Arrival.event ∧
      (523 ≤ (lead ++ receivedAll arrivals).length → left.length ≤ 1) := by
  by_cases hleft : left.length ≤ (lead ++ receivedAll arrivals).length
  · obtain ⟨front, behind, k, hpieces, hk, hnear, hlength, hstarts, hbehind⟩ :=
      h.exists_crossing scanStep_le hleft
    obtain ⟨junk, lost, hlost, hdrop, hjunk, hlow⟩ := exists_suffix hlead hplain hk
    obtain ⟨all, last, hall, hevents, hsettled⟩ :=
      run_junk_receivedAll hjunk (arrivals.drop lost)
    rw [hdrop] at hbehind
    obtain ⟨hfindings, hshort⟩ := findings_of_quiet hbehind hquiet hall hsettled
    refine ⟨front, behind, lost, hpieces, hlost, ?_, hstarts, .inr (by omega),
      hfindings.trans hevents, fun _ => hshort⟩
    intro i hi
    have hstart := hlow i hi
    omega
  · -- a frame that ends behind the traffic is still awaited: all of the traffic is in the buffer
    have hsize := hquiet.length_lt
    have htotal := h.length_add
    simp only [maxFrameSize, headerSize, maxPayloadSize, crcSize] at hsize
    rw [List.length_append] at htotal
    refine ⟨pieces, [], arrivals.length, (List.append_nil _).symm, Nat.le_refl _, ?_, ?_, .inl rfl,
      by rw [List.drop_length]; rfl, fun hlong => absurd hlong (by omega)⟩
    · intro i _
      have hprefix : startOf lead arrivals i ≤ (lead ++ receivedAll arrivals).length := by
        rw [startOf, List.length_append, List.length_append]
        exact Nat.add_le_add_left ((List.take_prefix i arrivals).flatMap _).length_le _
      omega
    · rintro a piece b rfl
      rw [consumed_append, List.length_append] at htotal
      omega

end Traffic

/-- **Plain traffic brings the decoder back into step.** Whatever was fed before, with resets
    anywhere, let a stream begin with noise that has no magic in it and go on with frames, of any
    wire version, with no magic behind their first bytes and none in the noise behind them; a
    damaged frame is so by an error pattern that spares magic and length.  Then exactly the intact
    frames of the decoder's version are delivered, in order, but for some that start in the first
    523 bytes; no other delivery starts in the stream, and behind its first 523 bytes at most one
    byte stays buffered. -/
theorem traffic_synchronizes (V : WireVersion) (before traffic : List StreamOp)
    (hreset : StreamOp.resetIncomplete ∉ traffic) (lead : List UInt8)
    (hlead : ¬ [magic0, magic1] <:+: lead) (arrivals : List (Arrival V))
    (hplain : ∀ arrival ∈ arrivals, arrival.Plain)
    (hfed : fedBytes traffic = lead ++ receivedAll arrivals) :
    (∃ lost ≤ arrivals.length, (∀ i < lost, startOf lead arrivals i < 523) ∧
      ((deliveries 0 (runSegments V (before ++ traffic))).filter fun d =>
          (fedBytes before).length ≤ d.start).map Delivery.frame =
        ((arrivals.drop lost).filter Arrival.readable).map Arrival.frame) ∧
      (523 ≤ (fedBytes traffic).length →
        (decoderRun V (before ++ traffic)).decoder.bufferedBytes ≤ 1) := by
  obtain ⟨pieces, hrun, hquiet, hsegments⟩ := exists_traffic_run V before hreset
  rw [hfed] at hrun
  obtain ⟨front, behind, lost, hpieces, hlost, hlow, hstarts, hborder, hfindings, hshort⟩ :=
    exists_in_step hlead hplain hrun hquiet
  have hbefore := congrArg List.length (fedBytes_eq V before)
  rw [List.length_append] at hbefore
  refine ⟨⟨lost, hlost, hlow, ?_⟩, ?_⟩
  · -- what was delivered before the traffic, and what starts in what was held, is not in it
    have hearly : (deliveries 0 (runSegments V before)).filter
        (fun d => (fedBytes before).length ≤ d.start) = [] := by
      refine filter_deliveries_of_lt fun d hd => ?_
      have hend := (deliveries_bounds hd).2
      have hpos := length_pos_of_mem_runSegments hd
      omega
    have hheld : (deliveries (0 + (segmentBytes (runSegments V before)).length)
        (front.map Segment.ofPiece)).filter (fun d => (fedBytes before).length ≤ d.start) = [] := by
      refine filter_deliveries_of_lt fun d hd => ?_
      obtain ⟨a, piece, b, hfront, hstart⟩ := start_of_mem_deliveries hd
      have hinside := hstarts a piece b hfront
      omega
    have hlate : (deliveries (0 + (segmentBytes (runSegments V before)).length +
        (segmentBytes (front.map Segment.ofPiece)).length) (behind.map Segment.ofPiece)).filter
          (fun d => (fedBytes before).length ≤ d.start) =
        deliveries (0 + (segmentBytes (runSegments V before)).length +
          (segmentBytes (front.map Segment.ofPiece)).length) (behind.map Segment.ofPiece) := by
      rcases hborder with rfl | hborder
      · rfl
      · refine filter_deliveries_of_le ?_ _
        rw [segmentBytes_ofPieces]
        omega
    rw [hsegments, hpieces, List.map_append, deliveries_append, deliveries_append,
      List.filter_append, List.filter_append, hearly, hheld, hlate, List.nil_append,
      List.nil_append, map_frame_deliveries, segmentFrames_ofPieces, frames_findings, hfindings,
      filterMap_event]
  · intro hlong
    rw [decoderRun_eq, ← StreamDecoder.length_live (quiet_opsTrace V _).1]
    exact hshort (hfed ▸ hlong)

/-- An unfinished header, 523 zero bytes and an identify request: the request is delivered. -/
theorem traffic_synchronizes_request :
    ((deliveries 0 (runSegments wireVersion1 ([.feed (.bytes [0x4f, 0x57, 0x01])] ++ [.feed (.bytes
          (List.replicate 523 0 ++ (frameBytes wireVersion1 4 [] 8 0 ++ [])))]))).filter fun d =>
        3 ≤ d.start).map Delivery.frame = [frameOf wireVersion1 4 [] 8 0] := by
  have hencoded : EncodesTo wireVersion1 4 (.bytes []) 8 0 (frameBytes wireVersion1 4 [] 8 0) :=
    encodesTo_iff.mpr ⟨.inl rfl, Nat.zero_le _, rfl⟩
  have hlead : ¬ [magic0, magic1] <:+: List.replicate 523 (0 : UInt8) := by
    intro hmagic
    have hzero := List.eq_of_mem_replicate (hmagic.subset List.mem_cons_self)
    exact absurd hzero (by decide)
  let arrival : Arrival wireVersion1 :=
    ⟨wireVersion1, 4, .bytes [], 8, 0, _, hencoded, [], [], fun h => absurd rfl h,
      by decide +kernel⟩
  have hplain : ∀ a ∈ [arrival], a.Plain := by
    intro a ha
    rw [List.mem_singleton.mp ha]
    show ¬ [magic0, magic1] <:+: (frameBytes wireVersion1 4 [] 8 0 ++ []).drop 1
    decide +kernel
  have hfed : ∀ lead : List UInt8,
      fedBytes [.feed (.bytes (lead ++ (frameBytes wireVersion1 4 [] 8 0 ++ [])))] =
        lead ++ receivedAll [arrival] := by
    intro lead
    simp [fedBytes, receivedAll, Arrival.received, arrival, flipBits]
  obtain ⟨⟨lost, _, hearly, hframes⟩, _⟩ :=
    traffic_synchronizes wireVersion1 [.feed (.bytes [0x4f, 0x57, 0x01])]
      [.feed (.bytes (List.replicate 523 0 ++ (frameBytes wireVersion1 4 [] 8 0 ++ [])))]
      (fun h => StreamOp.noConfusion (List.mem_singleton.mp h)) (List.replicate 523 0) hlead
      [arrival] hplain (hfed _)
  -- the request starts behind the first 523 bytes, so it is not lost
  have hlost : lost = 0 := by
    by_contra hne
    have hstart := hearly 0 (Nat.pos_of_ne_zero hne)
    rw [startOf, List.take_zero, List.length_append, List.length_replicate] at hstart
    omega
  subst hlost
  exact hframes

end Oomwoo
