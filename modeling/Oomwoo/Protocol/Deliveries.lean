import Oomwoo.Protocol.Conservation

namespace Oomwoo

open Bytes Scanning

/-!
# Where in the stream the delivered frames stand

The segments of the trace put every delivered frame at a position of the fed bytes.
`deliveries` lists the frames with their positions; they stand behind one another
(`deliveries_bounds`), and in a run of the scanner a frame is delivered at a position exactly if
the run stops there and the scanner decides on it (`Run.delivered_or_inside`).
-/

/-- A delivered frame and where its bytes stand. -/
structure Delivery where
  start : Nat
  length : Nat
  frame : DecodedFrame
  deriving DecidableEq, Repr

/-- The deliveries of a list of segments that starts at position `p`. -/
def deliveries : Nat → List Segment → List Delivery
  | _, [] => []
  | p, .discarded bytes :: segments => deliveries (p + bytes.length) segments
  | p, .delivered bytes frame :: segments =>
    ⟨p, bytes.length, frame⟩ :: deliveries (p + bytes.length) segments

/-- Deliveries and delivered frames are in the same order. -/
theorem map_frame_deliveries (p : Nat) (segments : List Segment) :
    (deliveries p segments).map Delivery.frame = segmentFrames segments := by
  induction segments generalizing p with
  | nil => rfl
  | cons segment segments ih =>
    cases segment with
    | discarded bytes => exact ih _
    | delivered bytes frame =>
      rw [deliveries, List.map_cons, ih]
      rfl

theorem deliveries_append (p : Nat) (s t : List Segment) :
    deliveries p (s ++ t) = deliveries p s ++ deliveries (p + (segmentBytes s).length) t := by
  induction s generalizing p with
  | nil => rfl
  | cons segment s ih =>
    have hlen : p + (segmentBytes (segment :: s)).length =
        p + segment.bytes.length + (segmentBytes s).length := by
      rw [segmentBytes, List.flatMap_cons, List.length_append, ← segmentBytes, Nat.add_assoc]
    rw [hlen]
    cases segment with
    | discarded bytes => exact ih _
    | delivered bytes frame =>
      rw [List.cons_append, deliveries, ih]
      rfl

/-- Deliveries lie inside the bytes of their segments. -/
theorem deliveries_bounds {p : Nat} {segments : List Segment} {d : Delivery}
    (h : d ∈ deliveries p segments) :
    p ≤ d.start ∧ d.start + d.length ≤ p + (segmentBytes segments).length := by
  induction segments generalizing p with
  | nil => cases h
  | cons segment segments ih =>
    have hlen : (segmentBytes (segment :: segments)).length =
        segment.bytes.length + (segmentBytes segments).length := by
      rw [segmentBytes, List.flatMap_cons, List.length_append, ← segmentBytes]
    rw [hlen]
    cases segment with
    | discarded bytes =>
      have := ih h
      simp only [Segment.bytes]
      omega
    | delivered bytes frame =>
      simp only [Segment.bytes]
      rcases List.mem_cons.mp h with rfl | h
      · simp only
        omega
      · have := ih h
        omega

/-- The bytes of a delivery are those of its segment. -/
theorem slice_of_mem_deliveries {segments : List Segment} {d : Delivery} (pre rest : List UInt8)
    (h : d ∈ deliveries pre.length segments) :
    .delivered (((pre ++ segmentBytes segments ++ rest).drop d.start).take d.length) d.frame ∈
      segments := by
  induction segments generalizing pre with
  | nil => cases h
  | cons segment segments ih =>
    have hjoin : pre ++ segmentBytes (segment :: segments) ++ rest =
        (pre ++ segment.bytes) ++ segmentBytes segments ++ rest := by
      rw [segmentBytes, List.flatMap_cons, ← segmentBytes]
      simp only [List.append_assoc]
    -- a later delivery is found behind the longer prefix
    have hlater : d ∈ deliveries (pre ++ segment.bytes).length segments →
        .delivered (((pre ++ segmentBytes (segment :: segments) ++ rest).drop d.start).take
          d.length) d.frame ∈ segment :: segments := by
      intro hd
      rw [hjoin]
      exact List.mem_cons_of_mem _ (ih _ hd)
    rw [List.length_append] at hlater
    cases segment with
    | discarded bytes => exact hlater h
    | delivered bytes frame =>
      rcases List.mem_cons.mp h with rfl | h
      · rw [hjoin, List.append_assoc, List.append_assoc, List.drop_left]
        show Segment.delivered ((bytes ++ _).take bytes.length) frame ∈ _
        rw [List.take_left]
        exact List.mem_cons_self
      · exact hlater h

/-- **Deliveries are disjoint and in stream order.** -/
theorem deliveries_pairwise (p : Nat) (segments : List Segment) :
    (deliveries p segments).Pairwise fun a b => a.start + a.length ≤ b.start := by
  induction segments generalizing p with
  | nil => exact .nil
  | cons segment segments ih =>
    cases segment with
    | discarded bytes => exact ih _
    | delivered bytes frame => exact .cons (fun d hd => (deliveries_bounds hd).1) (ih _)

/-- No two deliveries start at one position, if none is empty. -/
theorem filter_start_eq {ds : List Delivery}
    (h : ds.Pairwise fun a b => a.start + a.length ≤ b.start)
    (hpos : ∀ d ∈ ds, 0 < d.length) {d : Delivery} (hd : d ∈ ds) :
    ds.filter (fun e => e.start = d.start) = [d] := by
  induction ds with
  | nil => cases hd
  | cons a ds ih =>
    obtain ⟨hhead, htail⟩ := List.pairwise_cons.mp h
    -- whatever comes behind a delivery starts at its end or later
    have hapos := hpos a List.mem_cons_self
    rcases List.mem_cons.mp hd with rfl | hd
    · have hrest : ds.filter (fun e => e.start = d.start) = [] := by
        apply List.filter_eq_nil_iff.mpr
        intro e he
        have := hhead e he
        simp only [decide_eq_true_eq]
        omega
      rw [List.filter_cons_of_pos (by simp), hrest]
    · have := hhead d hd
      rw [List.filter_cons_of_neg (by simp only [decide_eq_true_eq]; omega)]
      exact ih htail (fun e he => hpos e (List.mem_cons_of_mem _ he)) hd

/-- A complete valid frame stands at `p`: the complete-frame decoder accepts the stretch from `p`
    that the length field there declares. -/
def ValidFrameAt (V : WireVersion) (B : List UInt8) (p : Nat) (frame : DecodedFrame) : Prop :=
  decodeFrame V (.bytes ((B.drop p).take (12 + declaredLength (B.drop p)))) (some .zero) =
    (.ok, some frame)

section

variable {V : WireVersion} {B r : List UInt8} {pieces : List (ScanEvent × List UInt8)} {p : Nat}

theorem ValidFrameAt.scanStep {frame : DecodedFrame} (h : ValidFrameAt V B p frame) :
    scanStep V (B.drop p) = some (.frame frame, 12 + declaredLength (B.drop p)) :=
  scanStep_frame_iff.mpr ⟨rfl, (decodeFrame_ok_iff _ _ _ _).mp h⟩

/-- The wire form of a frame is a valid frame wherever it stands. -/
theorem validFrameAt_frameBytes (V : WireVersion) (messageType : UInt16) {payload : List UInt8}
    (sequence : UInt16) (flags : UInt8) (hlen : payload.length ≤ 512) (a x : List UInt8) :
    ValidFrameAt V (a ++ (frameBytes V messageType payload sequence flags ++ x)) a.length
      (frameOf V messageType payload sequence flags) := by
  rw [ValidFrameAt, decodeFrame_ok_iff, List.drop_left, declaredLength_frameBytes V _ _ _ hlen,
    List.take_left' (by simp), parseFrame_frameBytes V _ _ _ _ hlen]

theorem EncodesTo.validFrameAt {messageType sequence : UInt16} {payload : Span} {flags : UInt8}
    {bytes : List UInt8} (h : EncodesTo V messageType payload sequence flags bytes)
    (a x : List UInt8) :
    ValidFrameAt V (a ++ (bytes ++ x)) a.length
      (frameOf V messageType payload.data sequence flags) := by
  rw [h.eq_frameBytes]
  exact validFrameAt_frameBytes V messageType sequence flags h.length_data_le a x

/-- A discarded byte delivers nothing. -/
theorem deliveries_discard {event : ScanEvent} (hevent : event.isFrame = false)
    (hp : p < B.length) :
    deliveries p (((event, (B.drop p).take 1) :: pieces).map Segment.ofPiece) =
      deliveries (p + 1) (pieces.map Segment.ofPiece) := by
  rw [List.map_cons, ofPiece_of_not_frame _ hevent, deliveries, length_take_drop hp]

/-- A frame is delivered where the run consumes it. -/
theorem deliveries_deliver {frame : DecodedFrame} {k : Nat} (hp : p + k ≤ B.length) :
    deliveries p (((.frame frame, (B.drop p).take k) :: pieces).map Segment.ofPiece) =
      ⟨p, k, frame⟩ :: deliveries (p + k) (pieces.map Segment.ofPiece) := by
  rw [List.map_cons, Segment.ofPiece, deliveries, length_take_drop hp]

/-- A delivery of a run is not empty. -/
theorem length_pos_of_mem_deliveries (h : RunAt V B r p pieces) {d : Delivery}
    (hmem : d ∈ deliveries p (pieces.map Segment.ofPiece)) : 0 < d.length := by
  induction h with
  | rest _ => cases hmem
  | discard hevent hp _ _ ih =>
    rw [deliveries_discard hevent hp] at hmem
    exact ih hmem
  | deliver hk hp _ _ ih =>
    rw [deliveries_deliver hp] at hmem
    rcases List.mem_cons.mp hmem with rfl | hmem
    · exact hk
    · exact ih hmem

/-- **Nothing valid is skipped.** In a run over the fed bytes, a valid frame that starts before
    the undecided rest is delivered, or a delivered frame covers its start. -/
theorem delivered_or_inside {q : Nat} (h : RunAt V B r q pieces) {frame : DecodedFrame}
    (hvalid : ValidFrameAt V B p frame) (hq : q ≤ p) (hp : p + r.length < B.length) :
    ⟨p, 12 + declaredLength (B.drop p), frame⟩ ∈ deliveries q (pieces.map Segment.ofPiece) ∨
      ∃ d ∈ deliveries q (pieces.map Segment.ofPiece), d.start < p ∧ p < d.start + d.length := by
  induction h with
  | rest hrest =>
    rw [← hrest, List.length_drop] at hp
    omega
  | @discard q event pieces hevent hlt hstep _ ih =>
    have hne : q ≠ p := by
      rintro rfl
      -- the scanner would have found the frame
      rw [hvalid.scanStep] at hstep
      obtain ⟨rfl, _⟩ := Prod.mk.inj (Option.some.inj hstep)
      cases hevent
    rw [deliveries_discard hevent hlt]
    exact ih (by omega)
  | @deliver q k f pieces _ hle hstep _ ih =>
    rw [deliveries_deliver hle]
    by_cases heq : q = p
    · left
      subst heq
      rw [hvalid.scanStep] at hstep
      cases hstep
      exact List.mem_cons_self
    by_cases hin : p < q + k
    · exact .inr ⟨_, List.mem_cons_self, by show q < p; omega, hin⟩
    · rcases ih (by omega) with h | ⟨d, hd, hinside⟩
      · exact .inl (List.mem_cons_of_mem _ h)
      · exact .inr ⟨d, List.mem_cons_of_mem _ hd, hinside⟩

end

/-! ### Runs with resets -/

/-- The deliveries of a run are what its callback was given. -/
theorem map_frame_runSegments (V : WireVersion) (ops : List StreamOp) :
    (deliveries 0 (runSegments V ops)).map Delivery.frame = (decoderRun V ops).context := by
  rw [map_frame_deliveries, decoderRun_eq]
  rfl

/-- **No delivery goes across an empty buffer.** Where calls leave nothing buffered, a frame
    delivered by these or by later calls lies on one side. -/
theorem delivery_beside {V : WireVersion} {before after : List StreamOp}
    (hempty : (opsTrace V streamDecoderInit before).1.bufferedBytes = 0) {d : Delivery}
    (h : d ∈ deliveries 0 (runSegments V (before ++ after))) :
    d.start + d.length ≤ (fedBytes before).length ∨ (fedBytes before).length ≤ d.start := by
  have hfed : (fedBytes before).length = 0 + (segmentBytes (runSegments V before)).length := by
    rw [fedBytes_eq V before, StreamDecoder.live, hempty, List.take_zero, List.append_nil,
      Nat.zero_add]
  rw [runSegments, opsTrace_append, deliveries_append, ← runSegments, ← hfed] at h
  rcases List.mem_append.mp h with h | h
  · left
    rw [hfed]
    exact (deliveries_bounds h).2
  · right
    exact (deliveries_bounds h).1

/-- A delivery at the end of the fed bytes leaves nothing buffered. -/
theorem live_eq_nil_of_delivery {V : WireVersion} {ops : List StreamOp} {d : Delivery}
    (h : d ∈ deliveries 0 (runSegments V ops))
    (hend : (fedBytes ops).length ≤ d.start + d.length) :
    (decoderRun V ops).decoder.live = [] := by
  have hbounds := (deliveries_bounds h).2
  rw [fedBytes_eq V ops, List.length_append] at hend
  rw [decoderRun_eq]
  apply List.eq_nil_of_length_eq_zero
  show (opsTrace V streamDecoderInit ops).1.live.length = 0
  omega

/-- What a run delivers, the complete-frame decoder accepts on the bytes of the delivery. -/
theorem decodeFrame_of_mem_deliveries {V : WireVersion} {ops : List StreamOp} {d : Delivery}
    (h : d ∈ deliveries 0 (runSegments V ops)) :
    decodeFrame V (.bytes (((fedBytes ops).drop d.start).take d.length)) (some .zero) =
      (.ok, some d.frame) := by
  obtain ⟨_, _, _, hacc⟩ := accounts_opsTrace V ops
  have hslice := slice_of_mem_deliveries [] (opsTrace V streamDecoderInit ops).1.live h
  rw [List.nil_append, ← fedBytes_eq] at hslice
  exact (decodeFrame_ok_iff _ _ _ _).mpr (hacc.delivered hslice)

/-- What an epoch delivers, the complete-frame decoder accepts on the bytes of the delivery. -/
theorem Epoch.decodeFrame_of_mem {V : WireVersion} (epoch : Epoch V) {d : Delivery}
    (h : d ∈ deliveries 0 epoch.segments) :
    d.start + d.length ≤ epoch.bytes.length ∧
      decodeFrame V (.bytes ((epoch.bytes.drop d.start).take d.length)) (some .zero) =
        (.ok, some d.frame) := by
  have hbytes := epoch.segmentBytes_segments
  have hbounds := (deliveries_bounds h).2
  have hslice := slice_of_mem_deliveries [] epoch.left h
  rw [List.nil_append, hbytes] at hslice
  refine ⟨?_, (decodeFrame_ok_iff _ _ _ _).mpr (epoch.parseFrame_of_mem hslice)⟩
  rw [← hbytes, List.length_append]
  omega

end Oomwoo
