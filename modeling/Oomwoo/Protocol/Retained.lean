import Oomwoo.Protocol.GapReset
import Mathlib.Data.List.Induction

namespace Oomwoo

open Bytes Scanning

/-!
# What is buffered between two calls

Between calls the decoder is meant to hold an undecided candidate and nothing else: a byte that
cannot start a frame is dropped when it is looked at.  Every exit of the loop restores that form
but the delivery, which goes on only if two bytes are left and so does not look at a single one
(`processPass_stop`).  `loopTrace_stray` and `loopTrace_last` carry this along the loop.

A frame that ends one byte before the last is usually delivered before the last byte comes in.  It
is not if the last byte completes, and thereby rejects, a candidate around it.  `Strands` says
this of the bytes, and `undecided_between_calls_iff` shows that it is the only way to retain a
byte that no frame starts with.
-/

/-- The bytes may still become a frame, as far as the decoder has looked: nothing, a lone `'O'`,
    a header that is not complete, or one of a frame that is not. -/
def Undecided (V : WireVersion) (w : List UInt8) : Prop :=
  w = [] ∨ w = [magic0] ∨
    (StartsMagic w ∧ (w.length < 10 ∨
      (byteAt w 2 = V.byte ∧ declaredLength w ≤ 512 ∧ w.length < 12 + declaredLength w)))

/-- **The scanner waits exactly on undecided bytes.** -/
theorem undecided_iff (V : WireVersion) (w : List UInt8) :
    Undecided V w ↔ scanStep V w = none := by
  constructor
  · rintro (rfl | rfl | ⟨hs, hshort | ⟨hv, hn, hopen⟩⟩)
    · exact scanStep_nil
    · exact scanStep_lone
    · exact scanStep_short hs hshort
    · by_cases h10 : w.length < 10
      · exact scanStep_short hs h10
      · exact scanStep_open ⟨hs, by omega, hv, hn⟩ hopen
  · intro hwait
    rcases scan_situations V w with hs | hs | hs | ⟨hs, hlen⟩ | ⟨hs, hlen, hv⟩ |
      ⟨hs, hlen, hv, hn⟩ | hs
    · exact .inl hs
    · exact .inr (.inl hs)
    · rw [scanStep_noise hs] at hwait
      cases hwait
    · exact .inr (.inr ⟨hs, .inl hlen⟩)
    · rw [scanStep_version hs hlen hv] at hwait
      cases hwait
    · rw [scanStep_length hs hlen hv hn] at hwait
      cases hwait
    · refine .inr (.inr ⟨hs.magic, .inr ⟨hs.version, hs.declared, ?_⟩⟩)
      by_contra hclosed
      rw [scanStep_closed hs (by omega)] at hwait
      split at hwait <;> cases hwait

/-- Undecided bytes start with the first magic byte. -/
theorem Undecided.first {V : WireVersion} {w : List UInt8} (h : Undecided V w) (hne : w ≠ []) :
    byteAt w 0 = magic0 := by
  rcases h with rfl | rfl | ⟨hs, _⟩
  · exact absurd rfl hne
  · rfl
  · exact hs.first

/-- A single undecided byte is the first magic byte. -/
theorem undecided_singleton_iff (V : WireVersion) (b : UInt8) :
    Undecided V [b] ↔ b = magic0 := by
  constructor
  · intro h
    exact h.first (List.cons_ne_nil b [])
  · rintro rfl
    exact .inr (.inl rfl)

/-- A place where the scan may stop with a single byte is undecided. -/
theorem Anchored.undecided_of_single {V : WireVersion} {w : List UInt8} (h : Anchored w)
    (hone : w.length = 1) : Undecided V w := by
  rcases h with hs | hs | hs
  · exact .inl hs
  · exact .inr (.inl hs)
  · have := hs.length
    omega

/-! ### Where the loop stops -/

section Loop

variable {V : WireVersion} {decoder : StreamDecoder}

/-- **The exits of a pass.** A lone byte that is not `'O'` goes, the loop waits, it
    resynchronises, or it delivers. -/
theorem processPass_exits (V : WireVersion) (decoder : StreamDecoder) :
    (decoder.bufferedBytes = 1 ∧
        processPass V decoder = .wait (removePrefix decoder 1 true)) ∨
      (processPass V decoder = .wait decoder ∧
        (decoder.bufferedBytes = 1 → byteAt decoder.buffer 0 = magic0)) ∨
      (2 ≤ decoder.bufferedBytes ∧ ∃ stats,
        processPass V decoder = .resync { decoder with stats := stats }) ∨
      ∃ frame frameLength, processPass V decoder = .deliver decoder frame frameLength := by
  unfold processPass
  by_cases hone : decoder.bufferedBytes = 1
  · rw [if_pos hone]
    by_cases h0 : byteAt decoder.buffer 0 ≠ magic0
    · exact .inl ⟨hone, if_pos h0⟩
    · exact .inr (.inl ⟨if_neg h0, fun _ => not_not.mp h0⟩)
  rw [if_neg hone]
  -- from here on a byte that waits is not alone
  have hwait : ∀ pass : Pass, pass = .wait decoder → pass = .wait decoder ∧
      (decoder.bufferedBytes = 1 → byteAt decoder.buffer 0 = magic0) :=
    fun pass heq => ⟨heq, fun h => absurd h hone⟩
  by_cases hfew : decoder.bufferedBytes < 2
  · exact .inr (.inl (hwait _ (if_pos hfew)))
  rw [if_neg hfew]
  refine .inr ?_
  split_ifs
  · exact .inr (.inl ⟨by omega, _, rfl⟩)
  · exact .inl (hwait _ rfl)
  · exact .inr (.inl ⟨by omega, _, rfl⟩)
  extract_lets payloadLength frameLength
  split_ifs
  · exact .inr (.inl ⟨by omega, _, rfl⟩)
  · exact .inl (hwait _ rfl)
  -- the complete-frame decoder decides
  split
  · exact .inr (.inr ⟨_, _, rfl⟩)
  · exact .inr (.inl ⟨by omega, _, rfl⟩)
  · exact .inr (.inl ⟨by omega, _, rfl⟩)

/-- **What a pass leaves when the loop stops**: undecided bytes, or the single byte behind the
    frame that it delivered. -/
theorem processPass_stop (h : decoder.Sized) (hstop : (processPass V decoder).processing = false) :
    Undecided V (processPass V decoder).decoder.live ∨
      ((∃ frame, (processPass V decoder).frame = some frame) ∧
        (processPass V decoder).decoder.live.length = 1) := by
  rcases (processPass_spec V h).quiet hstop with hwait | hone
  · exact .inl ((undecided_iff V _).mpr hwait)
  rcases processPass_exits V decoder with ⟨hheld, hpass⟩ | ⟨hpass, h0⟩ | ⟨h2, stats, hpass⟩ |
    ⟨frame, frameLength, hpass⟩
  · -- the lone byte is gone
    exfalso
    rw [hpass] at hone
    have hlive := (removePrefix_spec h true Nat.one_pos hheld.ge).2.1
    have hlen := decoder.length_live h
    rw [Pass.wait, hlive, List.length_drop] at hone
    omega
  · left
    rw [hpass] at hone ⊢
    have hheld : decoder.bufferedBytes = 1 := by
      rw [← decoder.length_live h]
      exact hone
    obtain ⟨b, hb⟩ := List.length_eq_one_iff.mp hone
    show Undecided V decoder.live
    replace hb : decoder.live = [b] := hb
    rw [hb, undecided_singleton_iff, ← h0 hheld, ← StreamDecoder.byteAt_live (by omega), hb]
    rfl
  · left
    rw [hpass] at hone ⊢
    have hmarked : ({ decoder with stats := stats } : StreamDecoder).Sized := ⟨h.size, h.held⟩
    exact (anchored_resyncAfterError hmarked h2).undecided_of_single hone
  · right
    rw [hpass] at hone ⊢
    exact ⟨⟨frame, rfl⟩, hone⟩

/-- After a delivery the loop goes on while two bytes are left. -/
theorem processing_of_frame {frame : DecodedFrame}
    (h : (processPass V decoder).frame = some frame) :
    (processPass V decoder).processing =
      decide (2 ≤ (processPass V decoder).decoder.bufferedBytes) := by
  rcases processPass_exits V decoder with ⟨_, hpass⟩ | ⟨hpass, _⟩ | ⟨_, _, hpass⟩ | ⟨_, _, hpass⟩
  · rw [hpass] at h
    cases h
  · rw [hpass] at h
    cases h
  · rw [hpass] at h
    cases h
  · rw [hpass]
    rfl

/-- A pass delivers the frame it hands to the callback, at its start. -/
theorem mem_deliveries_pass (decoder : StreamDecoder) {pass : Pass} {p : Nat} {d : Delivery} :
    d ∈ deliveries p (pass.segments decoder) ↔ ∃ frame, pass.frame = some frame ∧
      d = ⟨p, (segmentBytes (pass.segments decoder)).length, frame⟩ := by
  cases hframe : pass.frame with
  | none =>
    have hnone : deliveries p (pass.segments decoder) = [] := by
      apply List.map_eq_nil_iff.mp
      rw [map_frame_deliveries, segmentFrames_passSegments, hframe]
      rfl
    simp [hnone]
  | some frame =>
    rw [Pass.segments, hframe]
    simp [deliveries, segmentBytes, Segment.bytes]

/-- The bytes that left and the bytes that are left are the bytes there were. -/
theorem Decodes.length_add {stats : DecoderStats} {w : List UInt8} {segments : List Segment}
    {pieces : List (ScanEvent × List UInt8)} (h : Decodes V stats w decoder segments pieces) :
    (segmentBytes segments).length + decoder.live.length = w.length := by
  rw [h.segments_eq, segmentBytes_ofPieces]
  exact h.run.length_add

/-- **What the loop leaves**: undecided bytes, or a single byte, and then a frame that ends in
    front of that byte has been delivered. -/
theorem loopTrace_stray (V : WireVersion) {fuel : Nat} (h : decoder.Sized)
    (hfuel : decoder.bufferedBytes ≤ fuel) (p : Nat) :
    Undecided V (loopTrace V fuel decoder).1.live ∨
      ((loopTrace V fuel decoder).1.live.length = 1 ∧
        ∃ d ∈ deliveries p (loopTrace V fuel decoder).2,
          d.start + d.length + 1 = p + decoder.live.length) := by
  induction fuel generalizing decoder p with
  | zero =>
    left
    left
    show decoder.live = []
    rw [StreamDecoder.live, Nat.le_zero.mp hfuel, List.take_zero]
  | succ fuel ih =>
    have hpass := processPass_spec V h
    obtain ⟨pieces, hdecodes⟩ := hpass.decodes
    have htotal := hdecodes.length_add
    rw [loopTrace, deliveries_append]
    cases hgo : (processPass V decoder).processing with
    | true =>
      have hless := hpass.decreases hgo
      rcases ih hdecodes.sized (by omega)
        (p + (segmentBytes ((processPass V decoder).segments decoder)).length) with
        hundecided | ⟨hone, d, hd, hend⟩
      · exact .inl hundecided
      · exact .inr ⟨hone, d, List.mem_append_right _ hd, by omega⟩
    | false =>
      rcases processPass_stop h hgo with hundecided | ⟨⟨frame, hframe⟩, hone⟩
      · exact .inl hundecided
      · have hd := (mem_deliveries_pass decoder (p := p)).mpr ⟨frame, hframe, rfl⟩
        refine .inr ⟨hone, _, List.mem_append_left _ hd, ?_⟩
        show p + (segmentBytes ((processPass V decoder).segments decoder)).length + 1 = _
        omega

/-- **The loop does not look at a single byte behind a frame**: if a delivered frame ends in
    front of the last byte, that byte is what is left. -/
theorem loopTrace_last (V : WireVersion) {fuel : Nat} (h : decoder.Sized) {p : Nat} {d : Delivery}
    (hd : d ∈ deliveries p (loopTrace V fuel decoder).2)
    (hend : d.start + d.length + 1 = p + decoder.live.length) :
    (loopTrace V fuel decoder).1.live.length = 1 := by
  induction fuel generalizing decoder p with
  | zero => cases hd
  | succ fuel ih =>
    have hpass := processPass_spec V h
    obtain ⟨pieces, hdecodes⟩ := hpass.decodes
    have htotal := hdecodes.length_add
    have hheld := (processPass V decoder).decoder.length_live hdecodes.sized
    rw [loopTrace, deliveries_append] at hd
    rw [loopTrace]
    rcases List.mem_append.mp hd with hd | hd
    · -- this pass delivers the frame, and the loop stops
      obtain ⟨frame, hframe, rfl⟩ := (mem_deliveries_pass decoder).mp hd
      replace hend : p + (segmentBytes ((processPass V decoder).segments decoder)).length + 1 =
        p + decoder.live.length := hend
      have hstop : (processPass V decoder).processing = false := by
        rw [processing_of_frame hframe]
        exact decide_eq_false (by omega)
      rw [hstop]
      show (processPass V decoder).decoder.live.length = 1
      omega
    · cases hgo : (processPass V decoder).processing with
      | true =>
        rw [hgo] at hd
        exact ih hdecodes.sized hd (by omega)
      | false =>
        rw [hgo] at hd
        cases hd

end Loop

/-! ### Which bytes lead there -/

/-- The last byte is not `'O'` and completes a candidate that is not a valid frame, around a valid
    frame that ends one byte before; every other candidate met before that frame is resolved. -/
structure Strands (V : WireVersion) (B : List UInt8) : Prop where
  last : byteAt B (B.length - 1) ≠ magic0
  inner : ∃ p frame, ValidFrameAt V B p frame ∧
    p + (12 + declaredLength (B.drop p)) + 1 = B.length ∧
    (∀ q < p, Exposed V B 0 q → Resolved V B p q) ∧
    ∃ q < p, Exposed V B 0 q ∧ Candidate V (B.drop q) ∧
      q + (12 + declaredLength (B.drop q)) = B.length

section Positions

variable {V : WireVersion} {B r : List UInt8} {pieces : List (ScanEvent × List UInt8)} {p q : Nat}
  {frame : DecodedFrame}

/-- Bytes behind a valid frame do not matter. -/
theorem ValidFrameAt.append (h : ValidFrameAt V B p frame) (x : List UInt8) :
    ValidFrameAt V (B ++ x) p frame := by
  have hinside := h.length_le
  have hdrop : (B ++ x).drop p = B.drop p ++ x := List.drop_append_of_le_length (by omega)
  have hstep := scanStep_append x h.scanStep
  rw [← hdrop] at hstep
  exact (validFrameAt_of_scanStep hstep).1

/-- A valid frame needs no byte behind it. -/
theorem ValidFrameAt.of_append {x : List UInt8} (h : ValidFrameAt V (B ++ x) p frame)
    (hinside : p + (12 + declaredLength ((B ++ x).drop p)) ≤ B.length) :
    ValidFrameAt V B p frame ∧ declaredLength (B.drop p) = declaredLength ((B ++ x).drop p) := by
  have hdrop : (B ++ x).drop p = B.drop p ++ x := List.drop_append_of_le_length (by omega)
  have hlen : (B.drop p).length = B.length - p := List.length_drop
  have hdeclared : declaredLength ((B ++ x).drop p) = declaredLength (B.drop p) := by
    rw [hdrop, declaredLength_append (by omega)]
  refine ⟨?_, hdeclared.symm⟩
  rw [ValidFrameAt, hdeclared, hdrop, List.take_append_of_le_length (by omega)] at h
  exact h

/-- What the scan meets, it meets before the bytes behind have come in. -/
theorem Exposed.of_append {x : List UInt8} (h : Exposed V (B ++ x) p q) (hq : q ≤ B.length) :
    Exposed V B p q := by
  induction h with
  | here p => exact .here p
  | skip hinvalid _ ih => exact .skip (fun f hvalid => hinvalid f (hvalid.append x)) (ih hq)
  | jump hvalid hrest ih =>
    obtain ⟨hbefore, hdeclared⟩ := hvalid.of_append (by have := hrest.le; omega)
    refine .jump hbefore ?_
    rw [hdeclared]
    exact ih hq

/-- A run meets the position at which it stops. -/
theorem exposed_of_runAt (h : RunAt V B r p pieces) :
    Exposed V B p (p + (consumed pieces).length) := by
  induction h with
  | rest _ => exact .here _
  | @discard p event pieces hevent hp hstep _ ih =>
    rw [consumed_cons, List.length_append, length_take_drop (by omega), ← Nat.add_assoc]
    exact .skip (not_validFrameAt_of_scanStep hstep hevent) ih
  | @deliver p k frame pieces _ hp hstep _ ih =>
    obtain ⟨hvalid, rfl⟩ := validFrameAt_of_scanStep hstep
    rw [consumed_cons, List.length_append, length_take_drop hp, ← Nat.add_assoc]
    exact .jump hvalid ih

/-- A run delivers valid frames. -/
theorem validFrameAt_of_mem_deliveries (h : RunAt V B r p pieces) {d : Delivery}
    (hd : d ∈ deliveries p (pieces.map Segment.ofPiece)) :
    ValidFrameAt V B d.start d.frame ∧ d.length = 12 + declaredLength (B.drop d.start) := by
  induction h with
  | rest _ => cases hd
  | discard hevent hp _ _ ih =>
    rw [deliveries_discard hevent hp] at hd
    exact ih hd
  | deliver _ hp hstep _ ih =>
    rw [deliveries_deliver hp] at hd
    rcases List.mem_cons.mp hd with rfl | hd
    · exact validFrameAt_of_scanStep hstep
    · exact ih hd

end Positions

/-! ### The last byte of a call -/

section LastByte

-- the bytes `B` in front of the last byte `b` are read to `w`, and then `b` is read
variable {V : WireVersion} {B w r : List UInt8} {b : UInt8}
  {before after : List (ScanEvent × List UInt8)}

theorem byteAt_last (B : List UInt8) (b : UInt8) :
    byteAt (B ++ [b]) ((B ++ [b]).length - 1) = b := by
  rw [List.length_append, List.length_singleton, Nat.add_sub_cancel,
    byteAt_append_right _ _ (Nat.le_refl _), Nat.sub_self]
  rfl

/-- Behind the pieces of `B` the rest of `B` and the last byte are read. -/
theorem drop_consumed (hbefore : Run (frameScanner V) B before w) :
    (B ++ [b]).drop (consumed before).length = w ++ [b] := by
  rw [← hbefore.flatten, List.append_assoc, List.drop_left]

/-- If the last byte lets a frame out that ends in front of it, it completes a candidate around
    that frame. -/
theorem strands_of_delivery (hbefore : Run (frameScanner V) B before w) (hquiet : Quiet V w)
    (hafter : Run (frameScanner V) (w ++ [b]) after r) (hb : b ≠ magic0) {d : Delivery}
    (hd : d ∈ deliveries (consumed before).length (after.map Segment.ofPiece))
    (hend : d.start + d.length = B.length) : Strands V (B ++ [b]) := by
  have htotal := hbefore.length_add
  have hwhole := runAt_of_run (p := 0) (hbefore.join hafter)
  have hfirst := runAt_of_run (p := 0) (hbefore.extend [b])
  have hdrop := drop_consumed (b := b) hbefore
  have hsecond := runAt_of_run (hdrop ▸ hafter)
  obtain ⟨hvalid, hlen⟩ := validFrameAt_of_mem_deliveries hsecond hd
  have hstart := (deliveries_bounds hd).1
  refine ⟨?_, d.start, d.frame, hvalid, ?_, ?_, ?_⟩
  · rw [byteAt_last]
    exact hb
  · rw [List.length_append, List.length_singleton]
    omega
  · -- the frame is delivered in the run over all the bytes
    intro q hq hexposed
    refine resolved_of_mem_deliveries hwhole (d := d) ?_ hq hexposed
    rw [List.map_append, deliveries_append, segmentBytes_ofPieces, Nat.zero_add]
    exact List.mem_append_right _ hd
  · -- what the last byte is read behind is a candidate that was open and is not any more
    obtain ⟨hcandidate, hopen⟩ := hquiet.candidate (by omega)
    have hstill : declaredLength (w ++ [b]) = declaredLength w :=
      declaredLength_append hcandidate.header [b]
    have hclosed : w.length + 1 = 12 + declaredLength w := by
      by_contra hne
      have hwait : scanStep V (w ++ [b]) = none := by
        refine scanStep_open (hcandidate.append [b]) ?_
        rw [hstill, List.length_append, List.length_singleton]
        omega
      rw [(hafter.eq_nil_of_settled hwait).1] at hd
      cases hd
    refine ⟨(consumed before).length, ?_, ?_, ?_, ?_⟩
    · -- the candidate ends one byte behind the frame
      rcases Nat.lt_or_eq_of_le hstart with hlt | heq
      · exact hlt
      · rw [← heq, hdrop, hstill] at hlen
        omega
    · have hexposed := exposed_of_runAt hfirst
      rwa [Nat.zero_add] at hexposed
    · rw [hdrop]
      exact hcandidate.append [b]
    · rw [hdrop, hstill, List.length_append, List.length_singleton]
      omega

/-- A frame inside a candidate that the last byte completes is delivered with that byte. -/
theorem delivery_of_strands (hbefore : Run (frameScanner V) B before w)
    (hafter : Run (frameScanner V) (w ++ [b]) after r) (hquiet : Quiet V r)
    (h : Strands V (B ++ [b])) :
    ∃ d ∈ deliveries (consumed before).length (after.map Segment.ofPiece),
      d.start + d.length = B.length := by
  obtain ⟨p, frame, hvalid, hend, hresolved, q, hq, hexposed, hcandidate, hcovers⟩ := h.inner
  rw [List.length_append, List.length_singleton] at hend hcovers
  have hwhole := runAt_of_run (p := 0) (hbefore.join hafter)
  have hmem := mem_deliveries_of_resolved hwhole hquiet hvalid
    (by rw [List.length_append, List.length_singleton]; omega) (Nat.zero_le p) hresolved
  rw [List.map_append, deliveries_append, segmentBytes_ofPieces, Nat.zero_add] at hmem
  rcases List.mem_append.mp hmem with hmem | hmem
  · -- before the last byte the candidate around it was open, so the frame was not met
    exfalso
    have hdrop : (B ++ [b]).drop q = B.drop q ++ [b] :=
      List.drop_append_of_le_length (by omega)
    have hlen : (B.drop q).length = B.length - q := List.length_drop
    have hdeclared : declaredLength ((B ++ [b]).drop q) = declaredLength (B.drop q) := by
      rw [hdrop, declaredLength_append (by omega)]
    have hopen : Candidate V (B.drop q) := by
      rw [hdrop] at hcandidate
      refine ⟨⟨by omega, ?_, ?_⟩, by omega, ?_, ?_⟩
      · rw [← hcandidate.magic.first, byteAt_append_left _ _ (by omega)]
      · rw [← hcandidate.magic.second, byteAt_append_left _ _ (by omega)]
      · rw [← hcandidate.version, byteAt_append_left _ _ (by omega)]
      · rw [← hdeclared, hdrop]
        exact hcandidate.declared
    have hends := resolved_of_mem_deliveries (runAt_of_run (p := 0) hbefore) hmem hq
      (hexposed.of_append (by omega)) hopen
    rw [hdeclared] at hcovers
    rcases hends with hends | ⟨hends, _⟩
    · replace hends : q + (12 + declaredLength (B.drop q)) ≤ p := hends
      omega
    · omega
  · refine ⟨_, hmem, ?_⟩
    show p + (12 + declaredLength ((B ++ [b]).drop p)) = B.length
    omega

/-- A run that leaves one byte leaves the last one. -/
theorem rest_eq_last (hafter : Run (frameScanner V) (w ++ [b]) after r) (hone : r.length = 1) :
    r = [b] :=
  List.append_inj_right' hafter.flatten hone

end LastByte

/-! ### Calls -/

section Calls

variable {decoder : StreamDecoder}

/-- The bytes of a call, the last one set apart. -/
theorem bytesTrace_concat (V : WireVersion) (decoder : StreamDecoder) (bytes : List UInt8)
    (byte : UInt8) :
    (bytesTrace V decoder (bytes ++ [byte])).1 =
      (byteTrace V (bytesTrace V decoder bytes).1 byte).1 := by
  induction bytes generalizing decoder with
  | nil => rfl
  | cons first bytes ih => exact ih (byteTrace V decoder first).1

/-- **When a call leaves an undecided candidate**: its last byte is not stranded, behind the bytes
    that are read to what is buffered. -/
theorem undecided_feed_iff (V : WireVersion) (h : decoder.Sized) {fed : List UInt8}
    {pieces : List (ScanEvent × List UInt8)} (hrun : Run (frameScanner V) fed pieces decoder.live)
    (hquiet : Quiet V decoder.live) {data : List UInt8} (hdata : data ≠ []) :
    Undecided V (bytesTrace V decoder data).1.live ↔ ¬ Strands V (fed ++ data) := by
  rcases data.eq_nil_or_concat with rfl | ⟨init, byte, rfl⟩
  · exact absurd rfl hdata
  rw [List.concat_eq_append, bytesTrace_concat, ← List.append_assoc]
  obtain ⟨⟨more, hmore⟩, hquiet⟩ := bytesTrace_spec V h hquiet init
  have hbefore := hrun.join hmore.run
  set first := (bytesTrace V decoder init).1 with hfirst
  obtain ⟨⟨after, hafter⟩, hquiet'⟩ := byteTrace_spec V hmore.sized hquiet byte
  -- the loop runs on the bytes that were live, and the byte
  have hroom := hquiet.length_lt
  rw [first.length_live hmore.sized] at hroom
  obtain ⟨hsized, hlive, _, _⟩ := appendByte_spec hmore.sized hroom byte
  have htotal := hbefore.length_add
  have hsegments := hafter.segments_eq
  have hlen : (appendByte first byte).live.length = first.live.length + 1 := by
    rw [hlive, List.length_append, List.length_singleton]
  constructor
  · -- a stranded byte stays behind the frame that the last byte lets out
    intro hundecided hstrands
    obtain ⟨d, hd, hend⟩ := delivery_of_strands hbefore hafter.run hquiet' hstrands
    rw [← hsegments] at hd
    have hone : (byteTrace V first byte).1.live.length = 1 :=
      loopTrace_last V hsized hd (by omega)
    rw [rest_eq_last hafter.run hone, undecided_singleton_iff] at hundecided
    apply hstrands.last
    rw [byteAt_last]
    exact hundecided
  · intro hno
    rcases loopTrace_stray V hsized (Nat.le_refl _) (consumed (pieces ++ more)).length with
      hundecided | ⟨hone, d, hd, hend⟩
    · exact hundecided
    show Undecided V (byteTrace V first byte).1.live
    rw [rest_eq_last hafter.run hone, undecided_singleton_iff]
    -- a byte that is retained and is not `'O'` would be stranded
    by_contra hb
    apply hno
    replace hd : d ∈ deliveries (consumed (pieces ++ more)).length (byteTrace V first byte).2 := hd
    rw [hsegments] at hd
    exact strands_of_delivery hbefore hquiet hafter.run hb hd (by omega)

end Calls

/-- What is buffered is an undecided candidate; in particular it starts with `'O'`, and so does
    everything that a reset counts in `gap_resets`. -/
structure HoldsCandidate (V : WireVersion) (decoder : StreamDecoder) : Prop where
  undecided : Undecided V (decoder.buffer.take decoder.bufferedBytes)
  magic : decoder.bufferedBytes ≠ 0 → byteAt decoder.buffer 0 = magic0
  counted : (streamDecoderResetIncomplete decoder).stats.gapResets ≠ decoder.stats.gapResets →
    byteAt decoder.buffer 0 = magic0

/-- The shape of the live bytes is all there is to it. -/
theorem holdsCandidate_iff {V : WireVersion} {decoder : StreamDecoder} (h : decoder.Sized) :
    HoldsCandidate V decoder ↔ Undecided V decoder.live := by
  constructor
  · intro hholds
    exact hholds.undecided
  · intro hundecided
    have hmagic : decoder.bufferedBytes ≠ 0 → byteAt decoder.buffer 0 = magic0 := by
      intro hheld
      rw [← StreamDecoder.byteAt_live (by omega)]
      apply hundecided.first
      intro hnil
      rw [← decoder.length_live h, hnil] at hheld
      exact hheld rfl
    refine ⟨hundecided, hmagic, ?_⟩
    intro hcounted
    apply hmagic
    intro hzero
    rw [streamDecoderResetIncomplete, if_pos hzero] at hcounted
    exact hcounted rfl

section Runs

variable {σ : Type} (V : WireVersion) (callback : Option (DecodedFrame → σ → σ)) (context : σ)

/-- The decoder of a run does not depend on the callback. -/
theorem decoder_runOps (calls : List StreamOp) :
    (runOps V callback ⟨streamDecoderInit, 0, context⟩ calls).decoder =
      (opsTrace V streamDecoderInit calls).1 := by
  rw [runOps_eq]
  rfl

/-- A run holds candidates between its calls if and only if every feed call with some data leaves
    one. -/
theorem holdsCandidate_runs_iff {strands : List StreamOp → Span → Prop}
    (hfeed : ∀ calls data, data.data ≠ [] →
      (Undecided V (bytesTrace V (opsTrace V streamDecoderInit calls).1 data.data).1.live ↔
        ¬ strands calls data)) (ops : List StreamOp) :
    (∀ calls, calls <+: ops →
        HoldsCandidate V (runOps V callback ⟨streamDecoderInit, 0, context⟩ calls).decoder) ↔
      ∀ calls data, calls ++ [.feed data] <+: ops → data.data ≠ [] → ¬ strands calls data := by
  simp only [decoder_runOps]
  have hsized := fun calls => (quiet_opsTrace V calls).1
  have hlast : ∀ calls op, (opsTrace V streamDecoderInit (calls ++ [op])).1 =
      (opTrace V (opsTrace V streamDecoderInit calls).1 op).1 := by
    intro calls op
    rw [opsTrace_append]
    rfl
  constructor
  · intro hholds calls data hcalls hdata
    have hafter := (hholds _ hcalls).undecided
    rw [← StreamDecoder.live, hlast] at hafter
    exact (hfeed calls data hdata).mp hafter
  · intro hstrands calls hcalls
    rw [holdsCandidate_iff (hsized calls)]
    -- along the calls, the last one first
    induction calls using List.reverseRecOn with
    | nil => exact .inl rfl
    | append_singleton calls op ih =>
      rw [hlast]
      cases op with
      | resetIncomplete =>
        exact .inl (streamDecoderResetIncomplete_spec (hsized calls)).2
      | feed data =>
        by_cases hdata : data.data = []
        · -- nothing is fed
          rw [opTrace, hdata]
          exact ih ((List.prefix_append calls _).trans hcalls)
        · exact (hfeed calls data hdata).mpr (hstrands calls data hcalls hdata)

/-- **A run holds candidates between its calls if and only if no call strands its last byte.** -/
theorem undecided_between_calls_iff (ops : List StreamOp) :
    (∀ calls, calls <+: ops →
        HoldsCandidate V (runOps V callback ⟨streamDecoderInit, 0, context⟩ calls).decoder) ↔
      ∀ calls data, calls ++ [.feed data] <+: ops → data.data ≠ [] →
        ¬ Strands V ((runOps V callback ⟨streamDecoderInit, 0, context⟩ calls).decoder.live ++
          data.data) := by
  apply holdsCandidate_runs_iff
  intro calls data hdata
  obtain ⟨hsized, hquiet⟩ := quiet_opsTrace V calls
  rw [decoder_runOps]
  exact undecided_feed_iff V hsized (.nil _) hquiet hdata

/-- **The same by the bytes fed alone**: no call strands its last byte behind what has been fed
    since the last reset. -/
theorem undecided_between_calls_iff_fed (ops : List StreamOp) :
    (∀ calls, calls <+: ops →
        HoldsCandidate V (runOps V callback ⟨streamDecoderInit, 0, context⟩ calls).decoder) ↔
      ∀ calls data, calls ++ [.feed data] <+: ops → data.data ≠ [] →
        ¬ Strands V (fedSinceReset (calls ++ [.feed data])) := by
  apply holdsCandidate_runs_iff
  intro calls data hdata
  obtain ⟨past, now, hcut, hacc⟩ := accounts_opsTrace V calls
  rw [fedSinceReset_feed hcut]
  exact undecided_feed_iff V hacc.sized (hacc.live_eq ▸ now.run) (hacc.live_eq ▸ now.quiet) hdata

end Runs

/-- **A stranded byte.** The header of a frame with eleven bytes of payload, an identify request
    in the place of the payload and the first byte of the checksum, and a zero: the request is
    delivered, the zero is retained, and a reset counts it as a gap. -/
theorem noise_retained :
    let fed := frameHeader wireVersion1 0 0 0 11 ++ frameBytes wireVersion1 4 [] 1 0 ++ [0]
    (decoderRun wireVersion1 [.feed (.bytes fed)]).context = [frameOf wireVersion1 4 [] 1 0] ∧
      (decoderRun wireVersion1 [.feed (.bytes fed)]).decoder.live = [0] ∧
      (decoderRun wireVersion1 [.feed (.bytes fed), .resetIncomplete]).decoder.stats.gapResets = 1 ∧
      ¬ HoldsCandidate wireVersion1 (decoderRun wireVersion1 [.feed (.bytes fed)]).decoder := by
  have hlive : (decoderRun wireVersion1 [.feed (.bytes (frameHeader wireVersion1 0 0 0 11 ++
      frameBytes wireVersion1 4 [] 1 0 ++ [0]))]).decoder.live = [0] := by decide +kernel
  refine ⟨by decide +kernel, hlive, by decide +kernel, ?_⟩
  intro hholds
  have hzero := hholds.undecided
  rw [← StreamDecoder.live, hlive, undecided_singleton_iff] at hzero
  exact absurd hzero (by decide)

end Oomwoo
