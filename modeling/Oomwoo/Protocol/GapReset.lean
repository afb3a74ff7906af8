import Oomwoo.Protocol.Deliveries

namespace Oomwoo

open Bytes Scanning

/-!
# A frame behind a corrupted one, and the receive-gap reset

`streamDecoderResetIncomplete` drops the whole buffer.  If the bytes before a valid frame make
the decoder wait for a candidate that reaches beyond that frame, the frame is dropped with it.
`delivered_across_gap_iff` says exactly when that does not happen: the decoder is done with
every candidate it meets before the frame by the time the frame starts, or can reject it within
the bytes fed.  Deliveries are told apart by where they start, so an equal frame among the bytes
before is one of its own.
-/

/-- The scan from `p` meets position `q`: nothing before it that was met is a valid frame
    covering it. -/
inductive Exposed (V : WireVersion) (B : List UInt8) : Nat → Nat → Prop
  | here (p : Nat) : Exposed V B p p
  | skip {p q : Nat} (hinvalid : ∀ frame, ¬ ValidFrameAt V B p frame)
      (hrest : Exposed V B (p + 1) q) : Exposed V B p q
  | jump {p q : Nat} {frame : DecodedFrame} (hvalid : ValidFrameAt V B p frame)
      (hrest : Exposed V B (p + (12 + declaredLength (B.drop p))) q) : Exposed V B p q

/-- A candidate at `q` does not get in the way of what starts at `m`: it ends before `m`, or it
    ends inside the bytes there are and is not a valid frame. -/
def Resolved (V : WireVersion) (B : List UInt8) (m q : Nat) : Prop :=
  Candidate V (B.drop q) →
    q + (12 + declaredLength (B.drop q)) ≤ m ∨
      (q + (12 + declaredLength (B.drop q)) ≤ B.length ∧ ∀ frame, ¬ ValidFrameAt V B q frame)

theorem Exposed.le {V : WireVersion} {B : List UInt8} {p q : Nat} (h : Exposed V B p q) :
    p ≤ q := by
  induction h with
  | here p => exact Nat.le_refl p
  | skip _ _ ih => omega
  | jump _ _ ih => omega

variable {V : WireVersion} {B r : List UInt8} {pieces : List (ScanEvent × List UInt8)}
  {p m : Nat} {frame : DecodedFrame}

/-- A valid frame lies inside the bytes. -/
theorem ValidFrameAt.length_le (h : ValidFrameAt V B p frame) :
    p + (12 + declaredLength (B.drop p)) ≤ B.length := by
  have hle := (frameScanner V).step_le h.scanStep
  rw [List.length_drop] at hle
  omega

/-- Where the scanner consumes one byte there is no valid frame. -/
theorem not_validFrameAt_of_scanStep {e : ScanEvent} {k : Nat}
    (h : scanStep V (B.drop p) = some (e, k)) (he : e.isFrame = false) (f : DecodedFrame) :
    ¬ ValidFrameAt V B p f := by
  intro hvalid
  rw [hvalid.scanStep] at h
  obtain ⟨rfl, _⟩ := Prod.mk.inj (Option.some.inj h)
  cases he

/-- Where the scanner finds a frame there is a valid one. -/
theorem validFrameAt_of_scanStep {k : Nat}
    (h : scanStep V (B.drop p) = some (.frame frame, k)) :
    ValidFrameAt V B p frame ∧ k = 12 + declaredLength (B.drop p) := by
  obtain ⟨hk, hp⟩ := scanStep_frame_iff.mp h
  rw [hk] at hp
  exact ⟨(decodeFrame_ok_iff _ _ _ _).mpr hp, hk⟩

/-- If every candidate met before it is resolved, a valid frame is delivered. -/
theorem mem_deliveries_of_resolved (h : RunAt V B r p pieces)
    (hquiet : Quiet V r) (hvalid : ValidFrameAt V B m frame)
    (hend : m + (12 + declaredLength (B.drop m)) ≤ B.length) (hpm : p ≤ m)
    (hresolved : ∀ q < m, Exposed V B p q → Resolved V B m q) :
    ⟨m, 12 + declaredLength (B.drop m), frame⟩ ∈ deliveries p (pieces.map Segment.ofPiece) := by
  induction h with
  | @rest p hrest =>
    subst hrest
    -- the rest starts at an open candidate that is not resolved
    exfalso
    have hlong : 10 ≤ (B.drop p).length := by rw [List.length_drop]; omega
    obtain ⟨hcandidate, hopen⟩ := hquiet.candidate hlong
    rw [List.length_drop] at hopen
    rcases Nat.lt_or_ge p m with hlt | hge
    · rcases hresolved p hlt (.here p) hcandidate with h | ⟨h, _⟩ <;> omega
    · obtain rfl : p = m := by omega
      omega
  | @discard p event pieces hevent hp hstep _ ih =>
    -- a discarded byte is in front of the frame
    have hinvalid := not_validFrameAt_of_scanStep hstep hevent
    have hne : p ≠ m := by
      rintro rfl
      exact hinvalid frame hvalid
    rw [deliveries_discard hevent hp]
    exact ih (by omega) fun q hq hexp => hresolved q hq (.skip hinvalid hexp)
  | @deliver p k f pieces _ hp hstep _ ih =>
    obtain ⟨hframe, hlen⟩ := validFrameAt_of_scanStep hstep
    rw [deliveries_deliver hp]
    rcases Nat.lt_or_ge p m with hlt | hge
    · -- a valid frame in front of it ends in front of it
      have hbefore : p + k ≤ m := by
        rcases hresolved p hlt (.here p) (scanStep_frame hstep).1 with h | ⟨_, h⟩
        · omega
        · exact absurd hframe (h f)
      apply List.mem_cons_of_mem
      apply ih hbefore
      intro q hq hexp
      apply hresolved q hq
      rw [hlen] at hexp
      exact .jump hframe hexp
    · obtain rfl : p = m := by omega
      have hsame := hvalid.scanStep
      rw [hstep] at hsame
      obtain ⟨hf, rfl⟩ := Prod.mk.inj (Option.some.inj hsame)
      cases hf
      exact List.mem_cons_self

/-- If a frame at `m` is delivered, every candidate met before it is resolved. -/
theorem resolved_of_mem_deliveries (h : RunAt V B r p pieces) {d : Delivery}
    (hd : d ∈ deliveries p (pieces.map Segment.ofPiece)) {q : Nat} (hq : q < d.start)
    (hexp : Exposed V B p q) : Resolved V B d.start q := by
  induction h with
  | rest _ => cases hd
  | @discard p event pieces hevent hp hstep _ ih =>
    have hinvalid := not_validFrameAt_of_scanStep hstep hevent
    rw [deliveries_discard hevent hp] at hd
    cases hexp with
    | here =>
      -- a rejected candidate was complete
      intro hcandidate
      refine .inr ⟨?_, hinvalid⟩
      by_contra hopen
      rw [scanStep_open hcandidate (by rw [List.length_drop]; omega)] at hstep
      cases hstep
    | skip _ hrest => exact ih hd hrest
    | jump hvalid _ => exact absurd hvalid (hinvalid _)
  | @deliver p k f pieces _ hp hstep _ ih =>
    obtain ⟨hframe, rfl⟩ := validFrameAt_of_scanStep hstep
    rw [deliveries_deliver hp] at hd
    rcases List.mem_cons.mp hd with rfl | hd
    · -- nothing is met before the first delivery
      exact absurd hexp.le (Nat.not_le_of_gt hq)
    · cases hexp with
      | here => exact fun _ => .inl (deliveries_bounds hd).1
      | skip hinvalid _ => exact absurd hframe (hinvalid f)
      | jump _ hrest => exact ih hd hrest

/-- A reset delivers nothing. -/
theorem deliveries_reset (V : WireVersion) (ops : List StreamOp) :
    deliveries 0 (runSegments V (ops ++ [.resetIncomplete])) =
      deliveries 0 (runSegments V ops) := by
  have hgap : ∀ (p : Nat) (left : List UInt8), deliveries p (gapSegments left) = [] := by
    intro p left
    cases left <;> rfl
  unfold runSegments
  rw [opsTrace_append, deliveries_append]
  simp only [opsTrace, opTrace, List.append_nil, hgap]

/-- **When a frame survives the gap.** After any bytes `c` and then the encoder's output `f` have
    been fed and the receive-gap reset was made, the callback has run exactly once for `f` where it
    was fed, behind `c` (an equal frame inside `c` is another delivery), and the reset found no
    complete valid frame to drop, if and only if every candidate header met before `f` is resolved
    by the time `f` starts or can be rejected within the bytes fed. -/
theorem delivered_across_gap_iff (V : WireVersion) (c f : List UInt8) (messageType : UInt16)
    (payload : Span) (sequence : UInt16) (flags : UInt8)
    (hf : EncodesTo V messageType payload sequence flags f) (ops : List StreamOp)
    (hops : StreamOp.resetIncomplete ∉ ops) (hfed : fedBytes ops = c ++ f) :
    let delivered := deliveries 0 (runSegments V (ops ++ [.resetIncomplete]))
    delivered.map Delivery.frame = (decoderRun V (ops ++ [.resetIncomplete])).context ∧
      ((delivered.filter (fun d => d.start = c.length) =
          [⟨c.length, f.length, frameOf V messageType payload.data sequence flags⟩] ∧
        ∀ q frame, ¬ ValidFrameAt V (decoderRun V ops).decoder.live q frame) ↔
      ∀ q < c.length, Exposed V (c ++ f) 0 q → Resolved V (c ++ f) c.length q) := by
  obtain ⟨now, hnow, _, hsegments⟩ := run_of_no_reset V hops
  have hrun : RunAt V (c ++ f) now.left 0 now.pieces := by
    rw [← hfed, ← hnow]
    exact now.runAt
  have hdeliveries : deliveries 0 (runSegments V (ops ++ [.resetIncomplete])) =
      deliveries 0 (now.pieces.map Segment.ofPiece) := by
    rw [deliveries_reset, hsegments, Epoch.segments]
  have hvalid : ValidFrameAt V (c ++ f) c.length
      (frameOf V messageType payload.data sequence flags) := by
    have h := hf.validFrameAt c []
    rwa [List.append_nil] at h
  have hdeclared : 12 + declaredLength ((c ++ f).drop c.length) = f.length := by
    rw [List.drop_left]
    have h := hf.declared []
    rwa [List.append_nil] at h
  have hend : c.length + (12 + declaredLength ((c ++ f).drop c.length)) = (c ++ f).length := by
    rw [hdeclared, List.length_append]
  rw [hdeliveries]
  refine ⟨?_, ⟨?_, ?_⟩⟩
  · rw [← hdeliveries]
    exact map_frame_runSegments V _
  · rintro ⟨honce, _⟩ q hq hexp
    have hmem : ⟨c.length, f.length, frameOf V messageType payload.data sequence flags⟩ ∈
        deliveries 0 (now.pieces.map Segment.ofPiece) :=
      (List.mem_filter.mp (honce ▸ List.mem_singleton_self _)).1
    exact resolved_of_mem_deliveries hrun hmem hq hexp
  · intro hresolved
    have hmem := mem_deliveries_of_resolved hrun now.quiet hvalid hend.le (Nat.zero_le _)
      hresolved
    rw [hdeclared] at hmem
    refine ⟨filter_start_eq (deliveries_pairwise _ _)
      (fun d hd => length_pos_of_mem_deliveries hrun hd) hmem, ?_⟩
    intro q frame hleft
    -- the frame ends the bytes, so nothing is left for the reset to find
    rw [← hdeliveries, deliveries_reset] at hmem
    have hlive := live_eq_nil_of_delivery hmem (by rw [hfed, List.length_append])
    have hinside := hleft.length_le
    rw [hlive, List.length_nil] at hinside
    omega

/-- Behind an identify request with a wrong checksum the next one survives the gap. -/
theorem delivered_across_gap_bad_crc :
    (deliveries 0 (runSegments wireVersion1
      [.feed (.bytes ((frameBytes wireVersion1 4 [] 1 0).set 11 0)),
        .feed (.bytes (frameBytes wireVersion1 4 [] 2 0)), .resetIncomplete])).filter
          (fun d => d.start = 12) = [⟨12, 12, frameOf wireVersion1 4 [] 2 0⟩] := by
  have hencoded : EncodesTo wireVersion1 4 (.bytes []) 2 0 (frameBytes wireVersion1 4 [] 2 0) :=
    encodesTo_iff.mpr ⟨.inl rfl, Nat.zero_le _, rfl⟩
  -- the only candidate in the first frame is the frame itself, and it ends where the next starts
  have hfirst : ∀ q < 12, byteAt (((frameBytes wireVersion1 4 [] 1 0).set 11 0 ++
      frameBytes wireVersion1 4 [] 2 0).drop q) 0 = magic0 → q = 0 := by decide +kernel
  have hdeclared : 0 + (12 + declaredLength (((frameBytes wireVersion1 4 [] 1 0).set 11 0 ++
      frameBytes wireVersion1 4 [] 2 0).drop 0)) ≤ 12 := by decide +kernel
  refine ((delivered_across_gap_iff wireVersion1 ((frameBytes wireVersion1 4 [] 1 0).set 11 0)
    (frameBytes wireVersion1 4 [] 2 0) 4 (.bytes []) 2 0 hencoded
    [.feed (.bytes ((frameBytes wireVersion1 4 [] 1 0).set 11 0)),
      .feed (.bytes (frameBytes wireVersion1 4 [] 2 0))] (by simp)
    (by simp [fedBytes])).2.mpr ?_).1
  intro q hq _ hcandidate
  obtain rfl := hfirst q (by simpa using hq) hcandidate.magic.first
  exact .inl (by simpa using hdeclared)

/-- **A frame lost across the gap.** One byte of an identify request, the low byte of its length,
    is changed to `0xf0`; the request behind it is complete in the buffer when the gap reset
    drops it, and no callback has run. -/
theorem frame_lost_across_gap :
    let sent := frameBytes wireVersion1 4 [] 1 0
    let corrupted := sent.set 8 0xf0
    let next := frameBytes wireVersion1 4 [] 2 0
    let feeds := [.feed (.bytes corrupted), .feed (.bytes next)]
    EncodesTo wireVersion1 4 (.bytes []) 1 0 sent ∧
      EncodesTo wireVersion1 4 (.bytes []) 2 0 next ∧
      byteAt sent 8 ≠ 0xf0 ∧
      ValidFrameAt wireVersion1 (decoderRun wireVersion1 feeds).decoder.live 12
        (frameOf wireVersion1 4 [] 2 0) ∧
      (decoderRun wireVersion1 (feeds ++ [.resetIncomplete])).context = [] ∧
      (decoderRun wireVersion1 (feeds ++ [.resetIncomplete])).decoder.live = [] := by
  refine ⟨encodesTo_iff.mpr ⟨.inl rfl, Nat.zero_le _, rfl⟩,
    encodesTo_iff.mpr ⟨.inl rfl, Nat.zero_le _, rfl⟩, by decide +kernel, ?_, by decide +kernel,
    by decide +kernel⟩
  have hlive : (decoderRun wireVersion1 [.feed (.bytes ((frameBytes wireVersion1 4 [] 1 0).set 8
      0xf0)), .feed (.bytes (frameBytes wireVersion1 4 [] 2 0))]).decoder.live =
        (frameBytes wireVersion1 4 [] 1 0).set 8 0xf0 ++
          (frameBytes wireVersion1 4 [] 2 0 ++ []) := by decide +kernel
  show ValidFrameAt _ (decoderRun wireVersion1 _).decoder.live _ _
  rw [hlive]
  exact validFrameAt_frameBytes wireVersion1 4 2 0 (by simp) _ []

end Oomwoo
