import Mathlib.Data.List.Forall2
import Oomwoo.Ingress.Gate

namespace Oomwoo

open Bytes Scanning

/-!
# What the consumer sees in a run

The ingress is the stream decoder with every delivered frame put through the gate.  So a run is
determined by the frames the decoder delivers (`ingressRun_eq`): the consumer is called on the
admitted ones, and every one of them is counted by the gate's answer to it.  Since the decoder
reads each frame from a stretch of its own, so is every admitted message
(`ingress_delivers_admitted`).
-/

variable {κ : Type}

/-! ### The frame callback -/

/-- The gate's answer to a delivered frame. -/
def verdict (V : WireVersion) (frame : DecodedFrame) : CpuIngressResult :=
  (cpuIngressValidateFrame V (some frame) (some .zero)).1

/-- A delivered frame with its message, if the gate says OK. -/
def admitted (V : WireVersion) (frame : DecodedFrame) : Option (DecodedFrame × Message) :=
  match cpuIngressValidateFrame V (some frame) (some .zero) with
  | (.ok, some message) => some (frame, message)
  | _ => none

/-- The counter that a verdict increments. -/
def CpuIngressStats.record (stats : CpuIngressStats) : CpuIngressResult → CpuIngressStats
  | .ok => { stats with acceptedMessages := stats.acceptedMessages + 1 }
  | result => countRejection stats result

/-- Call the consumer on one pair after the other. -/
def callAll (callback : Option (DecodedFrame → Message → κ → κ))
    (pairs : List (DecodedFrame × Message)) (context : κ) : κ :=
  pairs.foldl (fun context pair => invokeMessageCallback callback pair.1 pair.2 context) context

/-- What admission means, whatever the output held before. -/
theorem admitted_eq_some_iff {V : WireVersion} {frame : DecodedFrame}
    {pair : DecodedFrame × Message} (prior : Message) :
    admitted V frame = some pair ↔
      pair.1 = frame ∧
        cpuIngressValidateFrame V (some frame) (some prior) = (.ok, some pair.2) := by
  -- the gate clears the output first, so what it held does not matter
  have hprior : cpuIngressValidateFrame V (some frame) (some prior) = (.ok, some pair.2) ↔
      cpuIngressValidateFrame V (some frame) (some .zero) = (.ok, some pair.2) :=
    cpuIngressValidateFrame_ok_iff.trans cpuIngressValidateFrame_ok_iff.symm
  rw [hprior]
  unfold admitted
  constructor
  · intro h
    split at h
    · rename_i message hok
      cases h
      exact ⟨rfl, hok⟩
    · cases h
  · rintro ⟨rfl, hok⟩
    rw [hok]

/-- Behind an OK there is always a message. -/
theorem admitted_eq_none_iff {V : WireVersion} {frame : DecodedFrame} :
    admitted V frame = none ↔ verdict V frame ≠ .ok := by
  obtain ⟨message, hmessage⟩ := cpuIngressValidateFrame_output V frame .zero
  unfold admitted verdict
  generalize cpuIngressValidateFrame V (some frame) (some .zero) = answer at hmessage ⊢
  obtain ⟨result, output⟩ := answer
  cases hmessage
  cases result <;> simp

/-- **The frame callback** counts the verdict and calls the consumer on what was admitted. -/
theorem handleFrame_eq (V : WireVersion) (callback : Option (DecodedFrame → Message → κ → κ))
    (frame : DecodedFrame) (feed : FeedContext κ) :
    handleFrame V callback frame feed =
      { stats := feed.stats.record (verdict V frame)
        callbackContext := callAll callback (admitted V frame).toList feed.callbackContext
        accepted := feed.accepted + (admitted V frame).toList.length } := by
  cases h : admitted V frame with
  | some pair =>
    obtain ⟨rfl, hok⟩ := (admitted_eq_some_iff .zero).mp h
    unfold handleFrame verdict
    rw [hok]
    rfl
  | none =>
    -- not admitted: the callback takes the counting branch
    have hverdict := admitted_eq_none_iff.mp h
    unfold handleFrame
    split
    · rename_i hok
      exact absurd (congrArg Prod.fst hok) hverdict
    · rename_i result output _ hanswer
      have hresult : verdict V frame = result := congrArg Prod.fst hanswer
      rw [hresult] at hverdict ⊢
      cases result with
      | ok => exact absurd rfl hverdict
      | _ => rfl

/-- The frame callback on one frame after the other. -/
theorem foldl_handleFrame (V : WireVersion) (callback : Option (DecodedFrame → Message → κ → κ))
    (frames : List DecodedFrame) (feed : FeedContext κ) :
    frames.foldl (fun feed frame => invokeCallback (some (handleFrame V callback)) frame feed)
        feed =
      { stats := (frames.map (verdict V)).foldl .record feed.stats
        callbackContext := callAll callback (frames.filterMap (admitted V)) feed.callbackContext
        accepted := feed.accepted + (frames.filterMap (admitted V)).length } := by
  induction frames generalizing feed with
  | nil => rfl
  | cons frame frames ih =>
    rw [List.foldl_cons, ih]
    show FeedContext.mk _ _ _ = _
    simp only [invokeCallback, handleFrame_eq]
    cases h : admitted V frame with
    | none =>
      rw [List.filterMap_cons_none h]
      rfl
    | some pair =>
      rw [List.filterMap_cons_some h, List.length_cons, ← Nat.add_right_comm]
      rfl

/-! ### Runs -/

/-- The ingress after its decoder has delivered `frames` and become `decoder`. -/
def CpuIngress.deliverAll (V : WireVersion) (frames : List DecodedFrame) (decoder : StreamDecoder)
    (ingress : CpuIngress κ) : CpuIngress κ where
  decoder := decoder
  stats := (frames.map (verdict V)).foldl .record ingress.stats
  callback := ingress.callback
  callbackContext :=
    callAll ingress.callback (frames.filterMap (admitted V)) ingress.callbackContext

theorem CpuIngress.deliverAll_deliverAll (V : WireVersion) (a b : List DecodedFrame)
    (d e : StreamDecoder) (ingress : CpuIngress κ) :
    (ingress.deliverAll V a d).deliverAll V b e = ingress.deliverAll V (a ++ b) e := by
  simp [CpuIngress.deliverAll, callAll]

/-- **One feed call** puts the frames its bytes complete through the gate and returns how many
    passed. -/
theorem cpuIngressFeed_eq (V : WireVersion) (ingress : CpuIngress κ) (data : Span) :
    cpuIngressFeed V ingress data =
      (ingress.deliverAll V (segmentFrames (bytesTrace V ingress.decoder data.data).2)
          (bytesTrace V ingress.decoder data.data).1,
        ((segmentFrames (bytesTrace V ingress.decoder data.data).2).filterMap
          (admitted V)).length) := by
  unfold cpuIngressFeed
  split
  · rename_i h
    -- a null pointer with a length is refused and feeds nothing
    cases data with
    | null n => rfl
    | bytes bs => simp at h
  · rw [streamDecoderFeed_eq]
    simp only [FeedState.deliverAll, foldl_handleFrame, Nat.zero_add]
    rfl

theorem ingressOp_eq (V : WireVersion) (ingress : CpuIngress κ) (op : StreamOp) :
    ingressOp V ingress op =
      ingress.deliverAll V (segmentFrames (opTrace V ingress.decoder op).2)
        (opTrace V ingress.decoder op).1 := by
  cases op with
  | feed data =>
    show (cpuIngressFeed V ingress data).1 = _
    rw [cpuIngressFeed_eq]
    rfl
  | resetIncomplete =>
    rw [opTrace, segmentFrames_gapSegments]
    rfl

/-- A run of the ingress, by the trace of its decoder. -/
theorem ingressOps_eq (V : WireVersion) (ingress : CpuIngress κ) (ops : List StreamOp) :
    ingressOps V ingress ops =
      ingress.deliverAll V (segmentFrames (opsTrace V ingress.decoder ops).2)
        (opsTrace V ingress.decoder ops).1 := by
  induction ops generalizing ingress with
  | nil => rfl
  | cons op ops ih =>
    rw [ingressOps, List.foldl_cons, ← ingressOps, ih, ingressOp_eq,
      CpuIngress.deliverAll_deliverAll, opsTrace, segmentFrames_append]
    rfl

/-- **Runs of the ingress refine runs of the decoder.** Whatever the consumer does, the ingress
    has the decoder that the same calls leave without it, and everything else is determined by
    the frames these calls deliver. -/
theorem ingressRun_eq (V : WireVersion) (callback : Option (DecodedFrame → Message → κ → κ))
    (context : κ) (ops : List StreamOp) :
    ingressRun V callback context ops =
      (cpuIngressInit callback context).deliverAll V (decoderRun V ops).context
        (decoderRun V ops).decoder := by
  rw [ingressRun, ingressOps_eq, decoderRun_eq]
  rfl

/-- Recording records. -/
theorem callAll_recordMessage (pairs log : List (DecodedFrame × Message)) :
    callAll (some recordMessage) pairs log = log ++ pairs := by
  induction pairs generalizing log with
  | nil => exact (List.append_nil log).symm
  | cons pair pairs ih =>
    rw [callAll, List.foldl_cons, ← callAll, ih, invokeMessageCallback, recordMessage]
    simp

/-- The log of a run is the admitted part of what the decoder delivers. -/
theorem ingressLog_eq (V : WireVersion) (ops : List StreamOp) :
    ingressLog V ops = (decoderRun V ops).context.filterMap (admitted V) := by
  rw [ingressLog, ingressRun_eq]
  exact callAll_recordMessage _ []

/-! ### Where the admitted messages come from -/

/-- The bounds of the contract on the fields of a command. -/
def CommandInRange (message : Message) : Prop :=
  let payload := message.payload
  match MessageType.ofCode? message.type with
  | some .heartbeat => payload.heartbeat.cpuMode = 0 ∨ payload.heartbeat.cpuMode = 1
  | some .estopSet => payload.estopSet.active.toNat ≤ 1
  | some .driveSetpoint =>
    payload.driveSetpoint.linearMmS.toInt.natAbs ≤ 500 ∧
      payload.driveSetpoint.angularMradS.toInt.natAbs ≤ 4000 ∧
      1 ≤ payload.driveSetpoint.durationMs.toNat ∧ payload.driveSetpoint.durationMs.toNat ≤ 250
  | some .cleaningMotorsSet =>
    payload.cleaningMotorsSet.mainBrushPct.toNat ≤ 100 ∧
      payload.cleaningMotorsSet.sideBrushPct.toNat ≤ 100 ∧
      payload.cleaningMotorsSet.fanPct.toNat ≤ 100 ∧
      payload.cleaningMotorsSet.pumpPct.toNat ≤ 100
  | some .lidarMotorSet => payload.lidarMotorSet.pwmPct.toNat ≤ 100
  | some .ledSet => payload.ledSet.brightnessPct.toNat ≤ 100
  | _ => True

/-- The comparisons of the validator are these bounds. -/
theorem commandInRange_of_inRange {message : Message} {type : MessageType}
    (h : MessageType.ofCode? message.type = some type)
    (hrange : type.inRange message.payload = true) : CommandInRange message := by
  unfold CommandInRange
  rw [h]
  cases type with
  | heartbeat => simpa [MessageType.inRange, messageIsKnownCpuMode] using hrange
  | estopSet => simpa [MessageType.inRange, UInt8.le_iff_toNat_le] using hrange
  | driveSetpoint => exact (inRange_driveSetpoint_iff _).mp hrange
  | cleaningMotorsSet =>
    simpa [MessageType.inRange, UInt8.lt_iff_toNat_lt, maxPercent, and_assoc] using hrange
  | lidarMotorSet => simpa [MessageType.inRange, UInt8.le_iff_toNat_le, maxPercent] using hrange
  | ledSet => simpa [MessageType.inRange, UInt8.le_iff_toNat_le, maxPercent] using hrange
  | _ => trivial

/-- An admitted message and the stretch of `B` it was read from: the stretch lies inside `B`, it
    is a complete valid frame, and the frame passed every check of the gate. -/
structure AdmittedSlice (V : WireVersion) (B : List UInt8) (slice : Delivery × Message) :
    Prop where
  inside : slice.1.start + slice.1.length ≤ B.length
  valid : decodeFrame V (.bytes ((B.drop slice.1.start).take slice.1.length)) (some .zero) =
    (.ok, some slice.1.frame)
  direction : messageDirection slice.1.frame.messageType = .cpuToMcu ∨
    messageDirection slice.1.frame.messageType = .both
  sized : messagePayloadSize slice.1.frame.messageType (some 0) =
    (.ok, some slice.1.frame.payloadLength)
  decoded : ∀ prior, cpuIngressValidateFrame V (some slice.1.frame) (some prior) =
    (.ok, some slice.2)
  inRange : CommandInRange slice.2

/-- What the gate makes of deliveries is what it makes of their frames. -/
theorem map_filterMap_admitted (V : WireVersion) (ds : List Delivery) :
    (ds.filterMap fun d => (admitted V d.frame).map fun pair => (d, pair.2)).map
        (fun slice => (slice.1.frame, slice.2)) =
      (ds.map Delivery.frame).filterMap (admitted V) := by
  rw [List.map_filterMap, List.filterMap_map]
  congr 1
  funext d
  show ((admitted V d.frame).map _).map _ = admitted V d.frame
  cases h : admitted V d.frame with
  | none => rfl
  | some pair =>
    obtain ⟨hframe, _⟩ := (admitted_eq_some_iff .zero).mp h
    rw [Option.map_some, Option.map_some, ← hframe]

/-- The deliveries of an epoch that the gate admits, with their messages. -/
def Epoch.admittedSlices {V : WireVersion} (epoch : Epoch V) : List (Delivery × Message) :=
  (deliveries 0 epoch.segments).filterMap fun d =>
    (admitted V d.frame).map fun pair => (d, pair.2)

section Slices

variable {V : WireVersion} (epoch : Epoch V)

/-- The pairs of the slices are what the gate makes of the frames. -/
theorem map_admittedSlices :
    epoch.admittedSlices.map (fun slice => (slice.1.frame, slice.2)) =
      (segmentFrames epoch.segments).filterMap (admitted V) := by
  rw [Epoch.admittedSlices, map_filterMap_admitted, map_frame_deliveries]

theorem pairwise_admittedSlices :
    epoch.admittedSlices.Pairwise fun a b => a.1.start + a.1.length ≤ b.1.start := by
  unfold Epoch.admittedSlices
  rw [List.pairwise_filterMap]
  apply (deliveries_pairwise 0 epoch.segments).imp
  intro a b hab x hx y hy
  obtain ⟨_, _, rfl⟩ := Option.map_eq_some_iff.mp hx
  obtain ⟨_, _, rfl⟩ := Option.map_eq_some_iff.mp hy
  exact hab

/-- **Every admitted message passed every gate.** -/
theorem admittedSlice_of_mem {slice : Delivery × Message} (h : slice ∈ epoch.admittedSlices) :
    AdmittedSlice V epoch.bytes slice := by
  obtain ⟨d, hd, hmap⟩ := List.mem_filterMap.mp h
  obtain ⟨⟨frame, message⟩, hadmitted, rfl⟩ := Option.map_eq_some_iff.mp hmap
  obtain ⟨hinside, hvalid⟩ := epoch.decodeFrame_of_mem hd
  have hok := fun prior => ((admitted_eq_some_iff prior).mp hadmitted).2
  obtain ⟨_, hdirection, hdecode⟩ := cpuIngressValidateFrame_ok_iff.mp (hok .zero)
  -- what the payload decoder has checked
  obtain ⟨_, type, hcode, hdefined, hlen, hmessage, hrange⟩ :=
    messageDecodePayload_ok_iff.mp hdecode
  refine ⟨hinside, hvalid, hdirection, ?_, hok, ?_⟩
  · show _ = (MessageResult.ok, some d.frame.payload.length)
    rw [hlen]
    exact messagePayloadSize_defined hcode hdefined
  · apply commandInRange_of_inRange _ hrange
    rw [hmessage]
    exact hcode

end Slices

/-- **The ingress delivers exactly what the gate admits.** In every run, whatever the consumer
    does, its calls are the delivered frames that the gate answers with OK, in order and once
    each, with the messages the gate makes of them; and they fall into the stretches between two
    resets, each call with a slice of its own that passed every check. -/
theorem ingress_delivers_admitted (V : WireVersion) (ops : List StreamOp) :
    let log := ingressLog V ops
    log = (decoderRun V ops).context.filterMap (admitted V) ∧
      (∀ (κ : Type) (callback : DecodedFrame → Message → κ → κ) (context : κ),
        let run := ingressRun V (some callback) context ops
        run.decoder = (decoderRun V ops).decoder ∧
          run.callbackContext =
            log.foldl (fun context pair => callback pair.1 pair.2 context) context) ∧
      ∃ slices : List (List (Delivery × Message)),
        log = slices.flatten.map (fun slice => (slice.1.frame, slice.2)) ∧
          List.Forall₂
            (fun B slices =>
              slices.Pairwise (fun a b => a.1.start + a.1.length ≤ b.1.start) ∧
                ∀ slice ∈ slices, AdmittedSlice V B slice)
            (cutAtResets ops) slices := by
  refine ⟨ingressLog_eq V ops, ?_, ?_⟩
  · intro κ callback context
    rw [ingressLog_eq, ingressRun_eq]
    exact ⟨rfl, rfl⟩
  -- the epochs of the run are the stretches between the resets
  obtain ⟨past, now, hcut, hacc⟩ := accounts_opsTrace V ops
  refine ⟨(past ++ [now]).map Epoch.admittedSlices, ?_, ?_⟩
  · rw [ingressLog_eq, decoderRun_eq]
    show (segmentFrames _).filterMap (admitted V) = _
    rw [hacc.frames_eq, List.filterMap_flatMap, List.filterMap_flatMap, ← List.flatMap_def,
      List.map_flatMap]
    congr 1
    funext epoch
    rw [map_admittedSlices, Epoch.segments, segmentFrames_ofPieces]
  · have hcut' : cutAtResets ops = (past ++ [now]).map Epoch.bytes := by
      rw [hcut, List.map_append]
      rfl
    rw [hcut', List.forall₂_map_left_iff, List.forall₂_map_right_iff, List.forall₂_same]
    intro epoch _
    exact ⟨pairwise_admittedSlices epoch, fun slice hslice => admittedSlice_of_mem epoch hslice⟩

end Oomwoo
