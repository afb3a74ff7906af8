import Oomwoo.Ingress.Admission

namespace Oomwoo

open Bytes Scanning

/-!
# The ingress counters account for every delivered frame

What the framing layer delivers is a complete valid frame with the compiled version and a payload
pointer, and what travels towards the MCU has a layout.  So four answers of the gate never occur
behind the decoder (`isCounted_of_parseFrame`), the counting switch never takes its silent branch,
and the counters of the ingress add up to the frame counter of its decoder
(`delivered_frames_counted`).
-/

/-- The counter that belongs to an answer of the gate; two answers have none. -/
def CpuIngressStats.counter (stats : CpuIngressStats) : CpuIngressResult → UInt32
  | .ok => stats.acceptedMessages
  | .wrongDirection => stats.wrongDirection
  | .unknownType => stats.unknownType
  | .payloadUndefined => stats.undefinedPayload
  | .wrongPayloadLength => stats.wrongPayloadLength
  | .valueOutOfRange => stats.valueOutOfRange
  | .codecError => stats.codecErrors
  | .nullArgument | .badVersion => 0

/-- The answers that the gate can give on a delivered frame. -/
def CpuIngressResult.isCounted : CpuIngressResult → Bool
  | .ok | .wrongDirection | .unknownType | .wrongPayloadLength | .valueOutOfRange => true
  | .nullArgument | .badVersion | .payloadUndefined | .codecError => false

theorem CpuIngressResult.isCounted_iff {result : CpuIngressResult} :
    result.isCounted = true ↔
      result ∈ [.ok, .wrongDirection, .unknownType, .wrongPayloadLength, .valueOutOfRange] := by
  cases result <;> decide

/-- The counters of these answers together. -/
def CpuIngressStats.counted (stats : CpuIngressStats) : UInt32 :=
  stats.acceptedMessages + stats.wrongDirection + stats.unknownType + stats.wrongPayloadLength +
    stats.valueOutOfRange

/-! ### Counting answers -/

section Counting

variable (stats : CpuIngressStats)

/-- One answer raises its own counter by one and no other. -/
theorem counter_record {result : CpuIngressResult} (h : result.isCounted = true)
    (other : CpuIngressResult) :
    (stats.record result).counter other =
      stats.counter other + UInt32.ofNat (decide (result = other)).toNat := by
  cases result with
  | nullArgument => cases h
  | badVersion => cases h
  | payloadUndefined => cases h
  | codecError => cases h
  | _ => cases other <;> first | rfl | exact (UInt32.add_zero _).symm

theorem counted_record {result : CpuIngressResult} (h : result.isCounted = true) :
    (stats.record result).counted = stats.counted + 1 := by
  unfold CpuIngressStats.counted
  cases result with
  | ok =>
    show stats.acceptedMessages + 1 + _ + _ + _ + _ = _
    ac_rfl
  | wrongDirection =>
    show _ + (stats.wrongDirection + 1) + _ + _ + _ = _
    ac_rfl
  | unknownType =>
    show _ + _ + (stats.unknownType + 1) + _ + _ = _
    ac_rfl
  | wrongPayloadLength =>
    show _ + _ + _ + (stats.wrongPayloadLength + 1) + _ = _
    ac_rfl
  | valueOutOfRange =>
    show _ + _ + _ + _ + (stats.valueOutOfRange + 1) = _
    ac_rfl
  | nullArgument => cases h
  | badVersion => cases h
  | payloadUndefined => cases h
  | codecError => cases h

variable {results : List CpuIngressResult} (h : ∀ result ∈ results, result.isCounted = true)
include h

/-- Each counter ends at the number of its answers. -/
theorem counter_foldl_record (other : CpuIngressResult) :
    (results.foldl .record stats).counter other =
      stats.counter other + UInt32.ofNat (results.countP (decide <| · = other)) := by
  induction results generalizing stats with
  | nil => exact (UInt32.add_zero _).symm
  | cons result results ih =>
    rw [List.foldl_cons, ih _ fun r hr => h r (List.mem_cons_of_mem _ hr),
      counter_record stats (h result List.mem_cons_self), UInt32.add_assoc, ← UInt32.ofNat_add,
      List.countP_cons, Nat.add_comm]
    congr 3
    cases decide (result = other) <;> rfl

/-- Together they end at the number of the answers. -/
theorem counted_foldl_record :
    (results.foldl .record stats).counted = stats.counted + UInt32.ofNat results.length := by
  induction results generalizing stats with
  | nil => exact (UInt32.add_zero _).symm
  | cons result results ih =>
    rw [List.foldl_cons, ih _ fun r hr => h r (List.mem_cons_of_mem _ hr),
      counted_record stats (h result List.mem_cons_self), List.length_cons, Nat.add_comm,
      UInt32.ofNat_add, UInt32.add_assoc]
    rfl

end Counting

/-! ### The gate behind the decoder -/

section Delivered

variable {V : WireVersion} {frame : DecodedFrame}

/-- **Four answers never occur on a frame that the framing layer accepted**, whatever the output
    held before. -/
theorem isCounted_of_parseFrame {bytes : List UInt8} (h : parseFrame V bytes = .ok frame)
    (prior : Message) :
    (cpuIngressValidateFrame V (some frame) (some prior)).1.isCounted = true := by
  obtain ⟨payload, _, hframe, _⟩ := frameBytes_of_parseFrame h
  -- the pointer is set and the version has been checked
  have hptr : frame.payload.isNull = false ∨ frame.payloadLength = 0 := by
    rw [hframe]
    exact .inl rfl
  have hversion : frame.version = V.byte := by
    rw [hframe]
    rfl
  by_cases hto : ∃ type, MessageType.ofCode? frame.messageType = some type ∧
      type.towardsMcu = true
  · obtain ⟨type, hcode, hto⟩ := hto
    rw [cpuIngressValidateFrame_towardsMcu hptr hversion hcode hto]
    split
    · rfl
    split
    · rfl
    · rfl
  · rw [cpuIngressValidateFrame_refused hptr hversion fun type hcode =>
      Bool.eq_false_iff.mpr fun h => hto ⟨type, hcode, h⟩]
    split
    · rfl
    · rfl

/-- Every frame delivered in a run was accepted by the complete-frame decoder. -/
theorem exists_parseFrame_of_delivered {ops : List StreamOp}
    (h : frame ∈ (decoderRun V ops).context) : ∃ bytes, parseFrame V bytes = .ok frame := by
  rw [decoderRun_eq] at h
  obtain ⟨segment, hmem, hframe⟩ := List.mem_filterMap.mp h
  obtain ⟨past, now, _, hacc⟩ := accounts_opsTrace V ops
  cases segment with
  | discarded bytes => cases hframe
  | delivered bytes f =>
    cases hframe
    exact ⟨bytes, hacc.delivered hmem⟩

/-- So none of the four answers occurs in a run. -/
theorem isCounted_of_delivered {ops : List StreamOp} (h : frame ∈ (decoderRun V ops).context)
    (prior : Message) :
    (cpuIngressValidateFrame V (some frame) (some prior)).1.isCounted = true := by
  obtain ⟨bytes, hparse⟩ := exists_parseFrame_of_delivered h
  exact isCounted_of_parseFrame hparse prior

theorem isCounted_verdicts (V : WireVersion) (ops : List StreamOp) :
    ∀ result ∈ (decoderRun V ops).context.map (verdict V), result.isCounted = true := by
  intro result h
  obtain ⟨frame, hframe, rfl⟩ := List.mem_map.mp h
  exact isCounted_of_delivered hframe .zero

/-- The frame counter counts the deliveries of a run. -/
theorem frames_decoderRun (V : WireVersion) (ops : List StreamOp) :
    (decoderRun V ops).decoder.stats.frames =
      UInt32.ofNat (decoderRun V ops).context.length := by
  obtain ⟨past, now, _, hacc⟩ := accounts_opsTrace V ops
  rw [decoderRun_eq]
  exact hacc.framesCounter_eq

end Delivered

/-! ### Runs -/

variable {κ : Type}

/-- What one more feed call of the decoder delivers belongs to the run that ends with it. -/
theorem mem_decoderRun_of_feed {V : WireVersion} {ops : List StreamOp} {data : Span}
    {frame : DecodedFrame}
    (h : frame ∈ (streamDecoderFeed V (some recordFrame) (decoderRun V ops).decoder data
      []).context) : frame ∈ (decoderRun V (ops ++ [.feed data])).context := by
  rw [streamDecoderFeed_eq, FeedState.deliverAll, foldl_recordFrame, List.nil_append,
    decoderRun_eq] at h
  rw [decoderRun_eq, opsTrace_append]
  simp only [opsTrace, opTrace, List.append_nil, segmentFrames_append]
  exact List.mem_append_right _ h

section Counters

variable (V : WireVersion) (callback : Option (DecodedFrame → Message → κ → κ)) (context : κ)
  (ops : List StreamOp)

/-- Each counter of a run is the number of frames with its answer. -/
theorem counter_ingressRun (result : CpuIngressResult) :
    (ingressRun V callback context ops).stats.counter result =
      UInt32.ofNat ((decoderRun V ops).context.countP (decide <| verdict V · = result)) := by
  have hzero : CpuIngressStats.zero.counter result = 0 := by cases result <;> rfl
  have hcounter := counter_foldl_record .zero (isCounted_verdicts V ops) result
  rw [hzero, UInt32.zero_add, List.countP_map] at hcounter
  rw [ingressRun_eq]
  exact hcounter

/-- An answer that does not occur leaves its counter at zero. -/
theorem counter_ingressRun_eq_zero (result : CpuIngressResult) (h : result.isCounted = false) :
    (ingressRun V callback context ops).stats.counter result = 0 := by
  have hnone : (decoderRun V ops).context.countP (decide <| verdict V · = result) = 0 := by
    rw [List.countP_eq_zero]
    intro frame hframe heq
    have hcounted := isCounted_of_delivered hframe .zero
    rw [← verdict, of_decide_eq_true heq, h] at hcounted
    cases hcounted
  rw [counter_ingressRun, hnone]
  rfl

/-- Together the counters of a run are the number of frames. -/
theorem counted_ingressRun :
    (ingressRun V callback context ops).stats.counted =
      UInt32.ofNat (decoderRun V ops).context.length := by
  have hcounted := counted_foldl_record .zero (isCounted_verdicts V ops)
  rw [List.length_map] at hcounted
  rw [ingressRun_eq]
  exact hcounted.trans (UInt32.zero_add _)

end Counters

/-- **Every delivered frame is counted once.** After every sequence of calls the frame counter of
    the decoder is the sum of the five counters that stand for what can become of a frame, each
    of them counts the frames with its answer, and the other two are zero; and whatever the next
    call feeds, the gate answers every frame it delivers with one of the five. -/
theorem delivered_frames_counted (V : WireVersion)
    (callback : Option (DecodedFrame → Message → κ → κ)) (context : κ) (ops : List StreamOp) :
    let run := ingressRun V callback context ops
    run.decoder.stats.frames =
        run.stats.acceptedMessages + run.stats.wrongDirection + run.stats.unknownType +
          run.stats.wrongPayloadLength + run.stats.valueOutOfRange ∧
      run.stats.undefinedPayload = 0 ∧ run.stats.codecErrors = 0 ∧
      (∀ result, run.stats.counter result =
        UInt32.ofNat ((decoderRun V ops).context.countP (decide <| verdict V · = result))) ∧
      ∀ (data : Span),
        ∀ frame ∈ (streamDecoderFeed V (some recordFrame) run.decoder data []).context,
          ∀ prior, (cpuIngressValidateFrame V (some frame) (some prior)).1 ∈
            [.ok, .wrongDirection, .unknownType, .wrongPayloadLength, .valueOutOfRange] := by
  have hframes : (ingressRun V callback context ops).decoder = (decoderRun V ops).decoder := by
    rw [ingressRun_eq]
    rfl
  simp only [hframes]
  refine ⟨?_, counter_ingressRun_eq_zero V callback context ops .payloadUndefined rfl,
    counter_ingressRun_eq_zero V callback context ops .codecError rfl,
    counter_ingressRun V callback context ops, ?_⟩
  · rw [frames_decoderRun]
    exact (counted_ingressRun V callback context ops).symm
  · intro data frame hframe prior
    exact CpuIngressResult.isCounted_iff.mp
      (isCounted_of_delivered (mem_decoderRun_of_feed hframe) prior)

end Oomwoo
