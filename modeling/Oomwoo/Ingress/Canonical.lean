import Oomwoo.Ingress.TypedStream

namespace Oomwoo

open Bytes Scanning

/-!
# Accepted messages have one wire form

Every message that the ingress hands to the consumer is, encoded again under the header fields of
its frame, exactly the stretch of the input it was read from.  So what the ingress accepts of an
arbitrary input is itself a clean stream, of which the ingress accepts everything
(`accepted_encoded_again`).
-/

/-- `bytes` is what the payload encoder and then the frame encoder make of a message, under the
    header fields of the frame it came in. -/
def EncodedAgain (V : WireVersion) (pair : DecodedFrame × Message) (bytes : List UInt8) : Prop :=
  ∃ payload : Span, PayloadEncodesTo pair.2 payload.data ∧
    EncodesTo V pair.2.type payload pair.1.sequence pair.1.flags bytes

/-- The stretches of `B` from which messages were accepted. -/
def acceptedSlices (V : WireVersion) (B : List UInt8) (ds : List Delivery) : List (List UInt8) :=
  (ds.filter fun d => (admitted V d.frame).isSome).map fun d => (B.drop d.start).take d.length

section Again

variable {V : WireVersion} {frame : DecodedFrame} {bytes : List UInt8}
  {pair : DecodedFrame × Message}

/-- Encoders are functions. -/
theorem EncodedAgain.unique {a b : List UInt8} (ha : EncodedAgain V pair a)
    (hb : EncodedAgain V pair b) : a = b := by
  obtain ⟨payload, hpayload, ha⟩ := ha
  obtain ⟨payload', hpayload', hb⟩ := hb
  obtain ⟨type, hcode, _, _, hdata⟩ := payloadEncodesTo_iff.mp hpayload
  obtain ⟨type', hcode', _, _, hdata'⟩ := payloadEncodesTo_iff.mp hpayload'
  obtain rfl : type = type' := Option.some.inj (hcode.symm.trans hcode')
  rw [ha.eq_frameBytes, hb.eq_frameBytes, hdata, hdata']

/-- **What was accepted encodes to the bytes it was read from**, which carry its frame. -/
theorem encodedAgain_of_admitted (hparse : parseFrame V bytes = .ok frame)
    (h : admitted V frame = some pair) :
    EncodedAgain V pair bytes ∧
      ∃ carrier : NoisyFrame V, carrier.noise = [] ∧ carrier.bytes = bytes ∧
        carrier.frame = pair.1 := by
  obtain ⟨hframe, hok⟩ := (admitted_eq_some_iff .zero).mp h
  obtain ⟨_, _, hdecode⟩ := cpuIngressValidateFrame_ok_iff.mp hok
  obtain ⟨htype, hmessage⟩ := payloadEncodesTo_of_decode hdecode
  -- the bytes are the wire form of the frame
  obtain ⟨payload, hlen, hfields, hbytes⟩ := frameBytes_of_parseFrame hparse
  have hencoded : EncodesTo V frame.messageType (.bytes payload) frame.sequence frame.flags
      bytes :=
    encodesTo_iff.mpr ⟨.inl rfl, hlen, hbytes⟩
  have hdata : frame.payload.data = payload := by
    rw [hfields]
    rfl
  rw [hframe]
  refine ⟨⟨.bytes payload, ?_, ?_⟩, ⟨[], frame.messageType, .bytes payload, frame.sequence,
    frame.flags, bytes, by decide, hencoded⟩, rfl, rfl, hfields.symm⟩
  · rwa [hdata] at hmessage
  · rw [htype, hframe]
    exact hencoded

/-- What is admitted is admitted again. -/
theorem admitted_fst (h : admitted V frame = some pair) : admitted V pair.1 = some pair := by
  rw [((admitted_eq_some_iff .zero).mp h).1, h]

theorem filterMap_admitted_fst (frames : List DecodedFrame) :
    ((frames.filterMap (admitted V)).map Prod.fst).filterMap (admitted V) =
      frames.filterMap (admitted V) := by
  induction frames with
  | nil => rfl
  | cons frame frames ih =>
    cases h : admitted V frame with
    | none =>
      rw [List.filterMap_cons_none h]
      exact ih
    | some pair =>
      rw [List.filterMap_cons_some h, List.map_cons, List.filterMap_cons_some (admitted_fst h), ih]

/-- And is counted as accepted. -/
theorem record_admitted (frames : List DecodedFrame) (stats : CpuIngressStats) :
    (((frames.filterMap (admitted V)).map Prod.fst).map (verdict V)).foldl .record stats =
      { stats with
        acceptedMessages :=
          stats.acceptedMessages + UInt32.ofNat (frames.filterMap (admitted V)).length } := by
  induction frames generalizing stats with
  | nil => simp
  | cons frame frames ih =>
    cases h : admitted V frame with
    | none =>
      rw [List.filterMap_cons_none h]
      exact ih stats
    | some pair =>
      have hverdict : verdict V pair.1 = .ok := by
        by_contra hne
        have hnone := admitted_fst h
        rw [admitted_eq_none_iff.mpr hne] at hnone
        cases hnone
      rw [List.filterMap_cons_some h, List.map_cons, List.map_cons, List.foldl_cons, ih, hverdict,
        List.length_cons]
      simp only [CpuIngressStats.record, UInt32.ofNat_add]
      congr 1
      ac_rfl

end Again

/-! ### The accepted part of a run -/

section Accepted

variable {V : WireVersion} {B : List UInt8} {ds : List Delivery}

/-- The slices of the accepted messages are their encodings, and a clean stream. -/
theorem exists_carriers_acceptedSlices
    (h : ∀ d ∈ ds, parseFrame V ((B.drop d.start).take d.length) = .ok d.frame) :
    List.Forall₂ (EncodedAgain V) ((ds.map Delivery.frame).filterMap (admitted V))
        (acceptedSlices V B ds) ∧
      ∃ carriers : List (NoisyFrame V),
        (carriers.map fun carrier => carrier.noise.length).sum = 0 ∧
        noisyStream carriers = (acceptedSlices V B ds).flatten ∧
        carriers.map NoisyFrame.frame =
          ((ds.map Delivery.frame).filterMap (admitted V)).map Prod.fst := by
  induction ds with
  | nil => exact ⟨.nil, [], rfl, rfl, rfl⟩
  | cons d ds ih =>
    obtain ⟨hagain, carriers, hquiet, hstream, hframes⟩ :=
      ih fun e he => h e (List.mem_cons_of_mem _ he)
    unfold acceptedSlices at hagain hstream ⊢
    rw [List.map_cons]
    cases hadmitted : admitted V d.frame with
    | none =>
      rw [List.filterMap_cons_none hadmitted, List.filter_cons_of_neg (by simp [hadmitted])]
      exact ⟨hagain, carriers, hquiet, hstream, hframes⟩
    | some pair =>
      obtain ⟨hfirst, carrier, hnoise, hbytes, hframe⟩ :=
        encodedAgain_of_admitted (h d List.mem_cons_self) hadmitted
      rw [List.filterMap_cons_some hadmitted, List.filter_cons_of_pos (by simp [hadmitted]),
        List.map_cons]
      refine ⟨.cons hfirst hagain, carrier :: carriers, ?_, ?_, ?_⟩
      · rw [List.map_cons, List.sum_cons, hquiet, hnoise, List.length_nil]
      · rw [noisyStream, List.flatMap_cons, ← noisyStream, hstream, List.flatten_cons, hnoise,
          hbytes]
        rfl
      · rw [List.map_cons, List.map_cons, hframes, hframe]

end Accepted

/-- **What the ingress accepts has one wire form.** In every run, the messages given to the
    consumer, encoded again, are the stretches of the input they were read from and nothing else;
    and these stretches, joined and fed to a new ingress in any calls, make it accept the same
    messages in the same frames, with nothing rejected, discarded, counted as an error or left
    over. -/
theorem accepted_encoded_again (V : WireVersion) (ops : List StreamOp) :
    let slices := acceptedSlices V (fedBytes ops) (deliveries 0 (runSegments V ops))
    (∀ encoded, List.Forall₂ (EncodedAgain V) (ingressLog V ops) encoded ↔ encoded = slices) ∧
      ∀ again, StreamOp.resetIncomplete ∉ again → fedBytes again = slices.flatten →
        ingressLog V again = ingressLog V ops ∧
          ∀ (κ : Type) (callback : Option (DecodedFrame → Message → κ → κ)) (context : κ),
            let run := ingressRun V callback context again
            run.stats =
                { CpuIngressStats.zero with
                  acceptedMessages := UInt32.ofNat (ingressLog V ops).length } ∧
              run.decoder.stats =
                { DecoderStats.zero with frames := UInt32.ofNat (ingressLog V ops).length } ∧
              run.decoder.bufferedBytes = 0 := by
  have hparse : ∀ d ∈ deliveries 0 (runSegments V ops),
      parseFrame V (((fedBytes ops).drop d.start).take d.length) = .ok d.frame :=
    fun d hd => (decodeFrame_ok_iff _ _ _ _).mp (decodeFrame_of_mem_deliveries hd)
  obtain ⟨hagain, carriers, hquiet, hstream, hframes⟩ := exists_carriers_acceptedSlices hparse
  have hlog : ingressLog V ops =
      ((deliveries 0 (runSegments V ops)).map Delivery.frame).filterMap (admitted V) := by
    rw [ingressLog_eq, map_frame_runSegments]
  rw [← hlog] at hagain hframes
  refine ⟨fun encoded => ⟨fun h => ?_, fun h => h ▸ hagain⟩, ?_⟩
  · have hunique : Relator.RightUnique (EncodedAgain V) := fun _ _ _ => EncodedAgain.unique
    exact List.right_unique_forall₂' hunique h hagain
  · intro again hreset hfed
    rw [← hstream] at hfed
    have hdelivered : (decoderRun V again).context = (ingressLog V ops).map Prod.fst := by
      rw [frames_noisyStream carriers hreset hfed, hframes]
    have hcount : carriers.length = (ingressLog V ops).length := by
      rw [← List.length_map NoisyFrame.frame, hframes, List.length_map]
    refine ⟨?_, fun κ callback context => ?_⟩
    · rw [ingressLog_eq, hdelivered, hlog, filterMap_admitted_fst]
    · rw [ingressRun_eq, hdelivered]
      refine ⟨?_, ?_, ?_⟩
      · show (((ingressLog V ops).map Prod.fst).map (verdict V)).foldl CpuIngressStats.record
          CpuIngressStats.zero = _
        rw [hlog, record_admitted]
        simp [CpuIngressStats.zero]
      · show (decoderRun V again).decoder.stats = _
        rw [stats_noisyStream carriers hreset hfed, hquiet, hcount]
        rfl
      · show (decoderRun V again).decoder.bufferedBytes = 0
        rw [decoderRun_eq]
        exact (accounts_noisyStream carriers hreset hfed).2.1

end Oomwoo
