import Oomwoo.Ingress.Admission
import Oomwoo.Protocol.Recovery

namespace Oomwoo

open Bytes Scanning

/-!
# Typed messages through the whole stack

A list of valid messages, each put through the payload encoder and the frame encoder, makes a
clean stream; the ingress at the other end sees exactly these frames, lets those through that
travel towards the MCU, and decodes each to the fields that were sent
(`typed_messages_survive`).
-/

/-- A message to send, with its frame header. -/
structure SentMessage where
  message : Message
  sequence : UInt16
  flags : UInt8
  valid : messageValidate (some message) = .ok

namespace SentMessage

/-- The direction table lets the message travel towards the MCU. -/
def toMcu (item : SentMessage) : Bool :=
  messageDirection item.message.type == .cpuToMcu || messageDirection item.message.type == .both

/-- The direction table lets the message travel from the MCU only. -/
def fromMcu (item : SentMessage) : Bool := messageDirection item.message.type == .mcuToCpu

/-- `bytes` is what the payload encoder and then the frame encoder make of the message. -/
def WireForm (V : WireVersion) (item : SentMessage) (bytes : List UInt8) : Prop :=
  ∃ payload : Span, PayloadEncodesTo item.message payload.data ∧
    EncodesTo V item.message.type payload item.sequence item.flags bytes

/-- What the consumer is given for the message. -/
structure Arrives (item : SentMessage) (pair : DecodedFrame × Message) : Prop where
  messageType : pair.1.messageType = item.message.type
  sequence : pair.1.sequence = item.sequence
  flags : pair.1.flags = item.flags
  fields : item.message.SameActive pair.2

/-- An item of a clean stream that carries the message, without noise. -/
structure CarriedBy {V : WireVersion} (item : SentMessage) (carrier : NoisyFrame V) : Prop where
  noise : carrier.noise = []
  messageType : carrier.messageType = item.message.type
  sequence : carrier.sequence = item.sequence
  flags : carrier.flags = item.flags
  payload : PayloadEncodesTo item.message carrier.payload.data

/-! ### Encoding -/

theorem type_of_valid (item : SentMessage) :
    ∃ type, MessageType.ofCode? item.message.type = some type ∧ type.isDefined ∧
      type.inRange item.message.payload = true :=
  messageValidate_ok_iff.mp item.valid

/-- Every layout fits a frame. -/
theorem width_le (type : MessageType) : type.layout.width ≤ 512 := by
  cases type <;> decide

/-- **Every valid message has a wire form.** -/
theorem exists_wireForm (V : WireVersion) (item : SentMessage) :
    ∃ bytes, item.WireForm V bytes := by
  obtain ⟨type, hcode, hdefined, hrange⟩ := item.type_of_valid
  have hpayload : PayloadEncodesTo item.message _ :=
    payloadEncodesTo_iff.mpr ⟨type, hcode, hdefined, hrange, rfl⟩
  refine ⟨_, .bytes _, hpayload, encodesTo_iff.mpr ⟨.inl rfl, ?_, rfl⟩⟩
  rw [Span.length_bytes, type.layout.length_encode]
  exact width_le type

theorem exists_wireForms (V : WireVersion) (items : List SentMessage) :
    ∃ frames, List.Forall₂ (WireForm V) items frames := by
  induction items with
  | nil => exact ⟨[], .nil⟩
  | cons item items ih =>
    obtain ⟨bytes, hbytes⟩ := item.exists_wireForm V
    obtain ⟨frames, hframes⟩ := ih
    exact ⟨bytes :: frames, .cons hbytes hframes⟩

/-- The wire forms of messages, joined, are a clean stream. -/
theorem exists_carriers {V : WireVersion} {items : List SentMessage} {frames : List (List UInt8)}
    (h : List.Forall₂ (WireForm V) items frames) :
    ∃ carriers : List (NoisyFrame V), List.Forall₂ CarriedBy items carriers ∧
      noisyStream carriers = frames.flatten := by
  induction h with
  | nil => exact ⟨[], .nil, rfl⟩
  | @cons item bytes items frames hbytes _ ih =>
    obtain ⟨carriers, hcarried, hstream⟩ := ih
    obtain ⟨payload, hpayload, hencoded⟩ := hbytes
    have hquiet : ¬ [magic0, magic1] <:+: [] := by decide
    refine ⟨⟨[], item.message.type, payload, item.sequence, item.flags, bytes, hquiet,
      hencoded⟩ :: carriers, .cons ⟨rfl, rfl, rfl, rfl, hpayload⟩ hcarried, ?_⟩
    rw [noisyStream, List.flatMap_cons, ← noisyStream, hstream, List.flatten_cons]
    rfl

/-! ### The gate on a sent message -/

section Carried

variable {V : WireVersion} {item : SentMessage} {carrier : NoisyFrame V}

/-- **A message towards the MCU arrives.** -/
theorem admitted_carrier (h : item.CarriedBy carrier) (hdir : item.toMcu = true) :
    ∃ pair, admitted V carrier.frame = some pair ∧ item.Arrives pair := by
  obtain ⟨decoded, hdecode, hsame⟩ := decode_of_payloadEncodesTo h.payload .zero
  have hto : messageDirection item.message.type = .cpuToMcu ∨
      messageDirection item.message.type = .both := by
    simpa [toMcu] using hdir
  refine ⟨(carrier.frame, decoded), (admitted_eq_some_iff .zero).mpr ⟨rfl, ?_⟩,
    h.messageType, h.sequence, h.flags, hsame⟩
  apply cpuIngressValidateFrame_ok_iff.mpr
  refine ⟨rfl, ?_, ?_⟩
  · show messageDirection carrier.messageType = _ ∨ messageDirection carrier.messageType = _
    rw [h.messageType]
    exact hto
  · show messageDecodePayload carrier.messageType (.bytes carrier.payload.data) _ = _
    rw [h.messageType]
    exact hdecode

/-- **A message from the MCU is turned away** by its direction. -/
theorem verdict_carrier (h : item.CarriedBy carrier) (hdir : item.toMcu = false) :
    verdict V carrier.frame = .wrongDirection := by
  obtain ⟨type, hcode, _⟩ := item.type_of_valid
  have hframe : MessageType.ofCode? carrier.frame.messageType = some type := by
    show MessageType.ofCode? carrier.messageType = some type
    rw [h.messageType, hcode]
  have hnot : type.towardsMcu = false := by
    rw [Bool.eq_false_iff, ne_eq, towardsMcu_iff hcode]
    simpa [toMcu] using hdir
  unfold verdict
  rw [cpuIngressValidateFrame_refused (.inl rfl) rfl, hframe, if_neg (Option.some_ne_none type)]
  intro other hother
  rw [hframe] at hother
  cases hother
  exact hnot

/-- A valid message travels towards the MCU or from it. -/
theorem fromMcu_eq (item : SentMessage) : item.fromMcu = !item.toMcu := by
  obtain ⟨type, hcode, _⟩ := item.type_of_valid
  have hknown : messageDirection item.message.type ≠ .unknown := by
    rw [ne_eq, messageDirection_unknown_iff, hcode]
    exact Option.some_ne_none type
  unfold fromMcu toMcu
  cases hdir : messageDirection item.message.type with
  | unknown => exact absurd hdir hknown
  | cpuToMcu => rfl
  | mcuToCpu => rfl
  | both => rfl

end Carried

end SentMessage

/-! ### Whole streams -/

open SentMessage

section Streams

variable {V : WireVersion} {items : List SentMessage} {carriers : List (NoisyFrame V)}

/-- What the gate lets through of a clean stream of messages. -/
theorem arrives_filter (h : List.Forall₂ CarriedBy items carriers) :
    List.Forall₂ Arrives (items.filter toMcu)
      ((carriers.map NoisyFrame.frame).filterMap (admitted V)) := by
  induction h with
  | nil => exact .nil
  | @cons item carrier items carriers hcarried _ ih =>
    rw [List.map_cons]
    cases hdir : item.toMcu with
    | true =>
      obtain ⟨pair, hpair, harrives⟩ := admitted_carrier hcarried hdir
      rw [List.filter_cons_of_pos hdir, List.filterMap_cons_some hpair]
      exact .cons harrives ih
    | false =>
      -- refused by its direction, so the list of admitted frames skips it
      have hnone : admitted V carrier.frame = none := by
        rw [admitted_eq_none_iff, verdict_carrier hcarried hdir]
        exact fun h => CpuIngressResult.noConfusion h
      rw [List.filter_cons_of_neg (by rw [hdir]; exact Bool.false_ne_true),
        List.filterMap_cons_none hnone]
      exact ih

/-- What the gate counts for a clean stream of messages. -/
theorem record_verdicts (h : List.Forall₂ CarriedBy items carriers) (stats : CpuIngressStats) :
    ((carriers.map NoisyFrame.frame).map (verdict V)).foldl .record stats =
      { stats with
        acceptedMessages := stats.acceptedMessages + UInt32.ofNat (items.countP toMcu)
        wrongDirection := stats.wrongDirection + UInt32.ofNat (items.countP fromMcu) } := by
  induction h generalizing stats with
  | nil => simp
  | @cons item carrier items carriers hcarried _ ih =>
    rw [List.map_cons, List.map_cons, List.foldl_cons, ih]
    cases hdir : item.toMcu with
    | true =>
      obtain ⟨pair, hpair, _⟩ := admitted_carrier hcarried hdir
      -- an admitted frame has the verdict OK
      have hverdict : verdict V carrier.frame = .ok := by
        by_contra hne
        rw [admitted_eq_none_iff.mpr hne] at hpair
        cases hpair
      have hfrom : item.fromMcu = false := by rw [fromMcu_eq, hdir]; rfl
      rw [hverdict, List.countP_cons_of_pos hdir,
        List.countP_cons_of_neg (by rw [hfrom]; exact Bool.false_ne_true)]
      simp only [CpuIngressStats.record, UInt32.ofNat_add]
      congr 1
      ac_rfl
    | false =>
      have hfrom : item.fromMcu = true := by rw [fromMcu_eq, hdir]; rfl
      rw [verdict_carrier hcarried hdir, List.countP_cons_of_pos hfrom,
        List.countP_cons_of_neg (by rw [hdir]; exact Bool.false_ne_true)]
      simp only [CpuIngressStats.record, countRejection, UInt32.ofNat_add]
      congr 1
      ac_rfl

/-- A stream of messages carries no noise. -/
theorem sum_noise (h : List.Forall₂ CarriedBy items carriers) :
    (carriers.map fun carrier => carrier.noise.length).sum = 0 := by
  induction h with
  | nil => rfl
  | cons hcarried _ ih => rw [List.map_cons, List.sum_cons, ih, hcarried.noise]; rfl

end Streams

/-- **Typed messages survive the whole stack.** Valid messages have wire forms; however these,
    joined, are cut into calls, the consumer is called for exactly the messages that travel
    towards the MCU, in order and with what was sent; every other message counts as a wrong
    direction, and nothing else is rejected, discarded or counted as an error. -/
theorem typed_messages_survive (V : WireVersion) (items : List SentMessage) :
    (∃ frames, List.Forall₂ (WireForm V) items frames) ∧
      ∀ (frames : List (List UInt8)) (ops : List StreamOp),
        List.Forall₂ (WireForm V) items frames →
        StreamOp.resetIncomplete ∉ ops → fedBytes ops = frames.flatten →
        List.Forall₂ Arrives (items.filter toMcu) (ingressLog V ops) ∧
          ∀ (κ : Type) (callback : Option (DecodedFrame → Message → κ → κ)) (context : κ),
            let run := ingressRun V callback context ops
            run.callbackContext = callAll callback (ingressLog V ops) context ∧
              run.stats =
                { acceptedMessages := UInt32.ofNat (items.countP toMcu)
                  wrongDirection := UInt32.ofNat (items.countP fromMcu)
                  unknownType := 0, undefinedPayload := 0, wrongPayloadLength := 0
                  valueOutOfRange := 0, codecErrors := 0 } ∧
              run.decoder.stats =
                { frames := UInt32.ofNat items.length
                  discardedBytes := 0, crcErrors := 0, versionErrors := 0, lengthErrors := 0
                  gapResets := 0 } := by
  refine ⟨exists_wireForms V items, ?_⟩
  intro frames ops hframes hops hfed
  -- the frames without noise are a clean stream
  obtain ⟨carriers, hcarried, hstream⟩ := exists_carriers hframes
  rw [← hstream] at hfed
  have hdelivered := frames_noisyStream carriers hops hfed
  refine ⟨?_, ?_⟩
  · rw [ingressLog_eq, hdelivered]
    exact arrives_filter hcarried
  · intro κ callback context
    rw [ingressRun_eq, ingressLog_eq, hdelivered]
    refine ⟨rfl, ?_, ?_⟩
    · show ((carriers.map NoisyFrame.frame).map (verdict V)).foldl CpuIngressStats.record
        CpuIngressStats.zero = _
      rw [record_verdicts hcarried]
      simp [CpuIngressStats.zero]
    · show (decoderRun V ops).decoder.stats = _
      rw [stats_noisyStream carriers hops hfed, sum_noise hcarried, hcarried.length_eq]
      rfl

end Oomwoo
