import Oomwoo.Identity.Service

namespace Oomwoo

open Bytes

/-!
# A sequence number is consumed with a complete hello

Both calls that can emit a hello either produce it completely and advance the counter, or change
nothing but the reported length.  Which of the two happens is decided by the pointers and the
capacity alone (`HelloReady`), so a sequence number is consumed exactly if a hello comes out
(`sequence_consumed_iff_sent`).
-/

/-- Every pointer is usable and the output has room for the hello. -/
structure HelloReady (identity : Option Identity) (output : Span) (reported : Option Nat) :
    Prop where
  identity_set : identity.isSome = true
  output_set : output.isNull = false
  reported_set : reported.isSome = true
  room : 20 ≤ output.length

/-- A complete hello came out: twenty bytes that both decoders accept and that carry the old
    sequence number and the configured fields; the counter has advanced, modulo `2 ^ 16`. -/
structure SentHello (V : WireVersion) (state : Identity) (output : Span) (call : IdentityCall) :
    Prop where
  result : call.result = .ok
  reported : call.outputLength = some 20
  decodes : ∃ frame message,
    decodeFrame V (.bytes (call.output.data.take 20)) (some .zero) = (.ok, some frame) ∧
      frame.messageType = MessageType.mcuHello.code ∧ frame.sequence = state.nextSequence ∧
      messageDecodePayload frame.messageType frame.payload (some .zero) = (.ok, some message) ∧
      message.payload.mcuHello = ⟨state.firmwareMajor, state.firmwareMinor, state.buildId⟩
  rest : call.output.data.drop 20 = output.data.drop 20
  advanced : call.identity = some { state with nextSequence := state.nextSequence + 1 }

/-- No hello came out: nothing is different but the reported length, which is zero. -/
structure Unsent (identity : Option Identity) (output : Span) (reported : Option Nat)
    (call : IdentityCall) : Prop where
  result : call.result ≠ .ok ∧ call.result ≠ .codecError
  same_identity : call.identity = identity
  same_output : call.output = output
  cleared : call.outputLength = reported.map fun _ => 0

variable (V : WireVersion)

/-- What the two cases of a call say about its result. -/
theorem outcome_of_cases {ready : Prop} {identity : Option Identity} {output : Span}
    {reported : Option Nat} {call : IdentityCall}
    (h : (ready ∧ ∃ state, identity = some state ∧ SentHello V state output call) ∨
      (¬ ready ∧ Unsent identity output reported call)) :
    (call.result = .ok ↔ ready) ∧
      (call.result = .ok → ∃ state, identity = some state ∧ SentHello V state output call) ∧
      (call.result ≠ .ok → Unsent identity output reported call) := by
  rcases h with ⟨hready, state, hstate, hsent⟩ | ⟨hready, hunsent⟩
  · exact ⟨iff_of_true hsent.result hready, fun _ => ⟨state, hstate, hsent⟩,
      fun h => absurd hsent.result h⟩
  · exact ⟨iff_of_false hunsent.result.1 hready, fun h => absurd h hunsent.result.1,
      fun _ => hunsent⟩

/-- What the emitter stores is a complete hello. -/
theorem sentHello_emit (state : Identity) (output : List UInt8) (reported : Nat)
    (hroom : 20 ≤ output.length) :
    SentHello V state (.bytes output)
      (identityEmitHello V (some state) (.bytes output) (some reported)) := by
  rw [identityEmitHello_ok V state output reported hroom]
  obtain ⟨hframe, message, hmessage, hfields⟩ := decode_helloFrame V state
  have hlen := length_helloFrame V state
  refine ⟨rfl, rfl, ⟨frameOf V MessageType.mcuHello.code state.helloPayload state.nextSequence 0,
    message, ?_, rfl, rfl, hmessage, hfields⟩, ?_, rfl⟩
  · rw [Span.data_bytes, writeAt_zero, List.take_left' hlen]
    exact hframe
  · rw [Span.data_bytes, writeAt_zero, List.drop_left' hlen, hlen, Span.data_bytes]

/-- **When the emitter sends**: with usable pointers and room, and otherwise nothing happens. -/
theorem identityEmitHello_cases (identity : Option Identity) (output : Span)
    (reported : Option Nat) :
    (HelloReady identity output reported ∧
        ∃ state, identity = some state ∧
          SentHello V state output (identityEmitHello V identity output reported)) ∨
      (¬ HelloReady identity output reported ∧
        Unsent identity output reported (identityEmitHello V identity output reported)) := by
  -- the checks of the emitter, in their order
  cases reported with
  | none => exact .inr ⟨fun h => (by cases h.reported_set), ⟨nofun, nofun⟩, rfl, rfl, rfl⟩
  | some reported =>
  cases identity with
  | none => exact .inr ⟨fun h => (by cases h.identity_set), ⟨nofun, nofun⟩, rfl, rfl, rfl⟩
  | some state =>
  cases output with
  | null n => exact .inr ⟨fun h => (by cases h.output_set), ⟨nofun, nofun⟩, rfl, rfl, rfl⟩
  | bytes output =>
  by_cases hroom : 20 ≤ output.length
  · exact .inl ⟨⟨rfl, rfl, rfl, hroom⟩, state, rfl, sentHello_emit V state output reported hroom⟩
  · have hsmall : (Span.bytes output).length < identityHelloFrameSize := not_le.mp hroom
    have hcall : identityEmitHello V (some state) (.bytes output) (some reported) =
        ⟨.outputTooSmall, some state, .bytes output, some 0⟩ := by
      unfold identityEmitHello
      simp only [Span.isNull_bytes, Bool.false_eq_true, if_false, if_pos hsmall]
    rw [hcall]
    exact .inr ⟨fun h => hroom h.room, ⟨nofun, nofun⟩, rfl, rfl, rfl⟩

/-- A request is handed to the emitter with the reported length already cleared. -/
theorem identityHandleMessage_request {message : Message}
    (h : message.type = MessageType.identifyRequest.code) (state : Identity) (output : Span)
    (reported : Nat) :
    identityHandleMessage V (some state) (some message) output (some reported) =
      identityEmitHello V (some state) output (some 0) := by
  unfold identityHandleMessage
  simp only [h, ne_eq, not_true_eq_false, if_false]

/-- **When the handler sends**: for a request, as the emitter does, and for nothing else. -/
theorem identityHandleMessage_cases (identity : Option Identity) (message : Option Message)
    (output : Span) (reported : Option Nat) :
    ((HelloReady identity output reported ∧
          message.map Message.type = some MessageType.identifyRequest.code) ∧
        ∃ state, identity = some state ∧
          SentHello V state output
            (identityHandleMessage V identity message output reported)) ∨
      (¬ (HelloReady identity output reported ∧
          message.map Message.type = some MessageType.identifyRequest.code) ∧
        Unsent identity output reported
          (identityHandleMessage V identity message output reported)) := by
  cases reported with
  | none =>
    exact .inr ⟨fun h => (by cases h.1.reported_set), ⟨nofun, nofun⟩, rfl, rfl, rfl⟩
  | some reported =>
  cases identity with
  | none =>
    exact .inr ⟨fun h => (by cases h.1.identity_set), ⟨nofun, nofun⟩, rfl, rfl, rfl⟩
  | some state =>
  cases message with
  | none => exact .inr ⟨fun h => (by cases h.2), ⟨nofun, nofun⟩, rfl, rfl, rfl⟩
  | some message =>
  by_cases hrequest : message.type = MessageType.identifyRequest.code
  · rw [identityHandleMessage_request V hrequest, Option.map_some, hrequest]
    -- the emitter does not look at what the length held
    have hready : HelloReady (some state) output (some 0) ↔
        HelloReady (some state) output (some reported) :=
      ⟨fun h => ⟨h.identity_set, h.output_set, rfl, h.room⟩,
        fun h => ⟨h.identity_set, h.output_set, rfl, h.room⟩⟩
    rcases identityEmitHello_cases V (some state) output (some 0) with
      ⟨h, hsent⟩ | ⟨h, hunsent⟩
    · exact .inl ⟨⟨hready.mp h, rfl⟩, hsent⟩
    · exact .inr ⟨fun hboth => h (hready.mpr hboth.1), hunsent.result,
        hunsent.same_identity, hunsent.same_output, hunsent.cleared⟩
  · have hcall : identityHandleMessage V (some state) (some message) output (some reported) =
        ⟨.ignored, some state, output, some 0⟩ := by
      unfold identityHandleMessage
      simp only [ne_eq, hrequest, not_false_eq_true, if_true]
    rw [hcall]
    exact .inr ⟨fun h => hrequest (Option.some.inj h.2), ⟨nofun, nofun⟩, rfl, rfl, rfl⟩

/-- **A sequence number is consumed if and only if a complete hello is produced.** The emitter,
    and the handler on an identify request, return OK exactly if every pointer is usable and the
    output has room for twenty bytes, and then a complete hello with the old sequence number is
    out; in every other case nothing changes but the reported length, and the codec error never
    occurs.  Other messages are ignored. -/
theorem sequence_consumed_iff_sent (identity : Option Identity) (message : Option Message)
    (output : Span) (reported : Option Nat) :
    let emitted := identityEmitHello V identity output reported
    let handled := identityHandleMessage V identity message output reported
    (emitted.result = .ok ↔ HelloReady identity output reported) ∧
      (emitted.result = .ok → ∃ state, identity = some state ∧ SentHello V state output emitted) ∧
      (emitted.result ≠ .ok → Unsent identity output reported emitted) ∧
      (handled.result = .ok ↔ HelloReady identity output reported ∧
        message.map Message.type = some MessageType.identifyRequest.code) ∧
      (handled.result = .ok → ∃ state, identity = some state ∧ SentHello V state output handled) ∧
      (handled.result ≠ .ok → Unsent identity output reported handled) ∧
      (identity.isSome = true → reported.isSome = true →
        (∃ other, message = some other ∧ other.type ≠ MessageType.identifyRequest.code) →
          handled.result = .ignored) := by
  obtain ⟨hemit, hemitted, hemitUnsent⟩ :=
    outcome_of_cases V (identityEmitHello_cases V identity output reported)
  obtain ⟨hhandle, hhandled, hhandleUnsent⟩ :=
    outcome_of_cases V (identityHandleMessage_cases V identity message output reported)
  refine ⟨hemit, hemitted, hemitUnsent, hhandle, hhandled, hhandleUnsent, ?_⟩
  -- another message is ignored before anything else is looked at
  rintro hidentity hreported ⟨other, rfl, hother⟩
  obtain ⟨state, rfl⟩ := Option.isSome_iff_exists.mp hidentity
  obtain ⟨length, rfl⟩ := Option.isSome_iff_exists.mp hreported
  unfold identityHandleMessage
  simp only [ne_eq, hother, not_false_eq_true, if_true]

end Oomwoo
