import Oomwoo.Protocol.BufferReads
import Oomwoo.Protocol.Epochs

namespace Oomwoo

open Bytes Scanning Reading Reads

/-!
# The buffer is safe and the loop ends

The bound on the buffer is not local: between two bytes at most an undecided candidate or a single
byte is held, and an undecided candidate is shorter than the largest frame.  From there
`buffer_safe` follows the loop pass by pass: every pass reads and keeps only what is buffered, a
pass that goes on has removed something, and the complete-frame decoder, called behind the same
checks, can only object to the checksum.
-/

/-- The decoders with which the loop enters a pass, when it starts with `first`. -/
inductive Enters (V : WireVersion) (first : StreamDecoder) : StreamDecoder → Prop
  | first : Enters V first first
  | again {decoder : StreamDecoder} (h : Enters V first decoder)
      (hgo : (processPass V decoder).processing = true) :
      Enters V first (processPass V decoder).decoder

variable {V : WireVersion} {first decoder : StreamDecoder}

theorem Enters.sized (h : Enters V first decoder) (hfirst : first.Sized) : decoder.Sized := by
  induction h with
  | first => exact hfirst
  | again _ _ ih => exact processPass_sized V ih

/-- **The loop ends**: it enters a pass that does not ask for another one. -/
theorem exists_last_pass (V : WireVersion) (h : decoder.Sized) (hentered : Enters V first decoder) :
    ∃ last, Enters V first last ∧ (processPass V last).processing = false := by
  -- each pass that goes on has removed some of the buffered bytes
  induction hheld : decoder.bufferedBytes using Nat.strongRecOn generalizing decoder with
  | ind held ih =>
    subst hheld
    cases hgo : (processPass V decoder).processing with
    | false => exact ⟨decoder, hentered, hgo⟩
    | true =>
      exact ih _ ((processPass_spec V h).decreases hgo) (processPass_sized V h)
        (hentered.again hgo) rfl

/-- A decoder between two calls has its size and room for a byte. -/
theorem decoderRun_room (V : WireVersion) (ops : List StreamOp) :
    (decoderRun V ops).decoder.Sized ∧ (decoderRun V ops).decoder.bufferedBytes < maxFrameSize := by
  obtain ⟨hsized, hquiet⟩ := quiet_opsTrace V ops
  have hroom := hquiet.length_lt
  rw [StreamDecoder.length_live hsized] at hroom
  rw [decoderRun_eq]
  exact ⟨hsized, hroom⟩

/-- **What the complete-frame decoder returns to the loop.** Of a pass that the loop enters for any
    byte in any reachable state: `oomwoo_decode_frame` is called exactly if the buffer starts with a
    complete candidate, the result that the pass reports is what it returns for just the bytes of
    that candidate, and that is OK or a wrong checksum. -/
theorem decodeFrame_in_pass (V : WireVersion) (ops : List StreamOp) (byte : UInt8)
    (h : Enters V (appendByte (decoderRun V ops).decoder byte) decoder) :
    let frameLength := 12 + declaredLength decoder.live
    let answer := (decodeFrame V (.bytes (decoder.buffer.take frameLength)) (some .zero)).1
    (∀ result,
        ((processPassReads V decoder.bufferedBytes).eval (byteAt decoder.buffer)).decoded =
            some result ↔
          (Candidate V decoder.live ∧ frameLength ≤ decoder.bufferedBytes) ∧ answer = result) ∧
      (Candidate V decoder.live → frameLength ≤ decoder.bufferedBytes →
        answer = .ok ∨ answer = .badCrc) := by
  obtain ⟨hsized, hroom⟩ := decoderRun_room V ops
  have hd := h.sized (appendByte_spec hsized hroom byte).1
  constructor
  · intro result
    rw [(processPassReads_spec V hd).2 result]
    apply and_congr_left
    intro _
    exact ⟨fun hcomplete => ⟨hcomplete.candidate, hcomplete.closed⟩, fun h => ⟨h.1, h.2⟩⟩
  · intro hcandidate hclosed
    exact CompleteCandidate.result hd ⟨hcandidate, hclosed⟩

/-- **The buffer is always safe and the inner loop always ends.** In every reachable state there
    is room for the next byte, so it is stored without a resync before it.  Every pass of the loop
    then reads below `buffered_bytes` only, leaves fewer bytes if it asks for another pass, and
    gets no other answer than OK or a wrong checksum from the complete-frame decoder; and some
    pass is the last, whatever the fuel of the model. -/
theorem buffer_safe (V : WireVersion) (ops : List StreamOp) (byte : UInt8) :
    let decoder := (decoderRun V ops).decoder
    let appended := appendByte decoder byte
    decoder.buffer.length = 524 ∧ decoder.bufferedBytes ≤ 523 ∧
      appended = { decoder with
        buffer := writeAt decoder.buffer decoder.bufferedBytes [byte]
        bufferedBytes := decoder.bufferedBytes + 1 } ∧
      (∀ d, Enters V appended d →
        let pass := processPassReads V d.bufferedBytes
        d.buffer.length = 524 ∧ d.bufferedBytes ≤ 524 ∧
          (pass.eval (byteAt d.buffer)).apply d = processPass V d ∧
          (∀ i ∈ pass.addresses (byteAt d.buffer), i < d.bufferedBytes) ∧
          ((processPass V d).processing = true →
            (processPass V d).decoder.bufferedBytes < d.bufferedBytes) ∧
          ∀ result, (pass.eval (byteAt d.buffer)).decoded = some result →
            result = .ok ∨ result = .badCrc) ∧
      (∃ last, Enters V appended last ∧ (processPass V last).processing = false) ∧
      ∀ (σ : Type) (callback : Option (DecodedFrame → σ → σ)) (emitted : Nat) (context : σ) (fuel),
        appended.bufferedBytes ≤ fuel →
          processLoop V callback fuel ⟨appended, emitted, context⟩ =
            feedByte V callback ⟨decoder, emitted, context⟩ byte := by
  obtain ⟨hsized, hroom⟩ := decoderRun_room V ops
  obtain ⟨happended, _⟩ := appendByte_spec hsized hroom byte
  refine ⟨hsized.size, Nat.le_of_lt_succ hroom, ?_, ?_, ?_, ?_⟩
  · unfold appendByte
    rw [if_neg (Nat.ne_of_lt hroom)]
  · intro d hentered
    have hd := hentered.sized happended
    refine ⟨hd.size, hd.held, eval_processPassReads V hd, ?_, (processPass_spec V hd).decreases, ?_⟩
    · exact processPassReads_within V _ _
    · intro result hresult
      obtain ⟨hcomplete, rfl⟩ := ((processPassReads_spec V hd).2 result).mp hresult
      exact hcomplete.result hd
  · exact exists_last_pass V happended .first
  · intro σ callback emitted context fuel hfuel
    exact processLoop_enough V callback happended hfuel (Nat.le_refl _)

end Oomwoo
