import Oomwoo.Protocol.BufferReads
import Oomwoo.Protocol.Epochs

namespace Oomwoo

open Bytes Scanning Reading Reads

/-!
# Stale bytes and past statistics do not matter

The array is never cleared: behind the buffered bytes are those of earlier frames.  Since no pass
reads there (`processPassReads_within`), two decoders that agree on the buffered bytes have the
same effect in every pass.  `Alike` is the simulation, `SameStep` what one stretch of decoding
keeps of it, and `decoding_ignores_stale_bytes` the result for whole runs; a reset is the case in
which nothing is buffered.
-/

/-- Two decoders with the same buffered bytes, whatever stands behind them. -/
structure Alike (a b : StreamDecoder) : Prop where
  sized : a.Sized
  sized' : b.Sized
  held : a.bufferedBytes = b.bufferedBytes
  live : a.live = b.live

/-- From the decoders `a` and `b` the same was decoded: what is left is alike, and the counters
    have been raised by the same amounts. -/
structure SameStep (a b next next' : StreamDecoder) : Prop where
  alike : Alike next next'
  counted : ∃ amounts, next.stats = a.stats.plus amounts ∧ next'.stats = b.stats.plus amounts

namespace SameStep

variable {a b c d e f : StreamDecoder}

theorem refl (h : Alike a b) : SameStep a b a b :=
  ⟨h, .zero, by rw [DecoderStats.plus_zero], by rw [DecoderStats.plus_zero]⟩

theorem trans (h₁ : SameStep a b c d) (h₂ : SameStep c d e f) : SameStep a b e f := by
  obtain ⟨first, hc, hd⟩ := h₁.counted
  obtain ⟨second, he, hf⟩ := h₂.counted
  refine ⟨h₂.alike, first.plus second, ?_, ?_⟩
  · rw [he, hc, DecoderStats.plus_assoc]
  · rw [hf, hd, DecoderStats.plus_assoc]

end SameStep

namespace Alike

variable {a b : StreamDecoder} (h : Alike a b)
include h

/-- Alike decoders agree wherever a pass may read. -/
theorem byteAt_eq {i : Nat} (hi : i < a.bufferedBytes) : byteAt a.buffer i = byteAt b.buffer i := by
  rw [← StreamDecoder.byteAt_live hi, h.live,
    StreamDecoder.byteAt_live (by rw [← h.held]; exact hi)]

/-- The same change on both sides. -/
theorem apply_live (change : Change) : (change.apply a).live = (change.apply b).live := by
  unfold StreamDecoder.live Change.apply Change.heldAfter
  cases change.kept with
  | none => exact h.live
  | some kept =>
    -- what is kept has been stored at the front
    simp only [writeAt_zero, List.take_left]

/-- **One pass.** -/
theorem pass (V : WireVersion) :
    SameStep a b (processPass V a).decoder (processPass V b).decoder ∧
      (processPass V a).frame = (processPass V b).frame ∧
      (processPass V a).processing = (processPass V b).processing := by
  -- the program reads buffered bytes only, so its effect is the same
  have heffect := (eval_congr ((processPassReads_within V (byteAt a.buffer) a.bufferedBytes).mono
    fun i hi => h.byteAt_eq hi)).1
  have hpass := eval_processPassReads V h.sized
  have hpass' := eval_processPassReads V h.sized'
  rw [← h.held, heffect] at hpass'
  generalize (processPassReads V a.bufferedBytes).eval (byteAt a.buffer) = effect at hpass hpass'
  have hsized := processPass_sized V h.sized
  have hsized' := processPass_sized V h.sized'
  rw [← hpass] at hsized ⊢
  rw [← hpass'] at hsized' ⊢
  refine ⟨⟨⟨hsized, hsized', ?_, h.apply_live effect.change⟩, effect.change.counted, rfl, rfl⟩,
    rfl, rfl⟩
  show effect.change.heldAfter a.bufferedBytes = effect.change.heldAfter b.bufferedBytes
  rw [h.held]

/-- What left the buffer in the pass is the same. -/
theorem segments (V : WireVersion) :
    (processPass V a).segments a = (processPass V b).segments b := by
  obtain ⟨hstep, hframe, _⟩ := h.pass V
  unfold Pass.segments
  rw [h.live, h.held, hstep.alike.held, hframe]

end Alike

/-! ### The loop, a byte, a string and a run -/

section Traces

variable {a b : StreamDecoder}

/-- **The loop.** -/
theorem sameStep_loopTrace (V : WireVersion) (fuel : Nat) (h : Alike a b) :
    SameStep a b (loopTrace V fuel a).1 (loopTrace V fuel b).1 ∧
      (loopTrace V fuel a).2 = (loopTrace V fuel b).2 := by
  induction fuel generalizing a b with
  | zero => exact ⟨.refl h, rfl⟩
  | succ fuel ih =>
    obtain ⟨hstep, _, hgo⟩ := h.pass V
    have hsegments := h.segments V
    unfold loopTrace
    simp only [hgo, hsegments]
    split
    · obtain ⟨hrest, hmore⟩ := ih hstep.alike
      exact ⟨hstep.trans hrest, by rw [hmore]⟩
    · exact ⟨hstep, rfl⟩

/-- The byte is stored behind the buffered ones. -/
theorem sameStep_appendByte (h : Alike a b) (hroom : a.bufferedBytes < maxFrameSize)
    (byte : UInt8) : SameStep a b (appendByte a byte) (appendByte b byte) := by
  obtain ⟨hsized, hlive, hheld, hstats⟩ := appendByte_spec h.sized hroom byte
  obtain ⟨hsized', hlive', hheld', hstats'⟩ :=
    appendByte_spec h.sized' (by rw [← h.held]; exact hroom) byte
  refine ⟨⟨hsized, hsized', ?_, ?_⟩, .zero, ?_, ?_⟩
  · rw [hheld, hheld', h.held]
  · rw [hlive, hlive', h.live]
  · rw [hstats, DecoderStats.plus_zero]
  · rw [hstats', DecoderStats.plus_zero]

/-- **One fed byte**, after which there is room again. -/
theorem sameStep_byteTrace (V : WireVersion) (h : Alike a b)
    (hroom : a.bufferedBytes < maxFrameSize) (byte : UInt8) :
    SameStep a b (byteTrace V a byte).1 (byteTrace V b byte).1 ∧
      (byteTrace V a byte).2 = (byteTrace V b byte).2 ∧
      (byteTrace V a byte).1.bufferedBytes < maxFrameSize := by
  have happend := sameStep_appendByte h hroom byte
  have hsized := happend.alike.sized
  unfold byteTrace
  dsimp only
  rw [← happend.alike.held]
  obtain ⟨hloop, hsegments⟩ := sameStep_loopTrace V (appendByte a byte).bufferedBytes happend.alike
  refine ⟨happend.trans hloop, hsegments, ?_⟩
  -- the loop ends quiet
  have hquiet := (loopTrace_spec V hsized (Nat.le_refl _)).2.length_lt
  rwa [StreamDecoder.length_live hloop.alike.sized] at hquiet

theorem sameStep_bytesTrace (V : WireVersion) (h : Alike a b)
    (hroom : a.bufferedBytes < maxFrameSize) (bytes : List UInt8) :
    SameStep a b (bytesTrace V a bytes).1 (bytesTrace V b bytes).1 ∧
      (bytesTrace V a bytes).2 = (bytesTrace V b bytes).2 ∧
      (bytesTrace V a bytes).1.bufferedBytes < maxFrameSize := by
  induction bytes generalizing a b with
  | nil => exact ⟨.refl h, rfl, hroom⟩
  | cons byte bytes ih =>
    obtain ⟨hfirst, hsegments, hroom'⟩ := sameStep_byteTrace V h hroom byte
    obtain ⟨hrest, hmore, hend⟩ := ih hfirst.alike hroom'
    refine ⟨hfirst.trans hrest, ?_, hend⟩
    unfold bytesTrace
    simp only [hsegments, hmore]

/-- What a reset counts depends on the number of buffered bytes only. -/
theorem sameStep_reset (h : Alike a b) :
    SameStep a b (streamDecoderResetIncomplete a) (streamDecoderResetIncomplete b) := by
  obtain ⟨hsized, hlive⟩ := streamDecoderResetIncomplete_spec h.sized
  obtain ⟨hsized', hlive'⟩ := streamDecoderResetIncomplete_spec h.sized'
  have hheld := StreamDecoder.length_live hsized
  have hheld' := StreamDecoder.length_live hsized'
  rw [hlive] at hheld
  rw [hlive'] at hheld'
  refine ⟨⟨hsized, hsized', by rw [← hheld, ← hheld'], by rw [hlive, hlive']⟩, ?_⟩
  unfold streamDecoderResetIncomplete
  rw [← h.held]
  split
  · exact ⟨.zero, by rw [DecoderStats.plus_zero], by rw [DecoderStats.plus_zero]⟩
  · refine ⟨{ DecoderStats.zero.discard a.bufferedBytes with gapResets := 1 }, ?_, ?_⟩
    · simp [DecoderStats.plus, DecoderStats.discard, DecoderStats.zero]
    · simp [DecoderStats.plus, DecoderStats.discard, DecoderStats.zero]

/-- **A sequence of calls.** -/
theorem sameStep_opsTrace (V : WireVersion) (h : Alike a b)
    (hroom : a.bufferedBytes < maxFrameSize) (ops : List StreamOp) :
    SameStep a b (opsTrace V a ops).1 (opsTrace V b ops).1 ∧
      (opsTrace V a ops).2 = (opsTrace V b ops).2 ∧
      (opsTrace V a ops).1.bufferedBytes < maxFrameSize := by
  induction ops generalizing a b with
  | nil => exact ⟨.refl h, rfl, hroom⟩
  | cons op ops ih =>
    have hop : SameStep a b (opTrace V a op).1 (opTrace V b op).1 ∧
        (opTrace V a op).2 = (opTrace V b op).2 ∧
        (opTrace V a op).1.bufferedBytes < maxFrameSize := by
      cases op with
      | feed data => exact sameStep_bytesTrace V h hroom data.data
      | resetIncomplete =>
        refine ⟨sameStep_reset h, by simp only [opTrace, h.live], ?_⟩
        show (streamDecoderResetIncomplete a).bufferedBytes < maxFrameSize
        rw [bufferedBytes_resetIncomplete]
        decide
    obtain ⟨hfirst, hsegments, hroom'⟩ := hop
    obtain ⟨hrest, hmore, hend⟩ := ih hfirst.alike hroom'
    refine ⟨hfirst.trans hrest, ?_, hend⟩
    unfold opsTrace
    simp only [hsegments, hmore]

end Traces

/-! ### Observable outcomes -/

/-- Whatever the calls and the callback, two decoders have the same outcome: the callback does
    the same to its context, the calls return the same numbers, the same bytes stay buffered, and
    all six counters are raised by the same amounts. -/
def SameOutcome (V : WireVersion) (a b : StreamDecoder) : Prop :=
  ∀ (σ : Type) (callback : Option (DecodedFrame → σ → σ)) (context : σ) (ops : List StreamOp),
    let run := runOps V callback ⟨a, 0, context⟩ ops
    let run' := runOps V callback ⟨b, 0, context⟩ ops
    run.context = run'.context ∧ run.emitted = run'.emitted ∧
      run.decoder.bufferedBytes = run'.decoder.bufferedBytes ∧
      run.decoder.live = run'.decoder.live ∧
      (∃ amounts, run.decoder.stats = a.stats.plus amounts ∧
        run'.decoder.stats = b.stats.plus amounts) ∧
      ∀ data, (streamDecoderFeed V callback run.decoder data run.context).emitted =
        (streamDecoderFeed V callback run'.decoder data run'.context).emitted

theorem Alike.sameOutcome {a b : StreamDecoder} (V : WireVersion) (h : Alike a b)
    (hroom : a.bufferedBytes < maxFrameSize) : SameOutcome V a b := by
  intro σ callback context ops
  obtain ⟨hstep, hsegments, hend⟩ := sameStep_opsTrace V h hroom ops
  rw [runOps_eq, runOps_eq]
  refine ⟨?_, ?_, hstep.alike.held, hstep.alike.live, hstep.counted, ?_⟩
  · simp only [FeedState.deliverAll, hsegments]
  · simp only [FeedState.deliverAll, hsegments]
  · -- one more call
    intro data
    obtain ⟨_, hmore, _⟩ := sameStep_bytesTrace V hstep.alike hend data.data
    rw [streamDecoderFeed_eq, streamDecoderFeed_eq]
    simp only [FeedState.deliverAll, hmore]

/-- **Stale bytes and past statistics never influence decoding**, and after a reset, from any
    state, every later input is decoded as by a newly initialised decoder. -/
theorem decoding_ignores_stale_bytes (V : WireVersion) :
    (∀ a b : StreamDecoder, a.buffer.length = 524 → b.buffer.length = 524 →
      a.bufferedBytes = b.bufferedBytes → a.bufferedBytes ≤ 523 →
      (∀ i < a.bufferedBytes, byteAt a.buffer i = byteAt b.buffer i) → SameOutcome V a b) ∧
    ∀ decoder : StreamDecoder, decoder.buffer.length = 524 →
      SameOutcome V (streamDecoderResetIncomplete decoder) streamDecoderInit := by
  constructor
  · intro a b ha hb hheld hroom hbytes
    have hlive : a.live = b.live := by
      unfold StreamDecoder.live
      rw [← hheld]
      have htake : ∀ buffer : List UInt8, buffer.length = 524 →
          buffer.take a.bufferedBytes = (List.range' 0 a.bufferedBytes).map (byteAt buffer) := by
        intro buffer hlength
        rw [map_byteAt_range' buffer (by omega), List.drop_zero]
      rw [htake _ ha, htake _ hb]
      apply List.map_congr_left
      intro i hi
      rw [List.mem_range'_1] at hi
      exact hbytes i (by omega)
    have hlt : a.bufferedBytes < maxFrameSize := Nat.lt_succ_of_le hroom
    exact Alike.sameOutcome V ⟨⟨ha, hlt.le⟩, ⟨hb, by rw [← hheld]; exact hlt.le⟩, hheld, hlive⟩ hlt
  · intro decoder hsize
    have hempty := bufferedBytes_resetIncomplete decoder
    refine Alike.sameOutcome V
      ⟨⟨by rw [buffer_resetIncomplete, hsize]; rfl, by rw [hempty]; decide⟩,
      streamDecoderInit_sized, hempty, ?_⟩ (by rw [hempty]; decide)
    unfold StreamDecoder.live
    rw [hempty]
    rfl

end Oomwoo
