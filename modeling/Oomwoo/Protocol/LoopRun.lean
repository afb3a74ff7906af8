import Oomwoo.Protocol.PassRun

namespace Oomwoo

open Bytes Scanning

/-!
# The processing loop refines the scanner

The pass lemma is composed along the loop by transitivity and along the input by `Run.join`, so
the loop, one fed byte and a fed string are runs of `frameScanner` as well (`loopTrace_spec`,
`byteTrace_spec`, `bytesTrace_spec`).  Since a pass that asks for another one has removed
something, the fuel of the loop never runs out (`processLoop_enough`).
-/

variable {V : WireVersion} {decoder : StreamDecoder}

/-- **The loop is a run of the scanner** and ends quiet, whenever the fuel covers the buffered
    bytes: every pass that goes on has removed some. -/
theorem loopTrace_spec (V : WireVersion) {fuel : Nat} (h : decoder.Sized)
    (hfuel : decoder.bufferedBytes ≤ fuel) :
    (∃ pieces, Decodes V decoder.stats decoder.live (loopTrace V fuel decoder).1
      (loopTrace V fuel decoder).2 pieces) ∧ Quiet V (loopTrace V fuel decoder).1.live := by
  induction fuel generalizing decoder with
  | zero =>
    have hnil : decoder.live = [] := by
      rw [StreamDecoder.live, Nat.le_zero.mp hfuel, List.take_zero]
    exact ⟨⟨[], .refl h⟩, .inl (by rw [loopTrace, hnil, scanStep_nil])⟩
  | succ fuel ih =>
    have hpass := processPass_spec V h
    obtain ⟨pieces, hdecodes⟩ := hpass.decodes
    rw [loopTrace]
    cases hgo : (processPass V decoder).processing with
    | true =>
      -- the pass removed something, so less fuel is enough for the rest
      have hless := hpass.decreases hgo
      obtain ⟨⟨rest, hrest⟩, hquiet⟩ := ih hdecodes.sized (by omega)
      exact ⟨⟨pieces ++ rest, hdecodes.trans hrest⟩, hquiet⟩
    | false =>
      refine ⟨⟨pieces, ?_⟩, hpass.quiet hgo⟩
      simpa using hdecodes

/-- With nothing buffered the loop does nothing. -/
theorem processLoop_of_empty {σ : Type} (V : WireVersion)
    (callback : Option (DecodedFrame → σ → σ)) (fuel : Nat) {state : FeedState σ}
    (hzero : state.decoder.bufferedBytes = 0) : processLoop V callback fuel state = state := by
  cases fuel with
  | zero => rfl
  | succ fuel =>
    have hwait : processPass V state.decoder = .wait state.decoder := by
      rw [processPass, if_neg (by omega), if_pos (by omega)]
    rw [processLoop, hwait]
    rfl

/-- **The fuel never runs out**: any two amounts that cover the buffered bytes give the same. -/
theorem processLoop_enough {σ : Type} (V : WireVersion)
    (callback : Option (DecodedFrame → σ → σ)) {fuel enough : Nat} {state : FeedState σ}
    (h : state.decoder.Sized) (hfuel : state.decoder.bufferedBytes ≤ fuel)
    (henough : state.decoder.bufferedBytes ≤ enough) :
    processLoop V callback fuel state = processLoop V callback enough state := by
  induction fuel generalizing enough state with
  | zero =>
    rw [processLoop_of_empty V callback _ (by omega), processLoop_of_empty V callback _ (by omega)]
  | succ fuel ih =>
    cases enough with
    | zero =>
      rw [processLoop_of_empty V callback _ (by omega),
        processLoop_of_empty V callback _ (by omega)]
    | succ enough =>
      have hpass := processPass_spec V h
      obtain ⟨_, hdecodes⟩ := hpass.decodes
      -- the callback does not touch the decoder
      have hafter : (state.after callback (processPass V state.decoder)).decoder =
          (processPass V state.decoder).decoder := by
        rw [after_eq callback state.decoder]
        rfl
      rw [processLoop, processLoop]
      cases hgo : (processPass V state.decoder).processing with
      | false => rfl
      | true =>
        have hless := hpass.decreases hgo
        simp only [if_true]
        exact ih (by rw [hafter]; exact hdecodes.sized) (by rw [hafter]; omega)
          (by rw [hafter]; omega)

/-- One fed byte. -/
theorem byteTrace_spec (V : WireVersion) (h : decoder.Sized) (hquiet : Quiet V decoder.live)
    (byte : UInt8) :
    (∃ pieces, Decodes V decoder.stats (decoder.live ++ [byte]) (byteTrace V decoder byte).1
      (byteTrace V decoder byte).2 pieces) ∧ Quiet V (byteTrace V decoder byte).1.live := by
  have hroom := hquiet.length_lt
  rw [decoder.length_live h] at hroom
  obtain ⟨hsized, hlive, _, hstats⟩ := appendByte_spec h hroom byte
  have hloop := loopTrace_spec V hsized (Nat.le_refl _)
  rw [hlive, hstats] at hloop
  exact hloop

/-- **A fed string is a run of the scanner** on what was live, followed by the string. -/
theorem bytesTrace_spec (V : WireVersion) (h : decoder.Sized) (hquiet : Quiet V decoder.live)
    (bytes : List UInt8) :
    (∃ pieces, Decodes V decoder.stats (decoder.live ++ bytes) (bytesTrace V decoder bytes).1
      (bytesTrace V decoder bytes).2 pieces) ∧ Quiet V (bytesTrace V decoder bytes).1.live := by
  induction bytes generalizing decoder with
  | nil =>
    rw [List.append_nil]
    exact ⟨⟨[], .refl h⟩, hquiet⟩
  | cons byte bytes ih =>
    obtain ⟨⟨pieces, hfirst⟩, hquiet'⟩ := byteTrace_spec V h hquiet byte
    obtain ⟨⟨rest, hrest⟩, hend⟩ := ih hfirst.sized hquiet'
    refine ⟨⟨pieces ++ rest, ?_⟩, hend⟩
    rw [← List.singleton_append, ← List.append_assoc]
    exact hfirst.join hrest

end Oomwoo
