import Oomwoo.Lib.Reads
import Oomwoo.Protocol.PassRun

namespace Oomwoo

open Bytes Scanning Reading Reads

/-!
# Which buffer bytes a pass of the loop reads

The body of `while (processing)` and the helpers it calls, once more, as programs that read the
buffer one byte at a time (`Reading.Reads`).  A program knows the number of buffered bytes, not
the statistics; its result says what the pass counts, what it leaves at the front of the buffer
and what it hands to the callback.  `eval_processPassReads` connects the programs to
`processPass`, and `processPassReads_within` says that none of them reads at or behind
`buffered_bytes`, whatever the buffer holds.
-/

/-! ### What a pass changes -/

/-- Two amounts counted one after the other, counter by counter, modulo `2 ^ 32`. -/
def DecoderStats.plus (a b : DecoderStats) : DecoderStats where
  frames := a.frames + b.frames
  discardedBytes := a.discardedBytes + b.discardedBytes
  crcErrors := a.crcErrors + b.crcErrors
  versionErrors := a.versionErrors + b.versionErrors
  lengthErrors := a.lengthErrors + b.lengthErrors
  gapResets := a.gapResets + b.gapResets

@[simp] theorem DecoderStats.plus_zero (a : DecoderStats) : a.plus .zero = a := by
  simp [plus, zero]

theorem DecoderStats.plus_assoc (a b c : DecoderStats) :
    (a.plus b).plus c = a.plus (b.plus c) := by
  simp [plus, UInt32.add_assoc]

/-- An effect on the decoder: the amounts counted, and, if bytes were removed from the front, all
    that is kept behind them. -/
structure Change where
  counted : DecoderStats
  kept : Option (List UInt8)

namespace Change

/-- Nothing is counted and nothing is removed. -/
def none : Change := ⟨.zero, Option.none⟩

/-- Count `amounts` before the change. -/
def after (amounts : DecoderStats) (change : Change) : Change :=
  ⟨amounts.plus change.counted, change.kept⟩

/-- `buffered_bytes` afterwards. -/
def heldAfter (held : Nat) (change : Change) : Nat :=
  match change.kept with
  | Option.none => held
  | some kept => kept.length

/-- What is kept is at the front of the buffer afterwards. -/
def apply (decoder : StreamDecoder) (change : Change) : StreamDecoder where
  buffer :=
    match change.kept with
    | Option.none => decoder.buffer
    | some kept => writeAt decoder.buffer 0 kept
  bufferedBytes := change.heldAfter decoder.bufferedBytes
  stats := decoder.stats.plus change.counted

theorem apply_none (decoder : StreamDecoder) : Change.none.apply decoder = decoder := by
  simp [none, apply, heldAfter]

theorem apply_after (amounts : DecoderStats) (change : Change) (decoder : StreamDecoder) :
    (change.after amounts).apply decoder =
      change.apply { decoder with stats := decoder.stats.plus amounts } := by
  simp [after, apply, heldAfter, DecoderStats.plus_assoc]

end Change

/-- What a pass does: its change, what `oomwoo_decode_frame` returned if it was called, the frame
    handed to the callback, and `processing`. -/
structure PassEffect where
  change : Change
  decoded : Option ProtocolResult
  frame : Option DecodedFrame
  processing : Bool

/-- The pass that has this effect on a decoder. -/
def PassEffect.apply (decoder : StreamDecoder) (effect : PassEffect) : Pass where
  decoder := effect.change.apply decoder
  frame := effect.frame
  processing := effect.processing

/-! ### The programs -/

/-- A computation that reads the buffer. -/
abbrev BufferReads (α : Type) := Reads Nat UInt8 α

/-- `held` stands for `decoder->buffered_bytes`, here and below. -/
def removePrefixReads (held count : Nat) (discarded : Bool) : BufferReads Change :=
  if count = 0 ∨ held < count then pure .none
  else do
    let kept ← getAll (List.range' count (held - count))
    pure ⟨if discarded then DecoderStats.zero.discard count else .zero, some kept⟩

/-- The `for` loop over the remaining indices. -/
def findMagicReads : List Nat → BufferReads (Option Nat)
  | [] => pure none
  | index :: indices => do
    let b0 ← get index
    if b0 ≠ magic0 then findMagicReads indices
    else do
      let b1 ← get (index + 1)
      if b1 ≠ magic1 then findMagicReads indices else pure (some index)

def resyncAfterErrorReads (held : Nat) : BufferReads Change := do
  match ← findMagicReads (List.range' 1 (held - 2)) with
  | some index => removePrefixReads held index true
  | none =>
    if held = 0 then removePrefixReads held held true
    else do
      let last ← get (held - 1)
      removePrefixReads held (if last = magic0 then held - 1 else held) true

/-- `buffer[0] != MAGIC_0 || buffer[1] != MAGIC_1` -/
def wrongMagicReads : BufferReads Bool := do
  let b0 ← get 0
  if b0 ≠ magic0 then pure true
  else do
    let b1 ← get 1
    pure (decide (b1 ≠ magic1))

def crc16CcittFalseReads (length : Nat) : BufferReads UInt16 := do
  let data ← getAll (List.range' 0 length)
  pure (crcBytes data)

/-- On the first `length` bytes of the buffer.  The payload is what the callback finds behind
    the pointer. -/
def decodeFrameReads (V : WireVersion) (length : Nat) :
    BufferReads (Except ProtocolResult DecodedFrame) :=
  if length < headerSize + crcSize then pure (.error .frameTooShort)
  else do
    let wrongMagic ← wrongMagicReads
    if wrongMagic then pure (.error .badMagic)
    else do
      let version ← get 2
      if version ≠ V.byte then pure (.error .badVersion)
      else do
        let payloadLength ← readU16LeReads 8
        if maxPayloadSize < payloadLength.toNat then pure (.error .payloadTooLarge)
        else if length ≠ headerSize + payloadLength.toNat + crcSize then
          pure (.error .lengthMismatch)
        else do
          let expectedCrc ← readU16LeReads (length - crcSize)
          let actualCrc ← crc16CcittFalseReads (length - crcSize)
          if expectedCrc ≠ actualCrc then pure (.error .badCrc)
          else do
            let flags ← get 3
            let sequence ← readU16LeReads 4
            let messageType ← readU16LeReads 6
            let payload ← getAll (List.range' headerSize payloadLength.toNat)
            pure (.ok ⟨version, flags, sequence, messageType, .bytes payload⟩)

/-- `processing = decoder->buffered_bytes >= 2u ? 1u : 0u` after a resync. -/
def resyncReads (held : Nat) (amounts : DecoderStats) (decoded : Option ProtocolResult) :
    BufferReads PassEffect := do
  let change ← resyncAfterErrorReads held
  pure ⟨change.after amounts, decoded, none, decide (2 ≤ change.heldAfter held)⟩

def PassEffect.wait (change : Change) : PassEffect := ⟨change, none, none, false⟩

def processPassReads (V : WireVersion) (held : Nat) : BufferReads PassEffect :=
  if held = 1 then do
    let b0 ← get 0
    if b0 ≠ magic0 then do
      let change ← removePrefixReads held 1 true
      pure (.wait change)
    else pure (.wait .none)
  else if held < 2 then pure (.wait .none)
  else do
    let wrongMagic ← wrongMagicReads
    if wrongMagic then resyncReads held .zero none
    else if held < headerSize then pure (.wait .none)
    else do
      let version ← get 2
      if version ≠ V.byte then resyncReads held { DecoderStats.zero with versionErrors := 1 } none
      else do
        let payloadLength ← readU16LeReads 8
        if maxPayloadSize < payloadLength.toNat then
          resyncReads held { DecoderStats.zero with lengthErrors := 1 } none
        else if held < headerSize + payloadLength.toNat + crcSize then pure (.wait .none)
        else do
          match ← decodeFrameReads V (headerSize + payloadLength.toNat + crcSize) with
          | .ok frame => do
            let change ← removePrefixReads held (headerSize + payloadLength.toNat + crcSize) false
            pure ⟨change.after { DecoderStats.zero with frames := 1 }, some .ok, some frame,
              decide (2 ≤ change.heldAfter held)⟩
          | .error .badCrc =>
            resyncReads held { DecoderStats.zero with crcErrors := 1 } (some .badCrc)
          | .error result =>
            resyncReads held { DecoderStats.zero with lengthErrors := 1 } (some result)

/-! ### What the programs compute -/

section Eval

variable {V : WireVersion} {decoder : StreamDecoder}

/-- Reading a stretch byte by byte. -/
theorem map_byteAt_range' (bytes : List UInt8) {off n : Nat} (h : off + n ≤ bytes.length) :
    (List.range' off n).map (byteAt bytes) = (bytes.drop off).take n := by
  induction n generalizing off with
  | zero => rw [List.take_zero]; rfl
  | succ n ih =>
    rw [List.range'_succ, List.map_cons, ih (by omega),
      drop_eq_byteAt_cons bytes (show off < bytes.length by omega), List.take_succ_cons]

theorem eval_wrongMagicReads (bytes : List UInt8) :
    wrongMagicReads.eval (byteAt bytes) =
      decide (byteAt bytes 0 ≠ magic0 ∨ byteAt bytes 1 ≠ magic1) := by
  unfold wrongMagicReads
  rw [eval_bind, eval_get, eval_ite]
  by_cases h0 : byteAt bytes 0 = magic0
  · rw [if_neg (not_not.mpr h0), eval_bind, eval_get, eval_pure]
    simp only [h0, ne_eq, not_true, false_or]
  · rw [if_pos h0, eval_pure]
    simp only [h0, ne_eq, not_false_iff, true_or, decide_true]

theorem eval_crc16CcittFalseReads (bytes : List UInt8) {n : Nat} (h : n ≤ bytes.length) :
    (crc16CcittFalseReads n).eval (byteAt bytes) = crc16CcittFalse (.bytes (bytes.take n)) := by
  unfold crc16CcittFalseReads
  rw [eval_bind, eval_getAll, map_byteAt_range' bytes (by omega), List.drop_zero, eval_pure,
    crc16CcittFalse_bytes]

/-- The complete-frame decoder on a prefix of the buffer. -/
theorem eval_decodeFrameReads (V : WireVersion) (bytes : List UInt8) {n : Nat}
    (h : n ≤ bytes.length) :
    (decodeFrameReads V n).eval (byteAt bytes) = parseFrame V (bytes.take n) := by
  have hlen : (bytes.take n).length = n := by rw [List.length_take]; omega
  unfold decodeFrameReads parseFrame
  rw [eval_ite, hlen]
  by_cases hshort : n < headerSize + crcSize
  · rw [if_pos hshort, if_pos hshort, eval_pure]
  rw [if_neg hshort, if_neg hshort]
  simp only [headerSize, crcSize, not_lt] at hshort
  -- behind the first check every header field is inside the prefix
  rw [byteAt_take bytes (show 0 < n by omega), byteAt_take bytes (show 1 < n by omega),
    byteAt_take bytes (show 2 < n by omega), byteAt_take bytes (show 3 < n by omega),
    readU16Le_drop_take (show 4 + 1 < n by omega), readU16Le_drop_take (show 6 + 1 < n by omega),
    readU16Le_drop_take (show 8 + 1 < n by omega), eval_bind, eval_wrongMagicReads, eval_ite]
  by_cases hmagic : byteAt bytes 0 ≠ magic0 ∨ byteAt bytes 1 ≠ magic1
  · rw [if_pos hmagic, if_pos (decide_eq_true hmagic), eval_pure]
  rw [if_neg hmagic, if_neg (by simpa using hmagic), eval_bind, eval_get, eval_ite]
  by_cases hversion : byteAt bytes 2 ≠ V.byte
  · rw [if_pos hversion, if_pos hversion, eval_pure]
  rw [if_neg hversion, if_neg hversion, eval_bind, eval_readU16LeReads, eval_ite]
  by_cases hlarge : maxPayloadSize < (readU16Le (bytes.drop 8)).toNat
  · simp only [if_pos hlarge, eval_pure]
  rw [if_neg hlarge, eval_ite]
  simp only [if_neg hlarge]
  by_cases hsize : n ≠ headerSize + (readU16Le (bytes.drop 8)).toNat + crcSize
  · rw [if_pos hsize, if_pos hsize, eval_pure]
  rw [if_neg hsize, if_neg hsize]
  have hexpected := not_not.mp hsize
  simp only [headerSize, crcSize] at hexpected
  -- so are the checksum, what it covers and the payload
  rw [readU16Le_drop_take (by simp only [crcSize]; omega), List.take_take,
    Nat.min_eq_left (by omega), List.drop_take, List.take_take,
    Nat.min_eq_left (by simp only [headerSize]; omega), eval_bind, eval_readU16LeReads, eval_bind,
    eval_crc16CcittFalseReads bytes (by omega), eval_ite]
  split
  · rw [eval_pure]
  · rw [eval_bind, eval_get, eval_bind, eval_readU16LeReads, eval_bind, eval_readU16LeReads,
      eval_bind, eval_getAll, map_byteAt_range' bytes (by simp only [headerSize]; omega),
      eval_pure]

theorem eval_removePrefixReads (h : decoder.Sized) (count : Nat) (discarded : Bool) :
    ((removePrefixReads decoder.bufferedBytes count discarded).eval
      (byteAt decoder.buffer)).apply decoder = removePrefix decoder count discarded := by
  have hsize := h.size
  have hheld := h.held
  unfold removePrefixReads removePrefix
  rw [eval_ite]
  by_cases hguard : count = 0 ∨ decoder.bufferedBytes < count
  · rw [if_pos hguard, if_pos hguard, eval_pure, Change.apply_none]
  rw [if_neg hguard, if_neg hguard, eval_bind, eval_getAll, map_byteAt_range' _ (by omega),
    eval_pure]
  have hlen : ((decoder.buffer.drop count).take (decoder.bufferedBytes - count)).length =
      decoder.bufferedBytes - count := by
    rw [List.length_take, List.length_drop]
    omega
  unfold Change.apply Change.heldAfter
  simp only [hlen, StreamDecoder.mk.injEq, true_and]
  refine ⟨?_, ?_⟩
  · -- with nothing left the move is skipped, and storing nothing is the same
    by_cases hrest : decoder.bufferedBytes - count = 0
    · rw [if_neg (not_not.mpr hrest), hrest, List.take_zero, writeAt_nil]
    · rw [if_pos hrest]
  · cases discarded with
    | true => simp [DecoderStats.plus, DecoderStats.discard, DecoderStats.zero]
    | false => simp

theorem eval_findMagicReads (bytes : List UInt8) (indices : List Nat) :
    (findMagicReads indices).eval (byteAt bytes) =
      indices.find? fun index =>
        byteAt bytes index == magic0 && byteAt bytes (index + 1) == magic1 := by
  induction indices with
  | nil => rfl
  | cons index indices ih =>
    unfold findMagicReads
    rw [eval_bind, eval_get, eval_ite]
    by_cases h0 : byteAt bytes index = magic0
    · rw [if_neg (not_not.mpr h0), eval_bind, eval_get, eval_ite]
      by_cases h1 : byteAt bytes (index + 1) = magic1
      · rw [if_neg (not_not.mpr h1), eval_pure, List.find?_cons_of_pos (by simp [h0, h1])]
      · rw [if_pos h1, ih, List.find?_cons_of_neg (by simp [h1])]
    · rw [if_pos h0, ih, List.find?_cons_of_neg (by simp [h0])]

theorem eval_resyncAfterErrorReads (h : decoder.Sized) :
    ((resyncAfterErrorReads decoder.bufferedBytes).eval (byteAt decoder.buffer)).apply decoder =
      resyncAfterError decoder := by
  unfold resyncAfterErrorReads resyncAfterError
  rw [eval_bind, eval_findMagicReads, ← findMagic]
  cases findMagic decoder with
  | some index => exact eval_removePrefixReads h _ _
  | none =>
    simp only [eval_ite]
    by_cases hzero : decoder.bufferedBytes = 0
    · rw [if_pos hzero, if_neg (by simp [hzero])]
      exact eval_removePrefixReads h _ _
    · rw [if_neg hzero, eval_bind, eval_get]
      by_cases hlast : byteAt decoder.buffer (decoder.bufferedBytes - 1) = magic0
      · rw [if_pos hlast, if_pos ⟨hzero, hlast⟩]
        exact eval_removePrefixReads h _ _
      · rw [if_neg hlast, if_neg (by simp [hlast])]
        exact eval_removePrefixReads h _ _

/-- The resync exits. -/
theorem eval_resyncReads (h : decoder.Sized) (amounts : DecoderStats)
    (decoded : Option ProtocolResult) :
    ((resyncReads decoder.bufferedBytes amounts decoded).eval (byteAt decoder.buffer)).apply
      decoder = .resync { decoder with stats := decoder.stats.plus amounts } := by
  have hcounted : ({ decoder with stats := decoder.stats.plus amounts } : StreamDecoder).Sized :=
    ⟨h.size, h.held⟩
  have heval := eval_resyncAfterErrorReads hcounted
  unfold resyncReads PassEffect.apply Pass.resync
  rw [eval_bind, eval_pure]
  simp only [Change.apply_after, ← heval]
  rfl

/-- One more on a counter. -/
theorem plus_one (stats : DecoderStats) :
    stats.plus { DecoderStats.zero with versionErrors := 1 } =
        { stats with versionErrors := stats.versionErrors + 1 } ∧
      stats.plus { DecoderStats.zero with lengthErrors := 1 } =
        { stats with lengthErrors := stats.lengthErrors + 1 } ∧
      stats.plus { DecoderStats.zero with crcErrors := 1 } =
        { stats with crcErrors := stats.crcErrors + 1 } ∧
      stats.plus { DecoderStats.zero with frames := 1 } =
        { stats with frames := stats.frames + 1 } := by
  simp [DecoderStats.plus, DecoderStats.zero]

/-- What a resync reports is what it was told. -/
theorem decoded_resyncReads (mem : Nat → UInt8) (held : Nat) (amounts : DecoderStats)
    (decoded : Option ProtocolResult) :
    ((resyncReads held amounts decoded).eval mem).decoded = decoded := by
  unfold resyncReads
  rw [eval_bind, eval_pure]

/-- The checks of the loop in front of `oomwoo_decode_frame`: the buffer starts with a candidate,
    and all of it is there. -/
structure CompleteCandidate (V : WireVersion) (decoder : StreamDecoder) : Prop where
  candidate : Candidate V decoder.live
  closed : 12 + declaredLength decoder.live ≤ decoder.bufferedBytes

/-- What `oomwoo_decode_frame` returns for the candidate at the front of the buffer. -/
def candidateResult (V : WireVersion) (decoder : StreamDecoder) : ProtocolResult :=
  (decodeFrame V (.bytes (decoder.buffer.take (12 + declaredLength decoder.live)))
    (some .zero)).1

/-- The checks as the loop makes them. -/
theorem completeCandidate_iff (h : decoder.Sized) :
    CompleteCandidate V decoder ↔ headerSize ≤ decoder.bufferedBytes ∧
      ¬ (byteAt decoder.buffer 0 ≠ magic0 ∨ byteAt decoder.buffer 1 ≠ magic1) ∧
      byteAt decoder.buffer 2 = V.byte ∧
      (readU16Le (decoder.buffer.drop 8)).toNat ≤ maxPayloadSize ∧
      headerSize + (readU16Le (decoder.buffer.drop 8)).toNat + crcSize ≤
        decoder.bufferedBytes := by
  have hlen := decoder.length_live h
  simp only [headerSize, crcSize, maxPayloadSize]
  by_cases hheader : 10 ≤ decoder.bufferedBytes
  · rw [declaredLength_live hheader, not_or, not_not, not_not,
      ← StreamDecoder.byteAt_live (show 0 < decoder.bufferedBytes by omega),
      ← StreamDecoder.byteAt_live (show 1 < decoder.bufferedBytes by omega),
      ← StreamDecoder.byteAt_live (show 2 < decoder.bufferedBytes by omega)]
    constructor
    · rintro ⟨⟨hmagic, _, hversion, hdeclared⟩, hclosed⟩
      exact ⟨hheader, ⟨hmagic.first, hmagic.second⟩, hversion, hdeclared, by omega⟩
    · rintro ⟨_, ⟨hfirst, hsecond⟩, hversion, hdeclared, hclosed⟩
      exact ⟨⟨⟨by omega, hfirst, hsecond⟩, by omega, hversion, hdeclared⟩, by omega⟩
  · constructor
    · intro hcomplete
      have hclosed := hcomplete.closed
      omega
    · rintro ⟨hlong, _⟩
      exact absurd hlong hheader

/-- **The checks made twice agree.** Behind those of the loop the complete-frame decoder can only
    object to the checksum. -/
theorem CompleteCandidate.parseFrame_eq (h : decoder.Sized)
    (hcomplete : CompleteCandidate V decoder) :
    parseFrame V (decoder.buffer.take (12 + declaredLength decoder.live)) = .error .badCrc ∨
      ∃ frame, parseFrame V (decoder.buffer.take (12 + declaredLength decoder.live)) =
        .ok frame := by
  have hlen := decoder.length_live h
  have hclosed := hcomplete.closed
  rw [← StreamDecoder.take_live hclosed,
    parseFrame_of_candidate hcomplete.candidate (by omega)]
  split_ifs
  · exact .inl rfl
  · exact .inr ⟨_, rfl⟩

theorem CompleteCandidate.result (h : decoder.Sized) (hcomplete : CompleteCandidate V decoder) :
    candidateResult V decoder = .ok ∨ candidateResult V decoder = .badCrc := by
  unfold candidateResult
  rcases hcomplete.parseFrame_eq h with hparse | ⟨frame, hparse⟩
  · exact .inr (by rw [decodeFrame, hparse])
  · exact .inl (by rw [decodeFrame, hparse])

/-- **The program of the loop body is the loop body.** It calls the complete-frame decoder exactly
    on a complete candidate, and reports what that returned. -/
theorem processPassReads_spec (V : WireVersion) (h : decoder.Sized) :
    let effect := (processPassReads V decoder.bufferedBytes).eval (byteAt decoder.buffer)
    effect.apply decoder = processPass V decoder ∧
      ∀ result, effect.decoded = some result ↔
        CompleteCandidate V decoder ∧ candidateResult V decoder = result := by
  have hsize := h.size
  have hheld := h.held
  obtain ⟨hversions, hlengths, hcrcs, hframes⟩ := plus_one decoder.stats
  -- the exits in front of the complete-frame decoder
  have hearly : ∀ {effect : PassEffect} {pass : Pass}, effect.apply decoder = pass →
      effect.decoded = none → ¬ CompleteCandidate V decoder →
        effect.apply decoder = pass ∧ ∀ result, effect.decoded = some result ↔
          CompleteCandidate V decoder ∧ candidateResult V decoder = result := by
    intro effect pass happly hnone hincomplete
    refine ⟨happly, fun result => ⟨fun hsome => ?_, fun hcall => absurd hcall.1 hincomplete⟩⟩
    rw [hnone] at hsome
    cases hsome
  have hwait : (PassEffect.wait .none).apply decoder = .wait decoder := by
    rw [PassEffect.wait, PassEffect.apply, Change.apply_none, Pass.wait]
  unfold processPassReads processPass
  rw [eval_ite]
  have hchecks := completeCandidate_iff (V := V) h
  by_cases hone : decoder.bufferedBytes = 1
  · have hincomplete : ¬ CompleteCandidate V decoder := by
      intro hcomplete
      have hheader := (hchecks.mp hcomplete).1
      rw [hone] at hheader
      exact absurd hheader (by decide)
    rw [if_pos hone, if_pos hone, eval_bind, eval_get, eval_ite]
    by_cases h0 : byteAt decoder.buffer 0 ≠ magic0
    · rw [if_pos h0, if_pos h0, eval_bind, eval_pure, ← eval_removePrefixReads h]
      exact hearly rfl rfl hincomplete
    · rw [if_neg h0, if_neg h0, eval_pure]
      exact hearly hwait rfl hincomplete
  rw [if_neg hone, if_neg hone, eval_ite]
  by_cases hfew : decoder.bufferedBytes < 2
  · rw [if_pos hfew, if_pos hfew, eval_pure]
    refine hearly hwait rfl fun hcomplete => ?_
    have hheader := (hchecks.mp hcomplete).1
    simp only [headerSize] at hheader
    omega
  rw [if_neg hfew, if_neg hfew, eval_bind, eval_wrongMagicReads, eval_ite]
  by_cases hmagic : byteAt decoder.buffer 0 ≠ magic0 ∨ byteAt decoder.buffer 1 ≠ magic1
  · rw [if_pos hmagic, if_pos (decide_eq_true hmagic)]
    have hexit := eval_resyncReads h .zero none
    rw [DecoderStats.plus_zero] at hexit
    exact hearly hexit (decoded_resyncReads _ _ _ _)
      fun hcomplete => (hchecks.mp hcomplete).2.1 hmagic
  rw [if_neg hmagic, if_neg (by simpa using hmagic), eval_ite]
  by_cases hshort : decoder.bufferedBytes < headerSize
  · rw [if_pos hshort, if_pos hshort, eval_pure]
    exact hearly hwait rfl fun hcomplete => not_lt.mpr (hchecks.mp hcomplete).1 hshort
  rw [if_neg hshort, if_neg hshort, eval_bind, eval_get, eval_ite]
  by_cases hversion : byteAt decoder.buffer 2 ≠ V.byte
  · rw [if_pos hversion, if_pos hversion, ← hversions]
    exact hearly (eval_resyncReads h _ none) (decoded_resyncReads _ _ _ _)
      fun hcomplete => hversion (hchecks.mp hcomplete).2.2.1
  rw [if_neg hversion, if_neg hversion, eval_bind, eval_readU16LeReads, eval_ite]
  simp only
  by_cases hlarge : maxPayloadSize < (readU16Le (decoder.buffer.drop 8)).toNat
  · rw [if_pos hlarge, if_pos hlarge, ← hlengths]
    exact hearly (eval_resyncReads h _ none) (decoded_resyncReads _ _ _ _)
      fun hcomplete => not_lt.mpr (hchecks.mp hcomplete).2.2.2.1 hlarge
  rw [if_neg hlarge, if_neg hlarge, eval_ite]
  by_cases hopen : decoder.bufferedBytes <
      headerSize + (readU16Le (decoder.buffer.drop 8)).toNat + crcSize
  · rw [if_pos hopen, if_pos hopen, eval_pure]
    exact hearly hwait rfl fun hcomplete => not_lt.mpr (hchecks.mp hcomplete).2.2.2.2 hopen
  rw [if_neg hopen, if_neg hopen, eval_bind, eval_decodeFrameReads V _ (by omega), decodeFrame]
  -- a whole header has passed every check, so only the checksum is left to the decoder
  have hcomplete : CompleteCandidate V decoder := hchecks.mpr ⟨not_lt.mp hshort, hmagic,
    not_not.mp hversion, not_lt.mp hlarge, not_lt.mp hopen⟩
  have hlength : headerSize + (readU16Le (decoder.buffer.drop 8)).toNat + crcSize =
      12 + declaredLength decoder.live := by
    simp only [headerSize, crcSize, not_lt] at hshort ⊢
    rw [declaredLength_live hshort]
    omega
  rw [hlength]
  unfold candidateResult
  rcases hcomplete.parseFrame_eq h with hparse | ⟨frame, hparse⟩
  · have hexit := eval_resyncReads h { DecoderStats.zero with crcErrors := 1 } (some .badCrc)
    rw [hcrcs] at hexit
    rw [hparse]
    refine ⟨hexit, fun result => ?_⟩
    rw [decoded_resyncReads, decodeFrame, hparse]
    simp [hcomplete]
  · have hcounted : ({ decoder with stats.frames := decoder.stats.frames + 1 } :
        StreamDecoder).Sized := ⟨h.size, h.held⟩
    have hremove := eval_removePrefixReads hcounted (12 + declaredLength decoder.live) false
    simp only [hparse, eval_bind, eval_pure, PassEffect.apply, Change.apply_after, Pass.deliver,
      hframes, ← hremove, decodeFrame]
    exact ⟨rfl, fun result => by simp [hcomplete]⟩

theorem eval_processPassReads (V : WireVersion) (h : decoder.Sized) :
    ((processPassReads V decoder.bufferedBytes).eval (byteAt decoder.buffer)).apply decoder =
      processPass V decoder :=
  (processPassReads_spec V h).1

end Eval

/-! ### Where the programs read -/

section Where

variable {mem : Nat → UInt8} {held : Nat}

theorem removePrefixReads_within (mem : Nat → UInt8) (held count : Nat) (discarded : Bool) :
    Within mem (· < held) (removePrefixReads held count discarded) := by
  unfold removePrefixReads
  refine within_ite (fun _ => within_pure _) fun hguard => within_bind ?_ (within_pure _)
  apply within_getAll
  intro i hi
  rw [List.mem_range'_1] at hi
  omega

theorem findMagicReads_within {indices : List Nat} (h : ∀ index ∈ indices, index + 1 < held) :
    Within mem (· < held) (findMagicReads indices) := by
  induction indices with
  | nil => exact within_pure _
  | cons index indices ih =>
    have hindex := h index List.mem_cons_self
    have hrest := ih fun i hi => h i (List.mem_cons_of_mem _ hi)
    unfold findMagicReads
    refine within_bind (within_get (by omega)) (within_ite (fun _ => hrest) fun _ => ?_)
    exact within_bind (within_get hindex) (within_ite (fun _ => hrest) fun _ => within_pure _)

theorem resyncAfterErrorReads_within (mem : Nat → UInt8) (held : Nat) :
    Within mem (· < held) (resyncAfterErrorReads held) := by
  unfold resyncAfterErrorReads
  refine within_bind (findMagicReads_within ?_) ?_
  · intro index hindex
    rw [List.mem_range'_1] at hindex
    omega
  split
  · exact removePrefixReads_within _ _ _ _
  · refine within_ite (fun _ => removePrefixReads_within _ _ _ _) fun hpos => ?_
    exact within_bind (within_get (by omega)) (removePrefixReads_within _ _ _ _)

theorem wrongMagicReads_within (h : 2 ≤ held) : Within mem (· < held) wrongMagicReads := by
  unfold wrongMagicReads
  refine within_bind (within_get (by omega)) (within_ite (fun _ => within_pure _) fun _ => ?_)
  exact within_bind (within_get (by omega)) (within_pure _)

theorem readU16LeReads_within {off : Nat} (h : off + 1 < held) :
    Within mem (· < held) (readU16LeReads off) := by
  unfold readU16LeReads wordReads
  refine within_bind (within_getAll ?_) (within_pure _)
  intro i hi
  rw [List.mem_range'_1] at hi
  omega

theorem getAll_within {off n : Nat} (h : off + n ≤ held) :
    Within mem (· < held) (getAll (List.range' off n) : BufferReads (List UInt8)) := by
  apply within_getAll
  intro i hi
  rw [List.mem_range'_1] at hi
  omega

/-- The complete-frame decoder stays within the length it is given. -/
theorem decodeFrameReads_within (V : WireVersion) (mem : Nat → UInt8) (length : Nat) :
    Within mem (· < length) (decodeFrameReads V length) := by
  unfold decodeFrameReads
  refine within_ite (fun _ => within_pure _) fun hshort => ?_
  simp only [headerSize, crcSize, not_lt] at hshort
  refine within_bind (wrongMagicReads_within (by omega)) (within_ite (fun _ => within_pure _) ?_)
  intro _
  refine within_bind (within_get (by omega)) (within_ite (fun _ => within_pure _) fun _ => ?_)
  refine within_bind (readU16LeReads_within (by omega)) (within_ite (fun _ => within_pure _) ?_)
  intro _
  refine within_ite (fun _ => within_pure _) fun hsize => ?_
  -- the declared length is the length that was given
  have hexpected := not_not.mp hsize
  simp only [headerSize, crcSize] at hexpected
  refine within_bind (readU16LeReads_within (by simp only [crcSize]; omega)) ?_
  refine within_bind (within_bind (getAll_within (by omega)) (within_pure _)) ?_
  refine within_ite (fun _ => within_pure _) fun _ => ?_
  refine within_bind (within_get (by omega)) (within_bind (readU16LeReads_within (by omega)) ?_)
  refine within_bind (readU16LeReads_within (by omega)) (within_bind ?_ (within_pure _))
  exact getAll_within (by simp only [headerSize]; omega)

/-- **No pass reads at or behind `buffered_bytes`**, whatever is in the buffer. -/
theorem processPassReads_within (V : WireVersion) (mem : Nat → UInt8) (held : Nat) :
    Within mem (· < held) (processPassReads V held) := by
  have hresync : ∀ amounts decoded, Within mem (· < held) (resyncReads held amounts decoded) :=
    fun _ _ => within_bind (resyncAfterErrorReads_within mem held) (within_pure _)
  unfold processPassReads
  refine within_ite (fun hone => ?_) fun _ => within_ite (fun _ => within_pure _) fun hmany => ?_
  · refine within_bind (within_get (by omega)) (within_ite (fun _ => ?_) fun _ => within_pure _)
    exact within_bind (removePrefixReads_within _ _ _ _) (within_pure _)
  refine within_bind (wrongMagicReads_within (by omega)) (within_ite (fun _ => hresync _ _) ?_)
  intro _
  refine within_ite (fun _ => within_pure _) fun hheader => ?_
  simp only [headerSize, not_lt] at hheader
  refine within_bind (within_get (by omega)) (within_ite (fun _ => hresync _ _) fun _ => ?_)
  refine within_bind (readU16LeReads_within (by omega)) (within_ite (fun _ => hresync _ _) ?_)
  intro _
  refine within_ite (fun _ => within_pure _) fun hclosed => ?_
  -- the frame that is decoded lies inside what is buffered
  refine within_bind ((decodeFrameReads_within V mem _).mono fun i hi => by omega) ?_
  split
  · exact within_bind (removePrefixReads_within _ _ _ _) (within_pure _)
  · exact hresync _ _
  · exact hresync _ _

end Where

end Oomwoo
