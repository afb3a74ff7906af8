import Oomwoo.Lib.Amortized
import Oomwoo.Protocol.BufferSafety
import Oomwoo.Protocol.Retained

namespace Oomwoo

open Bytes Scanning Reading Reads Amortized

/-!
# How much the decoder works

One byte may make the loop search and move the buffer again and again, but only for bytes that
were fed before: every pass that goes on has removed something, and a pass that removes nothing is
the last one for its byte and reads five bytes at most.  So the buffered bytes are a potential
that pays for the loop, and over a whole run the work is linear in the bytes fed
(`work_bounded`).  Costs are counted by the programs of `Oomwoo.Protocol.BufferReads`; storing the
byte is not counted, and the resync that makes room for it never runs (`decoderRun_room`).
-/

/-! ### One pass -/

/-- How often a pass looks at the buffer, the bytes it moves and the payload that the callback may
    look at included. -/
def passReads (V : WireVersion) (decoder : StreamDecoder) : ℕ :=
  ((processPassReads V decoder.bufferedBytes).addresses (byteAt decoder.buffer)).length

section Counts

variable {mem : Nat → UInt8} {held : Nat}

theorem getRange_atMost (mem : Nat → UInt8) (off n : Nat) :
    AtMost mem n (getAll (List.range' off n) : BufferReads (List UInt8)) := by
  have hall : AtMost mem (List.range' off n).length
      (getAll (List.range' off n) : BufferReads (List UInt8)) := atMost_getAll _
  rwa [List.length_range'] at hall

theorem removePrefixReads_atMost (mem : Nat → UInt8) (held count : Nat) (discarded : Bool) :
    AtMost mem (held - count) (removePrefixReads held count discarded) := by
  unfold removePrefixReads
  refine atMost_ite (fun _ => atMost_pure _) fun _ => ?_
  exact atMost_bind (getRange_atMost mem _ _) (n := 0) (atMost_pure _)

/-- What a removal leaves. -/
theorem heldAfter_removePrefixReads (mem : Nat → UInt8) {held count : Nat} (discarded : Bool)
    (hpos : 0 < count) (hle : count ≤ held) :
    ((removePrefixReads held count discarded).eval mem).heldAfter held = held - count := by
  unfold removePrefixReads
  rw [if_neg (by omega), eval_bind, eval_getAll, eval_pure]
  show (List.map mem (List.range' count (held - count))).length = _
  rw [List.length_map, List.length_range']

/-- The search stops at an index or goes on behind it, after two looks at most. -/
theorem findMagicReads_cons (mem : Nat → UInt8) (index : Nat) (indices : List Nat) :
    ((findMagicReads (index :: indices)).eval mem = some index ∧
        AtMost mem 2 (findMagicReads (index :: indices))) ∨
      ((findMagicReads (index :: indices)).eval mem = (findMagicReads indices).eval mem ∧
        ∀ n, AtMost mem n (findMagicReads indices) →
          AtMost mem (2 + n) (findMagicReads (index :: indices))) := by
  have hunfold : findMagicReads (index :: indices) = (do
      let b0 ← get index
      if b0 ≠ magic0 then findMagicReads indices
      else do
        let b1 ← get (index + 1)
        if b1 ≠ magic1 then findMagicReads indices else pure (some index)) := rfl
  rw [hunfold]
  by_cases h0 : mem index = magic0
  swap
  · right
    refine ⟨by rw [eval_bind, eval_get, if_pos h0], fun n hn => ?_⟩
    refine (atMost_bind (atMost_get index) (n := n) ?_).mono (by omega)
    rwa [eval_get, if_pos h0]
  by_cases h1 : mem (index + 1) = magic1
  · left
    refine ⟨by
      rw [eval_bind, eval_get, if_neg (not_not.mpr h0), eval_bind, eval_get,
        if_neg (not_not.mpr h1), eval_pure], ?_⟩
    refine atMost_bind (atMost_get index) (n := 1) ?_
    rw [eval_get, if_neg (not_not.mpr h0)]
    refine atMost_bind (atMost_get (index + 1)) (n := 0) ?_
    rw [eval_get, if_neg (not_not.mpr h1)]
    exact atMost_pure _
  · right
    refine ⟨by
      rw [eval_bind, eval_get, if_neg (not_not.mpr h0), eval_bind, eval_get, if_pos h1],
      fun n hn => ?_⟩
    refine (atMost_bind (atMost_get index) (n := 1 + n) ?_).mono (by omega)
    rw [eval_get, if_neg (not_not.mpr h0)]
    refine atMost_bind (atMost_get (index + 1)) ?_
    rwa [eval_get, if_pos h1]

/-- The search looks at every index twice at most, and at none behind the one it finds. -/
theorem findMagicReads_atMost (mem : Nat → UInt8) (first n : Nat) :
    AtMost mem (2 * n) (findMagicReads (List.range' first n)) ∧
      ∀ index, (findMagicReads (List.range' first n)).eval mem = some index →
        first ≤ index ∧ index < first + n ∧
          AtMost mem (2 * (index + 1 - first)) (findMagicReads (List.range' first n)) := by
  induction n generalizing first with
  | zero => exact ⟨atMost_pure none, fun index h => by cases h⟩
  | succ n ih =>
    obtain ⟨hall, hfound⟩ := ih (first + 1)
    rw [List.range'_succ]
    rcases findMagicReads_cons mem first (List.range' (first + 1) n) with
      ⟨heval, hcount⟩ | ⟨heval, hcount⟩
    · refine ⟨hcount.mono (by omega), fun index h => ?_⟩
      obtain rfl := Option.some.inj (heval.symm.trans h)
      exact ⟨Nat.le_refl _, by omega, hcount.mono (by omega)⟩
    · refine ⟨(hcount _ hall).mono (by omega), fun index h => ?_⟩
      obtain ⟨hfirst, hlast, hlooks⟩ := hfound index (heval.symm.trans h)
      exact ⟨by omega, by omega, (hcount _ hlooks).mono (by omega)⟩

/-- **A resync removes something**, and its search and its move together look at the buffered
    bytes twice at most, less what is left. -/
theorem resyncAfterErrorReads_atMost (mem : Nat → UInt8) (h : 2 ≤ held) :
    let left := ((resyncAfterErrorReads held).eval mem).heldAfter held
    left < held ∧ AtMost mem (2 * held - left) (resyncAfterErrorReads held) := by
  obtain ⟨hall, hfound⟩ := findMagicReads_atMost mem 1 (held - 2)
  unfold resyncAfterErrorReads
  rw [eval_bind]
  cases hsearch : (findMagicReads (List.range' 1 (held - 2))).eval mem with
  | some index =>
    obtain ⟨hfirst, hlast, hlooks⟩ := hfound index hsearch
    simp only
    rw [heldAfter_removePrefixReads mem true hfirst (by omega)]
    refine ⟨by omega, ?_⟩
    refine (atMost_bind hlooks (n := held - index) ?_).mono (by omega)
    rw [hsearch]
    exact removePrefixReads_atMost mem held index true
  | none =>
    simp only
    rw [if_neg (by omega), eval_bind, eval_get]
    -- all but the last byte goes, or that as well
    generalize hcount : (if mem (held - 1) = magic0 then held - 1 else held) = count
    have hrange : held - 1 ≤ count ∧ count ≤ held := by
      rw [← hcount]
      split
      · omega
      · omega
    rw [heldAfter_removePrefixReads mem true (by omega) hrange.2]
    refine ⟨by omega, ?_⟩
    refine (atMost_bind hall (n := 1 + (held - count)) ?_).mono (by omega)
    rw [hsearch]
    refine atMost_bind (atMost_get _) ?_
    rw [eval_get, hcount]
    exact removePrefixReads_atMost mem held count true

theorem wrongMagicReads_atMost (mem : Nat → UInt8) : AtMost mem 2 wrongMagicReads := by
  unfold wrongMagicReads
  refine atMost_bind (atMost_get 0) (n := 1) (atMost_ite (fun _ => atMost_pure _) fun _ => ?_)
  exact atMost_bind (atMost_get 1) (n := 0) (atMost_pure _)

theorem readU16LeReads_atMost (mem : Nat → UInt8) (off : Nat) :
    AtMost mem 2 (readU16LeReads off) := by
  unfold readU16LeReads wordReads
  exact atMost_bind (getRange_atMost mem off 2) (n := 0) (atMost_pure _)

/-- The complete-frame decoder looks at every byte twice at most. -/
theorem decodeFrameReads_atMost (V : WireVersion) (mem : Nat → UInt8) (length : Nat) :
    AtMost mem (2 * length) (decodeFrameReads V length) := by
  unfold decodeFrameReads
  refine atMost_ite (fun _ => atMost_pure _) fun hshort => ?_
  simp only [headerSize, crcSize, not_lt] at hshort
  obtain ⟨rest, rfl⟩ := Nat.exists_eq_add_of_le hshort
  -- the fields, the trailer and the checksum, and the rest of the fields with the payload
  refine (atMost_bind (wrongMagicReads_atMost mem) (n := 2 * rest + 20) ?_).mono (by omega)
  refine atMost_ite (fun _ => atMost_pure _) fun _ => ?_
  refine (atMost_bind (atMost_get 2) (n := 2 * rest + 19) ?_).mono (by omega)
  refine atMost_ite (fun _ => atMost_pure _) fun _ => ?_
  refine (atMost_bind (readU16LeReads_atMost mem 8) (n := 2 * rest + 17) ?_).mono (by omega)
  refine atMost_ite (fun _ => atMost_pure _) fun _ => ?_
  refine atMost_ite (fun _ => atMost_pure _) fun hsize => ?_
  have hexpected := not_not.mp hsize
  simp only [headerSize, crcSize] at hexpected
  refine (atMost_bind (readU16LeReads_atMost mem _) (n := 2 * rest + 15) ?_).mono (by omega)
  refine (atMost_bind (m := 12 + rest - crcSize) (n := rest + 5) ?_ ?_).mono
    (by simp only [crcSize]; omega)
  · exact atMost_bind (getRange_atMost mem _ _) (n := 0) (atMost_pure _)
  refine atMost_ite (fun _ => atMost_pure _) fun _ => ?_
  refine (atMost_bind (atMost_get 3) (n := rest + 4) ?_).mono (by omega)
  refine (atMost_bind (readU16LeReads_atMost mem 4) (n := rest + 2) ?_).mono (by omega)
  refine (atMost_bind (readU16LeReads_atMost mem 6) (n := rest) ?_).mono (by omega)
  refine (atMost_bind (getRange_atMost mem _ _) (n := 0) ?_).mono (by omega)
  exact atMost_pure _

/-- The rest of a pass is within the budget when `spent` looks have been taken: the looks and the
    bytes left are at most four times the buffered bytes and five, and where nothing is removed
    the looks are at most five. -/
structure InBudget (mem : Nat → UInt8) (held spent : Nat) (pass : BufferReads PassEffect) :
    Prop where
  left_le : (pass.eval mem).change.heldAfter held ≤ held
  paid : spent + (pass.addresses mem).length + (pass.eval mem).change.heldAfter held ≤
    4 * held + 5
  flat : (pass.eval mem).change.heldAfter held = held → spent + (pass.addresses mem).length ≤ 5

section Budget

variable {spent n : Nat}

theorem inBudget_bind {α : Type} {x : BufferReads α} {f : α → BufferReads PassEffect}
    (hx : AtMost mem n x) (hf : InBudget mem held (spent + n) (f (x.eval mem))) :
    InBudget mem held spent (x >>= f) := by
  have hx' : (x.addresses mem).length ≤ n := hx
  obtain ⟨hle, hpaid, hflat⟩ := hf
  refine ⟨by rwa [eval_bind], ?_, fun hleft => ?_⟩
  · rw [eval_bind, addresses_bind, List.length_append]
    omega
  · rw [eval_bind] at hleft
    have := hflat hleft
    rw [addresses_bind, List.length_append]
    omega

theorem inBudget_ite {c : Prop} [Decidable c] {x y : BufferReads PassEffect}
    (hx : c → InBudget mem held spent x) (hy : ¬ c → InBudget mem held spent y) :
    InBudget mem held spent (if c then x else y) := by
  split
  · rename_i h
    exact hx h
  · rename_i h
    exact hy h

theorem inBudget_wait (mem : Nat → UInt8) (held : Nat) (h : spent ≤ 5) :
    InBudget mem held spent (pure (.wait .none)) := by
  refine ⟨Nat.le_refl held, ?_, fun _ => h⟩
  show spent + 0 + held ≤ 4 * held + 5
  omega

/-- The exits that remove `count` bytes and count something. -/
theorem inBudget_remove (mem : Nat → UInt8) {count : Nat} (discarded : Bool) (hpos : 0 < count)
    (hle : count ≤ held) (h : spent ≤ 2 * count + 5) (effect : Change → PassEffect)
    (hkept : ∀ change, (effect change).change.heldAfter held = change.heldAfter held) :
    InBudget mem held spent (do
      let change ← removePrefixReads held count discarded
      pure (effect change)) := by
  refine inBudget_bind (removePrefixReads_atMost mem held count discarded) ?_
  have hleft : (eval mem (pure (effect ((removePrefixReads held count discarded).eval mem)) :
      BufferReads PassEffect)).change.heldAfter held = held - count := by
    rw [eval_pure, hkept, heldAfter_removePrefixReads mem discarded hpos hle]
  refine ⟨by omega, ?_, fun hsame => by omega⟩
  rw [hleft]
  show spent + (held - count) + 0 + (held - count) ≤ 4 * held + 5
  omega

theorem inBudget_resync (mem : Nat → UInt8) (hheld : 2 ≤ held) (h : spent ≤ 2 * held + 5)
    (amounts : DecoderStats) (decoded : Option ProtocolResult) :
    InBudget mem held spent (resyncReads held amounts decoded) := by
  obtain ⟨hless, hlooks⟩ := resyncAfterErrorReads_atMost mem hheld
  have hchange : ((resyncReads held amounts decoded).eval mem).change.heldAfter held =
      ((resyncAfterErrorReads held).eval mem).heldAfter held := by
    unfold resyncReads
    rw [eval_bind]
    rfl
  have hcount : ((resyncReads held amounts decoded).addresses mem).length ≤
      2 * held - ((resyncAfterErrorReads held).eval mem).heldAfter held := by
    unfold resyncReads
    rw [addresses_bind, List.length_append]
    exact hlooks
  refine ⟨by omega, by omega, fun hleft => ?_⟩
  omega

end Budget

/-- **What a pass costs.** Every pass is within the budget. -/
theorem processPassReads_inBudget (V : WireVersion) (mem : Nat → UInt8) (held : Nat) :
    InBudget mem held 0 (processPassReads V held) := by
  unfold processPassReads
  refine inBudget_ite (fun hone => ?_) fun hone => inBudget_ite (fun _ => ?_) fun hmany => ?_
  · refine inBudget_bind (atMost_get 0) (inBudget_ite (fun _ => ?_) fun _ => ?_)
    · exact inBudget_remove mem true (by omega) (by omega) (by omega) PassEffect.wait fun _ => rfl
    · exact inBudget_wait mem held (by omega)
  · exact inBudget_wait mem held (by omega)
  refine inBudget_bind (wrongMagicReads_atMost mem) (inBudget_ite (fun _ => ?_) fun _ => ?_)
  · exact inBudget_resync mem (by omega) (by omega) _ _
  refine inBudget_ite (fun _ => inBudget_wait mem held (by omega)) fun hheader => ?_
  refine inBudget_bind (atMost_get 2) (inBudget_ite (fun _ => ?_) fun _ => ?_)
  · exact inBudget_resync mem (by omega) (by omega) _ _
  refine inBudget_bind (readU16LeReads_atMost mem 8) (inBudget_ite (fun _ => ?_) fun _ => ?_)
  · exact inBudget_resync mem (by omega) (by omega) _ _
  refine inBudget_ite (fun _ => inBudget_wait mem held (by omega)) fun hclosed => ?_
  -- a complete candidate: its bytes are looked at once more, and some go
  refine inBudget_bind (decodeFrameReads_atMost V mem _) ?_
  split
  · exact inBudget_remove mem false (by simp only [headerSize]; omega) (by omega) (by omega)
      (fun change => ⟨change.after _, some .ok, some _, decide (2 ≤ change.heldAfter held)⟩)
      fun _ => rfl
  · exact inBudget_resync mem (by omega) (by omega) _ _
  · exact inBudget_resync mem (by omega) (by omega) _ _

end Counts

/-! ### The loop -/

section Loop

variable {V : WireVersion} {decoder : StreamDecoder}

/-- The decoders with which the loop enters its passes. -/
def entered (V : WireVersion) : Nat → StreamDecoder → List StreamDecoder
  | 0, _ => []
  | fuel + 1, decoder =>
    let pass := processPass V decoder
    decoder :: if pass.processing then entered V fuel pass.decoder else []

/-- A pass removes bytes or not, and looks at the buffer within its budget. -/
theorem passReads_spec (V : WireVersion) (h : decoder.Sized) :
    let left := (processPass V decoder).decoder.bufferedBytes
    left ≤ decoder.bufferedBytes ∧ passReads V decoder + left ≤ 4 * decoder.bufferedBytes + 5 ∧
      (left = decoder.bufferedBytes → passReads V decoder ≤ 5) := by
  obtain ⟨hle, hpaid, hflat⟩ :=
    processPassReads_inBudget V (byteAt decoder.buffer) decoder.bufferedBytes
  rw [Nat.zero_add] at hpaid hflat
  rw [← eval_processPassReads V h]
  exact ⟨hle, hpaid, hflat⟩

/-- A pass that asks for another one leaves two bytes. -/
theorem two_le_of_processing (hgo : (processPass V decoder).processing = true) :
    2 ≤ (processPass V decoder).decoder.bufferedBytes := by
  rcases processPass_exits V decoder with ⟨_, hpass⟩ | ⟨hpass, _⟩ | ⟨_, _, hpass⟩ | ⟨_, _, hpass⟩
  · rw [hpass] at hgo
    cases hgo
  · rw [hpass] at hgo
    cases hgo
  · rw [hpass] at hgo ⊢
    exact of_decide_eq_true hgo
  · rw [hpass] at hgo ⊢
    exact of_decide_eq_true hgo

/-- The first pass of the loop, or one of those that it asks for. -/
theorem enters_iff (V : WireVersion) (first d : StreamDecoder) :
    Enters V first d ↔ d = first ∨
      (processPass V first).processing = true ∧ Enters V (processPass V first).decoder d := by
  constructor
  · intro h
    induction h with
    | first => exact .inl rfl
    | again _ hgo ih =>
      rcases ih with rfl | ⟨hfirst, hlater⟩
      · exact .inr ⟨hgo, .first⟩
      · exact .inr ⟨hfirst, hlater.again hgo⟩
  · rintro (rfl | ⟨hgo, h⟩)
    · exact .first
    · induction h with
      | first => exact Enters.first.again hgo
      | again _ hmore ih => exact ih.again hmore

/-- **The list is complete**: the loop enters these passes and no others. -/
theorem mem_entered_iff (h : decoder.Sized) {fuel : Nat} (hpos : 0 < decoder.bufferedBytes)
    (hfuel : decoder.bufferedBytes ≤ fuel) (d : StreamDecoder) :
    d ∈ entered V fuel decoder ↔ Enters V decoder d := by
  induction fuel generalizing decoder with
  | zero => omega
  | succ fuel ih =>
    rw [entered, List.mem_cons, enters_iff V decoder d]
    cases hgo : (processPass V decoder).processing with
    | false => simp
    | true =>
      have hless := (processPass_spec V h).decreases hgo
      have hmany := two_le_of_processing hgo
      have hrest := ih (processPass_sized V h) (by omega) (by omega)
      simp [hrest]

theorem length_entered_le (V : WireVersion) (fuel : Nat) (decoder : StreamDecoder) :
    (entered V fuel decoder).length ≤ fuel := by
  induction fuel generalizing decoder with
  | zero => exact Nat.le_refl 0
  | succ fuel ih =>
    rw [entered, List.length_cons]
    split
    · exact Nat.succ_le_succ (ih _)
    · exact Nat.succ_le_succ (Nat.zero_le _)

/-- What a loop costs. -/
def loopCost (V : WireVersion) (cost : StreamDecoder → ℕ) (decoder : StreamDecoder) : ℕ :=
  ((entered V decoder.bufferedBytes decoder).map cost).sum

/-- A pass that goes on is paid by the bytes it removes, at `rate` for each, and the last one with
    `flat` on top. -/
structure Affordable (V : WireVersion) (cost : StreamDecoder → ℕ) (flat rate : ℕ) : Prop where
  stops : ∀ {d : StreamDecoder}, d.Sized →
    cost d + rate * (processPass V d).decoder.bufferedBytes ≤ flat + rate * d.bufferedBytes
  goesOn : ∀ {d : StreamDecoder}, d.Sized → (processPass V d).processing = true →
    cost d + rate * (processPass V d).decoder.bufferedBytes ≤ rate * d.bufferedBytes

/-- Counting passes. -/
theorem affordable_passes (V : WireVersion) : Affordable V (fun _ => 1) 1 1 where
  stops h := by
    have := (passReads_spec V h).1
    omega
  goesOn h hgo := by
    have := (processPass_spec V h).decreases hgo
    omega

/-- Counting looks at the buffer. -/
theorem affordable_reads (V : WireVersion) : Affordable V (passReads V) 5 1578 where
  stops {d} h := by
    obtain ⟨hle, hpaid, hflat⟩ := passReads_spec V h
    have hheld := h.held
    simp only [maxFrameSize, headerSize, maxPayloadSize, crcSize] at hheld
    by_cases hsame : (processPass V d).decoder.bufferedBytes = d.bufferedBytes
    · have := hflat hsame
      omega
    · omega
  goesOn {d} h hgo := by
    obtain ⟨hle, hpaid, hflat⟩ := passReads_spec V h
    have hless := (processPass_spec V h).decreases hgo
    have hheld := h.held
    simp only [maxFrameSize, headerSize, maxPayloadSize, crcSize] at hheld
    omega

variable {cost : StreamDecoder → ℕ} {flat rate : ℕ} (h : Affordable V cost flat rate)
include h

/-- **The buffered bytes pay for the loop.** -/
theorem loop_paid (fuel : Nat) (hsized : decoder.Sized) :
    ((entered V fuel decoder).map cost).sum + rate * (loopTrace V fuel decoder).1.bufferedBytes ≤
      flat + rate * decoder.bufferedBytes := by
  induction fuel generalizing decoder with
  | zero =>
    show 0 + _ ≤ _
    exact Nat.add_le_add_right (Nat.zero_le flat) _
  | succ fuel ih =>
    rw [entered, List.map_cons, List.sum_cons, loopTrace]
    cases hgo : (processPass V decoder).processing with
    | true =>
      have hpass := h.goesOn hsized hgo
      have hrest := ih (processPass_sized V hsized)
      simp only [if_true]
      omega
    | false => exact h.stops hsized

end Loop

/-! ### A run -/

/-- What a fed byte costs. -/
def byteCost (V : WireVersion) (cost : StreamDecoder → ℕ) (decoder : StreamDecoder)
    (byte : UInt8) : ℕ :=
  loopCost V cost (appendByte decoder byte)

/-- What a call costs. -/
def opCost (V : WireVersion) (cost : StreamDecoder → ℕ) (decoder : StreamDecoder) :
    StreamOp → ℕ
  | .feed data =>
    foldCost (fun decoder byte => (byteTrace V decoder byte).1) (byteCost V cost) decoder data.data
  | .resetIncomplete => 0

/-- What a run costs. -/
def runCost (V : WireVersion) (cost : StreamDecoder → ℕ) (ops : List StreamOp) : ℕ :=
  foldCost (fun decoder op => (opTrace V decoder op).1) (opCost V cost) streamDecoderInit ops

/-- What holds between two fed bytes. -/
def Between (V : WireVersion) (decoder : StreamDecoder) : Prop :=
  decoder.Sized ∧ Quiet V decoder.live

section Runs

variable {V : WireVersion} {cost : StreamDecoder → ℕ} {flat rate : ℕ}

theorem foldl_byteTrace (V : WireVersion) (decoder : StreamDecoder) (bytes : List UInt8) :
    bytes.foldl (fun decoder byte => (byteTrace V decoder byte).1) decoder =
      (bytesTrace V decoder bytes).1 := by
  induction bytes generalizing decoder with
  | nil => rfl
  | cons byte bytes ih => exact ih _

variable (h : Affordable V cost flat rate)
include h

/-- A byte brings its own share of the potential and the flat rate of one loop. -/
theorem bytes_paid : Paid (fun decoder byte => (byteTrace V decoder byte).1) (byteCost V cost)
    (Between V) (fun decoder => rate * decoder.bufferedBytes) (fun _ => flat + rate) where
  keeps byte hbetween := by
    obtain ⟨⟨_, hdecodes⟩, hquiet⟩ := byteTrace_spec V hbetween.1 hbetween.2 byte
    exact ⟨hdecodes.sized, hquiet⟩
  pays {decoder} byte hbetween := by
    have hroom := hbetween.2.length_lt
    rw [decoder.length_live hbetween.1] at hroom
    obtain ⟨hsized, _, hheld, _⟩ := appendByte_spec hbetween.1 hroom byte
    calc byteCost V cost decoder byte + rate * (byteTrace V decoder byte).1.bufferedBytes
        ≤ flat + rate * (appendByte decoder byte).bufferedBytes := loop_paid h _ hsized
      _ = rate * decoder.bufferedBytes + (flat + rate) := by
        rw [hheld]
        ring

/-- A call brings what its bytes bring; a reset only gives potential away. -/
theorem ops_paid : Paid (fun decoder op => (opTrace V decoder op).1) (opCost V cost) (Between V)
    (fun decoder => rate * decoder.bufferedBytes)
    (fun op => (flat + rate) * (fedBytes [op]).length) where
  keeps {decoder} op hbetween := by
    cases op with
    | feed data =>
      show Between V (bytesTrace V decoder data.data).1
      rw [← foldl_byteTrace]
      exact (bytes_paid h).keeps_foldl hbetween data.data
    | resetIncomplete =>
      obtain ⟨hsized, hlive⟩ := streamDecoderResetIncomplete_spec hbetween.1
      exact ⟨hsized, by rw [opTrace, hlive]; exact .inl scanStep_nil⟩
  pays {decoder} op hbetween := by
    cases op with
    | feed data =>
      have hbytes := (bytes_paid h).foldCost_le hbetween data.data
      rw [foldl_byteTrace, List.map_const', List.sum_replicate_nat, Nat.mul_comm _ (flat + rate)]
        at hbytes
      have hfed : fedBytes [.feed data] = data.data := List.append_nil _
      rw [hfed]
      exact hbytes
    | resetIncomplete =>
      have hless :
          (streamDecoderResetIncomplete decoder).bufferedBytes ≤ decoder.bufferedBytes := by
        rw [bufferedBytes_resetIncomplete]
        exact Nat.zero_le _
      show 0 + rate * (streamDecoderResetIncomplete decoder).bufferedBytes ≤ _
      have := Nat.mul_le_mul_left rate hless
      omega

/-- **A run costs a fixed amount for each byte it is fed.** -/
theorem runCost_le (ops : List StreamOp) :
    runCost V cost ops ≤ (flat + rate) * (fedBytes ops).length := by
  have hgrants : (ops.map fun op => (flat + rate) * (fedBytes [op]).length).sum =
      (flat + rate) * (fedBytes ops).length := by
    clear h
    induction ops with
    | nil => rfl
    | cons op ops ih =>
      rw [List.map_cons, List.sum_cons, ih, ← Nat.mul_add, ← List.length_append,
        ← fedBytes_append]
      rfl
  have hrun := (ops_paid h).foldCost_le
    (show Between V streamDecoderInit from ⟨streamDecoderInit_sized, .inl scanStep_nil⟩) ops
  rw [hgrants] at hrun
  have hzero : rate * streamDecoderInit.bufferedBytes = 0 := Nat.mul_zero rate
  unfold runCost
  omega

end Runs

/-- **The work is linear.** In every run, whatever is fed in whatever calls and with resets at any
    time, the loop enters at most two passes for each byte fed, and all passes together look at
    the buffer at most 1583 times for each, moves and checksums included.  One byte alone makes
    the loop enter at most 524 passes, and each of them looks at most 2101 times. -/
theorem work_bounded (V : WireVersion) (ops : List StreamOp) :
    runCost V (fun _ => 1) ops ≤ 2 * (fedBytes ops).length ∧
      runCost V (passReads V) ops ≤ 1583 * (fedBytes ops).length ∧
      ∀ byte,
        let appended := appendByte (decoderRun V ops).decoder byte
        let passes := entered V appended.bufferedBytes appended
        (∀ d, d ∈ passes ↔ Enters V appended d) ∧ passes.length ≤ 524 ∧
          ∀ d ∈ passes, passReads V d ≤ 2101 := by
  refine ⟨runCost_le (affordable_passes V) ops, runCost_le (affordable_reads V) ops, ?_⟩
  intro byte
  obtain ⟨hsized, hroom⟩ := decoderRun_room V ops
  obtain ⟨happended, _, hheld, _⟩ := appendByte_spec hsized hroom byte
  have hmem := mem_entered_iff (V := V) happended (by omega) (Nat.le_refl _)
  refine ⟨hmem, ?_, ?_⟩
  · have hlength := length_entered_le V (appendByte (decoderRun V ops).decoder byte).bufferedBytes
      (appendByte (decoderRun V ops).decoder byte)
    exact hlength.trans happended.held
  · intro d hd
    have hd' := ((hmem d).mp hd).sized happended
    have hpaid := (passReads_spec V hd').2.1
    have hmost := hd'.held
    simp only [maxFrameSize, headerSize, maxPayloadSize, crcSize] at hmost
    omega

end Oomwoo
