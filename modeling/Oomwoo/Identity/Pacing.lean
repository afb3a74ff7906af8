import Oomwoo.Identity.Handshake
import Oomwoo.Identity.ReceiveGap
import Oomwoo.Protocol.Flush

namespace Oomwoo

open Bytes GapTimer Scanning

/-!
# What a loop that comes round in time guarantees

The gap test of `loop` is made once a round, so what it sees depends on how long a round takes.
If no round takes longer than `δ`, and the gap and `δ` together are shorter than a wrap of
`millis()`, then, however long the pauses between the bytes,

* bytes read more than the gap and `δ` apart are never joined (`polled_never_joined`);
* a frame whose bytes come within the gap of each other, after a pause longer than the gap and
  `δ`, is delivered, whatever was received before (`paced_frame_delivered`);
* an identify request that comes so is answered by exactly one hello as soon as its last byte is
  read (`paced_request_answered`).
-/

/-! ### Rounds -/

/-- The rounds of a run: the first ends at most `δ` after `started`, which is not later than any
    event, and every other at most `δ` after the one before it. -/
structure Execution.RunsEvery (T : Execution) (started δ : ℕ) : Prop where
  after : ∀ event ∈ T.iterations.flatMap Iteration.events, started ≤ event.time
  often : (started :: T.iterations.map Iteration.gapTest).IsChain fun a b => b ≤ a + δ

/-- **Rounds poll**: the events of a round lie between two tests that are at most `δ` apart. -/
theorem polled_rounds {δ start : ℕ} {iterations : List Iteration}
    (hordered : (.test start :: iterations.flatMap Iteration.events).Pairwise
      fun a b : Event UInt8 => a.time ≤ b.time)
    (hoften : (start :: iterations.map Iteration.gapTest).IsChain fun a b => b ≤ a + δ) :
    Polled δ (.test start :: iterations.flatMap Iteration.events) := by
  induction iterations generalizing start with
  | nil => exact List.isChain_singleton _
  | cons iteration iterations ih =>
    obtain ⟨hsoon, hoften⟩ := List.isChain_cons_cons.mp hoften
    set reads : List (Event UInt8) := iteration.reads.map fun read => .item read.1 read.2
      with hreads
    have hround :
        (.test start : Event UInt8) :: (iteration :: iterations).flatMap Iteration.events =
          (.test start :: reads) ++
            (.test iteration.gapTest :: iterations.flatMap Iteration.events) := by
      simp [Iteration.events, hreads]
    rw [hround] at hordered ⊢
    obtain ⟨hfirst, hrest, hbefore⟩ := List.pairwise_append.mp hordered
    refine List.isChain_split.mpr ⟨List.Pairwise.isChain ?_, ih hrest hoften⟩
    -- no event of the round is earlier than the test before it or later than the one at its end
    have hbounds : ∀ event ∈ .test start :: reads ++ [.test iteration.gapTest],
        start ≤ event.time ∧ event.time ≤ iteration.gapTest := by
      have hstart : start ≤ iteration.gapTest :=
        hbefore _ List.mem_cons_self _ List.mem_cons_self
      intro event hevent
      rcases List.mem_append.mp hevent with hevent | hevent
      · refine ⟨?_, hbefore _ hevent _ List.mem_cons_self⟩
        rcases List.mem_cons.mp hevent with rfl | hevent
        · exact Nat.le_refl _
        · exact (List.pairwise_cons.mp hfirst).1 _ hevent
      · rw [List.mem_singleton.mp hevent]
        exact ⟨hstart, Nat.le_refl _⟩
    apply List.pairwise_of_forall_mem_list
    intro a ha b hb
    have hlow := (hbounds a ha).1
    have hhigh := (hbounds b hb).2
    omega

theorem Execution.RunsEvery.polled {T : Execution} {started δ : ℕ} (h : T.RunsEvery started δ) :
    Polled δ T.events :=
  (polled_rounds (List.pairwise_cons.mpr ⟨h.after, T.ordered⟩) h.often).tail

section Rounds

variable {V : WireVersion} {firmware : Firmware} {T : Execution} {started δ : ℕ}

/-- **A pause is seen**, whatever is buffered when it begins. -/
theorem empty_of_pause (hδ : framingGapMs.toNat + δ < 2 ^ 32) (h : T.RunsEvery started δ)
    {gap : Gap UInt8} (hgap : gap.events = T.events)
    (hlong : gap.start + (framingGapMs.toNat + δ) < gap.stop) :
    (harnessAfter V firmware gap.closing).ingress.decoder.bufferedBytes = 0 :=
  (harnessTimer V).idle_closing_of_polled _ hδ (hgap ▸ h.polled) hlong

end Rounds

/-- **Pauses separate.** If no round of `loop` takes longer than `δ`, and the gap and `δ` together
    are shorter than a wrap of `millis()`, bytes read more than the gap and `δ` apart are never
    joined, however far apart they are: the second one is fed to an empty buffer, and in every frame
    passed to `handle_message` neighbouring bytes were read at most that far apart. -/
theorem polled_never_joined (V : WireVersion) (firmware : Firmware) (T : Execution)
    (started δ : ℕ) (hδ : framingGapMs.toNat + δ < 2 ^ 32) (h : T.RunsEvery started δ) :
    (∀ gap : Gap UInt8, gap.events = T.events →
      gap.start + (framingGapMs.toNat + δ) < gap.stop →
        (harnessAfter V firmware gap.closing).ingress.decoder.bufferedBytes = 0) ∧
      ∀ slice ∈ T.handled V firmware,
        ((T.reads.drop slice.1.start).take slice.1.length).IsChain fun a b =>
          b.2 ≤ a.2 + (framingGapMs.toNat + δ) := by
  have hempty : ∀ gap : Gap UInt8, gap.events = T.events →
      gap.start + (framingGapMs.toNat + δ) < gap.stop →
        (harnessAfter V firmware gap.closing).ingress.decoder.bufferedBytes = 0 :=
    fun gap hgap hlong => empty_of_pause hδ h hgap hlong
  exact ⟨hempty, fun slice hslice => isChain_of_empty hempty hslice⟩

/-! ### Frames behind a pause -/

/-- The tests between bytes that are close together reset nothing. -/
theorem no_reset_of_steady {V : WireVersion} {harness : Harness} {last : ℕ}
    {events : List (Event UInt8)} (hlast : harness.lastRxMs = millis.reading last)
    (hordered : (.test last :: events).Pairwise fun a b : Event UInt8 => a.time ≤ b.time)
    (hsteady : Steady framingGapMs.toNat last events) :
    StreamOp.resetIncomplete ∉ harness.ops V events := by
  induction events generalizing harness last with
  | nil => exact List.not_mem_nil
  | cons event events ih =>
    obtain ⟨hlater, htail⟩ := List.pairwise_cons.mp hordered
    cases event with
    | item byte time =>
      -- the byte moves the time the tests look at
      have hrest := @ih ((harnessTimer V).step harness (.item byte time)) time rfl
        (List.pairwise_cons.mpr (List.pairwise_cons.mp htail)) hsteady
      rw [Harness.ops, List.mem_append, not_or]
      exact ⟨by simp [Harness.eventOps], hrest⟩
    | test time =>
      obtain ⟨hsoon, hsteady⟩ := hsteady
      have hafter : last ≤ time := hlater (.test time) List.mem_cons_self
      have helapsed : (millis.reading time - harness.lastRxMs).toNat = time - last := by
        rw [hlast]
        exact millis.elapsed_reading hafter
          (hsoon.trans_lt (Nat.add_lt_add_left (by decide : framingGapMs.toNat < 2 ^ 32) last))
      have hquiet : ¬ harness.GapOver (millis.reading time) := by
        rintro ⟨_, hover⟩
        rw [gt_iff_lt, UInt32.lt_iff_toNat_lt, helapsed] at hover
        omega
      have hstep : (harnessTimer V).step harness (.test time) = harness := if_neg hquiet
      have hops : harness.ops V (.test time :: events) = harness.ops V events := by
        rw [Harness.ops, hstep, Harness.eventOps, if_neg hquiet, List.nil_append]
      rw [hops]
      refine ih hlast (List.pairwise_cons.mpr ⟨?_, (List.pairwise_cons.mp htail).2⟩) hsteady
      exact fun e he => hlater e (List.mem_cons_of_mem _ he)

/-- `bytes` are read in one stretch, each at most the gap after the one before it, behind a pause
    longer than the gap and `δ`, or as the first of all. -/
structure Execution.Paced (T : Execution) (δ : ℕ) (bytes : List UInt8) where
  before : List (UInt8 × ℕ)
  reads : List (UInt8 × ℕ)
  after : List (UInt8 × ℕ)
  split : T.reads = before ++ (reads ++ after)
  bytes_eq : reads.map Prod.fst = bytes
  together : reads.IsChain fun a b => b.2 ≤ a.2 + framingGapMs.toNat
  apart : ∀ a ∈ before.getLast?, ∀ b ∈ reads.head?, a.2 + (framingGapMs.toNat + δ) < b.2

section Paced

variable {V : WireVersion} {firmware : Firmware} {T : Execution} {started δ : ℕ}
  {bytes : List UInt8}

/-- Nothing is buffered before the first byte. -/
theorem empty_of_no_items {events : List (Event UInt8)} (h : items events = []) :
    (harnessAfter V firmware events).ingress.decoder.bufferedBytes = 0 := by
  have hfed := fedBytes_eq V ((Harness.start V firmware).ops V events)
  rw [fedBytes_ops, h] at hfed
  have hlive := (List.append_eq_nil_iff.mp hfed.symm).2
  rw [decoder_harnessAfter]
  exact (live_eq_nil_iff (quiet_opsTrace V _).1).mp hlive

/-- A run of `loop`, cut where some of the bytes read begin and end: they find nothing buffered, and
    no test between them resets. -/
structure Cut (V : WireVersion) (firmware : Firmware) (T : Execution)
    (before reads : List (UInt8 × ℕ)) (earlier stretch later : List (Event UInt8)) : Prop where
  events_eq : T.events = earlier ++ (stretch ++ later)
  items_earlier : items earlier = before
  items_stretch : items stretch = reads
  empty : (harnessAfter V firmware earlier).ingress.decoder.bufferedBytes = 0
  no_reset : StreamOp.resetIncomplete ∉ (harnessAfter V firmware earlier).ops V stretch

/-- **Paced bytes** are fed to an empty buffer, and no test resets between them. -/
theorem Execution.Paced.exists_cut (V : WireVersion) (firmware : Firmware)
    (hδ : framingGapMs.toNat + δ < 2 ^ 32) (h : T.RunsEvery started δ) (paced : T.Paced δ bytes)
    (hne : bytes ≠ []) :
    ∃ earlier stretch later, Cut V firmware T paced.before paced.reads earlier stretch later := by
  have hitems : items T.events = paced.before ++ (paced.reads ++ paced.after) :=
    (items_events T.iterations).trans paced.split
  have hordered := T.ordered
  have htogether := paced.together
  have hapart := paced.apart
  have hbytes := paced.bytes_eq
  generalize paced.reads = reads at hitems htogether hapart hbytes ⊢
  cases reads with
  | nil => exact absurd hbytes.symm hne
  | cons x xs =>
  obtain ⟨earlier, stretch, later, hevents, hearlier, rfl, hend⟩ := exists_stretch hitems
  rw [← Execution.events, hevents, List.pairwise_append, List.pairwise_append] at hordered
  refine ⟨earlier, .item x.1 x.2 :: stretch, later, hevents, hearlier, rfl, ?_, ?_⟩
  · -- the pause in front of the first byte is seen
    rcases paced.before.eq_nil_or_concat with hnil | ⟨init, last, hlast⟩
    · exact empty_of_no_items (hearlier.trans hnil)
    · rw [List.concat_eq_append] at hlast
      obtain ⟨before, tests, rfl, _⟩ := exists_last_item (hearlier.trans hlast)
      have hpause := hapart last (by simp [hlast]) x rfl
      let gap : Gap UInt8 := ⟨before, last.1, last.2, tests, x.1, x.2, stretch ++ later⟩
      have hgap : gap.events = T.events := by
        rw [hevents]
        simp [gap, Gap.events, Gap.closing, Gap.opening]
      have hclosing : (harnessAfter V firmware gap.closing).ingress.decoder.bufferedBytes = 0 :=
        empty_of_pause hδ h hgap hpause
      simpa [gap, Gap.closing, Gap.opening] using hclosing
  · -- the tests behind the first byte come in time
    have hsteady : Steady framingGapMs.toNat x.2 stretch := by
      refine steady_of_isChain (List.pairwise_cons.mp hordered.2.1.1).2 ?_ hend
      exact (List.isChain_map Prod.snd (l := x :: items stretch)).mpr htogether
    have hlast : ((harnessTimer V).step (harnessAfter V firmware earlier)
        (.item x.1 x.2)).lastRxMs = millis.reading x.2 := rfl
    have hrest := no_reset_of_steady (V := V) hlast
      (List.pairwise_cons.mpr (List.pairwise_cons.mp hordered.2.1.1)) hsteady
    rw [Harness.ops, List.mem_append, not_or]
    exact ⟨by simp [Harness.eventOps], hrest⟩

variable {messageType sequence : UInt16} {payload : Span} {flags : UInt8}
  {before reads : List (UInt8 × ℕ)} {earlier stretch later : List (Event UInt8)}

theorem EncodesTo.ne_nil (h : EncodesTo V messageType payload sequence flags bytes) :
    bytes ≠ [] := by
  rintro rfl
  have hlen := h.length_bytes
  rw [List.length_nil] at hlen
  omega

/-- **A frame in a cut** leaves the buffer as soon as its last byte is read, and nothing else
    does. -/
theorem Cut.runSegments_eq (cut : Cut V firmware T before reads earlier stretch later)
    (h : EncodesTo V messageType payload sequence flags bytes)
    (hbytes : reads.map Prod.fst = bytes) :
    runSegments V ((Harness.start V firmware).ops V (earlier ++ stretch)) =
      runSegments V ((Harness.start V firmware).ops V earlier) ++
        [.delivered bytes (frameOf V messageType payload.data sequence flags)] := by
  have hempty := cut.empty
  rw [decoder_harnessAfter] at hempty
  have hfed : fedBytes ((harnessAfter V firmware earlier).ops V stretch) = bytes := by
    rw [fedBytes_ops, cut.items_stretch, hbytes]
  unfold runSegments
  rw [ops_append, opsTrace_append]
  exact congrArg (_ ++ ·) (opsTrace_frame hempty cut.no_reset h hfed)

/-- The deliveries of a run, with the places of their bytes among those read. -/
def Execution.delivered (V : WireVersion) (firmware : Firmware) (T : Execution) : List Delivery :=
  deliveries 0 (runSegments V ((Harness.start V firmware).ops V T.events))

theorem Cut.mem_delivered (cut : Cut V firmware T before reads earlier stretch later)
    (h : EncodesTo V messageType payload sequence flags bytes)
    (hbytes : reads.map Prod.fst = bytes) :
    ⟨before.length, bytes.length, frameOf V messageType payload.data sequence flags⟩ ∈
      T.delivered V firmware := by
  have hplace : before.length =
      0 + (segmentBytes (runSegments V ((Harness.start V firmware).ops V earlier))).length := by
    have hempty := cut.empty
    rw [decoder_harnessAfter] at hempty
    have hfed := fedBytes_eq V ((Harness.start V firmware).ops V earlier)
    rw [(live_eq_nil_iff (quiet_opsTrace V _).1).mpr hempty, List.append_nil, fedBytes_ops,
      cut.items_earlier] at hfed
    rw [← hfed, List.length_map, Nat.zero_add]
  have hsegments := cut.runSegments_eq h hbytes
  unfold Execution.delivered runSegments at hsegments ⊢
  rw [cut.events_eq, ← List.append_assoc, ops_append, opsTrace_append, hsegments,
    List.append_assoc, deliveries_append, ← runSegments, ← hplace]
  exact List.mem_append_right _ List.mem_cons_self

end Paced

/-- **A paced frame is delivered**, whatever was received before it: if no round of `loop` takes
    longer than `δ`, and the gap and `δ` together are shorter than a wrap of `millis()`, a frame
    read within the gap from byte to byte, behind a pause of any length beyond the gap and `δ`, is
    handed over from exactly its bytes; and if the gate admits it, to `handle_message`. -/
theorem paced_frame_delivered (V : WireVersion) (firmware : Firmware) (T : Execution)
    (started δ : ℕ) (hδ : framingGapMs.toNat + δ < 2 ^ 32) (hrounds : T.RunsEvery started δ)
    (messageType : UInt16) (payload : Span) (sequence : UInt16) (flags : UInt8) (bytes : List UInt8)
    (h : EncodesTo V messageType payload sequence flags bytes) (paced : T.Paced δ bytes) :
    let frame := frameOf V messageType payload.data sequence flags
    let delivery : Delivery := ⟨paced.before.length, bytes.length, frame⟩
    delivery ∈ T.delivered V firmware ∧
      ∀ message, admitted V frame = some (frame, message) →
        (delivery, message) ∈ T.handled V firmware := by
  obtain ⟨earlier, stretch, later, cut⟩ := paced.exists_cut V firmware hδ hrounds h.ne_nil
  have hmem := cut.mem_delivered h paced.bytes_eq
  refine ⟨hmem, ?_⟩
  intro message hadmitted
  exact List.mem_filterMap.mpr ⟨_, hmem, by rw [hadmitted]; rfl⟩

/-! ### Requests behind a pause -/

/-- The message of an identify request. -/
def requestMessage : Message := { Message.zero with type := MessageType.identifyRequest.code }

/-- The gate admits every identify request. -/
theorem admitted_request (V : WireVersion) (sequence : UInt16) (flags : UInt8) :
    admitted V (frameOf V MessageType.identifyRequest.code [] sequence flags) =
      some (frameOf V MessageType.identifyRequest.code [] sequence flags, requestMessage) := by
  have hdecode : messageDecodePayload MessageType.identifyRequest.code (.bytes []) (some .zero) =
      (.ok, some requestMessage) := by
    decide +kernel
  have hgate : cpuIngressValidateFrame V
      (some (frameOf V MessageType.identifyRequest.code [] sequence flags)) (some .zero) =
        (.ok, some requestMessage) :=
    cpuIngressValidateFrame_ok_iff.mpr ⟨rfl, .inl rfl, hdecode⟩
  unfold admitted
  rw [hgate]

section Answers

variable {V : WireVersion} {firmware : Firmware}

/-- The frames that some events have handed to the ingress. -/
def framesAfter (V : WireVersion) (firmware : Firmware) (events : List (Event UInt8)) :
    List DecodedFrame :=
  segmentFrames (runSegments V ((Harness.start V firmware).ops V events))

/-- What has been transmitted after some events. -/
theorem serial_harnessAfter (V : WireVersion) (firmware : Firmware) (events : List (Event UInt8)) :
    (harnessAfter V firmware events).ingress.callbackContext.serial =
      (List.range
        (1 + requestCount ((framesAfter V firmware events).filterMap (admitted V)))).flatMap
          (hello V firmware) := by
  have hrun : (harnessAfter V firmware events).ingress.callbackContext =
      globalsAfter V firmware (framesAfter V firmware events) := by
    have hcontext := harnessRun_callbackContext V firmware ((Harness.start V firmware).ops V events)
    rw [decoderRun_eq] at hcontext
    rw [harnessAfter, ingress_run]
    exact hcontext
  rw [hrun]
  exact (hellos_globalsAfter V firmware _).serial

/-- Tests hand over nothing. -/
theorem framesAfter_append_tests {a b : List (Event UInt8)} (h : items b = []) :
    framesAfter V firmware (a ++ b) = framesAfter V firmware a := by
  have hfed : fedBytes (((harnessTimer V).run (.start V firmware) a).ops V b) = [] := by
    rw [fedBytes_ops, h]
    rfl
  unfold framesAfter runSegments
  rw [ops_append, opsTrace_append, segmentFrames_append, segmentFrames_of_no_bytes V _ hfed,
    List.append_nil]

/-- So only the bytes read so far matter for the frames. -/
theorem framesAfter_congr {a b events : List (Event UInt8)} (ha : a <+: events)
    (hb : b <+: events) (h : items a = items b) :
    framesAfter V firmware a = framesAfter V firmware b := by
  rcases List.prefix_or_prefix_of_prefix ha hb with ⟨c, rfl⟩ | ⟨c, rfl⟩
  · rw [items_append] at h
    have hnone := List.append_cancel_left ((List.append_nil _).trans h)
    exact (framesAfter_append_tests hnone.symm).symm
  · rw [items_append] at h
    exact framesAfter_append_tests (List.append_cancel_left (h.trans (List.append_nil _).symm))

end Answers

/-- **A paced request is answered at once, by one hello.** If no round of `loop` takes longer than
    `δ`, the gap and `δ` together are shorter than a wrap of `millis()`, and an identify request is
    read within the gap from byte to byte, behind a pause of any length beyond the gap and `δ`, then
    up to its first byte some number of hellos has been transmitted, and as soon as its last byte
    has been read exactly one more, whatever was received before. -/
theorem paced_request_answered (V : WireVersion) (firmware : Firmware) (T : Execution)
    (started δ : ℕ) (hδ : framingGapMs.toNat + δ < 2 ^ 32) (hrounds : T.RunsEvery started δ)
    (sequence : UInt16) (flags : UInt8)
    (paced : T.Paced δ (frameBytes V MessageType.identifyRequest.code [] sequence flags)) :
    ∃ n, ∀ events, events <+: T.events →
      (items events = paced.before →
        (harnessAfter V firmware events).ingress.callbackContext.serial =
          (List.range n).flatMap (hello V firmware)) ∧
      (items events = paced.before ++ paced.reads →
        (harnessAfter V firmware events).ingress.callbackContext.serial =
          (List.range (n + 1)).flatMap (hello V firmware)) := by
  have hencoded : EncodesTo V MessageType.identifyRequest.code (.bytes []) sequence flags
      (frameBytes V MessageType.identifyRequest.code [] sequence flags) :=
    encodesTo_iff.mpr ⟨.inl rfl, Nat.zero_le _, rfl⟩
  obtain ⟨earlier, stretch, later, cut⟩ := paced.exists_cut V firmware hδ hrounds hencoded.ne_nil
  have hearlier : earlier <+: T.events := ⟨_, cut.events_eq.symm⟩
  have hstretch : earlier ++ stretch <+: T.events :=
    ⟨later, by rw [cut.events_eq, List.append_assoc]⟩
  -- the request is the one frame that its bytes hand over
  have hframes : framesAfter V firmware (earlier ++ stretch) = framesAfter V firmware earlier ++
      [frameOf V MessageType.identifyRequest.code [] sequence flags] := by
    unfold framesAfter
    rw [cut.runSegments_eq hencoded paced.bytes_eq, segmentFrames_append]
    rfl
  refine ⟨1 + requestCount ((framesAfter V firmware earlier).filterMap (admitted V)), ?_⟩
  intro events hevents
  constructor
  · intro hitems
    rw [serial_harnessAfter,
      framesAfter_congr hevents hearlier (hitems.trans cut.items_earlier.symm)]
  · intro hitems
    have hcount :
        requestCount ((framesAfter V firmware (earlier ++ stretch)).filterMap (admitted V)) =
          requestCount ((framesAfter V firmware earlier).filterMap (admitted V)) + 1 := by
      rw [hframes, List.filterMap_append, requestCount, List.countP_append,
        List.filterMap_cons_some (admitted_request V sequence flags)]
      rfl
    rw [serial_harnessAfter, framesAfter_congr hevents hstretch
      (by rw [hitems, items_append, cut.items_earlier, cut.items_stretch]), hcount, Nat.add_assoc]

/-- The first five bytes of an identify request, and a whole one 52 ms later, while `loop` comes
    round every millisecond. -/
def requestAfterPause : Execution where
  iterations :=
    ⟨((frameBytes wireVersion1 4 [] 1 0).take 5).map (·, 0), 0⟩ ::
      (List.range' 1 51).map (⟨[], ·⟩) ++ [⟨(frameBytes wireVersion1 4 [] 2 0).map (·, 52), 52⟩]
  ordered := by decide +kernel

/-- The pause. -/
def requestPause : Gap UInt8 where
  before := ((frameBytes wireVersion1 4 [] 1 0).take 4).map (.item · 0)
  first := byteAt (frameBytes wireVersion1 4 [] 1 0) 4
  start := 0
  tests := List.range 52
  second := byteAt (frameBytes wireVersion1 4 [] 2 0) 0
  stop := 52
  after := ((frameBytes wireVersion1 4 [] 2 0).drop 1).map (.item · 52) ++ [.test 52]

theorem polled_never_joined_request :
    (harnessAfter wireVersion1 ⟨0, 1, 0, 0⟩
      requestPause.closing).ingress.decoder.bufferedBytes = 0 :=
  (polled_never_joined wireVersion1 ⟨0, 1, 0, 0⟩ requestAfterPause 0 1 (by decide)
    ⟨by decide +kernel, by decide +kernel⟩).1 requestPause (by decide +kernel) (by decide)

/-- The whole request is read behind a pause. -/
def pacedRequest : requestAfterPause.Paced 1
    (frameBytes wireVersion1 MessageType.identifyRequest.code [] 2 0) where
  before := ((frameBytes wireVersion1 4 [] 1 0).take 5).map (·, 0)
  reads := (frameBytes wireVersion1 4 [] 2 0).map (·, 52)
  after := []
  split := by decide +kernel
  bytes_eq := by decide +kernel
  together := by decide +kernel
  apart := by decide +kernel

theorem paced_frame_delivered_request :
    (⟨5, 12, frameOf wireVersion1 4 [] 2 0⟩ : Delivery) ∈
      requestAfterPause.delivered wireVersion1 ⟨0, 1, 0, 0⟩ :=
  (paced_frame_delivered wireVersion1 ⟨0, 1, 0, 0⟩ requestAfterPause 0 1 (by decide)
    ⟨by decide +kernel, by decide +kernel⟩ 4 (.bytes []) 2 0 _
    (encodesTo_iff.mpr ⟨.inl rfl, Nat.zero_le _, rfl⟩) pacedRequest).1

theorem paced_request_answered_once :
    ∃ n, (harnessAfter wireVersion1 ⟨0, 1, 0, 0⟩
        requestAfterPause.events).ingress.callbackContext.serial =
      (List.range (n + 1)).flatMap (hello wireVersion1 ⟨0, 1, 0, 0⟩) := by
  obtain ⟨n, hn⟩ := paced_request_answered wireVersion1 ⟨0, 1, 0, 0⟩ requestAfterPause 0 1
    (by decide) ⟨by decide +kernel, by decide +kernel⟩ 2 0 pacedRequest
  exact ⟨n, (hn _ (List.prefix_refl _)).2 (by decide +kernel)⟩

end Oomwoo
