import Oomwoo.Identity.Harness
import Oomwoo.Ingress.Admission
import Oomwoo.Lib.GapTimer

namespace Oomwoo

open Bytes GapTimer

/-!
# Receive gaps of the firmware

`loop` tests for a receive gap only after it has read what is available, and every byte it reads
moves the time the test looks at.  So a byte that arrives late enough but is read before the next
test is joined to what lies in the buffer (`joined_across_gap`).  Over a run of `loop` with the
real times of its reads and tests, bytes on both sides of a gap stay apart exactly if every gap
finds the buffer empty or is seen by a test (`neverJoined_iff`).
-/

/-! ### The loop as a machine with a gap timer -/

/-- `millis()`, the real time modulo `2 ^ 32`. -/
def millis : Clock UInt32 where
  period := 2 ^ 32
  reading := UInt32.ofNat
  elapsed last now := (now - last).toNat
  elapsed_reading := by
    intro a b hab hb
    rw [UInt32.toNat_sub, UInt32.toNat_ofNat', UInt32.toNat_ofNat']
    omega

/-- The condition of the gap test. -/
def Harness.GapOver (harness : Harness) (now : UInt32) : Prop :=
  harness.ingress.decoder.bufferedBytes ≠ 0 ∧ now - harness.lastRxMs > framingGapMs

instance (harness : Harness) (now : UInt32) : Decidable (harness.GapOver now) :=
  inferInstanceAs (Decidable (_ ∧ _))

/-- The gap test at the end of `loop`. -/
def Harness.gapTest (harness : Harness) (now : UInt32) : Harness :=
  if harness.GapOver now then
    { harness with ingress := cpuIngressResetIncomplete harness.ingress }
  else harness

theorem loop_eq_gapTest (V : WireVersion) (harness : Harness) (reads : List (UInt8 × UInt32))
    (now : UInt32) :
    loop V harness reads now = (reads.foldl (receiveByte V) harness).gapTest now :=
  rfl

theorem lastRxMs_gapTest (harness : Harness) (now : UInt32) :
    (harness.gapTest now).lastRxMs = harness.lastRxMs := by
  unfold Harness.gapTest
  split <;> rfl

/-- A test leaves the buffer empty if it was so or the last byte is too long ago. -/
theorem bufferedBytes_gapTest (harness : Harness) (now : UInt32) :
    (harness.gapTest now).ingress.decoder.bufferedBytes = 0 ↔
      harness.ingress.decoder.bufferedBytes = 0 ∨
        framingGapMs.toNat < (now - harness.lastRxMs).toNat := by
  unfold Harness.gapTest
  split
  · rename_i hover
    have hlate : framingGapMs.toNat < (now - harness.lastRxMs).toNat :=
      UInt32.lt_iff_toNat_lt.mp hover.2
    have hreset := bufferedBytes_resetIncomplete harness.ingress.decoder
    exact ⟨fun _ => .inr hlate, fun _ => hreset⟩
  · rename_i hover
    constructor
    · exact .inl
    · rintro (hempty | hlate)
      · exact hempty
      · by_contra hne
        exact hover ⟨hne, UInt32.lt_iff_toNat_lt.mpr hlate⟩

/-- **The firmware is such a machine**: a read feeds its byte and notes the time. -/
def harnessTimer (V : WireVersion) : Timer Harness UInt8 UInt32 where
  clock := millis
  gap := framingGapMs.toNat
  take harness byte now := receiveByte V harness (byte, now)
  test := Harness.gapTest
  Idle harness := harness.ingress.decoder.bufferedBytes = 0
  last := Harness.lastRxMs
  last_take _ _ _ := rfl
  last_test := lastRxMs_gapTest
  idle_test := bufferedBytes_gapTest

/-! ### Runs over real time -/

/-- One call of `loop`: the bytes it reads, each with the time of its read, and the time of the gap
    test. -/
structure Iteration where
  reads : List (UInt8 × ℕ)
  gapTest : ℕ

namespace Iteration

/-- What `loop` sees of the times. -/
def call (iteration : Iteration) : List (UInt8 × UInt32) × UInt32 :=
  (iteration.reads.map fun read => (read.1, millis.reading read.2),
    millis.reading iteration.gapTest)

def events (iteration : Iteration) : List (Event UInt8) :=
  iteration.reads.map (fun read => .item read.1 read.2) ++ [.test iteration.gapTest]

end Iteration

/-- A run of `loop` over a real clock that does not go back. -/
structure Execution where
  iterations : List Iteration
  ordered : (iterations.flatMap Iteration.events).Pairwise fun a b => a.time ≤ b.time

/-- A run of `loop` with consecutive reads less than a wrap of `millis()` apart. -/
structure Timeline extends Execution where
  close : (iterations.flatMap Iteration.reads).IsChain fun a b => b.2 < a.2 + 2 ^ 32

/-- The firmware when `setup` is done. -/
def Harness.start (V : WireVersion) (firmware : Firmware) : Harness := ⟨setup V firmware, 0⟩

/-- The firmware after some events. -/
def harnessAfter (V : WireVersion) (firmware : Firmware) (events : List (Event UInt8)) : Harness :=
  (harnessTimer V).run (.start V firmware) events

theorem items_events (iterations : List Iteration) :
    items (iterations.flatMap Iteration.events) = iterations.flatMap Iteration.reads := by
  have hreads : ∀ reads : List (UInt8 × ℕ),
      items (reads.map fun read => (.item read.1 read.2 : Event UInt8)) = reads := by
    intro reads
    unfold items
    rw [List.filterMap_map]
    exact List.filterMap_some
  induction iterations with
  | nil => rfl
  | cons iteration iterations ih =>
    rw [List.flatMap_cons, items_append, ih, Iteration.events, items_append, hreads,
      List.flatMap_cons]
    show _ ++ [] ++ _ = _
    rw [List.append_nil]

/-- **Calls of `loop` are runs of the machine**, event by event. -/
theorem run_events (V : WireVersion) (harness : Harness) (iteration : Iteration) :
    (harnessTimer V).run harness iteration.events =
      loop V harness iteration.call.1 iteration.call.2 := by
  have hreads : ∀ (reads : List (UInt8 × ℕ)) (harness : Harness),
      (harnessTimer V).run harness (reads.map fun read => .item read.1 read.2) =
        (reads.map fun read => (read.1, millis.reading read.2)).foldl (receiveByte V) harness := by
    intro reads
    induction reads with
    | nil => exact fun _ => rfl
    | cons read reads ih => exact fun harness => ih _
  rw [loop_eq_gapTest, Iteration.events, Timer.run_append, hreads]
  rfl

/-- **A run of the firmware** is the run of the machine over all its events. -/
theorem firmwareRun_eq_run (V : WireVersion) (firmware : Firmware) (iterations : List Iteration) :
    firmwareRun V firmware (iterations.map Iteration.call) =
      harnessAfter V firmware (iterations.flatMap Iteration.events) := by
  have hrun : ∀ harness : Harness,
      (iterations.map Iteration.call).foldl (fun harness call => loop V harness call.1 call.2)
          harness =
        (harnessTimer V).run harness (iterations.flatMap Iteration.events) := by
    induction iterations with
    | nil => exact fun _ => rfl
    | cons iteration iterations ih =>
      intro harness
      rw [List.map_cons, List.foldl_cons, ih, ← run_events, List.flatMap_cons, Timer.run_append]
  exact hrun (.start V firmware)

/-! ### The calls of the ingress -/

/-- What an event makes the firmware call: a read feeds its byte, a test that finds a gap
    resets. -/
def Harness.eventOps (harness : Harness) : Event UInt8 → List StreamOp
  | .item byte _ => [.feed (.bytes [byte])]
  | .test time => if harness.GapOver (millis.reading time) then [.resetIncomplete] else []

/-- The calls of a run. -/
def Harness.ops (V : WireVersion) : Harness → List (Event UInt8) → List StreamOp
  | _, [] => []
  | harness, event :: events =>
    harness.eventOps event ++ Harness.ops V ((harnessTimer V).step harness event) events

section Calls

variable {V : WireVersion}

theorem ops_append (harness : Harness) (a b : List (Event UInt8)) :
    harness.ops V (a ++ b) = harness.ops V a ++ ((harnessTimer V).run harness a).ops V b := by
  induction a generalizing harness with
  | nil => rfl
  | cons event a ih =>
    rw [List.cons_append, Harness.ops, ih, Harness.ops, List.append_assoc]
    rfl

theorem ingress_step (harness : Harness) (event : Event UInt8) :
    ((harnessTimer V).step harness event).ingress =
      ingressOps V harness.ingress (harness.eventOps event) := by
  cases event with
  | item byte time => rfl
  | test time =>
    show (harness.gapTest (millis.reading time)).ingress = _
    rw [Harness.gapTest, Harness.eventOps]
    by_cases hover : harness.GapOver (millis.reading time)
    · rw [if_pos hover, if_pos hover]
      rfl
    · rw [if_neg hover, if_neg hover]
      rfl

theorem ingress_run (harness : Harness) (events : List (Event UInt8)) :
    ((harnessTimer V).run harness events).ingress =
      ingressOps V harness.ingress (harness.ops V events) := by
  induction events generalizing harness with
  | nil => rfl
  | cons event events ih =>
    rw [Harness.ops, ingressOps_append, ← ingress_step]
    exact ih _

/-- The calls feed the bytes read. -/
theorem fedBytes_ops (harness : Harness) (events : List (Event UInt8)) :
    fedBytes (harness.ops V events) = (items events).map Prod.fst := by
  induction events generalizing harness with
  | nil => rfl
  | cons event events ih =>
    rw [Harness.ops, fedBytes_append, ih]
    cases event with
    | item byte time => rfl
    | test time =>
      have hnone : fedBytes (harness.eventOps (.test time)) = [] := by
        rw [Harness.eventOps]
        split <;> rfl
      rw [hnone]
      rfl

theorem decoder_harnessAfter (firmware : Firmware) (events : List (Event UInt8)) :
    (harnessAfter V firmware events).ingress.decoder =
      (opsTrace V streamDecoderInit ((Harness.start V firmware).ops V events)).1 := by
  rw [harnessAfter, ingress_run, ingressOps_eq]
  rfl

end Calls

/-! ### The frames passed to `handle_message` -/

namespace Execution

variable (V : WireVersion) (firmware : Firmware) (T : Execution)

def events : List (Event UInt8) := T.iterations.flatMap Iteration.events

/-- The bytes read, each with the time of its read. -/
def reads : List (UInt8 × ℕ) := T.iterations.flatMap Iteration.reads

/-- The calls of `handle_message` in a run: the frame with the place of its bytes among those
    read, and the message. -/
def handled : List (Delivery × Message) :=
  (deliveries 0 (runSegments V ((Harness.start V firmware).ops V T.events))).filterMap fun d =>
    (admitted V d.frame).map fun pair => (d, pair.2)

/-- **What the run leaves is what these calls leave.** -/
theorem callbackContext_eq :
    (firmwareRun V firmware (T.iterations.map Iteration.call)).ingress.callbackContext =
      callAll (some (handleMessage V))
        ((T.handled V firmware).map fun slice => (slice.1.frame, slice.2))
        (setup V firmware).callbackContext := by
  rw [firmwareRun_eq_run, harnessAfter, ingress_run, ingressOps_eq, handled, map_filterMap_admitted,
    map_frame_deliveries]
  rfl

/-- And each frame was read from the bytes at its place. -/
theorem decodeFrame_of_mem_handled {slice : Delivery × Message} (h : slice ∈ T.handled V firmware) :
    decodeFrame V
        (.bytes (((T.reads.map Prod.fst).drop slice.1.start).take slice.1.length)) (some .zero) =
      (.ok, some slice.1.frame) := by
  obtain ⟨d, hd, hmap⟩ := List.mem_filterMap.mp h
  obtain ⟨_, _, rfl⟩ := Option.map_eq_some_iff.mp hmap
  have hdecode := decodeFrame_of_mem_deliveries hd
  rwa [fedBytes_ops, events, items_events] at hdecode

end Execution

def Timeline.schedule (V : WireVersion) (T : Timeline) :
    Schedule UInt8 (harnessTimer V).clock.period where
  events := T.events
  ordered := T.ordered
  close := by
    rw [Execution.events, items_events]
    exact T.close

/-! ### Gaps -/

/-- Bytes read more than the gap apart are never joined: the buffer is empty when the second one is
    fed, and every frame passed to `handle_message` consists of bytes each read at most the gap
    after the one before it. -/
structure NeverJoined (V : WireVersion) (firmware : Firmware) (T : Timeline) : Prop where
  empty : ∀ gap : Gap UInt8, gap.events = T.events → gap.start + framingGapMs.toNat < gap.stop →
    (harnessAfter V firmware gap.closing).ingress.decoder.bufferedBytes = 0
  handled : ∀ slice ∈ T.handled V firmware,
    ((T.reads.drop slice.1.start).take slice.1.length).IsChain fun a b =>
      b.2 ≤ a.2 + framingGapMs.toNat

/-- Every gap finds the buffer empty, or is seen: some test between the two reads is made more than
    the gap after the first. -/
def GapsSeen (V : WireVersion) (firmware : Firmware) (T : Timeline) : Prop :=
  ∀ gap : Gap UInt8, gap.events = T.events → gap.start + framingGapMs.toNat < gap.stop →
    (harnessAfter V firmware gap.opening).ingress.decoder.bufferedBytes = 0 ∨
      ∃ time ∈ gap.tests, gap.start + framingGapMs.toNat < time

section Gaps

variable {V : WireVersion} {firmware : Firmware} {T : Execution}

/-- **No frame goes across a gap that finds the buffer empty.** -/
theorem beside_gap {gap : Gap UInt8} (h : gap.events = T.events)
    (hempty : (harnessAfter V firmware gap.closing).ingress.decoder.bufferedBytes = 0)
    {slice : Delivery × Message} (hslice : slice ∈ T.handled V firmware) :
    slice.1.start + slice.1.length ≤ (items gap.before).length + 1 ∨
      (items gap.before).length + 1 ≤ slice.1.start := by
  obtain ⟨d, hd, hmap⟩ := List.mem_filterMap.mp hslice
  obtain ⟨_, _, rfl⟩ := Option.map_eq_some_iff.mp hmap
  have hfed : (fedBytes ((Harness.start V firmware).ops V gap.closing)).length =
      (items gap.before).length + 1 := by
    rw [fedBytes_ops, List.length_map, gap.items_closing, List.length_append]
    rfl
  rw [decoder_harnessAfter] at hempty
  rw [← h, Gap.events, ops_append] at hd
  rw [← hfed]
  exact delivery_beside hempty hd

/-- Neighbours in a stretch of the bytes read are neighbours among all of them. -/
theorem neighbours_of_stretch {α : Type} {reads l₁ l₂ : List α} {start length : ℕ} {a b : α}
    (h : (reads.drop start).take length = l₁ ++ a :: b :: l₂) :
    ∃ m₁ m₂, reads = m₁ ++ a :: b :: m₂ ∧ start < m₁.length + 1 ∧
      m₁.length + 1 < start + length := by
  refine ⟨reads.take start ++ l₁, l₂ ++ (reads.drop start).drop length, ?_, ?_⟩
  · calc reads
        = reads.take start ++ ((reads.drop start).take length ++
            (reads.drop start).drop length) := by
          rw [List.take_append_drop, List.take_append_drop]
      _ = _ := by
          rw [h]
          simp
  · have hlength := congrArg List.length h
    simp only [List.length_take, List.length_drop, List.length_append, List.length_cons]
      at hlength ⊢
    omega

/-- **What the second byte of a gap finds**: an empty buffer, exactly if the first one left it so or
    a test in between came late enough. -/
theorem empty_closing_iff {T : Timeline} {gap : Gap UInt8} (h : gap.events = T.events) :
    (harnessAfter V firmware gap.closing).ingress.decoder.bufferedBytes = 0 ↔
      (harnessAfter V firmware gap.opening).ingress.decoder.bufferedBytes = 0 ∨
        ∃ time ∈ gap.tests, gap.start + framingGapMs.toNat < time :=
  (harnessTimer V).idle_closing_iff _ (T.schedule V) h

/-- If every gap longer than `limit` finds the buffer empty, the bytes of a handled frame are within
    `limit` of each other. -/
theorem isChain_of_empty {limit : ℕ}
    (hempty : ∀ gap : Gap UInt8, gap.events = T.events → gap.start + limit < gap.stop →
      (harnessAfter V firmware gap.closing).ingress.decoder.bufferedBytes = 0)
    {slice : Delivery × Message} (hslice : slice ∈ T.handled V firmware) :
    ((T.reads.drop slice.1.start).take slice.1.length).IsChain fun a b => b.2 ≤ a.2 + limit := by
  rw [List.isChain_iff_forall_rel_of_append_cons_cons]
  intro a b l₁ l₂ hsplit
  by_contra hlong
  -- the two bytes are neighbours in the whole run, so the frame would go across a gap
  obtain ⟨m₁, m₂, hreads, hstart, hstop⟩ := neighbours_of_stretch hsplit
  have hitems : items T.events = m₁ ++ a :: b :: m₂ := (items_events T.iterations).trans hreads
  obtain ⟨gap, hevents, rfl, rfl, rfl⟩ := exists_gap hitems
  have hbeside := beside_gap hevents (hempty gap hevents (not_le.mp hlong)) hslice
  omega

/-- **Bytes from both sides of a receive gap are joined unless the gap is seen.** In every run of
    `loop`, whatever is available to each call, over any real clock: bytes more than the gap apart
    are kept apart, and every handled frame has its bytes within the gap of each other, exactly if
    each gap finds the buffer empty or a test between its reads comes late enough to see it. -/
theorem neverJoined_iff (V : WireVersion) (firmware : Firmware) (T : Timeline) :
    NeverJoined V firmware T ↔ GapsSeen V firmware T := by
  constructor
  · intro hnever gap h hlong
    exact (empty_closing_iff h).mp (hnever.empty gap h hlong)
  · intro hseen
    have hempty : ∀ gap : Gap UInt8, gap.events = T.events →
        gap.start + framingGapMs.toNat < gap.stop →
          (harnessAfter V firmware gap.closing).ingress.decoder.bufferedBytes = 0 := by
      intro gap h hlong
      exact (empty_closing_iff h).mpr (hseen gap h hlong)
    exact ⟨hempty, fun slice hslice => isChain_of_empty hempty hslice⟩

end Gaps

/-- An identify request of which five bytes come at once and seven 51 ms later, while `loop` comes
    round every millisecond. -/
def requestAcrossGap : Timeline where
  iterations :=
    ⟨((frameBytes wireVersion1 4 [] 1 0).take 5).map (·, 0), 0⟩ ::
      (List.range' 1 50).map (⟨[], ·⟩) ++
        [⟨((frameBytes wireVersion1 4 [] 1 0).drop 5).map (·, 51), 51⟩]
  ordered := by decide +kernel
  close := by decide +kernel

/-- **Joined across a gap.** The last test before the gap ends is made at 50 ms, and the next call
    of `loop` reads first: five bytes are in the buffer when the sixth is fed, and the request is
    handled. -/
theorem joined_across_gap :
    let firmware : Firmware := ⟨0, 1, 0, 0⟩
    let T := requestAcrossGap
    (∃ gap : Gap UInt8, gap.events = T.events ∧
        gap.start + framingGapMs.toNat < gap.stop ∧
        (harnessAfter wireVersion1 firmware gap.closing).ingress.decoder.bufferedBytes = 5) ∧
      (T.handled wireVersion1 firmware).map (fun slice => (slice.1.start, slice.1.length)) =
        [(0, 12)] ∧
      ¬ ((T.reads.drop 0).take 12).IsChain (fun a b => b.2 ≤ a.2 + framingGapMs.toNat) ∧
      ¬ NeverJoined wireVersion1 firmware T := by
  have hgap : ∃ gap : Gap UInt8, gap.events = requestAcrossGap.events ∧
      gap.start + framingGapMs.toNat < gap.stop ∧
      (harnessAfter wireVersion1 ⟨0, 1, 0, 0⟩ gap.closing).ingress.decoder.bufferedBytes =
        5 := by
    refine ⟨⟨requestAcrossGap.events.take 4, byteAt (frameBytes wireVersion1 4 [] 1 0) 4, 0,
      List.range' 0 51, byteAt (frameBytes wireVersion1 4 [] 1 0) 5, 51,
      requestAcrossGap.events.drop 57⟩, by decide +kernel, by decide +kernel, by decide +kernel⟩
  refine ⟨hgap, by decide +kernel, by decide +kernel, ?_⟩
  intro hnever
  obtain ⟨gap, hevents, hlong, hbuffered⟩ := hgap
  have hempty := hnever.empty gap hevents hlong
  omega

end Oomwoo
