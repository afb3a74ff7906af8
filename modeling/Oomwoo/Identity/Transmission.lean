import Oomwoo.Identity.Pacing
import Oomwoo.Ingress.Counters
import Oomwoo.Protocol.Recovery

namespace Oomwoo

open Bytes Scanning

/-!
# The other end of the line

What the harness transmits, seen by whoever receives it.

* A stream decoder that has received any part of the transmission so far holds exactly the
  complete hellos of it, numbered without a gap, and the rest in its buffer
  (`transmission_decoded`).
* A host that sends frames of any kind, with noise between them that has no magic in it, gets one
  hello for the start and one for each of its requests (`exchange_round_trip`).
* The harness transmits at most five bytes for three it has received, and twenty
  (`transmission_bounded`).
* Boards each of which hears exactly one board, another or itself, and nothing else stay silent
  after their first hello: each rejects what it hears by its direction (`wired_boards_silent`).
-/

/-! ### Hellos on the line -/

/-- The frame of a hello. -/
def helloDecoded (V : WireVersion) (firmware : Firmware) (i : Nat) : DecodedFrame :=
  frameOf V MessageType.mcuHello.code (firmware.identityAt i).helloPayload
    (firmware.identityAt i).nextSequence 0

/-- The first `n` hellos of a run, as they are transmitted. -/
def hellos (V : WireVersion) (firmware : Firmware) (n : Nat) : List UInt8 :=
  (List.range n).flatMap (hello V firmware)

section Hellos

variable (V : WireVersion) (firmware : Firmware)

theorem hellos_succ (n : Nat) :
    hellos V firmware (n + 1) = hellos V firmware n ++ hello V firmware n := by
  unfold hellos
  rw [List.range_succ, List.flatMap_append, List.flatMap_singleton]

theorem length_hello (i : Nat) : (hello V firmware i).length = 20 :=
  length_helloFrame V (firmware.identityAt i)

theorem length_hellos (n : Nat) : (hellos V firmware n).length = 20 * n := by
  induction n with
  | zero => rfl
  | succ n ih =>
    rw [hellos_succ, List.length_append, ih, length_hello]
    omega

theorem encodesTo_hello (i : Nat) :
    EncodesTo V MessageType.mcuHello.code (.bytes (firmware.identityAt i).helloPayload)
      (firmware.identityAt i).nextSequence 0 (hello V firmware i) := by
  refine encodesTo_iff.mpr ⟨.inl rfl, ?_, rfl⟩
  rw [Span.length_bytes, length_helloPayload]
  decide

/-- A hello as an item of a clean stream. -/
def helloItem (i : Nat) : NoisyFrame V where
  noise := []
  messageType := MessageType.mcuHello.code
  payload := .bytes (firmware.identityAt i).helloPayload
  sequence := (firmware.identityAt i).nextSequence
  flags := 0
  bytes := hello V firmware i
  no_magic := by decide
  encoded := encodesTo_hello V firmware i

/-- The hellos are a clean stream. -/
theorem noisyStream_hellos (n : Nat) :
    noisyStream ((List.range n).map (helloItem V firmware)) = hellos V firmware n := by
  unfold noisyStream hellos
  rw [List.flatMap_map]
  rfl

/-- **A part of the transmission** is some hellos and a piece of the next one. -/
theorem exists_hellos {received : List UInt8} {n : Nat}
    (h : received <+: hellos V firmware n) :
    ∃ m r, r < 20 ∧ received = hellos V firmware m ++ (hello V firmware m).take r := by
  induction n with
  | zero => exact ⟨0, 0, by omega, List.prefix_nil.mp h⟩
  | succ n ih =>
    obtain ⟨rest, hrest⟩ := h
    rw [hellos_succ] at hrest
    rcases List.append_eq_append_iff.mp hrest with ⟨c, hc, _⟩ | ⟨c, rfl, hc⟩
    · exact ih ⟨c, hc.symm⟩
    · -- a piece of the last hello, or all of it
      have hpiece : c = (hello V firmware n).take c.length := by
        rw [hc, List.take_left]
      have hlen := congrArg List.length hc
      rw [length_hello, List.length_append] at hlen
      by_cases hall : c.length = 20
      · refine ⟨n + 1, 0, by omega, ?_⟩
        have hwhole := List.take_of_length_le (l := hello V firmware n) (i := 20)
          (by rw [length_hello])
        rw [hellos_succ, hpiece, hall, hwhole, List.take_zero, List.append_nil]
      · exact ⟨n, c.length, by omega, by rw [← hpiece]⟩

/-- The scanner waits on a piece of a hello. -/
theorem scanStep_hello_take (i : Nat) {r : Nat} (hr : r < 20) :
    scanStep V ((hello V firmware i).take r) = none := by
  have hwhole := (encodesTo_hello V firmware i).scanned []
  rw [List.append_nil] at hwhole
  cases hstep : scanStep V ((hello V firmware i).take r) with
  | none => rfl
  | some decision =>
    obtain ⟨event, k⟩ := decision
    -- the rest of the hello would not change the decision
    have hsame := scanStep_append ((hello V firmware i).drop r) hstep
    have hle := (frameScanner V).step_le hstep
    rw [List.take_append_drop, hwhole] at hsame
    obtain ⟨_, rfl⟩ := Prod.mk.inj (Option.some.inj hsame)
    rw [List.length_take, length_hello] at hle
    omega

end Hellos

/-! ### The host -/

/-- The decoder returns the frame of a hello. -/
theorem announces_helloDecoded (V : WireVersion) (firmware : Firmware) (i : Nat) :
    ∃ message, AnnouncesFirmware V firmware i (helloDecoded V firmware i) message
      (hello V firmware i) := by
  obtain ⟨frame, message, h⟩ := announces_hello V firmware i
  have hsame := h.decoded.symm.trans (decode_helloFrame V (firmware.identityAt i)).1
  obtain rfl : frame = helloDecoded V firmware i := Option.some.inj (Prod.mk.inj hsame).2
  exact ⟨message, h⟩

/-- What the harness transmits are the hellos of the start and of the admitted requests. -/
theorem serial_harnessRun (V : WireVersion) (firmware : Firmware) (ops : List StreamOp) :
    (harnessRun V firmware ops).callbackContext.serial =
      hellos V firmware (1 + requestCount (ingressLog V ops)) := by
  rw [harnessRun_callbackContext, (hellos_globalsAfter V firmware _).serial, ingressLog_eq]
  rfl

/-- Before anything is received this is one hello. -/
theorem serial_start (V : WireVersion) (firmware : Firmware) :
    (harnessRun V firmware []).callbackContext.serial = hello V firmware 0 := by
  rw [serial_harnessRun]
  exact List.append_nil _

/-- The host has decoded `m` hellos, has `r` bytes of the next one in its buffer, and has seen
    nothing else. -/
structure HasDecoded (V : WireVersion) (firmware : Firmware) (m r : Nat)
    (host : FeedState (List DecodedFrame)) : Prop where
  count : host.context.length = m
  announced : ∀ i (hi : i < host.context.length), ∃ message,
    AnnouncesFirmware V firmware i host.context[i] message (hello V firmware i)
  buffered : host.decoder.bufferedBytes = r
  stats : host.decoder.stats =
    { frames := UInt32.ofNat m
      discardedBytes := 0
      crcErrors := 0, versionErrors := 0, lengthErrors := 0, gapResets := 0 }

/-- A decoder that is fed hellos and a piece of one decodes the hellos. -/
theorem hasDecoded_of_hellos {V : WireVersion} {firmware : Firmware} {ops : List StreamOp}
    (hops : StreamOp.resetIncomplete ∉ ops) {m r : Nat} (hr : r < 20)
    (hfed : fedBytes ops = hellos V firmware m ++ (hello V firmware m).take r) :
    HasDecoded V firmware m r (decoderRun V ops) := by
  obtain ⟨hsegments, hbuffered, hstats⟩ := accounts_noisyStream_append
    ((List.range m).map (helloItem V firmware)) (scanStep_hello_take V firmware m hr) hops
    (by rw [hfed, noisyStream_hellos])
  have hcontext : (decoderRun V ops).context =
      (List.range m).map (helloDecoded V firmware) := by
    rw [decoderRun_eq]
    show segmentFrames (runSegments V ops) = _
    rw [hsegments, segmentFrames_ofPieces, NoisyFrame.filterMap_pieces, List.map_map]
    rfl
  refine ⟨by rw [hcontext, List.length_map, List.length_range], ?_, ?_, ?_⟩
  · simp only [hcontext]
    intro i hi
    rw [List.getElem_map, List.getElem_range]
    exact announces_helloDecoded V firmware i
  · rw [decoderRun_eq]
    show (opsTrace V streamDecoderInit ops).1.bufferedBytes = _
    rw [hbuffered, List.length_take, length_hello]
    omega
  · -- the hellos are counted, and there is no noise between them
    have hnoise : (((List.range m).map (helloItem V firmware)).map
        fun item => item.noise.length).sum = 0 := by
      rw [List.map_map]
      show ((List.range m).map fun _ => 0).sum = 0
      simp
    rw [decoderRun_eq]
    show (opsTrace V streamDecoderInit ops).1.stats = _
    rw [hstats, NoisyFrame.recordAll_pieces, hnoise, List.length_map, List.length_range]
    simp [DecoderStats.zero]

/-- **The host decodes every complete hello.** A stream decoder that has been fed, in calls of any
    sizes, any part of what the harness has transmitted so far has delivered one frame for every
    20 bytes.  The frames announce the configured firmware and are numbered without a gap, and
    nothing is discarded or counted as an error: the rest is a hello on its way. -/
theorem transmission_decoded (V : WireVersion) (firmware : Firmware) (ops hostOps : List StreamOp)
    (hops : StreamOp.resetIncomplete ∉ hostOps)
    (hheard : fedBytes hostOps <+: (harnessRun V firmware ops).callbackContext.serial) :
    let n := (fedBytes hostOps).length
    HasDecoded V firmware (n / 20) (n % 20) (decoderRun V hostOps) := by
  rw [serial_harnessRun] at hheard
  obtain ⟨m, r, hr, hfed⟩ := exists_hellos V firmware hheard
  have hlen : (fedBytes hostOps).length = 20 * m + r := by
    rw [hfed, List.length_append, length_hellos, List.length_take, length_hello]
    omega
  have hdiv : (fedBytes hostOps).length / 20 = m := by omega
  have hmod : (fedBytes hostOps).length % 20 = r := by omega
  simp only [hdiv, hmod]
  exact hasDecoded_of_hellos hops hr hfed

/-- The hello of the start, in two calls. -/
theorem transmission_decoded_start :
    (decoderRun wireVersion1 [.feed (.bytes ((hello wireVersion1 ⟨0, 1, 0, 0⟩ 0).take 7)),
      .feed (.bytes ((hello wireVersion1 ⟨0, 1, 0, 0⟩ 0).drop 7))]).context.length = 1 := by
  have hfed : fedBytes [.feed (.bytes ((hello wireVersion1 ⟨0, 1, 0, 0⟩ 0).take 7)),
      .feed (.bytes ((hello wireVersion1 ⟨0, 1, 0, 0⟩ 0).drop 7))] =
        hello wireVersion1 ⟨0, 1, 0, 0⟩ 0 := by
    simp [fedBytes]
  have hheard : fedBytes [.feed (.bytes ((hello wireVersion1 ⟨0, 1, 0, 0⟩ 0).take 7)),
      .feed (.bytes ((hello wireVersion1 ⟨0, 1, 0, 0⟩ 0).drop 7))] <+:
        (harnessRun wireVersion1 ⟨0, 1, 0, 0⟩ []).callbackContext.serial := by
    refine ⟨[], ?_⟩
    rw [List.append_nil, hfed, serial_start]
  have hdecoded := (transmission_decoded wireVersion1 ⟨0, 1, 0, 0⟩ [] _ (by simp) hheard).count
  rw [hfed, length_hello] at hdecoded
  exact hdecoded

/-! ### Both directions -/

/-- An identify request as an item of a clean stream. -/
def requestItem (V : WireVersion) : NoisyFrame V where
  noise := []
  messageType := MessageType.identifyRequest.code
  payload := .bytes []
  sequence := 0
  flags := 0
  bytes := frameBytes V MessageType.identifyRequest.code [] 0 0
  no_magic := by decide
  encoded := encodesTo_iff.mpr ⟨.inl rfl, Nat.zero_le _, rfl⟩

/-- The item is an identify request. -/
def NoisyFrame.isRequest {V : WireVersion} (item : NoisyFrame V) : Bool :=
  item.messageType == MessageType.identifyRequest.code && item.payload.data.isEmpty

/-- The gate admits an item as a request exactly if it is one. -/
theorem requestCount_admitted {V : WireVersion} (item : NoisyFrame V) :
    requestCount (admitted V item.frame).toList = item.isRequest.toNat := by
  cases hadmitted : admitted V item.frame with
  | none =>
    -- the gate admits every request, so this is none
    cases hrequest : item.isRequest with
    | false => rfl
    | true =>
      unfold NoisyFrame.isRequest at hrequest
      rw [Bool.and_eq_true, beq_iff_eq, List.isEmpty_iff] at hrequest
      unfold NoisyFrame.frame at hadmitted
      rw [hrequest.1, hrequest.2, admitted_request] at hadmitted
      cases hadmitted
  | some pair =>
    obtain ⟨frame, message⟩ := pair
    obtain ⟨rfl, hok⟩ := (admitted_eq_some_iff .zero).mp hadmitted
    obtain ⟨_, _, hdecode⟩ := cpuIngressValidateFrame_ok_iff.mp hok
    obtain ⟨_, type, hcode, _, hlen, rfl, _⟩ := messageDecodePayload_ok_iff.mp hdecode
    show ([(item.frame, decodedMessage item.messageType type item.payload.data)].countP
      fun pair => pair.2.type == MessageType.identifyRequest.code) = _
    by_cases hrequest : item.messageType = MessageType.identifyRequest.code
    · -- the payload of a request that was admitted is empty
      have hidentify : type = .identifyRequest := by
        have hsome : MessageType.ofCode? item.messageType = some type := hcode
        rw [hrequest, MessageType.ofCode?_code] at hsome
        exact (Option.some.inj hsome).symm
      subst hidentify
      have hempty : item.payload.data = [] := List.eq_nil_of_length_eq_zero hlen
      simp [NoisyFrame.isRequest, decodedMessage, hrequest, hempty]
    · have hother := beq_eq_false_iff_ne.mpr hrequest
      simp [NoisyFrame.isRequest, decodedMessage, hother]

/-- The admitted requests of a clean stream are its requests. -/
theorem requestCount_noisyStream {V : WireVersion} (items : List (NoisyFrame V))
    {ops : List StreamOp} (hops : StreamOp.resetIncomplete ∉ ops)
    (hfed : fedBytes ops = noisyStream items) :
    requestCount (ingressLog V ops) = items.countP NoisyFrame.isRequest := by
  rw [ingressLog_eq, frames_noisyStream items hops hfed]
  clear hfed
  induction items with
  | nil => rfl
  | cons item items ih =>
    have hitem := requestCount_admitted item
    have hcons : (NoisyFrame.frame item :: items.map NoisyFrame.frame).filterMap (admitted V) =
        (admitted V item.frame).toList ++ (items.map NoisyFrame.frame).filterMap (admitted V) := by
      cases hadmitted : admitted V item.frame with
      | none => rw [List.filterMap_cons_none hadmitted]; rfl
      | some pair => rw [List.filterMap_cons_some hadmitted]; rfl
    rw [List.map_cons, hcons, requestCount, List.countP_append, ← requestCount, ← requestCount, ih,
      hitem, List.countP_cons, Nat.add_comm]
    cases item.isRequest <;> rfl

/-- **Requests in, hellos out.** The host sends encoded frames of any kind, with noise between them
    in which no `'O'` is followed by a `'W'`, in any calls; the harness answers, and the host is fed
    all of the answer, in any calls.  Then the host has decoded the hello of the start and one for
    each identify request it sent, in order and numbered without a gap, and nothing is left over on
    either side. -/
theorem exchange_round_trip (V : WireVersion) (firmware : Firmware) (items : List (NoisyFrame V))
    (ops hostOps : List StreamOp) (hops : StreamOp.resetIncomplete ∉ ops)
    (hsent : fedBytes ops = noisyStream items) (hhost : StreamOp.resetIncomplete ∉ hostOps)
    (hheard : fedBytes hostOps = (harnessRun V firmware ops).callbackContext.serial) :
    HasDecoded V firmware (1 + items.countP NoisyFrame.isRequest) 0 (decoderRun V hostOps) ∧
      (harnessRun V firmware ops).decoder.bufferedBytes = 0 := by
  have hanswer : fedBytes hostOps =
      hellos V firmware (1 + items.countP NoisyFrame.isRequest) ++ [] := by
    rw [hheard, serial_harnessRun, requestCount_noisyStream items hops hsent, List.append_nil]
  refine ⟨hasDecoded_of_hellos hhost (by omega) hanswer, ?_⟩
  have hdecoder : (harnessRun V firmware ops).decoder = (opsTrace V streamDecoderInit ops).1 := by
    unfold harnessRun
    rw [ingressOps_eq]
    rfl
  rw [hdecoder]
  exact (accounts_noisyStream items hops hsent).2.1

/-- One request, and both hellos in one call. -/
theorem exchange_round_trip_request :
    let answer := (harnessRun wireVersion1 ⟨0, 1, 0, 0⟩
      [.feed (.bytes (requestItem wireVersion1).bytes)]).callbackContext.serial
    (decoderRun wireVersion1 [.feed (.bytes answer)]).context.length = 2 := by
  have hexchange := exchange_round_trip wireVersion1 ⟨0, 1, 0, 0⟩ [requestItem wireVersion1]
    [.feed (.bytes (requestItem wireVersion1).bytes)]
    [.feed (.bytes (harnessRun wireVersion1 ⟨0, 1, 0, 0⟩
      [.feed (.bytes (requestItem wireVersion1).bytes)]).callbackContext.serial)]
    (by simp) rfl (by simp) (List.append_nil _)
  exact hexchange.1.count

/-! ### The traffic -/

/-- A delivered frame takes twelve bytes at least. -/
theorem length_segmentFrames_le {segments : List Segment}
    (h : ∀ bytes frame, .delivered bytes frame ∈ segments → 12 ≤ bytes.length) :
    12 * (segmentFrames segments).length ≤ deliveredLength segments := by
  induction segments with
  | nil => exact Nat.le_refl 0
  | cons segment segments ih =>
    have hrest := ih fun bytes frame hmem => h bytes frame (List.mem_cons_of_mem _ hmem)
    cases segment with
    | discarded bytes => exact hrest
    | delivered bytes frame =>
      have hhead := h bytes frame List.mem_cons_self
      show 12 * ((segmentFrames segments).length + 1) ≤ bytes.length + deliveredLength segments
      omega

/-- So a run of the decoder delivers one frame for every twelve bytes at most. -/
theorem length_context_le (V : WireVersion) (ops : List StreamOp) :
    12 * (decoderRun V ops).context.length ≤ (fedBytes ops).length := by
  obtain ⟨past, now, _, hacc⟩ := accounts_opsTrace V ops
  have hdelivered : ∀ bytes frame, .delivered bytes frame ∈ runSegments V ops →
      12 ≤ bytes.length := fun _ _ hmem => ((parseFrame_ok_iff V _ _).mp (hacc.delivered hmem)).1
  have hframes := length_segmentFrames_le hdelivered
  have hledger := length_segmentBytes (runSegments V ops)
  rw [fedBytes_eq V ops, List.length_append, decoderRun_eq]
  show 12 * (segmentFrames (runSegments V ops)).length ≤ _
  omega

/-- **The traffic is bounded.** Beyond the hello of the start the harness never transmits more than
    five bytes for three that it has received, in whatever calls they are fed and whatever they
    are; and no smaller factor is enough, since for every number of requests there is a run that
    receives twelve bytes and transmits twenty for each. -/
theorem transmission_bounded (V : WireVersion) (firmware : Firmware) :
    (∀ ops : List StreamOp,
      3 * (harnessRun V firmware ops).callbackContext.serial.length ≤
        60 + 5 * (fedBytes ops).length) ∧
      ∀ k, ∃ ops : List StreamOp, (fedBytes ops).length = 12 * k ∧
        (harnessRun V firmware ops).callbackContext.serial.length = 20 + 20 * k := by
  have hsent : ∀ ops : List StreamOp,
      (harnessRun V firmware ops).callbackContext.serial.length =
        20 * (1 + requestCount (ingressLog V ops)) := by
    intro ops
    rw [serial_harnessRun, length_hellos]
  constructor
  · intro ops
    have hrequests : requestCount (ingressLog V ops) ≤ (decoderRun V ops).context.length := by
      rw [ingressLog_eq]
      exact List.countP_le_length.trans (List.length_filterMap_le _ _)
    have hframes := length_context_le V ops
    have hlength := hsent ops
    omega
  · intro k
    have hfed : fedBytes [.feed (.bytes (noisyStream (List.replicate k (requestItem V))))] =
        noisyStream (List.replicate k (requestItem V)) :=
      List.append_nil _
    refine ⟨[.feed (.bytes (noisyStream (List.replicate k (requestItem V))))], ?_, ?_⟩
    · rw [hfed, noisyStream, List.length_flatMap, List.map_replicate, List.sum_replicate_nat]
      show k * (frameBytes V _ [] 0 0).length = _
      rw [length_frameBytes, Nat.mul_comm]
      rfl
    · have hrequest : (requestItem V).isRequest = true := rfl
      rw [hsent, requestCount_noisyStream _ (by simp) hfed, List.countP_replicate, if_pos hrequest]
      omega

/-! ### Boards that hear each other -/

section Boards

variable {V : WireVersion} {firmware : Firmware}

/-- The bytes of a hello where nothing can vary. -/
theorem byteAt_hello (V : WireVersion) (firmware : Firmware) (i : Nat) :
    byteAt (hello V firmware i) 1 = magic1 ∧ byteAt (hello V firmware i) 3 = 0 ∧
      byteAt (hello V firmware i) 6 = 0 ∧ byteAt (hello V firmware i) 7 = 0x80 ∧
      byteAt (hello V firmware i) 8 = 8 :=
  ⟨rfl, rfl, rfl, rfl, rfl⟩

/-- **No frame stands inside a hello**, except the hello. -/
theorem stretch_hello {i p k : Nat} {frame : DecodedFrame}
    (h : parseFrame V (((hello V firmware i).drop p).take k) = .ok frame) :
    p = 0 ∧ frame = helloDecoded V firmware i := by
  obtain ⟨hshort, h0, h1, h2, _, hexpected, _, _⟩ := (parseFrame_ok_iff V _ _).mp h
  rw [List.length_take, List.length_drop, length_hello] at hshort hexpected
  have hlong : 12 ≤ k := by omega
  have hp : p = 0 := by
    -- elsewhere one of the bytes that open a frame is a wrong byte of the hello
    rw [byteAt_take _ (by omega), byteAt_drop] at h0 h1 h2
    obtain ⟨hello1, hello3, hello6, hello7, hello8⟩ := byteAt_hello V firmware i
    have hcases : p = 0 ∨ p = 1 ∨ p = 2 ∨ p = 3 ∨ p = 4 ∨ p = 5 ∨ p = 6 ∨ p = 7 ∨ p = 8 := by
      omega
    rcases hcases with rfl | rfl | rfl | rfl | rfl | rfl | rfl | rfl | rfl
    · rfl
    · exact absurd (hello1.symm.trans h0) (by decide)
    · exact absurd (hello3.symm.trans h1) (by decide)
    · exact absurd (hello3.symm.trans h0) (by decide)
    · exact absurd (hello6.symm.trans h2).symm V.ne_zero
    · exact absurd (hello6.symm.trans h1) (by decide)
    · exact absurd (hello6.symm.trans h0) (by decide)
    · exact absurd (hello7.symm.trans h0) (by decide)
    · exact absurd (hello8.symm.trans h0) (by decide)
  subst hp
  -- the length field makes it the whole hello
  rw [List.drop_zero] at h hexpected
  have hlength : (readU16Le ((hello V firmware i).drop 8)).toNat = 8 := by
    have hdeclared := (encodesTo_hello V firmware i).declared []
    rw [List.append_nil, length_hello] at hdeclared
    show declaredLength (hello V firmware i) = 8
    omega
  rw [readU16Le_drop_take (by omega), hlength] at hexpected
  have hwhole := (decode_helloFrame V (firmware.identityAt i)).1
  rw [decodeFrame_ok_iff] at hwhole
  rw [List.take_of_length_le (by rw [length_hello]; omega)] at h
  exact ⟨rfl, Except.ok.inj (h.symm.trans hwhole)⟩

/-- A board that has been fed a part of a hello has delivered it once or not at all. -/
theorem context_of_hello {i : Nat} {ops : List StreamOp}
    (h : fedBytes ops <+: hello V firmware i) :
    (decoderRun V ops).context = [] ∨ (decoderRun V ops).context = [helloDecoded V firmware i] := by
  have hfed : fedBytes ops = (hello V firmware i).take (fedBytes ops).length :=
    List.prefix_iff_eq_take.mp h
  have hall : ∀ d ∈ deliveries 0 (runSegments V ops), d.start = 0 ∧
      d.frame = helloDecoded V firmware i ∧ 0 < d.length := by
    intro d hd
    have hparse := (decodeFrame_ok_iff V _ _ _).mp (decodeFrame_of_mem_deliveries hd)
    have hlong := ((parseFrame_ok_iff V _ _).mp hparse).1
    rw [List.length_take] at hlong
    rw [hfed, List.drop_take, List.take_take] at hparse
    obtain ⟨hstart, hframe⟩ := stretch_hello hparse
    exact ⟨hstart, hframe, by omega⟩
  have hpairwise := deliveries_pairwise 0 (runSegments V ops)
  rw [← map_frame_runSegments]
  cases hds : deliveries 0 (runSegments V ops) with
  | nil => exact .inl rfl
  | cons d rest =>
    rw [hds] at hall hpairwise
    obtain ⟨hstart, hframe, hpos⟩ := hall d List.mem_cons_self
    cases rest with
    | nil => exact .inr (by rw [List.map_singleton, hframe])
    | cons e rest =>
      -- two frames would stand at the same place
      have hlater := List.rel_of_pairwise_cons hpairwise List.mem_cons_self
      have hstart' := (hall e (by simp)).1
      omega

/-- The gate refuses a hello. -/
theorem verdict_helloDecoded (V : WireVersion) (firmware : Firmware) (i : Nat) :
    verdict V (helloDecoded V firmware i) = .wrongDirection := by
  unfold verdict
  rw [cpuIngressValidateFrame_refused (.inl rfl) rfl]
  · rfl
  · rintro type hcode
    cases hcode
    rfl

/-- A board that has delivered hellos at most sends its first hello and no other. -/
theorem serial_of_hello {other : Firmware} {i : Nat} {ops : List StreamOp}
    (h : (decoderRun V ops).context = [] ∨
      (decoderRun V ops).context = [helloDecoded V other i]) :
    (harnessRun V firmware ops).callbackContext.serial = hello V firmware 0 := by
  have hrefused : admitted V (helloDecoded V other i) = none := by
    rw [admitted_eq_none_iff, verdict_helloDecoded]
    decide
  have hnone : ingressLog V ops = [] := by
    rw [ingressLog_eq]
    rcases h with h | h
    · rw [h]
      rfl
    · rw [h, List.filterMap_cons_none hrefused]
      rfl
  rw [serial_harnessRun, hnone]
  exact List.append_nil _

variable {ι : Type} [DecidableEq ι]

/-- The calls that boards with joined lines may have had: each board is only fed what the board it
    hears has transmitted before, in any order of the calls and with resets at any time. -/
inductive Wired (V : WireVersion) (firmware : ι → Firmware) (hears : ι → ι) :
    (ι → List StreamOp) → Prop
  | start : Wired V firmware hears fun _ => []
  | call {calls : ι → List StreamOp} (board : ι) (op : StreamOp) (h : Wired V firmware hears calls)
      (hheard : fedBytes (calls board ++ [op]) <+:
        (harnessRun V (firmware (hears board)) (calls (hears board))).callbackContext.serial) :
      Wired V firmware hears (Function.update calls board (calls board ++ [op]))

/-- What a board has delivered that has heard a hello at most. -/
theorem context_of_wired {firmware : ι → Firmware} {hears : ι → ι} {calls : ι → List StreamOp}
    (h : Wired V firmware hears calls) (board : ι) :
    (decoderRun V (calls board)).context = [] ∨
      (decoderRun V (calls board)).context = [helloDecoded V (firmware (hears board)) 0] := by
  induction h generalizing board with
  | start => exact .inl rfl
  | @call calls caller op _ hheard ih =>
    by_cases hboard : board = caller
    swap
    · rw [Function.update_of_ne hboard]
      exact ih board
    subst hboard
    rw [Function.update_self]
    apply context_of_hello
    -- the board that is heard has sent its first hello and no other
    rwa [serial_of_hello (ih (hears board))] at hheard

end Boards

/-- **Boards do not answer each other.** However many boards there are, if each hears exactly one of
    them, another or itself, and nothing else, in every order of calls and whatever is still on the
    lines: each board has transmitted the hello of its start and nothing more, has accepted nothing,
    and has counted at most one frame, whose direction was wrong. -/
theorem wired_boards_silent {ι : Type} [DecidableEq ι] (V : WireVersion) (firmware : ι → Firmware)
    (hears : ι → ι) (calls : ι → List StreamOp) (h : Wired V firmware hears calls) (board : ι) :
    let run := harnessRun V (firmware board) (calls board)
    run.callbackContext.serial = hello V (firmware board) 0 ∧
      (run.stats = .zero ∨ run.stats = { CpuIngressStats.zero with wrongDirection := 1 }) := by
  have hcontext := context_of_wired h board
  refine ⟨serial_of_hello hcontext, ?_⟩
  have hstats : (harnessRun V (firmware board) (calls board)).stats =
      ((decoderRun V (calls board)).context.map (verdict V)).foldl .record .zero := by
    unfold harnessRun
    rw [ingressOps_eq, decoderRun_eq]
    rfl
  rw [hstats]
  rcases hcontext with hcontext | hcontext
  · rw [hcontext]
    exact .inl rfl
  · rw [hcontext, List.map_singleton, verdict_helloDecoded]
    exact .inr rfl

/-- A board whose transmitter is joined to its receiver. -/
theorem wired_boards_silent_loopback :
    (harnessRun wireVersion1 ⟨0, 1, 0, 0⟩
      [.feed (.bytes (hello wireVersion1 ⟨0, 1, 0, 0⟩ 0))]).callbackContext.serial =
        hello wireVersion1 ⟨0, 1, 0, 0⟩ 0 := by
  have hheard : fedBytes ([] ++ [.feed (.bytes (hello wireVersion1 ⟨0, 1, 0, 0⟩ 0))]) <+:
      (harnessRun wireVersion1 ⟨0, 1, 0, 0⟩ []).callbackContext.serial := by
    rw [serial_start]
    exact ⟨[], by simp [fedBytes]⟩
  exact (wired_boards_silent wireVersion1 (fun _ : Unit => ⟨0, 1, 0, 0⟩) id _
    (.call () _ .start hheard) ()).1

end Oomwoo
