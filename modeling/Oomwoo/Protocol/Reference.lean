import Oomwoo.Protocol.Epochs

namespace Oomwoo

open Bytes Scanning

/-!
# The decoder refines a leftmost scan

`referenceScan` is an offline reading of a whole string by positions: find the next magic, judge
the candidate there, go on behind it.  It knows no buffer, no calls and no resync.  On every
epoch of a run the decoder delivers and counts exactly what it records
(`streamDecoder_refines_reference`); the bridge is that both are runs of the scanner
(`referenceScan_of_run`).
-/

/-- The least `q ≥ p` with the magic at `q`, `q + 1`. -/
def nextMagic (B : List UInt8) (p : Nat) : Option Nat :=
  (List.range' p (B.length - 1 - p)).find? fun q =>
    byteAt B q == magic0 && byteAt B (q + 1) == magic1

/-- What the candidate at `q` is and where to go on; `none` stops the scan. -/
def judge (V : WireVersion) (B : List UInt8) (q : Nat) : Option (ScanEvent × Nat) :=
  if B.length < q + 10 then none
  else if byteAt B (q + 2) ≠ V.byte then some (.versionError, q + 1)
  else
    let n := (readU16Le (B.drop (q + 8))).toNat
    if 512 < n then some (.lengthError, q + 1)
    else if B.length < q + (12 + n) then none
    else if readU16Le (B.drop (q + (10 + n))) ≠ crcBytes ((B.drop q).take (10 + n)) then
      some (.crcError, q + 1)
    else
      some (.frame {
        version := V.byte
        flags := byteAt B (q + 3)
        sequence := readU16Le (B.drop (q + 4))
        messageType := readU16Le (B.drop (q + 6))
        payload := .bytes ((B.drop (q + 10)).take n) }, q + (12 + n))

/-- The magic found is at `p` or behind it, inside the string. -/
theorem nextMagic_bounds {B : List UInt8} {p q : Nat} (h : nextMagic B p = some q) :
    p ≤ q ∧ q + 1 < B.length := by
  obtain ⟨_, hmem, _⟩ := List.find?_range'_eq_some.mp h
  rw [List.mem_range'_1] at hmem
  omega

/-- The scan goes on behind the candidate it judged. -/
theorem judge_advances {V : WireVersion} {B : List UInt8} {q next : Nat} {event : ScanEvent}
    (h : judge V B q = some (event, next)) : q < next := by
  rw [judge] at h
  split at h
  · cases h
  split at h
  · cases h; omega
  simp only at h
  split at h
  · cases h; omega
  split at h
  · cases h
  split at h <;> cases h <;> omega

/-- The events that the reference records from position `p` on. -/
def referenceScan (V : WireVersion) (B : List UInt8) (p : Nat) : List ScanEvent :=
  match _hq : nextMagic B p with
  | none => []
  | some q =>
    match _hnext : judge V B q with
    | none => []
    | some (event, next) => event :: referenceScan V B next
termination_by B.length - p
decreasing_by
  have hbounds := nextMagic_bounds _hq
  have hless := judge_advances _hnext
  omega

theorem referenceScan_stop {V : WireVersion} {B : List UInt8} {p : Nat}
    (h : nextMagic B p = none) : referenceScan V B p = [] := by
  rw [referenceScan]
  split
  · rfl
  · rename_i hq
    rw [h] at hq
    cases hq

theorem referenceScan_judge {V : WireVersion} {B : List UInt8} {p q : Nat}
    (h : nextMagic B p = some q) :
    referenceScan V B p =
      match judge V B q with
      | none => []
      | some (event, next) => event :: referenceScan V B next := by
  rw [referenceScan]
  split
  · rename_i hq
    rw [h] at hq
    cases hq
  · rename_i hq
    rw [h] at hq
    cases hq
    split
    · rename_i hj
      rw [hj]
    · rename_i hj
      rw [hj]

/-! ### The reference and the scanner -/

variable {V : WireVersion} {B : List UInt8}

theorem startsMagic_drop_iff_byteAt {p : Nat} (h : p + 1 < B.length) :
    StartsMagic (B.drop p) ↔
      (byteAt B p == magic0 && byteAt B (p + 1) == magic1) = true := by
  simp only [Bool.and_eq_true, beq_iff_eq]
  constructor
  · intro hs
    exact ⟨by simpa using hs.first, by simpa using hs.second⟩
  · rintro ⟨h0, h1⟩
    exact ⟨by simp; omega, by simpa using h0, by simpa using h1⟩

/-- The search stops where the magic stands. -/
theorem nextMagic_here {p : Nat} (h : StartsMagic (B.drop p)) : nextMagic B p = some p := by
  have hlen := h.length
  rw [List.length_drop] at hlen
  rw [nextMagic, show B.length - 1 - p = B.length - 1 - p - 1 + 1 by omega, List.range'_succ,
    List.find?_cons, (startsMagic_drop_iff_byteAt (by omega)).mp h]

/-- The search passes over any other position. -/
theorem nextMagic_skip {p : Nat} (h : ¬ StartsMagic (B.drop p)) :
    nextMagic B p = nextMagic B (p + 1) := by
  by_cases hlen : p + 1 < B.length
  · rw [startsMagic_drop_iff_byteAt hlen, Bool.not_eq_true] at h
    rw [nextMagic, show B.length - 1 - p = B.length - 1 - (p + 1) + 1 by omega, List.range'_succ,
      List.find?_cons, h, nextMagic]
  · rw [nextMagic, nextMagic, show B.length - 1 - p = 0 by omega,
      show B.length - 1 - (p + 1) = 0 by omega]
    rfl

/-- At a magic, the reference's judgement is the scanner's decision. -/
theorem judge_eq {q : Nat} (h : StartsMagic (B.drop q)) :
    judge V B q = (scanStep V (B.drop q)).map fun (event, k) => (event, q + k) := by
  have h2 := h.length
  have hdecl : (readU16Le (B.drop (q + 8))).toNat = declaredLength (B.drop q) := by
    rw [declaredLength, List.drop_drop]
  have hbyte : byteAt (B.drop q) 2 = byteAt B (q + 2) := byteAt_drop _ _ _
  simp only [List.length_drop] at h2
  rw [judge]
  by_cases hshort : B.length < q + 10
  · rw [if_pos hshort, scanStep_short h (by rw [List.length_drop]; omega)]
    rfl
  have h10 : 10 ≤ (B.drop q).length := by rw [List.length_drop]; omega
  rw [if_neg hshort, ← hbyte]
  by_cases hv : byteAt (B.drop q) 2 = V.byte
  swap
  · rw [if_pos hv, scanStep_version h h10 hv]
    rfl
  rw [if_neg (by simp [hv])]
  simp only [hdecl]
  by_cases hn : 512 < declaredLength (B.drop q)
  · rw [if_pos hn, scanStep_length h h10 hv hn]
    rfl
  have hcandidate : Candidate V (B.drop q) := ⟨h, h10, hv, by omega⟩
  rw [if_neg hn]
  by_cases hopen : B.length < q + (12 + declaredLength (B.drop q))
  · rw [if_pos hopen, scanStep_open hcandidate (by rw [List.length_drop]; omega)]
    rfl
  have hclosed : 12 + declaredLength (B.drop q) ≤ (B.drop q).length := by
    rw [List.length_drop]
    omega
  rw [if_neg hopen, scanStep_closed hcandidate hclosed, parseFrame_of_candidate hcandidate hclosed,
    List.drop_drop]
  by_cases hcrc : readU16Le (B.drop (q + (10 + declaredLength (B.drop q)))) ≠
      crcBytes ((B.drop q).take (10 + declaredLength (B.drop q)))
  · rw [if_pos hcrc, if_pos hcrc]
    rfl
  · rw [if_neg hcrc, if_neg hcrc]
    simp only [frameAt, hv, byteAt_drop, List.drop_drop, Option.map_some]

/-- **A run of the scanner that ends quiet is what the reference records**, noise apart. -/
theorem referenceScan_of_run {pieces : List (ScanEvent × List UInt8)} {r : List UInt8} {p : Nat}
    (h : RunAt V B r p pieces) (hquiet : Quiet V r) :
    referenceScan V B p = (pieces.map Prod.fst).filter (· ≠ .noise) := by
  induction h with
  | @rest p hrest =>
    subst hrest
    by_cases hmagic : StartsMagic (B.drop p)
    · -- the reference stops at an undecided candidate
      rw [referenceScan_judge (nextMagic_here hmagic), judge_eq hmagic,
        hquiet.scanStep_eq_none hmagic]
      rfl
    · -- at most one byte is left, so no magic
      have hfew := hquiet.length_le_one hmagic
      rw [List.length_drop] at hfew
      refine (referenceScan_stop ?_).trans rfl
      rw [nextMagic, show B.length - 1 - p = 0 by omega]
      rfl
  | @discard p event pieces _ _ hstep _ ih =>
    rcases scanStep_magic hstep with ⟨rfl, _, hnoise⟩ | ⟨hne, hmagic⟩
    · -- noise: the search for the magic passes over it
      have hskip := nextMagic_skip fun hmagic => hmagic.not_notMagic hnoise
      rw [List.map_cons, List.filter_cons_of_neg (by simp), ← ih]
      rw [referenceScan, referenceScan, hskip]
    · rw [List.map_cons, List.filter_cons_of_pos (by simpa using hne), ← ih,
        referenceScan_judge (nextMagic_here hmagic), judge_eq hmagic, hstep]
      rfl
  | @deliver p k frame pieces _ _ hstep _ ih =>
    have hmagic := (scanStep_frame hstep).1.magic
    rw [List.map_cons, List.filter_cons_of_pos (by simp), ← ih,
      referenceScan_judge (nextMagic_here hmagic), judge_eq hmagic, hstep]
    rfl

/-- What the reference records for the fed bytes of a run, cut at the resets. -/
def referenceRun (V : WireVersion) (ops : List StreamOp) : List ScanEvent :=
  (cutAtResets ops).flatMap fun B => referenceScan V B 0

/-- The reference on the epochs of a run. -/
theorem referenceRun_eq {ops : List StreamOp} {epochs : List (Epoch V)}
    (h : cutAtResets ops = epochs.map Epoch.bytes) :
    referenceRun V ops = ((epochs.flatMap Epoch.pieces).map Prod.fst).filter (· ≠ .noise) := by
  rw [referenceRun, h, List.flatMap_map, List.map_flatMap, List.filter_flatMap]
  congr 1
  funext epoch
  exact referenceScan_of_run epoch.runAt epoch.quiet

/-- Leaving noise out does not change the count of anything else. -/
theorem countP_filter_noise (counts : ScanEvent → Bool) (hnoise : counts .noise = false)
    (pieces : List (ScanEvent × List UInt8)) :
    ((pieces.map Prod.fst).filter (· ≠ .noise)).countP counts =
      pieces.countP fun piece => counts piece.1 := by
  rw [List.countP_filter, List.countP_map]
  apply List.countP_congr
  intro piece _
  have himp : counts piece.1 = true → piece.1 ≠ .noise := by
    rintro hc hn
    rw [hn, hnoise] at hc
    cases hc
  simp only [Function.comp_apply, Bool.and_eq_true, decide_eq_true_eq]
  exact ⟨And.left, fun hc => ⟨hc, himp hc⟩⟩

/-- Nor does it change the frames. -/
theorem filterMap_filter_noise (pieces : List (ScanEvent × List UInt8)) :
    ((pieces.map Prod.fst).filter (· ≠ .noise)).filterMap ScanEvent.frame? =
      pieces.filterMap fun piece => piece.1.frame? := by
  induction pieces with
  | nil => rfl
  | cons piece pieces ih =>
    obtain ⟨event, bytes⟩ := piece
    rw [List.map_cons, List.filterMap_cons]
    by_cases hnoise : event = .noise
    · rw [List.filter_cons_of_neg (by simp [hnoise]), ih, hnoise]
      rfl
    · rw [List.filter_cons_of_pos (by simpa using hnoise), List.filterMap_cons, ih]

theorem length_filterMap_frame? (events : List ScanEvent) :
    (events.filterMap ScanEvent.frame?).length = events.countP ScanEvent.isFrame := by
  rw [List.length_filterMap_eq_countP]
  rfl

/-- **The stream decoder refines the leftmost scan.** Whatever is fed, in whatever pieces and
    with whatever resets, the callbacks, the return values and the counters are those of the
    reference on the bytes between the resets, and what stays buffered is a suffix of the last
    of these. -/
theorem streamDecoder_refines_reference (V : WireVersion) (ops : List StreamOp) :
    let run := decoderRun V ops
    let records := referenceRun V ops
    run.context = records.filterMap ScanEvent.frame? ∧
      run.emitted = records.countP ScanEvent.isFrame ∧
      run.decoder.stats.frames = UInt32.ofNat (records.countP ScanEvent.isFrame) ∧
      run.decoder.stats.versionErrors = UInt32.ofNat (records.count .versionError) ∧
      run.decoder.stats.lengthErrors = UInt32.ofNat (records.count .lengthError) ∧
      run.decoder.stats.crcErrors = UInt32.ofNat (records.count .crcError) ∧
      ∃ segment, (cutAtResets ops).getLast? = some segment ∧ run.decoder.live <:+ segment := by
  obtain ⟨past, now, hcut, hacc⟩ := accounts_opsTrace V ops
  have hepochs : cutAtResets ops = (past ++ [now]).map Epoch.bytes := by simp [hcut]
  have hrecords := referenceRun_eq hepochs
  have hframes : segmentFrames (opsTrace V streamDecoderInit ops).2 =
      (referenceRun V ops).filterMap ScanEvent.frame? := by
    rw [hacc.frames_eq, hrecords, filterMap_filter_noise]
  -- noise is not recorded and no counter of an error or a frame counts it
  have hcount : ∀ (counter : DecoderStats → UInt32) (counts : ScanEvent → Bool),
      counts .noise = false → counter .zero = 0 →
      (∀ stats event,
        counter (stats.record event) = counter stats + UInt32.ofNat (counts event).toNat) →
      (∀ stats count, counter (stats.gap count) = counter stats) →
      counter (opsTrace V streamDecoderInit ops).1.stats =
        UInt32.ofNat ((referenceRun V ops).countP counts) := by
    intro counter counts hnoise hzero hrecord hgap
    rw [hacc.counter counter counts hrecord hgap, hrecords, countP_filter_noise counts hnoise,
      hzero, UInt32.zero_add]
  rw [decoderRun_eq]
  refine ⟨hframes, ?_, ?_, ?_, ?_, ?_, now.bytes, by simp [hcut], ?_⟩
  · show (segmentFrames _).length = _
    rw [hframes, length_filterMap_frame?]
  · exact hcount _ _ rfl rfl frames_record frames_gap
  · exact hcount _ _ rfl rfl versionErrors_record versionErrors_gap
  · exact hcount _ _ rfl rfl lengthErrors_record lengthErrors_gap
  · exact hcount _ _ rfl rfl crcErrors_record crcErrors_gap
  · show (opsTrace V streamDecoderInit ops).1.live <:+ now.bytes
    rw [hacc.live_eq]
    exact ⟨_, now.run.flatten⟩

end Oomwoo
