import Oomwoo.Ingress.Decision
import Oomwoo.Lib.Checks

namespace Oomwoo

open Bytes Checks

/-!
# The corpus of the command gate

`tools/generate_gate_vectors.py` renders a vendored corpus of frames and authored outcomes as a C
header, and `tests/command_gate_conformance.c` runs the gate on every row of it.  Both together
pass exactly for the pinned corpus, well formed, with the header committed for it, whose outcomes
are those of the contract (`drift_check_iff`).

JSON numbers are integers of any size, a header stands for its contents, and a digest comes with
its file.
-/

namespace GateCorpus

/-! ### The corpus -/

/-- `name` is what `v.get("name", "<unnamed>")` gives; a name that is no string fails the same check
    as this one. -/
structure CorpusVector where
  name : String
  messageType : Int
  version : Int
  payloadHex : String
  expect : String
  reason : String

structure Corpus where
  schemaVersion : Option Int
  wireVersion : Option Int
  vectors : List CorpusVector

/-- The file, with its SHA-256. -/
structure CorpusFile where
  digest : String
  doc : Corpus

/-- Why the generator, the compiler or the test gives up. -/
inductive Failure where
  | missingCorpus
  | digest (actual : String)
  | schemaVersion (actual : Option Int)
  | wireVersion
  | vectorCount (actual : Nat)
  | vectorName (name : String)
  | duplicateName (name : String)
  | messageType (name : String)
  | version (name : String)
  | oddHex (name : String)
  | notHex (name : String)
  | payloadLength (name : String)
  | expect (name expect : String)
  | reason (name reason : String)
  | disagree (name : String)
  | stale
  | compile
  | mismatch (name : String)
  | compiled (count : Nat)
  deriving DecidableEq, Repr

/-- `EXPECTED_SHA256` -/
def expectedSha256 : String := "a97e246c9a64b95245e11cf43712eaf4ad725830d460e44c715503468d8db0ea"

/-- `EXPECTED_COUNT` -/
def expectedCount : Nat := 57

/-- `MAX_WIRE_PAYLOAD` -/
def maxWirePayload : Nat := 512

/-- `_REASON_TO_ENUM` -/
def reasonToEnum : String → Option CpuIngressResult
  | "OK" => some .ok
  | "BAD_VERSION" => some .badVersion
  | "UNKNOWN_TYPE" => some .unknownType
  | "WRONG_DIRECTION" => some .wrongDirection
  | "WRONG_PAYLOAD_LENGTH" => some .wrongPayloadLength
  | "VALUE_OUT_OF_RANGE" => some .valueOutOfRange
  | _ => none

/-- `[A-Za-z0-9_]` -/
def nameChar (c : Char) : Bool := c.isAlphanum || c == '_'

/-- `_NAME_RE.match`: the `$` of the pattern also matches in front of a line end that is the last
    character. -/
def nameMatches (name : String) : Bool :=
  let chars := name.toList
  let body := if chars.getLast? = some '\n' then chars.dropLast else chars
  !body.isEmpty && body.all nameChar

def hexDigit (c : Char) : Option Nat :=
  if '0' ≤ c ∧ c ≤ '9' then some (c.toNat - 48)
  else if 'a' ≤ c ∧ c ≤ 'f' then some (c.toNat - 87)
  else if 'A' ≤ c ∧ c ≤ 'F' then some (c.toNat - 55)
  else none

/-- The blanks that `bytes.fromhex` skips: space and U+0009 to U+000D. -/
def hexBlank (c : Char) : Bool := c == ' ' || (9 ≤ c.toNat && c.toNat ≤ 13)

/-- `bytes.fromhex`: pairs of digits, with blanks between them. -/
def fromHex : List Char → Option (List UInt8)
  | [] => some []
  | c :: cs =>
    if hexBlank c then fromHex cs
    else
      match cs with
      | [] => none
      | d :: cs =>
        match hexDigit c, hexDigit d with
        | some high, some low => (fromHex cs).map (UInt8.ofNat (16 * high + low) :: ·)
        | _, _ => none

/-! ### The generator -/

/-- The body of the loop over the vectors, behind the checks of the name. -/
def checkVector (vector : CorpusVector) : Except Failure Unit :=
  if ¬ (0 ≤ vector.messageType ∧ vector.messageType ≤ 0xffff) then
    .error (.messageType vector.name)
  else if ¬ (0 ≤ vector.version ∧ vector.version ≤ 0xff) then .error (.version vector.name)
  else if vector.payloadHex.length % 2 ≠ 0 then .error (.oddHex vector.name)
  else
    match fromHex vector.payloadHex.toList with
    | none => .error (.notHex vector.name)
    | some payload =>
      if payload.length > maxWirePayload then .error (.payloadLength vector.name)
      else if vector.expect ≠ "OK" ∧ vector.expect ≠ "REJECT" then
        .error (.expect vector.name vector.expect)
      else if reasonToEnum vector.reason = none then
        .error (.reason vector.name vector.reason)
      else if ¬ (vector.expect = "OK" ↔ vector.reason = "OK") then .error (.disagree vector.name)
      else .ok ()

/-- The loop over the vectors; `names` is the set it fills. -/
def checkVectors (names : List String) : List CorpusVector → Except Failure Unit
  | [] => .ok ()
  | vector :: vectors =>
    if ¬ nameMatches vector.name then .error (.vectorName vector.name)
    else if vector.name ∈ names then .error (.duplicateName vector.name)
    else
      match checkVector vector with
      | .error failure => .error failure
      | .ok () => checkVectors (vector.name :: names) vectors

def loadCorpus : Option CorpusFile → Except Failure CorpusFile
  | none => .error .missingCorpus
  | some file =>
    if file.digest ≠ expectedSha256 then .error (.digest file.digest)
    else if file.doc.schemaVersion ≠ some 1 then .error (.schemaVersion file.doc.schemaVersion)
    else if file.doc.wireVersion ≠ some 1 then .error .wireVersion
    else if file.doc.vectors.length ≠ expectedCount then
      .error (.vectorCount file.doc.vectors.length)
    else
      match checkVectors [] file.doc.vectors with
      | .error failure => .error failure
      | .ok () => .ok file

/-- The initialiser of one row, as the header spells it. -/
structure HeaderVector where
  name : String
  messageType : Int
  version : Int
  payloadLength : Nat
  payload : List UInt8
  expected : CpuIngressResult
  deriving DecidableEq, Repr

structure Header where
  digest : String
  maxPayload : Nat
  vectors : List HeaderVector
  count : Nat
  deriving DecidableEq, Repr

/-- `load_corpus` has checked that there is a payload and an enumerator. -/
def headerVector (vector : CorpusVector) : HeaderVector :=
  let payload := (fromHex vector.payloadHex.toList).getD []
  { name := vector.name
    messageType := vector.messageType
    version := vector.version
    payloadLength := payload.length
    payload := if payload.isEmpty then [0] else payload
    expected := (reasonToEnum vector.reason).getD .ok }

def header (file : CorpusFile) : Header :=
  let lengths := file.doc.vectors.map fun vector => (headerVector vector).payloadLength
  { digest := file.digest
    maxPayload := max (lengths.max?.getD 0) 1
    vectors := file.doc.vectors.map headerVector
    count := file.doc.vectors.length }

def render (file : Option CorpusFile) : Except Failure Header :=
  match loadCorpus file with
  | .error failure => .error failure
  | .ok file => .ok (header file)

/-- `--check` -/
def check (file : Option CorpusFile) (committed : Option Header) : Except Failure Header :=
  match render file with
  | .error failure => .error failure
  | .ok expected => if committed ≠ some expected then .error .stale else .ok expected

/-! ### The conformance test -/

/-- `oomwoo_command_gate_vector_t` -/
structure CommandGateVector where
  name : String
  messageType : UInt16
  version : UInt8
  payloadLength : UInt16
  payload : List UInt8
  expected : CpuIngressResult

/-- A literal does not run over a line end, and an initialiser is not longer than its array. -/
def HeaderVector.compiles (maxPayload : Nat) (vector : HeaderVector) : Bool :=
  decide ('\n' ∉ vector.name.toList) && decide (vector.payload.length ≤ maxPayload)

/-- A row as C initialises it: numbers modulo their type, the array filled up with zeros. -/
def HeaderVector.row (maxPayload : Nat) (vector : HeaderVector) : CommandGateVector where
  name := vector.name
  messageType := UInt16.ofInt vector.messageType
  version := UInt8.ofInt vector.version
  payloadLength := UInt16.ofNat vector.payloadLength
  payload := vector.payload ++ List.replicate (maxPayload - vector.payload.length) 0
  expected := vector.expected

def Header.compile (header : Header) : Option (List CommandGateVector) :=
  if header.vectors.all (·.compiles header.maxPayload) then
    some (header.vectors.map (·.row header.maxPayload))
  else none

/-- The frame that the test makes of a row: `memset` clears the fields it does not set. -/
def CommandGateVector.frame (v : CommandGateVector) : DecodedFrame where
  version := v.version
  flags := 0
  sequence := 0
  messageType := v.messageType
  payload := .bytes (v.payload.take v.payloadLength.toNat)

/-- `main` of the test: the first row that the gate does not answer as expected ends it. -/
def commandGateConformance (V : WireVersion) (vectors : List CommandGateVector) (count : Nat) :
    Except Failure Nat :=
  match (vectors.take count).find? fun v =>
      decide ((cpuIngressValidateFrame V (some v.frame) (some .zero)).1 ≠ v.expected) with
  | some v => .error (.mismatch v.name)
  | none => if count ≠ 57 then .error (.compiled count) else .ok count

/-- The test, compiled with a header and run. -/
def runTest (V : WireVersion) (header : Header) : Except Failure Nat :=
  match header.compile with
  | none => .error .compile
  | some vectors => commandGateConformance V vectors header.count

/-- The generator with `--check` and the test, one after the other. -/
def driftCheck (V : WireVersion) (file : Option CorpusFile) (committed : Option Header) :
    Except Failure Nat :=
  match check file committed with
  | .error failure => .error failure
  | .ok header => runTest V header

/-- `tests/conformance/command_gate_vectors_v1.json` -/
def commandGateVectorsV1 : Corpus where
  schemaVersion := some 1
  wireVersion := some 1
  vectors := [
    ⟨"heartbeat_ok", 1, 1, "40e2010001", "OK", "OK"⟩,
    ⟨"estop_set_ok", 2, 1, "010000", "OK", "OK"⟩,
    ⟨"clear_latched_fault_ok", 3, 1, "ff00", "OK", "OK"⟩,
    ⟨"identify_request_ok", 4, 1, "", "OK", "OK"⟩,
    ⟨"drive_setpoint_ok", 257, 1, "88fff4016400", "OK", "OK"⟩,
    ⟨"cleaning_motors_ok", 258, 1, "323c4600", "OK", "OK"⟩,
    ⟨"lidar_motor_ok", 259, 1, "50", "OK", "OK"⟩,
    ⟨"led_set_ok", 260, 1, "020364", "OK", "OK"⟩,
    ⟨"ack_ok", 28673, 1, "01010000", "OK", "OK"⟩,
    ⟨"nack_ok", 28674, 1, "01010500", "OK", "OK"⟩,
    ⟨"bad_version_heartbeat", 1, 2, "0000000001", "REJECT", "BAD_VERSION"⟩,
    ⟨"bad_version_beats_unknown_type", 2457, 2, "", "REJECT", "BAD_VERSION"⟩,
    ⟨"bad_version_beats_value", 257, 0, "0f2700006400", "REJECT", "BAD_VERSION"⟩,
    ⟨"bad_version_beats_length", 1, 2, "01", "REJECT", "BAD_VERSION"⟩,
    ⟨"unknown_type", 2457, 1, "", "REJECT", "UNKNOWN_TYPE"⟩,
    ⟨"wrong_dir_mcu_hello", 32768, 1, "", "REJECT", "WRONG_DIRECTION"⟩,
    ⟨"wrong_dir_fast_telemetry", 32769, 1, "", "REJECT", "WRONG_DIRECTION"⟩,
    ⟨"wrong_dir_safety_event", 32770, 1, "", "REJECT", "WRONG_DIRECTION"⟩,
    ⟨"wrong_dir_power_telemetry_open", 32771, 1, "", "REJECT", "WRONG_DIRECTION"⟩,
    ⟨"wrong_dir_mcu_diagnostic_open", 32772, 1, "", "REJECT", "WRONG_DIRECTION"⟩,
    ⟨"wrong_dir_safety_state", 32773, 1, "", "REJECT", "WRONG_DIRECTION"⟩,
    ⟨"wrong_dir_beats_length", 32768, 1, "aabbcc", "REJECT", "WRONG_DIRECTION"⟩,
    ⟨"len_heartbeat_zero", 1, 1, "", "REJECT", "WRONG_PAYLOAD_LENGTH"⟩,
    ⟨"len_heartbeat_minus1", 1, 1, "01020304", "REJECT", "WRONG_PAYLOAD_LENGTH"⟩,
    ⟨"len_heartbeat_plus1", 1, 1, "010203040506", "REJECT", "WRONG_PAYLOAD_LENGTH"⟩,
    ⟨"len_heartbeat_overlong", 1, 1, "0000000000000000000000000000000000000000",
      "REJECT", "WRONG_PAYLOAD_LENGTH"⟩,
    ⟨"len_identify_plus1", 4, 1, "00", "REJECT", "WRONG_PAYLOAD_LENGTH"⟩,
    ⟨"len_drive_minus1", 257, 1, "0102030405", "REJECT", "WRONG_PAYLOAD_LENGTH"⟩,
    ⟨"len_cleaning_plus1", 258, 1, "0102030405", "REJECT", "WRONG_PAYLOAD_LENGTH"⟩,
    ⟨"hb_mode0_ok", 1, 1, "0000000000", "OK", "OK"⟩,
    ⟨"hb_mode1_ok", 1, 1, "0000000001", "OK", "OK"⟩,
    ⟨"hb_mode2_oor", 1, 1, "0000000002", "REJECT", "VALUE_OUT_OF_RANGE"⟩,
    ⟨"estop_active0_ok", 2, 1, "000000", "OK", "OK"⟩,
    ⟨"estop_active1_ok", 2, 1, "010000", "OK", "OK"⟩,
    ⟨"estop_active2_oor", 2, 1, "020000", "REJECT", "VALUE_OUT_OF_RANGE"⟩,
    ⟨"drive_linear_max_ok", 257, 1, "f40100000100", "OK", "OK"⟩,
    ⟨"drive_linear_over_oor", 257, 1, "f50100000100", "REJECT", "VALUE_OUT_OF_RANGE"⟩,
    ⟨"drive_linear_min_ok", 257, 1, "0cfe00000100", "OK", "OK"⟩,
    ⟨"drive_linear_under_oor", 257, 1, "0bfe00000100", "REJECT", "VALUE_OUT_OF_RANGE"⟩,
    ⟨"drive_angular_max_ok", 257, 1, "0000a00f0100", "OK", "OK"⟩,
    ⟨"drive_angular_over_oor", 257, 1, "0000a10f0100", "REJECT", "VALUE_OUT_OF_RANGE"⟩,
    ⟨"drive_angular_min_ok", 257, 1, "000060f00100", "OK", "OK"⟩,
    ⟨"drive_angular_under_oor", 257, 1, "00005ff00100", "REJECT", "VALUE_OUT_OF_RANGE"⟩,
    ⟨"drive_duration_min_ok", 257, 1, "000000000100", "OK", "OK"⟩,
    ⟨"drive_duration_max_ok", 257, 1, "00000000fa00", "OK", "OK"⟩,
    ⟨"drive_duration_zero_oor", 257, 1, "000000000000", "REJECT", "VALUE_OUT_OF_RANGE"⟩,
    ⟨"drive_duration_over_oor", 257, 1, "00000000fb00", "REJECT", "VALUE_OUT_OF_RANGE"⟩,
    ⟨"cleaning_all_max_ok", 258, 1, "64646464", "OK", "OK"⟩,
    ⟨"cleaning_main_over_oor", 258, 1, "65000000", "REJECT", "VALUE_OUT_OF_RANGE"⟩,
    ⟨"cleaning_side_over_oor", 258, 1, "00650000", "REJECT", "VALUE_OUT_OF_RANGE"⟩,
    ⟨"cleaning_fan_over_oor", 258, 1, "00006500", "REJECT", "VALUE_OUT_OF_RANGE"⟩,
    ⟨"cleaning_pump_over_oor", 258, 1, "00000065", "REJECT", "VALUE_OUT_OF_RANGE"⟩,
    ⟨"lidar_max_ok", 259, 1, "64", "OK", "OK"⟩,
    ⟨"lidar_over_oor", 259, 1, "65", "REJECT", "VALUE_OUT_OF_RANGE"⟩,
    ⟨"led_brightness_max_ok", 260, 1, "000064", "OK", "OK"⟩,
    ⟨"led_brightness_over_oor", 260, 1, "000065", "REJECT", "VALUE_OUT_OF_RANGE"⟩,
    ⟨"led_id_mode_unchecked_ok", 260, 1, "ffff32", "OK", "OK"⟩
  ]

/-! ### The vectors that pass -/

/-- A vector whose entries fit the fields they are written to, and which says the same twice. -/
structure WellFormed (vector : CorpusVector) (messageType : UInt16) (version : UInt8)
    (payload : List UInt8) (outcome : CpuIngressResult) : Prop where
  messageType_eq : vector.messageType = messageType.toNat
  version_eq : vector.version = version.toNat
  even : vector.payloadHex.length % 2 = 0
  payload_eq : fromHex vector.payloadHex.toList = some payload
  short : payload.length ≤ maxWirePayload
  reason_eq : reasonToEnum vector.reason = some outcome
  expect_eq : vector.expect = if outcome = .ok then "OK" else "REJECT"

/-- The vector determines what it stands for. -/
theorem WellFormed.unique {vector : CorpusVector} {messageType messageType' : UInt16}
    {version version' : UInt8} {payload payload' : List UInt8}
    {outcome outcome' : CpuIngressResult}
    (h : WellFormed vector messageType version payload outcome)
    (h' : WellFormed vector messageType' version' payload' outcome') :
    messageType = messageType' ∧ version = version' ∧ payload = payload' ∧ outcome = outcome' := by
  refine ⟨UInt16.toNat_inj.mp ?_, UInt8.toNat_inj.mp ?_, ?_, ?_⟩
  · exact_mod_cast h.messageType_eq.symm.trans h'.messageType_eq
  · exact_mod_cast h.version_eq.symm.trans h'.version_eq
  · exact Option.some.inj (h.payload_eq.symm.trans h'.payload_eq)
  · exact Option.some.inj (h.reason_eq.symm.trans h'.reason_eq)

theorem reasonToEnum_ok_iff (reason : String) : reasonToEnum reason = some .ok ↔ reason = "OK" := by
  unfold reasonToEnum
  split <;> simp_all

theorem exists_uint16_iff (n : Int) :
    (∃ x : UInt16, n = x.toNat) ↔ 0 ≤ n ∧ n ≤ 0xffff := by
  constructor
  · rintro ⟨x, rfl⟩
    have := x.toNat_lt
    omega
  · rintro ⟨hpos, hle⟩
    refine ⟨UInt16.ofNat n.toNat, ?_⟩
    rw [UInt16.toNat_ofNat', Nat.mod_eq_of_lt (by omega)]
    omega

theorem exists_uint8_iff (n : Int) :
    (∃ x : UInt8, n = x.toNat) ↔ 0 ≤ n ∧ n ≤ 0xff := by
  constructor
  · rintro ⟨x, rfl⟩
    have := x.toNat_lt
    omega
  · rintro ⟨hpos, hle⟩
    refine ⟨UInt8.ofNat n.toNat, ?_⟩
    rw [UInt8.toNat_ofNat', Nat.mod_eq_of_lt (by omega)]
    omega

section Vectors

variable {vector : CorpusVector}

/-- `expect` repeats whether `reason` is `OK`. -/
theorem expect_iff {outcome : CpuIngressResult} (h : reasonToEnum vector.reason = some outcome) :
    ((vector.expect = "OK" ∨ vector.expect = "REJECT") ∧
        (vector.expect = "OK" ↔ vector.reason = "OK")) ↔
      vector.expect = if outcome = .ok then "OK" else "REJECT" := by
  rw [← reasonToEnum_ok_iff vector.reason, h, Option.some.injEq]
  by_cases hok : outcome = .ok
  · simp only [hok, if_true, iff_true]
    exact ⟨fun h => h.2, fun h => ⟨.inl h, h⟩⟩
  · simp only [hok, if_false, iff_false]
    constructor
    · rintro ⟨hexpect | hexpect, hne⟩
      · exact absurd hexpect hne
      · exact hexpect
    · intro hexpect
      exact ⟨.inr hexpect, by simp [hexpect]⟩

/-- **One vector passes** if it is well formed. -/
theorem checkVector_ok_iff :
    checkVector vector = .ok () ↔
      ∃ messageType version payload outcome,
        WellFormed vector messageType version payload outcome := by
  unfold checkVector
  simp only [ite_error_eq_ok_iff, not_not, ← exists_uint16_iff, ← exists_uint8_iff]
  cases hpayload : fromHex vector.payloadHex.toList with
  | none =>
    constructor
    · rintro ⟨_, _, _, h⟩
      cases h
    · rintro ⟨messageType, version, payload, outcome, h⟩
      rw [h.payload_eq] at hpayload
      cases hpayload
  | some payload =>
    simp only [ite_error_eq_ok_iff, not_not, not_and_or, and_true, Nat.not_lt]
    constructor
    · rintro ⟨⟨messageType, htype⟩, ⟨version, hversion⟩, heven, hshort, hexpect, hreason, hagree⟩
      obtain ⟨outcome, hreason⟩ := Option.ne_none_iff_exists'.mp hreason
      exact ⟨messageType, version, payload, outcome, htype, hversion, heven, hpayload, hshort,
        hreason, (expect_iff hreason).mp ⟨hexpect, hagree⟩⟩
    · rintro ⟨messageType, version, payload', outcome, h⟩
      obtain rfl : payload = payload' := Option.some.inj (hpayload.symm.trans h.payload_eq)
      obtain ⟨hexpect, hagree⟩ := (expect_iff h.reason_eq).mpr h.expect_eq
      refine ⟨⟨messageType, h.messageType_eq⟩, ⟨version, h.version_eq⟩, h.even, h.short, hexpect,
        ?_, hagree⟩
      rw [h.reason_eq]
      exact Option.some_ne_none _

/-- The loop accepts well-formed vectors with accepted names of their own. -/
theorem checkVectors_ok_iff (names : List String) (vectors : List CorpusVector) :
    checkVectors names vectors = .ok () ↔
      (vectors.map CorpusVector.name).Nodup ∧
        ∀ vector ∈ vectors, vector.name ∉ names ∧ nameMatches vector.name ∧
          ∃ messageType version payload outcome,
            WellFormed vector messageType version payload outcome := by
  induction vectors generalizing names with
  | nil => simp [checkVectors]
  | cons vector vectors ih =>
    rw [checkVectors]
    by_cases hmatches : nameMatches vector.name
    swap
    · simp [hmatches]
    rw [if_neg (not_not.mpr hmatches)]
    by_cases hname : vector.name ∈ names
    · simp [hname]
    rw [if_neg hname]
    cases hcheck : checkVector vector with
    | error failure =>
      have hbad : ¬ ∃ messageType version payload outcome,
          WellFormed vector messageType version payload outcome := by
        rw [← checkVector_ok_iff, hcheck]
        exact fun h => by cases h
      simp [hbad]
    | ok _ =>
      have hgood := checkVector_ok_iff.mp hcheck
      simp only [ih, List.map_cons, List.nodup_cons, List.forall_mem_cons, hname, hmatches,
        hgood, not_false_iff, true_and, forall_and,
        fresh_cons_iff CorpusVector.name]
      exact ⟨fun ⟨hnodup, ⟨hfresh, hnew⟩, hrest⟩ => ⟨⟨hfresh, hnodup⟩, hnew, hrest⟩,
        fun ⟨⟨hfresh, hnodup⟩, hnew, hrest⟩ => ⟨hnodup, ⟨hfresh, hnew⟩, hrest⟩⟩

end Vectors

/-! ### The rows of the test -/

/-- A name that is accepted and has no line end is made of the characters of the pattern. -/
theorem nameMatches_iff (name : String) :
    nameMatches name ∧ '\n' ∉ name.toList ↔
      name.toList ≠ [] ∧ ∀ c ∈ name.toList, nameChar c := by
  have hbody (h : '\n' ∉ name.toList) : nameMatches name ↔
      name.toList ≠ [] ∧ ∀ c ∈ name.toList, nameChar c := by
    have hlast : name.toList.getLast? ≠ some '\n' := fun hlast => h (List.mem_of_getLast? hlast)
    simp [nameMatches, if_neg hlast]
  constructor
  · rintro ⟨hmatches, hline⟩
    exact (hbody hline).mp hmatches
  · intro h
    have hline : '\n' ∉ name.toList := fun hmem => absurd (h.2 _ hmem) (by decide)
    exact ⟨(hbody hline).mpr h, hline⟩

section Rows

variable {vector : CorpusVector} {messageType : UInt16} {version : UInt8} {payload : List UInt8}
  {outcome : CpuIngressResult} {maxPayload : Nat}

theorem headerVector_eq (h : WellFormed vector messageType version payload outcome) :
    headerVector vector =
      { name := vector.name
        messageType := messageType.toNat
        version := version.toNat
        payloadLength := payload.length
        payload := if payload.isEmpty then [0] else payload
        expected := outcome } := by
  unfold headerVector
  rw [h.payload_eq, h.reason_eq, h.messageType_eq, h.version_eq]
  rfl

/-- **The frame of a row is the frame of its vector**: no number is cut off, and what the array is
    filled up with is not part of the payload. -/
theorem frame_row (h : WellFormed vector messageType version payload outcome) :
    ((headerVector vector).row maxPayload).frame =
      ⟨version, 0, 0, messageType, .bytes payload⟩ := by
  have htype : UInt16.ofInt messageType.toNat = messageType := by
    have hlt := messageType.toNat_lt
    rw [UInt16.ofInt, Int.emod_eq_of_lt (by omega) (by omega), Int.toNat_natCast,
      UInt16.ofNat_toNat]
  have hversion : UInt8.ofInt version.toNat = version := by
    have hlt := version.toNat_lt
    rw [UInt8.ofInt, Int.emod_eq_of_lt (by omega) (by omega), Int.toNat_natCast,
      UInt8.ofNat_toNat]
  have hlength : (UInt16.ofNat payload.length).toNat = payload.length := by
    have hshort := h.short
    unfold maxWirePayload at hshort
    rw [UInt16.toNat_ofNat', Nat.mod_eq_of_lt (by omega)]
  have hpayload (filler : List UInt8) :
      ((if payload.isEmpty then [0] else payload) ++ filler).take payload.length = payload := by
    cases payload with
    | nil => rfl
    | cons b bs => exact List.take_left
  rw [headerVector_eq h]
  simp only [HeaderVector.row, CommandGateVector.frame, htype, hversion, hlength, hpayload]

theorem expected_row (h : WellFormed vector messageType version payload outcome) :
    ((headerVector vector).row maxPayload).expected = outcome := by
  rw [headerVector_eq h]
  rfl

/-- The gate answers a row as expected if it decides so on the frame of the vector. -/
theorem answer_row (V : WireVersion)
    (h : WellFormed vector messageType version payload outcome) :
    (cpuIngressValidateFrame V (some ((headerVector vector).row maxPayload).frame)
        (some .zero)).1 = ((headerVector vector).row maxPayload).expected ↔
      gateDecision V ⟨version, 0, 0, messageType, .bytes payload⟩ = outcome := by
  rw [frame_row h, expected_row h, fst_cpuIngressValidateFrame (.inl rfl)]

end Rows

section Headers

variable {file : CorpusFile}

/-- The arrays of the header are long enough. -/
theorem payload_le_maxPayload {vector : CorpusVector} (hmem : vector ∈ file.doc.vectors) :
    (headerVector vector).payload.length ≤ (header file).maxPayload := by
  have hlength : (headerVector vector).payload.length ≤
      max (headerVector vector).payloadLength 1 := by
    unfold headerVector
    simp only
    split
    · exact Nat.le_max_right _ _
    · exact Nat.le_max_left _ _
  refine hlength.trans (max_le_max_right 1 ?_)
  exact List.le_max?_getD_of_mem (List.mem_map_of_mem hmem)

/-- The header compiles if no name runs over a line end. -/
theorem compile_header (file : CorpusFile) :
    (header file).compile =
      if ∀ vector ∈ file.doc.vectors, '\n' ∉ vector.name.toList then
        some (file.doc.vectors.map fun vector =>
          (headerVector vector).row (header file).maxPayload)
      else none := by
  have hcompiles : ((header file).vectors.all (·.compiles (header file).maxPayload)) = true ↔
      ∀ vector ∈ file.doc.vectors, '\n' ∉ vector.name.toList := by
    simp only [header, List.all_map, List.all_eq_true, Function.comp_apply]
    refine forall₂_congr fun vector hmem => ?_
    have hlength := payload_le_maxPayload hmem
    simp only [HeaderVector.compiles, Bool.and_eq_true, decide_eq_true_eq]
    exact ⟨fun h => h.1, fun h => ⟨h, hlength⟩⟩
  unfold Header.compile
  simp only [hcompiles]
  rw [header, List.map_map]
  rfl

end Headers

/-- The test ends without a mismatch if the gate answers every row as expected. -/
theorem commandGateConformance_ok_iff (V : WireVersion) (vectors : List CommandGateVector)
    (count passed : Nat) :
    commandGateConformance V vectors count = .ok passed ↔
      passed = 57 ∧ count = 57 ∧ ∀ v ∈ vectors.take count,
        (cpuIngressValidateFrame V (some v.frame) (some .zero)).1 = v.expected := by
  unfold commandGateConformance
  split
  · rename_i v hfind
    have hmem := List.mem_of_find?_eq_some hfind
    have hdiffers : (cpuIngressValidateFrame V (some v.frame) (some .zero)).1 ≠ v.expected := by
      simpa using List.find?_some hfind
    constructor
    · intro h
      cases h
    · rintro ⟨_, _, hall⟩
      exact absurd (hall v hmem) hdiffers
  · rename_i hfind
    have hall : ∀ v ∈ vectors.take count,
        (cpuIngressValidateFrame V (some v.frame) (some .zero)).1 = v.expected := by
      intro v hmem
      have hnot := List.find?_eq_none.mp hfind v hmem
      simpa using hnot
    by_cases hcount : count = 57
    · rw [if_neg (not_not.mpr hcount), Except.ok.injEq]
      exact ⟨fun h => ⟨h ▸ hcount, hcount, hall⟩, fun h => hcount.trans h.1.symm⟩
    · rw [if_pos hcount]
      constructor
      · intro h
        cases h
      · rintro ⟨_, hcount', _⟩
        exact absurd hcount' hcount

/-! ### The drift check -/

/-- A vector whose authored outcome is the decision of the contract on its frame. -/
structure IsAuthored (V : WireVersion) (vector : CorpusVector) : Prop where
  name : vector.name.toList ≠ [] ∧ ∀ c ∈ vector.name.toList, nameChar c
  outcome : ∃ messageType version payload, WellFormed vector messageType version payload
    (gateDecision V ⟨version, 0, 0, messageType, .bytes payload⟩)

theorem loadCorpus_ok_iff (file : Option CorpusFile) (accepted : CorpusFile) :
    loadCorpus file = .ok accepted ↔
      file = some accepted ∧ accepted.digest = expectedSha256 ∧
        accepted.doc.schemaVersion = some 1 ∧ accepted.doc.wireVersion = some 1 ∧
        accepted.doc.vectors.length = expectedCount ∧
        (accepted.doc.vectors.map CorpusVector.name).Nodup ∧
        ∀ vector ∈ accepted.doc.vectors, nameMatches vector.name ∧
          ∃ messageType version payload outcome,
            WellFormed vector messageType version payload outcome := by
  cases file with
  | none => simp [loadCorpus]
  | some file =>
    have hloop := checkVectors_ok_iff [] file.doc.vectors
    simp only [List.not_mem_nil, not_false_iff, true_and] at hloop
    simp only [loadCorpus, ite_error_eq_ok_iff, not_not]
    cases hcheck : checkVectors [] file.doc.vectors with
    | error failure =>
      constructor
      · rintro ⟨_, _, _, _, h⟩
        cases h
      · rintro ⟨hfile, _, _, _, _, hvectors⟩
        cases hfile
        rw [hloop.mpr hvectors] at hcheck
        cases hcheck
    | ok _ =>
      have hvectors := hloop.mp hcheck
      constructor
      · rintro ⟨hdigest, hschema, hwire, hcount, h⟩
        cases h
        exact ⟨rfl, hdigest, hschema, hwire, hcount, hvectors⟩
      · rintro ⟨hfile, hdigest, hschema, hwire, hcount, _⟩
        cases hfile
        exact ⟨hdigest, hschema, hwire, hcount, rfl⟩

/-- What `--check` accepts is the header of the corpus. -/
theorem check_ok_iff (file : Option CorpusFile) (committed : Option Header) (accepted : Header) :
    check file committed = .ok accepted ↔
      ∃ corpus, loadCorpus file = .ok corpus ∧ accepted = header corpus ∧
        committed = some (header corpus) := by
  unfold check render
  cases loadCorpus file with
  | error failure => simp
  | ok corpus =>
    simp only [ite_error_eq_ok_iff, not_not, Except.ok.injEq, exists_eq_left']
    exact ⟨fun h => ⟨h.2.symm, h.1⟩, fun h => ⟨h.2, h.1.symm⟩⟩

/-- **The test of an accepted corpus** passes if its outcomes are those of the contract. -/
theorem runTest_header_ok_iff (V : WireVersion) (corpus : CorpusFile) (passed : Nat)
    (hcount : corpus.doc.vectors.length = 57)
    (hvectors : ∀ vector ∈ corpus.doc.vectors, nameMatches vector.name ∧
      ∃ messageType version payload outcome,
        WellFormed vector messageType version payload outcome) :
    runTest V (header corpus) = .ok passed ↔
      passed = 57 ∧ ∀ vector ∈ corpus.doc.vectors, IsAuthored V vector := by
  unfold runTest
  rw [compile_header]
  by_cases hline : ∀ vector ∈ corpus.doc.vectors, '\n' ∉ vector.name.toList
  · have hall : (header corpus).count = 57 := hcount
    rw [if_pos hline]
    simp only
    rw [commandGateConformance_ok_iff, hall, ← hcount, List.take_of_length_le
      (Nat.le_of_eq (List.length_map _)), List.forall_mem_map, and_iff_right rfl]
    refine and_congr_right fun _ => forall₂_congr fun vector hmem => ?_
    obtain ⟨hmatches, messageType, version, payload, outcome, hformed⟩ := hvectors vector hmem
    rw [answer_row V hformed]
    constructor
    · rintro rfl
      exact ⟨(nameMatches_iff _).mp ⟨hmatches, hline vector hmem⟩, _, _, _, hformed⟩
    · rintro ⟨_, _, _, _, hauthored⟩
      obtain ⟨rfl, rfl, rfl, rfl⟩ := hformed.unique hauthored
      rfl
  · -- a name runs over a line end
    rw [if_neg hline]
    constructor
    · intro h
      cases h
    · rintro ⟨_, hauthored⟩
      exact absurd (fun vector hmem => ((nameMatches_iff _).mpr (hauthored vector hmem).name).2)
        hline

/-- **The drift check passes for what the contract decides.** Generator, compiler and test pass
    one after the other exactly if the file is there with the pinned digest and has the right
    versions and 57 vectors, with names of their own, the header committed is the one rendered
    from it, every name is made of letters, digits and underscores, every entry fits the C field
    it is written to, and every authored outcome is the decision of the contract on the frame of
    its vector. -/
theorem drift_check_iff (V : WireVersion) (file : Option CorpusFile) (committed : Option Header)
    (passed : Nat) :
    driftCheck V file committed = .ok passed ↔
      passed = 57 ∧ ∃ corpus : CorpusFile, file = some corpus ∧
        committed = some (header corpus) ∧ corpus.digest = expectedSha256 ∧
        corpus.doc.schemaVersion = some 1 ∧ corpus.doc.wireVersion = some 1 ∧
        corpus.doc.vectors.length = 57 ∧ (corpus.doc.vectors.map CorpusVector.name).Nodup ∧
        ∀ vector ∈ corpus.doc.vectors, IsAuthored V vector := by
  unfold driftCheck
  cases hcheck : check file committed with
  | error failure =>
    constructor
    · intro h
      cases h
    · rintro ⟨_, corpus, hfile, hcommitted, hdigest, hschema, hwire, hcount, hnodup, hauthored⟩
      have hloaded := (loadCorpus_ok_iff file corpus).mpr ⟨hfile, hdigest, hschema, hwire, hcount,
        hnodup, fun vector hmem => ⟨((nameMatches_iff _).mpr (hauthored vector hmem).name).1,
          have ⟨messageType, version, payload, h⟩ := (hauthored vector hmem).outcome
          ⟨messageType, version, payload, _, h⟩⟩⟩
      rw [(check_ok_iff file committed _).mpr ⟨corpus, hloaded, rfl, hcommitted⟩] at hcheck
      cases hcheck
  | ok accepted =>
    obtain ⟨corpus, hloaded, rfl, hcommitted⟩ := (check_ok_iff file committed accepted).mp hcheck
    obtain ⟨hfile, hdigest, hschema, hwire, hcount, hnodup, hvectors⟩ :=
      (loadCorpus_ok_iff file corpus).mp hloaded
    simp only
    rw [runTest_header_ok_iff V corpus passed hcount hvectors]
    constructor
    · rintro ⟨hpassed, hauthored⟩
      exact ⟨hpassed, corpus, hfile, hcommitted, hdigest, hschema, hwire, hcount, hnodup,
        hauthored⟩
    · rintro ⟨hpassed, other, hother, _, _, _, _, _, _, hauthored⟩
      obtain rfl : corpus = other := Option.some.inj (hfile.symm.trans hother)
      exact ⟨hpassed, hauthored⟩

/-- The gate of the firmware agrees with the whole corpus, whose longest payload has 20 bytes. -/
example :
    commandGateConformance wireVersion1
      (commandGateVectorsV1.vectors.map fun vector => (headerVector vector).row 20) 57 =
        .ok 57 := by
  decide +kernel

end GateCorpus

end Oomwoo
