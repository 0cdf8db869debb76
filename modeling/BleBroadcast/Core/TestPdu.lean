import BleBroadcast.Core.BeaconPdu

/-!
# Test PDUs

Model of `beacon_test_pdu.c`: the PDUs that start and end a test are ten marker bytes and a
command of four bytes, little endian.  The functions that recognise them read these bytes
from the buffer, whatever the length of the advertisement.
-/

set_option autoImplicit false

namespace BleBroadcast.Core

abbrev testMarkerSize : Nat := 10

/-- `sizeof(beacon_test_pdu)`, a packed struct. -/
abbrev testPduSize : Nat := 14

/-- `test_marker`, the same byte ten times. -/
abbrev testMarkerByte : UInt8 := 0xFF

inductive TestCommand where
  | startTest
  | endTest
  deriving DecidableEq

def TestCommand.value : TestCommand → UInt32
  | .startTest => 0
  | .endTest => 1

/-- The word stored as four bytes, low byte first. -/
def word32OfBytes (b0 b1 b2 b3 : UInt8) : UInt32 :=
  UInt32.ofNat (b0.toNat + 2 ^ 8 * b1.toNat + 2 ^ 16 * b2.toNat + 2 ^ 24 * b3.toNat)

def bytesOfWord32 (word : UInt32) : List UInt8 :=
  [word.toUInt8, (word >>> 8).toUInt8, (word >>> 16).toUInt8, (word >>> 24).toUInt8]

/-- The bytes of a `beacon_test_pdu` as `build_test_start_pdu` and `build_test_end_pdu` fill
it. -/
def buildTestPdu (command : TestCommand) : List UInt8 :=
  List.replicate testMarkerSize testMarkerByte ++ bytesOfWord32 command.value

def buildTestStartPdu : List UInt8 := buildTestPdu .startTest

def buildTestEndPdu : List UInt8 := buildTestPdu .endTest

def isTestPdu (data : Memory) : Bool :=
  (List.range testMarkerSize).all fun i => data i == testMarkerByte

/-- `pdu->cmd.command`. -/
def testCommandField (data : Memory) : UInt32 :=
  word32OfBytes (data testMarkerSize) (data (testMarkerSize + 1)) (data (testMarkerSize + 2))
    (data (testMarkerSize + 3))

def isTestStartPdu (data : Memory) : Bool := testCommandField data == TestCommand.startTest.value

def isTestEndPdu (data : Memory) : Bool := testCommandField data == TestCommand.endTest.value

/-- The calls of `start_test_measurment` and of `end_test_measurment`, by which an application
follows a test. -/
inductive Measurement where
  | started
  | ended
  deriving DecidableEq

/-! ## Reading what was built -/

theorem word32OfBytes_bytes (word : UInt32) :
    word32OfBytes word.toUInt8 (word >>> 8).toUInt8 (word >>> 16).toUInt8
      (word >>> 24).toUInt8 = word := by
  have bound := word.toNat_lt
  apply UInt32.toNat_inj.mp
  simp only [word32OfBytes, UInt32.toNat_ofNat', UInt32.toNat_toUInt8, UInt32.toNat_shiftRight,
    Nat.shiftRight_eq_div_pow, UInt32.reduceToNat, Nat.reduceMod]
  omega

theorem isTestPdu_build {data : Memory} {command : TestCommand}
    (built : ∀ i, i < testPduSize → data i = (buildTestPdu command).getD i 0) :
    isTestPdu data = true ∧ testCommandField data = command.value := by
  constructor
  · refine List.all_eq_true.mpr fun i member => ?_
    have inside : i < testMarkerSize := List.mem_range.mp member
    rw [beq_iff_eq, built i (Nat.lt_trans inside (by decide)), buildTestPdu, List.getD_eq_getElem?_getD,
      List.getElem?_append_left (by rw [List.length_replicate]; exact inside),
      List.getElem?_replicate, if_pos inside]
    rfl
  · rw [testCommandField, built _ (by decide), built _ (by decide), built _ (by decide),
      built _ (by decide)]
    exact word32OfBytes_bytes command.value

/-- The second byte tells a test PDU and a PDU of the protocol apart. -/
theorem not_isTestPdu_of_marker {data : Memory} (second : data 1 = myMarker 1) :
    isTestPdu data = false := by
  refine Bool.eq_false_iff.mpr fun isTest => ?_
  have marked := List.all_eq_true.mp isTest 1 (by decide)
  rw [beq_iff_eq, second] at marked
  exact absurd marked (by decide)

/-- No advertisement is taken for a test PDU and for a PDU of the protocol. -/
theorem isTestPdu_not_inFormat {data : Memory} (isTest : isTestPdu data = true) (size : Nat) :
    isPduInBeaconPduFormat data size = false := by
  refine Bool.eq_false_iff.mpr fun inFormat => ?_
  simp only [isPduInBeaconPduFormat] at inFormat
  split at inFormat
  · contradiction
  · have marker := of_decide_eq_true inFormat 1
    rw [not_isTestPdu_of_marker marker] at isTest
    contradiction

end BleBroadcast.Core
