import BleBroadcast.Receiver.AdvTimeAuthorize

/-!
# The test of the interval

The time that should lie between two frames is a product of 32-bit unsigned numbers, also
where the packet number goes down, and the difference from the time that did is taken in 64
bits and narrowed to 32.  For frames less than 2^30 ms apart nothing is lost on the way.
-/

set_option autoImplicit false

namespace BleBroadcast.Receiver

open BleBroadcast.Core

/-- The second frame is heard after the first, less than 2^30 ms later. -/
structure HeardAfter (last pdu : ScanPdu) : Prop where
  inOrder : last.timestampUs ≤ pdu.timestampUs
  soon : (pdu.timestampUs - last.timestampUs) / 1000 < 2 ^ 30

/-- How far the time between the frames is from what their numbers say, as an integer. -/
def deviation (last pdu : ScanPdu) : Int :=
  ((pdu.pduNo.toNat : Int) - last.pduNo.toNat) * getAdvIntervalFromKeyId pdu.keyId -
    (pdu.timestampUs - last.timestampUs) / 1000

def ComesWhenDue (last pdu : ScanPdu) : Prop :=
  |deviation last pdu| ≤
    getToleranceWindowBasedOnAdvInterval (getAdvIntervalFromKeyId pdu.keyId)

/-- No product of a difference of packet numbers and an interval needs more than 30 bits. -/
theorem abs_timestampDiffFromPdus_le (first second keyId : UInt16) :
    |((second.toNat : Int) - first.toNat) * getAdvIntervalFromKeyId keyId| ≤ 65535 * 5000 := by
  obtain ⟨_, atMost⟩ := getAdvIntervalFromKeyId_bounds keyId
  have firstBound := first.toNat_lt
  have secondBound := second.toNat_lt
  have numbers : |(second.toNat : Int) - first.toNat| ≤ 65535 := abs_le.mpr (by omega)
  have interval : |(getAdvIntervalFromKeyId keyId : Int)| ≤ 5000 := abs_le.mpr (by omega)
  rw [abs_mul]
  exact mul_le_mul numbers interval (abs_nonneg _) (by decide)

theorem differenceTimestamps_eq_deviation {last pdu : ScanPdu} (heard : HeardAfter last pdu) :
    differenceTimestamps last pdu = deviation last pdu := by
  obtain ⟨inOrder, soon⟩ := heard
  have expected := abs_le.mp (abs_timestampDiffFromPdus_le last.pduNo pdu.pduNo pdu.keyId)
  have elapsed : 0 ≤ (pdu.timestampUs - last.timestampUs) / 1000 := by omega
  simp only [differenceTimestamps, deviation]
  rw [Int.tdiv_eq_ediv_of_nonneg (by omega)]
  refine (Int.emod_sub_bmod _ (2 ^ 32)).trans (Int.bmod_eq_of_le ?_ ?_)
  · omega
  · omega

theorem getToleranceWindow_lt_interval (keyId : UInt16) :
    getToleranceWindowBasedOnAdvInterval (getAdvIntervalFromKeyId keyId) <
      getAdvIntervalFromKeyId keyId := by
  obtain ⟨atLeast, _⟩ := getAdvIntervalFromKeyId_bounds keyId
  rw [getToleranceWindowBasedOnAdvInterval, if_pos atLeast, Int.floor_lt]
  have positive : (0 : Rat) < getAdvIntervalFromKeyId keyId := by
    rw [Nat.cast_pos]
    omega
  rw [Int.cast_natCast]
  linarith

theorem not_comesWhenDue_of_backwards {last pdu : ScanPdu} (heard : HeardAfter last pdu)
    (backwards : pdu.pduNo < last.pduNo) : ¬ ComesWhenDue last pdu := by
  have elapsed : 0 ≤ (pdu.timestampUs - last.timestampUs) / 1000 := by
    have inOrder := heard.inOrder
    omega
  have tolerance := getToleranceWindow_lt_interval pdu.keyId
  have back : (pdu.pduNo.toNat : Int) - last.pduNo.toNat ≤ -1 := by
    have numbers := UInt16.lt_iff_toNat_lt.mp backwards
    omega
  have early : ((pdu.pduNo.toNat : Int) - last.pduNo.toNat) * getAdvIntervalFromKeyId pdu.keyId ≤
      -1 * getAdvIntervalFromKeyId pdu.keyId :=
    mul_le_mul_of_nonneg_right back (Int.natCast_nonneg _)
  intro due
  have within := (abs_le.mp due).1
  rw [deviation] at within
  omega

/-- Two frames of a session, the second heard less than 2^30 ms after the first, with any
packet numbers: the first is authorized exactly if the integers say so, and never by a frame
with a lower number. -/
theorem authorizes_iff_comesWhenDue {last pdu : ScanPdu} (sameSession : pdu.keyId = last.keyId)
    (heard : HeardAfter last pdu) :
    (authorizes last pdu = true ↔ ComesWhenDue last pdu) ∧
    (pdu.pduNo < last.pduNo → authorizes last pdu = false) := by
  have exactly : authorizes last pdu = true ↔ ComesWhenDue last pdu := by
    simp only [authorizes, decide_eq_true_eq, differenceTimestamps_eq_deviation heard,
      ComesWhenDue, abs_le]
    exact ⟨fun both => ⟨both.2.2, both.2.1⟩, fun both => ⟨sameSession, both.2, both.1⟩⟩
  refine ⟨exactly, fun backwards => ?_⟩
  rw [← Bool.not_eq_true, exactly]
  exact not_comesWhenDue_of_backwards heard backwards

def frameAt (timestampUs : Int) (pduNo : UInt16) : ScanPdu :=
  { ScanPdu.zero with
    timestampUs := timestampUs
    pduNo := pduNo }

/-- The frame with number 7 is heard 3 s after that with number 8. -/
theorem authorizes_iff_backwards : authorizes (frameAt 1 8) (frameAt 3000001 7) = false := by
  have heard : HeardAfter (frameAt 1 8) (frameAt 3000001 7) := by
    constructor <;> norm_num [frameAt]
  have sameSession : (frameAt 3000001 7).keyId = (frameAt 1 8).keyId := by simp only [frameAt]
  exact (authorizes_iff_comesWhenDue sameSession heard).2 (by decide)

end BleBroadcast.Receiver
