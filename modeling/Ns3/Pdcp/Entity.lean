import Ns3.Time
import Mathlib.Data.Nat.Bitwise

/-!
# The PDCP entity

`LtePdcp` as it transmits SDUs (with duplicates) and receives PDUs. The
duplicate bitmap is a file-level static array shared by every entity of the
simulation, so `doReceivePdu` takes it as an argument and returns it.
Times are nanoseconds; a microsecond is 1000 of them.
-/

namespace Ns3.Pdcp

/-- `LtePdcp::MAX_PDCP_SN`, also `m_maxPdcpSn`. -/
def maxPdcpSn : Nat := 4096

inductive DcBit where
  | controlPdu
  | dataPdu
  deriving DecidableEq, Repr

structure LtePdcpHeader where
  dcBit : DcBit
  sequenceNumber : Nat
  deriving DecidableEq, Repr

/-- Only twelve bits of the sequence number are kept. -/
def LtePdcpHeader.setSequenceNumber (h : LtePdcpHeader) (sequenceNumber : Nat) : LtePdcpHeader :=
  { h with sequenceNumber := sequenceNumber &&& 0x0FFF }

/-- What a data PDU carries: the header, the sender timestamp of its PDCP tag,
and the SDU. -/
structure PdcpPdu (Sdu : Type) where
  header : LtePdcpHeader
  senderTimestamp : Time
  sdu : Sdu
  deriving DecidableEq, Repr

structure LtePdcp where
  rnti : Nat
  lcid : Nat
  txSequenceNumber : Nat
  rxSequenceNumber : Nat
  maxDup : Nat
  numberOfDuplications : Nat
  /-- microseconds -/
  dupDelay : Nat
  isFixedDuplication : Bool
  maxSeqNotifier : Bool
  deriving DecidableEq, Repr

/-- A fresh entity. The attributes are the ones set on it. -/
def LtePdcp.create (rnti lcid maxDup dupDelay : Nat) (isFixedDuplication : Bool) : LtePdcp where
  rnti := rnti
  lcid := lcid
  txSequenceNumber := 0
  rxSequenceNumber := 0
  maxDup := maxDup
  numberOfDuplications := 0
  dupDelay := dupDelay
  isFixedDuplication := isFixedDuplication
  maxSeqNotifier := false

def LtePdcp.setNumberOfDuplications (pdcp : LtePdcp) (dupNum : Nat) : LtePdcp :=
  { pdcp with numberOfDuplications := dupNum }

def LtePdcp.setDuplicationDelay (pdcp : LtePdcp) (dupDelay : Nat) : LtePdcp :=
  { pdcp with dupDelay := dupDelay }

variable {Sdu : Type}

/-- A PDU and the time at which it is handed to the RLC. -/
structure Transmission (Sdu : Type) where
  at_ : Time
  pdu : PdcpPdu Sdu
  deriving DecidableEq, Repr

/-- The duplicates leave later, the `i`-th one `i + 1` delays after the original. -/
def LtePdcp.doTransmitPdcpSdu (pdcp : LtePdcp) (now : Time) (sdu : Sdu) :
    LtePdcp × List (Transmission Sdu) :=
  let wanted := if pdcp.isFixedDuplication then pdcp.maxDup else pdcp.numberOfDuplications
  let numberOfDuplications := if wanted > pdcp.maxDup then pdcp.maxDup else wanted
  let pdu : PdcpPdu Sdu :=
    ⟨(⟨.dataPdu, 0⟩ : LtePdcpHeader).setSequenceNumber pdcp.txSequenceNumber, now, sdu⟩
  let duplicates := (List.range numberOfDuplications).map fun i =>
    ⟨now + 1000 * (pdcp.dupDelay * (i + 1) : Nat), pdu⟩
  let next := pdcp.txSequenceNumber + 1
  ({ pdcp with
      numberOfDuplications := numberOfDuplications
      txSequenceNumber := if next > maxPdcpSn then 1 else next },
    ⟨now, pdu⟩ :: duplicates)

/-- One row of the bitmap: the sequence numbers marked as seen. -/
abbrev SequenceNumberRow := Nat → Bool

/-- `static uint8_t pdcpSequenceNumbers[100][5000]`, indexed by RNTI. -/
abbrev PdcpSequenceNumbers := Nat → SequenceNumberRow

/-- `std::fill(row + lo, row + hi, 0)`. -/
def SequenceNumberRow.fill (row : SequenceNumberRow) (lo hi : Nat) : SequenceNumberRow :=
  fun sn => if lo ≤ sn ∧ sn < hi then false else row sn

def SequenceNumberRow.mark (row : SequenceNumberRow) (sn : Nat) : SequenceNumberRow :=
  fun k => if k = sn then true else row k

def PdcpSequenceNumbers.setRow (numbers : PdcpSequenceNumbers) (rnti : Nat)
    (row : SequenceNumberRow) : PdcpSequenceNumbers :=
  fun r => if r = rnti then row else numbers r

/-- The entity, its row of the bitmap, and the SDU handed to the upper layer. -/
structure Reception (Sdu : Type) where
  pdcp : LtePdcp
  row : SequenceNumberRow
  delivered : Option Sdu

/-- The wrap test of `DoReceivePdu`: near the maximum, or on a sequence number
below the expected one, expect 0 again and forget the marks of `[0, 4000)`. -/
def LtePdcp.updateRxSequenceNumber (pdcp : LtePdcp) (row : SequenceNumberRow) (sn : Nat) :
    LtePdcp × SequenceNumberRow :=
  if sn + 1 ≥ maxPdcpSn ∨ sn + 1 < pdcp.rxSequenceNumber then
    ({ pdcp with maxSeqNotifier := true, rxSequenceNumber := 0 }, row.fill 0 4000)
  else
    ({ pdcp with rxSequenceNumber := sn + 1 }, row)

/-- The second test: between 2000 and 3000 the marks left at the end of the
previous cycle are forgotten. -/
def LtePdcp.resetMaxSeqNotifier (pdcp : LtePdcp) (row : SequenceNumberRow) :
    LtePdcp × SequenceNumberRow :=
  if pdcp.rxSequenceNumber > 2000 ∧ pdcp.rxSequenceNumber < 3000 ∧ pdcp.maxSeqNotifier = true then
    ({ pdcp with maxSeqNotifier := false }, row.fill 4000 4900)
  else
    (pdcp, row)

/-- The branch of `DoReceivePdu` for a sequence number that is not marked. -/
def LtePdcp.receiveFirst (pdcp : LtePdcp) (row : SequenceNumberRow) (delay : Time)
    (sn : Nat) (sdu : Sdu) : Reception Sdu :=
  let updated := pdcp.updateRxSequenceNumber (row.mark sn) sn
  let reset := updated.1.resetMaxSeqNotifier updated.2
  ⟨reset.1, reset.2, if delay.getMilliSeconds < 100 then some sdu else none⟩

/-- `none` stands for an index outside the static array: it has rows for the
RNTIs below 100 only, and the code does not check. -/
def LtePdcp.doReceivePdu (pdcp : LtePdcp) (numbers : PdcpSequenceNumbers) (now : Time)
    (p : PdcpPdu Sdu) : Option (LtePdcp × PdcpSequenceNumbers × Option Sdu) :=
  if pdcp.rnti < 100 then
    let row := numbers pdcp.rnti
    let sn := p.header.sequenceNumber
    if row sn = true then
      some (pdcp, numbers, none)
    else if pdcp.maxSeqNotifier = true ∧ sn ≥ pdcp.rxSequenceNumber + 4090 ∧ row sn = true then
      some (pdcp, numbers, none)
    else
      let r := pdcp.receiveFirst row (now - p.senderTimestamp) sn p.sdu
      some (r.pdcp, numbers.setRow pdcp.rnti r.row, r.delivered)
  else
    none

end Ns3.Pdcp

namespace Ns3.Pdcp

variable {Sdu : Type}

/-- The PDU of sequence number `sn` fires the bulk clear of `[0, 4000)`. -/
def LtePdcp.clearsLow (pdcp : LtePdcp) (row : SequenceNumberRow) (sn : Nat) : Bool :=
  !row sn && decide (sn + 1 ≥ maxPdcpSn ∨ sn + 1 < pdcp.rxSequenceNumber)

/-- The PDU of sequence number `sn` fires the bulk clear of `[4000, 4900)`. -/
def LtePdcp.clearsHigh (pdcp : LtePdcp) (row : SequenceNumberRow) (sn : Nat) : Bool :=
  !row sn && !pdcp.clearsLow row sn && pdcp.maxSeqNotifier &&
    decide (2000 < sn + 1 ∧ sn + 1 < 3000)

/-- The sequence numbers whose marks the reception of `sn` erases. -/
def LtePdcp.clears (pdcp : LtePdcp) (row : SequenceNumberRow) (sn k : Nat) : Bool :=
  (pdcp.clearsLow row sn && decide (k < 4000)) ||
    (pdcp.clearsHigh row sn && decide (4000 ≤ k ∧ k < 4900))

@[simp]
theorem fill_apply (row : SequenceNumberRow) (lo hi k : Nat) :
    row.fill lo hi k = (!decide (lo ≤ k ∧ k < hi) && row k) := by
  by_cases h : lo ≤ k ∧ k < hi <;> simp [SequenceNumberRow.fill, h]

@[simp]
theorem mark_apply (row : SequenceNumberRow) (sn k : Nat) :
    row.mark sn k = (decide (k = sn) || row k) := by
  by_cases h : k = sn <;> simp [SequenceNumberRow.mark, h]

variable {row : SequenceNumberRow} {sn : Nat} {pdcp : LtePdcp}

theorem clears_marked (pdcp : LtePdcp) (h : row sn = true) (k : Nat) :
    pdcp.clears row sn k = false := by
  simp [LtePdcp.clears, LtePdcp.clearsLow, LtePdcp.clearsHigh, h]

theorem updateRx_low (pdcp : LtePdcp) (h : pdcp.clearsLow row sn = true)
    (row' : SequenceNumberRow) :
    pdcp.updateRxSequenceNumber row' sn =
      ({ pdcp with maxSeqNotifier := true, rxSequenceNumber := 0 }, row'.fill 0 4000) := by
  simp only [LtePdcp.clearsLow, Bool.and_eq_true, decide_eq_true_eq] at h
  rw [LtePdcp.updateRxSequenceNumber, if_pos h.2]

theorem updateRx_not_low (pdcp : LtePdcp) (new : row sn = false) (h : pdcp.clearsLow row sn = false)
    (row' : SequenceNumberRow) :
    pdcp.updateRxSequenceNumber row' sn = ({ pdcp with rxSequenceNumber := sn + 1 }, row') := by
  simp only [LtePdcp.clearsLow, new, Bool.not_false, Bool.true_and, decide_eq_false_iff_not] at h
  rw [LtePdcp.updateRxSequenceNumber, if_neg h]

/-- A first copy is marked, and then the bulk clears take their ranges, the
new mark included. -/
theorem receiveFirst_row (pdcp : LtePdcp) (delay : Time) (sdu : Sdu) (new : row sn = false)
    (k : Nat) :
    (pdcp.receiveFirst row delay sn sdu).row k =
      (!pdcp.clears row sn k && (decide (k = sn) || row k)) := by
  simp only [LtePdcp.receiveFirst]
  cases low : pdcp.clearsLow row sn with
  | true =>
    rw [updateRx_low pdcp low]
    simp [LtePdcp.resetMaxSeqNotifier, LtePdcp.clears, LtePdcp.clearsHigh, low]
  | false =>
    rw [updateRx_not_low pdcp new low]
    by_cases high : 2000 < sn + 1 ∧ sn + 1 < 3000 ∧ pdcp.maxSeqNotifier = true
    · have fires : pdcp.clearsHigh row sn = true := by simp [LtePdcp.clearsHigh, new, low, high]
      simp [LtePdcp.resetMaxSeqNotifier, high, LtePdcp.clears, low, fires]
    · have silent : pdcp.clearsHigh row sn = false := by
        simp only [LtePdcp.clearsHigh, new, low, Bool.not_false, Bool.true_and,
          Bool.and_eq_false_iff, decide_eq_false_iff_not]
        cases hm : pdcp.maxSeqNotifier with
        | false => exact .inl rfl
        | true => exact .inr fun h => high ⟨h.1, h.2, hm⟩
      simp only [LtePdcp.resetMaxSeqNotifier, if_neg high]
      simp [LtePdcp.clears, low, silent]

theorem receiveFirst_rnti (pdcp : LtePdcp) (row : SequenceNumberRow) (delay : Time)
    (sn : Nat) (sdu : Sdu) : (pdcp.receiveFirst row delay sn sdu).pdcp.rnti = pdcp.rnti := by
  simp only [LtePdcp.receiveFirst, LtePdcp.updateRxSequenceNumber, LtePdcp.resetMaxSeqNotifier]
  split_ifs <;> rfl

theorem doReceivePdu_marked {numbers : PdcpSequenceNumbers} {now : Time} {p : PdcpPdu Sdu}
    (inside : pdcp.rnti < 100) (seen : numbers pdcp.rnti p.header.sequenceNumber = true) :
    pdcp.doReceivePdu numbers now p = some (pdcp, numbers, none) := by
  unfold LtePdcp.doReceivePdu
  rw [if_pos inside]
  exact if_pos seen

/-- What one `DoReceivePdu` does to the row of its RNTI, and what it hands up. -/
theorem doReceivePdu_spec {pdcp' : LtePdcp} {numbers numbers' : PdcpSequenceNumbers} {now : Time}
    {p : PdcpPdu Sdu} {out : Option Sdu}
    (h : pdcp.doReceivePdu numbers now p = some (pdcp', numbers', out)) :
    pdcp'.rnti = pdcp.rnti ∧
    (∀ k, numbers' pdcp.rnti k = (!pdcp.clears (numbers pdcp.rnti) p.header.sequenceNumber k &&
      (decide (k = p.header.sequenceNumber) || numbers pdcp.rnti k))) ∧
    out = (if numbers pdcp.rnti p.header.sequenceNumber = true then none
      else if (now - p.senderTimestamp : Time).getMilliSeconds < 100 then some p.sdu
        else none) := by
  simp only [LtePdcp.doReceivePdu] at h
  split_ifs at h with inside marked repeated
  · obtain ⟨rfl, rfl, rfl⟩ : pdcp = pdcp' ∧ numbers = numbers' ∧ none = out := by simpa using h
    refine ⟨rfl, fun k => ?_, by simp [marked]⟩
    by_cases hk : k = p.header.sequenceNumber
    · simp [hk, marked, clears_marked pdcp marked]
    · simp [hk, clears_marked pdcp marked]
  · exact absurd repeated.2.2 marked
  · have new : numbers pdcp.rnti p.header.sequenceNumber = false := by simpa using marked
    cases h
    refine ⟨receiveFirst_rnti .., fun k => ?_, by rw [if_neg marked]; rfl⟩
    rw [← receiveFirst_row pdcp (now - p.senderTimestamp) p.sdu new]
    simp [PdcpSequenceNumbers.setRow]

/-- Inside the array the reception is defined. -/
theorem doReceivePdu_isSome (numbers : PdcpSequenceNumbers) (now : Time) (p : PdcpPdu Sdu)
    (h : pdcp.rnti < 100) : (pdcp.doReceivePdu numbers now p).isSome = true := by
  simp only [LtePdcp.doReceivePdu]
  split_ifs <;> rfl

end Ns3.Pdcp
