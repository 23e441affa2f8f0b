import Ns3.Rlc.UmTransmitter

/-!
# Buffer status reports

What `DoReportBufferStatus` passes to the MAC, and the report of `LteRlcUm`.
`none` is an access outside `m_txBuffer` or `txQueueDelays`.
-/

namespace Ns3.Rlc

/-- `LteMacSapProvider::ReportBufferStatusParameters`, less the addresses. -/
structure ReportBufferStatusParameters where
  txQueueSize : Nat
  txQueueHolDelay : Nat
  retxQueueSize : Nat
  retxQueueHolDelay : Nat
  statusPduSize : Nat
  /-- the entries that are written, from the first one on -/
  txQueueDelays : List Nat
  deriving DecidableEq

namespace ReportBufferStatusParameters

/-- The size of the array `txQueueDelays`. -/
def maxDelays : Nat := 1000

end ReportBufferStatusParameters

/-- A delay as the report has it, in a `uint16_t`. -/
def TxPdu.delay (now : Time) (p : TxPdu) : Nat :=
  SequenceNumber10.toUInt16 (now - p.waitingSince : Time).getMilliSeconds

/-- `uint8_t qlength = m_txBuffer.size()`. -/
def qlength (txBuffer : List TxPdu) : Nat := txBuffer.length % 256

/-- The loop that fills `txQueueDelays`, from `i` on. -/
def fillDelays (now : Time) (txBuffer : List TxPdu) : (rounds i : Nat) → Option (List Nat)
  | 0, _ => some []
  | rounds + 1, i => do
    let p ← txBuffer[i]?
    if i < ReportBufferStatusParameters.maxDelays then
      return p.delay now :: (← fillDelays now txBuffer rounds (i + 1))
    else
      none

/-- `holDelay`. -/
def holDelay (now : Time) (txBuffer : List TxPdu) : Nat :=
  match txBuffer with
  | [] => 0
  | first :: _ => first.delay now

namespace UmTransmitter

/-- `queueSize`, with `m_independent_queue` for a single packet. -/
def queueSize (independentQueue : Bool) (t : UmTransmitter) : Option Nat :=
  if independentQueue then
    if qlength t.txBuffer = 0 then none
    else (t.txBuffer[qlength t.txBuffer - 1]?).map fun p => add32 p.pdu.length 2
  else
    some (if t.txBuffer.isEmpty then 0 else add32 t.txBufferSize (2 * t.txBuffer.length))

def doReportBufferStatus (independentQueue : Bool) (now : Time) (t : UmTransmitter) :
    Option ReportBufferStatusParameters := do
  let txQueueSize ← t.queueSize independentQueue
  let txQueueDelays ← fillDelays now t.txBuffer (qlength t.txBuffer) 0
  return ⟨txQueueSize, holDelay now t.txBuffer, 0, 0, 0, txQueueDelays⟩

end UmTransmitter

/-! ## The delays -/

theorem fillDelays_eq (now : Time) (txBuffer : List TxPdu) (rounds i : Nat)
    (within : i + rounds ≤ txBuffer.length) (bound : i + rounds ≤ 1000) :
    fillDelays now txBuffer rounds i =
      some (((txBuffer.drop i).take rounds).map (TxPdu.delay now)) := by
  induction rounds generalizing i with
  | zero => rfl
  | succ rounds ih =>
    have inside : i < txBuffer.length := by omega
    have array : i < ReportBufferStatusParameters.maxDelays :=
      lt_of_lt_of_le (Nat.lt_add_of_pos_right (Nat.succ_pos rounds)) bound
    unfold fillDelays
    rw [List.getElem?_eq_getElem inside, Option.bind_eq_bind, Option.bind_some,
      if_pos array, ih (i + 1) (by omega) (by omega),
      List.drop_eq_getElem_cons inside]
    rfl

/-- The loop stays inside, as its bound is no more than the length of the buffer. -/
theorem fillDelays_all (now : Time) (txBuffer : List TxPdu) :
    fillDelays now txBuffer (qlength txBuffer) 0 =
      some ((txBuffer.take (qlength txBuffer)).map (TxPdu.delay now)) := by
  have within : qlength txBuffer ≤ txBuffer.length := Nat.mod_le _ _
  have bound : qlength txBuffer < 256 := Nat.mod_lt _ (by decide)
  exact fillDelays_eq now txBuffer _ 0 (by omega) (by omega)

/-- Every entry has its delay in the report when there are fewer than 256. -/
theorem fills_iff (now : Time) (txBuffer : List TxPdu) : (∀ i, (h : i < txBuffer.length) →
      ((txBuffer.take (qlength txBuffer)).map (TxPdu.delay now))[i]? =
        some ((txBuffer[i]).delay now)) ↔ txBuffer.length < 256 := by
  constructor
  · intro fills
    by_contra long
    have last := fills (txBuffer.length - 1) (by omega)
    have bound : qlength txBuffer < 256 := Nat.mod_lt _ (by decide)
    rw [List.getElem?_eq_none] at last
    · simp at last
    · rw [List.length_map, List.length_take]
      omega
  · intro short i inside
    have all : qlength txBuffer = txBuffer.length := Nat.mod_eq_of_lt short
    rw [all, List.take_length, List.getElem?_map, List.getElem?_eq_getElem inside]
    rfl

end Ns3.Rlc

/-!
## `LteRlcTm`

The transmission buffer of a transparent entity. It sends whole PDUs, orders
them by the time stamps of their `PdcpTag`s when there is a deadline, and looks
through its buffer at each buffer status report.
-/

namespace Ns3.Rlc

/-- The attributes of an `LteRlcTm`. -/
structure TmAttributes where
  maxTxBufferSize : Nat
  schedulingDiscardTimerMs : Nat
  discardingRepetitionPacketInTheSameQueue : Bool

structure LteRlcTm where
  txBuffer : List TxPdu
  txBufferSize : Nat
  rbsTimer : Bool

namespace LteRlcTm

def create : LteRlcTm := ⟨[], 0, false⟩

/-! ## `DoReportBufferStatus` -/

/-- An entry that has waited longer than the deadline. -/
def late (a : TmAttributes) (now : Time) (p : TxPdu) : Bool :=
  decide (0 < a.schedulingDiscardTimerMs) &&
    decide ((a.schedulingDiscardTimerMs : Int) < (now - p.waitingSince : Time).getMilliSeconds)

/-- The loop over the entries and what it erases. Nothing is read of an entry but
its tag, which is `tags` for one entry after the other: the sequence number in a
`PdcpTag` is not serialized. `pdcpSequenceNumbers` is not initialized. -/
def discardRepetitions {Entry : Type} (pdcpSequenceNumbers : Nat → Nat) :
    (tags : List Nat) → List Entry → List Entry × List Entry
  | _, [] => ([], [])
  | tags, p :: txBuffer =>
    let sn := tags.headD 0 % 100
    if pdcpSequenceNumbers sn = 1 then
      let (kept, dropped) := discardRepetitions pdcpSequenceNumbers tags.tail txBuffer
      (kept, p :: dropped)
    else
      let (kept, dropped) :=
        discardRepetitions (Function.update pdcpSequenceNumbers sn 1) tags.tail txBuffer
      (p :: kept, dropped)

/-- What the memory that is read before it is written holds in a report. -/
structure Memory where
  pdcpSequenceNumbers : Nat → Nat
  tags : List Nat

/-- What the two loops leave and what they take. -/
def discardLoops (a : TmAttributes) (now : Time) (m : Memory) (txBuffer : List TxPdu) :
    List TxPdu × List TxPdu :=
  let expired := txBuffer.filter (late a now)
  let inTime := txBuffer.filter fun p => !late a now p
  if a.discardingRepetitionPacketInTheSameQueue then
    let (kept, repeated) := discardRepetitions m.pdcpSequenceNumbers m.tags inTime
    (kept, expired ++ repeated)
  else
    (inTime, expired)

def discard (a : TmAttributes) (now : Time) (m : Memory) (t : LteRlcTm) :
    LteRlcTm × List Packet :=
  let (kept, dropped) := discardLoops a now m t.txBuffer
  ({ t with
      txBuffer := kept
      txBufferSize := dropped.foldl (fun size p => sub32 size p.pdu.length) t.txBufferSize },
    dropped.map TxPdu.pdu)

/-- `queueSize = 100;` comes after the size of the buffer. -/
def bufferStatus (now : Time) (t : LteRlcTm) : Option ReportBufferStatusParameters := do
  let queueSize := 100
  let txQueueDelays ← fillDelays now t.txBuffer (qlength t.txBuffer) 0
  return ⟨queueSize, holDelay now t.txBuffer, 0, 0, 0, txQueueDelays⟩

/-- With the packets passed to `m_txDropTrace`, and the report. -/
def doReportBufferStatus (a : TmAttributes) (now : Time) (m : Memory) (t : LteRlcTm) :
    LteRlcTm × List Packet × Option ReportBufferStatusParameters :=
  let (t, dropped) := t.discard a now m
  (t, dropped, t.bufferStatus now)

/-! ## The other operations -/

def fits (a : TmAttributes) (t : LteRlcTm) (p : Packet) : Bool :=
  decide (add32 t.txBufferSize p.length ≤ a.maxTxBufferSize)

/-- `insert_val`, which counts all the entries that are no later. -/
def insertVal (txBuffer : List TxPdu) (senderTimestamp : Time) : Nat :=
  txBuffer.countP fun p => decide (p.waitingSince ≤ senderTimestamp)

/-- The first part of `DoTransmitPdcpPdu`. A PDU that does not fit is not reported. -/
def store (a : TmAttributes) (t : LteRlcTm) (p : Packet) (senderTimestamp : Time) : LteRlcTm :=
  let entry : TxPdu := ⟨p, .fullSdu, senderTimestamp⟩
  if t.fits a p then
    { t with
      txBuffer :=
        if 0 < a.schedulingDiscardTimerMs then
          t.txBuffer.insertIdx (insertVal t.txBuffer senderTimestamp) entry
        else
          t.txBuffer ++ [entry]
      txBufferSize := add32 t.txBufferSize p.length }
  else
    t

/-- `senderTimestamp` is the one in the packet's `PdcpTag`. -/
def doTransmitPdcpPdu (a : TmAttributes) (now : Time) (m : Memory) (t : LteRlcTm) (p : Packet)
    (senderTimestamp : Time) : LteRlcTm × List Packet × Option ReportBufferStatusParameters :=
  let (t, dropped, report) := (t.store a p senderTimestamp).doReportBufferStatus a now m
  ({ t with rbsTimer := false }, dropped, report)

/-- With the packet that is sent, if one is. -/
def doNotifyTxOpportunity (t : LteRlcTm) (bytes : Nat) : LteRlcTm × Option Packet :=
  match t.txBuffer with
  | [] => (t, none)
  | first :: txBuffer =>
    if bytes < first.pdu.length then
      (t, none)
    else
      (⟨txBuffer, sub32 t.txBufferSize first.pdu.length,
        if txBuffer.isEmpty then t.rbsTimer else true⟩, some first.pdu)

/-- The timer has been running. -/
def expireRbsTimer (a : TmAttributes) (now : Time) (m : Memory) (t : LteRlcTm) :
    LteRlcTm × List Packet × Option ReportBufferStatusParameters :=
  if t.txBuffer.isEmpty then
    ({ t with rbsTimer := false }, [], none)
  else
    let (t, dropped, report) := t.doReportBufferStatus a now m
    ({ t with rbsTimer := true }, dropped, report)

end LteRlcTm

end Ns3.Rlc
