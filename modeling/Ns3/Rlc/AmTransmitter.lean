import Ns3.Rlc.AmPdu

/-!
# The transmitting side of `LteRlcAm`

The transmission buffer, the buffers of transmitted PDUs and of PDUs to be
retransmitted with their byte counters, and the poll-retransmit timer. `none`
is a failed `NS_ASSERT`. The retransmission counts and the times of a PDU in
the buffers are left out: they are logged and reported only.
-/

namespace Ns3.Rlc

open SequenceNumber10

/-- The attributes of an `LteRlcAm`, less the values of its timers. -/
structure AmAttributes where
  maxTxBufferSize : Nat
  txOpportunityForRetxAlwaysBigEnough : Bool

def pollPdu : Nat := 1

def pollByte : Nat := 50

structure AmTransmitter where
  txonBuffer : List TxPdu
  txonBufferSize : Nat
  /-- vectors of 1024 entries -/
  txedBuffer : Nat → Option AmdPdu
  txedBufferSize : Nat
  retxBuffer : Nat → Option AmdPdu
  retxBufferSize : Nat
  vtA : SequenceNumber10
  vtMs : SequenceNumber10
  vtS : SequenceNumber10
  pollSn : SequenceNumber10
  pduWithoutPoll : Nat
  byteWithoutPoll : Nat
  pollRetransmitTimer : Bool
  pollRetransmitTimerJustExpired : Bool

namespace AmTransmitter

def create : AmTransmitter where
  txonBuffer := []
  txonBufferSize := 0
  txedBuffer := fun _ => none
  txedBufferSize := 0
  retxBuffer := fun _ => none
  retxBufferSize := 0
  vtA := ofNat 0
  vtMs := (ofNat 0).add windowSize
  vtS := ofNat 0
  pollSn := ofNat 0
  pduWithoutPoll := 0
  byteWithoutPoll := 0
  pollRetransmitTimer := false
  pollRetransmitTimerJustExpired := false

/-! ## `DoTransmitPdcpPdu` -/

def fits (a : AmAttributes) (t : AmTransmitter) (p : Packet) : Bool :=
  decide (add32 t.txonBufferSize p.length ≤ a.maxTxBufferSize) || decide (a.maxTxBufferSize = 0)

/-- With the packet passed to `m_txDropTrace`, if it is. -/
def doTransmitPdcpPdu (a : AmAttributes) (now : Time) (t : AmTransmitter) (p : Packet) :
    AmTransmitter × List Packet :=
  if t.fits a p then
    ({ t with
        txonBuffer := t.txonBuffer ++ [⟨p, .fullSdu, now⟩]
        txonBufferSize := add32 t.txonBufferSize p.length },
      [])
  else
    (t, [p])

/-! ## Moves between the buffers -/

/-- From the transmitted PDUs to those considered for retransmission. -/
def moveToRetx (t : AmTransmitter) (sn : Nat) (pdu : AmdPdu) : AmTransmitter :=
  { t with
    retxBuffer := Function.update t.retxBuffer sn (some pdu)
    retxBufferSize := add32 t.retxBufferSize pdu.size
    txedBuffer := Function.update t.txedBuffer sn none
    txedBufferSize := sub32 t.txedBufferSize pdu.size }

/-- Back again, once it has been retransmitted. -/
def moveToTxed (t : AmTransmitter) (sn : Nat) (pdu : AmdPdu) : AmTransmitter :=
  { t with
    txedBuffer := Function.update t.txedBuffer sn (some pdu)
    txedBufferSize := add32 t.txedBufferSize pdu.size
    retxBuffer := Function.update t.retxBuffer sn none
    retxBufferSize := sub32 t.retxBufferSize pdu.size }

def dropTxed (t : AmTransmitter) (sn : Nat) (pdu : AmdPdu) : AmTransmitter :=
  { t with
    txedBuffer := Function.update t.txedBuffer sn none
    txedBufferSize := sub32 t.txedBufferSize pdu.size }

def dropRetx (t : AmTransmitter) (sn : Nat) (pdu : AmdPdu) : AmTransmitter :=
  { t with
    retxBuffer := Function.update t.retxBuffer sn none
    retxBufferSize := sub32 t.retxBufferSize pdu.size }

/-! ## `DoNotifyTxOpportunity` -/

/-- The polling conditions of both branches after those of their own. -/
def polls (t : AmTransmitter) (first : Bool) : Option Bool :=
  if first then some true
  else (t.vtS.ge? t.vtMs).map (· || t.pollRetransmitTimerJustExpired)

/-- A poll. The timer is started, or started again. -/
def requestStatus (t : AmTransmitter) : AmTransmitter :=
  { t with
    pollRetransmitTimerJustExpired := false
    pduWithoutPoll := 0
    byteWithoutPoll := 0
    pollSn := t.vtS.sub 1
    pollRetransmitTimer := true }

/-- The loop over `[VT(A), VT(S))` up to the first PDU to be retransmitted. -/
def firstRetx (t : AmTransmitter) : (fuel : Nat) → SequenceNumber10 → Option (Nat × AmdPdu)
  | 0, _ => none
  | fuel + 1, sn => do
    if ← sn.lt? t.vtS then
      match t.retxBuffer sn.value with
      | some pdu => return (sn.value, pdu)
      | none => t.firstRetx fuel sn.succ
    else
      none

/-- The branch for the retransmission buffer. -/
def retransmit (a : AmAttributes) (t : AmTransmitter) (bytes : Nat) :
    Option (AmTransmitter × Option AmdPdu) := do
  if ← t.vtA.lt? t.vtS then
    let (sn, pdu) ← t.firstRetx 1024 t.vtA
    if pdu.size ≤ bytes ∨ a.txOpportunityForRetxAlwaysBigEnough then
      let poll ← t.polls (t.txonBuffer.isEmpty && decide (t.retxBufferSize = pdu.size))
      let t := if poll then t.requestStatus else t
      return (t.moveToTxed sn pdu, some (pdu.setPollingBit poll))
    else
      return (t, none)
  else
    none

/-- The RLC data PDU built from the segments, and the state once it is sent.
An empty data field, whose first segment the source would look at, is `none`
too. -/
def sendNew (t : AmTransmitter) (built : DataField LteRlcAmHeader) :
    Option (AmTransmitter × AmdPdu) := do
  let first ← built.dataField.head?
  let last ← built.dataField.getLast?
  let sn := t.vtS
  let t := { t with
    txonBuffer := built.txBuffer
    txonBufferSize := built.txBufferSize
    vtS := t.vtS.succ }
  if (← sn.lt? t.vtMs) && (← sn.ge? t.vtA) then
    let rlcAmHeader := (built.rlcHeader.setSequenceNumber sn).setFramingInfo
      (UmTransmitter.framingInfo first last)
    let packet := (built.dataField.map Segment.bytes).flatten
    let t := { t with
      pduWithoutPoll := add32 t.pduWithoutPoll 1
      byteWithoutPoll := add32 t.byteWithoutPoll packet.length }
    let poll ← t.polls (decide (pollPdu ≤ t.pduWithoutPoll) ||
      decide (pollByte ≤ t.byteWithoutPoll) ||
      (t.txonBuffer.isEmpty && decide (t.retxBufferSize = 0)))
    let t := if poll then t.requestStatus else t
    let pdu := ⟨rlcAmHeader.setPollingBit poll, packet⟩
    return ({ t with
        txedBufferSize := add32 t.txedBufferSize pdu.size
        txedBuffer := Function.update t.txedBuffer sn.value (some pdu) },
      pdu)
  else
    none

/-- The branch for the transmission buffer. -/
def transmitNew (t : AmTransmitter) (bytes : Nat) : Option (AmTransmitter × Option AmdPdu) := do
  if bytes < 7 then
    none
  else if ← t.vtS.le? t.vtMs then
    if t.vtS.eq t.vtMs then
      return (t, none)
    else
      match t.txonBuffer with
      | [] => return (t, none)
      | firstSegment :: txonBuffer =>
        let (t, pdu) ← t.sendNew (buildDataField LteRlcAmHeader.pushes LteRlcAmHeader.setDataPdu []
          (sub32 t.txonBufferSize firstSegment.pdu.length) (bytes - 4) 1 firstSegment txonBuffer)
        return (t, some pdu)
  else
    none

/-- `DoNotifyTxOpportunity` when no STATUS PDU is due. -/
def doNotifyTxOpportunity (a : AmAttributes) (t : AmTransmitter) (bytes : Nat) :
    Option (AmTransmitter × Option AmdPdu) :=
  if 0 < t.retxBufferSize then t.retransmit a bytes
  else if 0 < t.txonBufferSize then t.transmitNew bytes
  else some (t, none)

/-! ## `DoReceivePdu` of a STATUS PDU -/

/-- `if (m_pollRetransmitTimer.IsRunning() && seqNumberValue == m_pollSn)`. -/
def stopPoll (t : AmTransmitter) (sn : Nat) : AmTransmitter :=
  if t.pollRetransmitTimer && sn == t.pollSn.value then
    { t with pollRetransmitTimer := false }
  else
    t

/-- "sn is NACKed". -/
def nack (t : AmTransmitter) (sn : Nat) : Option AmTransmitter :=
  let t := match t.txedBuffer sn with
    | some pdu => t.moveToRetx sn pdu
    | none => t
  if (t.retxBuffer sn).isSome then some t else none

/-- "sn is ACKed". -/
def ack (t : AmTransmitter) (sn : Nat) : Option AmTransmitter := do
  let t ← match t.txedBuffer sn with
    | some pdu => if (t.retxBuffer sn).isSome then none else some (t.dropTxed sn pdu)
    | none => some t
  match t.retxBuffer sn with
  | some pdu => return t.dropRetx sn pdu
  | none => return t

/-- `if (incrementVtA)`: VT(A) moves on, and the others take it as their base. -/
def incrementVtA (t : AmTransmitter) : AmTransmitter :=
  let vtA := t.vtA.succ.setModulusBase t.vtA.succ
  { t with
    vtA := vtA
    vtMs := (t.vtA.succ.add windowSize).setModulusBase vtA
    vtS := t.vtS.setModulusBase vtA }

/-- `for (sn = m_vtA; sn < ackSn && sn < m_vtS; sn++)`. -/
def acknowledge (nackSnList : List Nat) : (fuel : Nat) → AmTransmitter →
    (ackSn sn : SequenceNumber10) → (incrementVtA : Bool) → Option AmTransmitter
  | 0, _, _, _, _ => none
  | fuel + 1, t, ackSn, sn, incrementVtA => do
    if !(← sn.lt? ackSn) then
      return t
    else if !(← sn.lt? t.vtS) then
      return t
    else
      let t := t.stopPoll sn.value
      if nackSnList.contains sn.value then
        acknowledge nackSnList fuel (← t.nack sn.value) ackSn sn.succ false
      else
        let t ← t.ack sn.value
        if incrementVtA then
          let t := t.incrementVtA
          acknowledge nackSnList fuel t (ackSn.setModulusBase t.vtA)
            (sn.setModulusBase t.vtA).succ true
        else
          acknowledge nackSnList fuel t ackSn sn.succ false

def doReceiveStatus (t : AmTransmitter) (pdu : StatusPdu) : Option AmTransmitter :=
  let t := { t with
    vtA := t.vtA.setModulusBase t.vtA
    vtS := t.vtS.setModulusBase t.vtA
    vtMs := t.vtMs.setModulusBase t.vtA }
  acknowledge pdu.nackSnList 1024 t ((ofNat pdu.ackSn).setModulusBase t.vtA) t.vtA true

/-! ## `ExpirePollRetransmitTimer` -/

/-- `for (sn = m_vtA; sn < m_vtS; sn++)`. -/
def moveAllToRetx : (fuel : Nat) → AmTransmitter → SequenceNumber10 → Option AmTransmitter
  | 0, _, _ => none
  | fuel + 1, t, sn => do
    if ← sn.lt? t.vtS then
      match t.txedBuffer sn.value with
      | some pdu => moveAllToRetx fuel (t.moveToRetx sn.value pdu) sn.succ
      | none => moveAllToRetx fuel t sn.succ
    else
      return t

def expirePollRetransmitTimer (t : AmTransmitter) : Option AmTransmitter := do
  let t := { t with pollRetransmitTimer := false, pollRetransmitTimerJustExpired := true }
  if ← t.vtS.le? t.vtMs then
    if (t.txonBufferSize = 0 ∧ t.retxBufferSize = 0) ∨ t.vtS.eq t.vtMs then
      moveAllToRetx 1024 t t.vtA
    else
      return t
  else
    none

end AmTransmitter

end Ns3.Rlc
