import Ns3.Library.Machine
import Ns3.Rlc.AmReceiver
import Ns3.Rlc.AmTransmitter
import Ns3.Rlc.Reassembly

/-!
# `LteRlcAm`

Both sides of an entity, and the STATUS PDUs it makes. `none` is a failed
`NS_ASSERT`. Reports of the buffer status go to the MAC only and are left out.
-/

namespace Ns3.Rlc

open SequenceNumber10

/-! ## STATUS PDUs -/

namespace AmReceiver

variable {Pdu : Type}

/-- `for (sn = m_vrR; sn < m_vrMs; sn++)`: a NACK for each PDU that is missing. -/
def pushNacks (w : AmReceiver Pdu) (bytes : Nat) :
    (fuel : Nat) → SequenceNumber10 → StatusPdu → Option (SequenceNumber10 × StatusPdu)
  | 0, _, _ => none
  | fuel + 1, sn, rlcAmHeader => do
    if !(← sn.lt? w.vrMs) then
      return (sn, rlcAmHeader)
    else if !rlcAmHeader.oneMoreNackWouldFitIn bytes then
      return (sn, rlcAmHeader)
    else
      w.pushNacks bytes fuel sn.succ
        (if w.count sn.value then rlcAmHeader else rlcAmHeader.pushNack sn.value)

/-- The next PDU not received that is not reported as missing. -/
def firstUnreported (w : AmReceiver Pdu) : (fuel : Nat) → SequenceNumber10 →
    Option SequenceNumber10
  | 0, _ => none
  | fuel + 1, sn => do
    if (← sn.lt? w.vrMs) && w.count sn.value then
      w.firstUnreported fuel sn.succ
    else
      return sn

def buildStatus (w : AmReceiver Pdu) (bytes : Nat) : Option StatusPdu := do
  let (sn, rlcAmHeader) ← w.pushNacks bytes 1024 w.vrR StatusPdu.setControlPdu
  let sn ← w.firstUnreported 1024 sn
  if ← sn.le? w.vrMs then
    return rlcAmHeader.setAckSn sn
  else
    none

end AmReceiver

/-! ## `ReassembleAndDeliver` -/

/-- The switch in `WAITING_S0_FULL` without losses. A PDU that goes on with an
SDU is an error there. -/
def fromS0FullInOrder (framingInfo : Nat) (sdusBuffer : List Packet) :
    ReassemblingState × List Packet × List Packet :=
  match framingInfo with
  | 0 | 1 => fromS0Full .waitingS0Full framingInfo sdusBuffer
  | _ => (.waitingS0Full, sdusBuffer, [])

namespace Reassembly

/-- With the packets handed to `ReceivePdcpPdu`. -/
def reassembleAndDeliverAm (r : Reassembly) (pdu : AmdPdu) :
    Option (Reassembly × List Packet) := do
  let currSeqNumber := ofNat pdu.rlcAmHeader.sequenceNumber
  let expectedSnLost := !currSeqNumber.eq r.expectedSeqNumber
  let expectedSeqNumber :=
    if expectedSnLost then currSeqNumber.add 1 else r.expectedSeqNumber.add 1
  let sdus ← splitSdus pdu.rlcAmHeader.extensionBits pdu.rlcAmHeader.lengthIndicators pdu.dataField
  let (state, sdusBuffer, delivered) :=
    match expectedSnLost, r.reassemblingState with
    | false, .waitingS0Full =>
      fromS0FullInOrder pdu.rlcAmHeader.framingInfo (r.sdusBuffer ++ sdus)
    | false, .waitingSiSf keepS0 =>
      fromSiSf keepS0 pdu.rlcAmHeader.framingInfo (r.sdusBuffer ++ sdus)
    | true, state => fromS0Full state pdu.rlcAmHeader.framingInfo (r.sdusBuffer ++ sdus)
  return (⟨state, sdusBuffer, expectedSeqNumber⟩, delivered)

end Reassembly

/-! ## The entity -/

structure LteRlcAm where
  tx : AmTransmitter
  rx : AmReceiver AmdPdu
  reassembly : Reassembly
  statusPduRequested : Bool
  statusPduBufferSize : Nat
  statusProhibitTimer : Bool

namespace LteRlcAm

def create : LteRlcAm :=
  ⟨AmTransmitter.create, AmReceiver.create, Reassembly.create, false, 0, false⟩

/-- A STATUS PDU comes first. -/
def doNotifyTxOpportunity (a : AmAttributes) (e : LteRlcAm) (bytes : Nat) :
    Option (LteRlcAm × Option AmPdu) :=
  if bytes < 4 then
    none
  else if e.statusPduRequested && !e.statusProhibitTimer then
    if bytes < e.statusPduBufferSize then
      none
    else do
      let pdu ← e.rx.buildStatus bytes
      return ({ e with
          statusPduRequested := false
          statusPduBufferSize := 0
          statusProhibitTimer := true },
        some (.status pdu))
  else do
    let (tx, out) ← e.tx.doNotifyTxOpportunity a bytes
    return ({ e with tx := tx }, out.map .data)

/-- `if (rlcAmHeader.GetPollingBit () == STATUS_REPORT_IS_REQUESTED)`. -/
def polled (e : LteRlcAm) (pollingBit : Bool) : LteRlcAm :=
  if pollingBit then { e with statusPduRequested := true, statusPduBufferSize := 4 } else e

/-- With the packets handed to `ReceivePdcpPdu`. -/
def doReceivePdu (e : LteRlcAm) : AmPdu → Option (LteRlcAm × List Packet)
  | .data pdu => do
    let e := e.polled pdu.rlcAmHeader.pollingBit
    let (rx, passed) ← e.rx.doReceivePdu pdu.rlcAmHeader.sequenceNumber pdu
    let (reassembly, delivered) ←
      Machine.run Reassembly.reassembleAndDeliverAm e.reassembly passed
    return ({ e with rx := rx, reassembly := reassembly }, delivered)
  | .status pdu => do
    let tx ← e.tx.doReceiveStatus pdu
    return ({ e with tx := tx }, [])

def expireReorderingTimer (e : LteRlcAm) : Option LteRlcAm := do
  return { e with rx := ← e.rx.expireReorderingTimer, statusPduRequested := true }

def expirePollRetransmitTimer (e : LteRlcAm) : Option LteRlcAm := do
  return { e with tx := ← e.tx.expirePollRetransmitTimer }

def expireStatusProhibitTimer (e : LteRlcAm) : LteRlcAm := { e with statusProhibitTimer := false }

end LteRlcAm

/-! ## Two entities -/

/-- A STATUS PDU that has been sent: the counter value behind its ACK_SN, and
how many data PDUs had been received before. -/
structure SentStatus where
  number : Nat
  pdu : StatusPdu
  after : Nat

/-- An entity with its history. `acked` and `passed` count how far VT(A) and
VR(R) have moved. `data` are the PDUs sent, each with its number in the order in
which they were first sent, `heard` the numbers of those received, and `reports`
the STATUS PDUs received, as their places among those sent. -/
structure AmSide where
  rlc : LteRlcAm
  accepted : List Packet
  delivered : List Packet
  acked : Nat
  passed : Nat
  data : List (Nat × AmdPdu)
  status : List SentStatus
  heard : List Nat
  reports : List Nat

inductive AmEvent
  | transmit (now : Time) (p : Packet)
  | opportunity (bytes : Nat)
  /-- the `i`-th data PDU that the peer sent arrives -/
  | data (i : Nat)
  /-- the `i`-th STATUS PDU that the peer sent arrives -/
  | status (i : Nat)
  | reorderingTimer
  | pollRetransmitTimer
  | statusProhibitTimer

namespace AmSide

def create : AmSide := ⟨LteRlcAm.create, [], [], 0, 0, [], [], [], []⟩

def transmit (a : AmAttributes) (x : AmSide) (now : Time) (p : Packet) : AmSide :=
  { x with
    rlc := { x.rlc with tx := (x.rlc.tx.doTransmitPdcpPdu a now p).1 }
    accepted := x.accepted ++ if x.rlc.tx.fits a p then [p] else [] }

/-- What is sent gets its number. -/
def sends (x : AmSide) : Option AmPdu → AmSide
  | none => x
  | some (.data pdu) =>
    { x with data := x.data ++ [(x.acked + Circular.offset 1024 x.rlc.tx.vtA.value
      pdu.rlcAmHeader.sequenceNumber, pdu)] }
  | some (.status pdu) =>
    { x with status := x.status ++ [⟨x.passed + Circular.offset 1024 x.rlc.rx.vrR.value pdu.ackSn,
      pdu, x.heard.length⟩] }

def opportunity (a : AmAttributes) (x : AmSide) (bytes : Nat) : Option AmSide := do
  let (rlc, out) ← x.rlc.doNotifyTxOpportunity a bytes
  return { x with rlc := rlc }.sends out

def receiveData (x : AmSide) (n : Nat) (pdu : AmdPdu) : Option AmSide := do
  let (rlc, delivered) ← x.rlc.doReceivePdu (.data pdu)
  return { x with
    rlc := rlc
    delivered := x.delivered ++ delivered
    passed := x.passed + Circular.offset 1024 x.rlc.rx.vrR.value rlc.rx.vrR.value
    heard := x.heard ++ [n] }

def receiveStatus (x : AmSide) (i : Nat) (pdu : StatusPdu) : Option AmSide := do
  let (rlc, _) ← x.rlc.doReceivePdu (.status pdu)
  return { x with
    rlc := rlc
    acked := x.acked + Circular.offset 1024 x.rlc.tx.vtA.value rlc.tx.vtA.value
    reports := x.reports ++ [i] }

/-- A step of `x`, whose peer is `y`. What the peer has sent may arrive at any
time later, again or never. -/
def step (a : AmAttributes) (x y : AmSide) : AmEvent → Option AmSide
  | .transmit now p => some (x.transmit a now p)
  | .opportunity bytes => x.opportunity a bytes
  | .data i => do
    let (n, pdu) ← y.data[i]?
    x.receiveData n pdu
  | .status i => do
    let sent ← y.status[i]?
    x.receiveStatus i sent.pdu
  | .reorderingTimer =>
    if x.rlc.rx.reorderingTimer then do
      return { x with rlc := ← x.rlc.expireReorderingTimer }
    else
      none
  | .pollRetransmitTimer =>
    if x.rlc.tx.pollRetransmitTimer then do
      return { x with rlc := ← x.rlc.expirePollRetransmitTimer }
    else
      none
  | .statusProhibitTimer =>
    if x.rlc.statusProhibitTimer then
      some { x with rlc := x.rlc.expireStatusProhibitTimer }
    else
      none

end AmSide

/-- A run of two entities, each step of which is `allowed`. -/
inductive AmRun (a : Bool → AmAttributes) (allowed : AmSide → AmSide → AmEvent → Prop) :
    (Bool → AmSide) → Prop
  | start : AmRun a allowed fun _ => AmSide.create
  | step {w : Bool → AmSide} {x : AmSide} (run : AmRun a allowed w) (b : Bool) (e : AmEvent)
      (ok : allowed (w b) (w !b) e) (here : (w b).step (a b) (w !b) e = some x) :
      AmRun a allowed (Function.update w b x)

theorem AmRun.next {a : Bool → AmAttributes} {allowed : AmSide → AmSide → AmEvent → Prop}
    {w : Bool → AmSide} (run : AmRun a allowed w) (b : Bool) (e : AmEvent)
    (ok : allowed (w b) (w !b) e) (possible : ((w b).step (a b) (w !b) e).isSome = true) :
    AmRun a allowed (Function.update w b (((w b).step (a b) (w !b) e).get possible)) :=
  run.step b e ok (Option.some_get possible).symm

/-- The MAC: SDUs have a PDCP header, so none is empty, and a PDU is overtaken
by fewer than 512 sequence numbers. -/
def Mac (x y : AmSide) : AmEvent → Prop
  | .transmit _ p => p ≠ []
  | .data i => ∀ sent ∈ y.data[i]?, ∀ k ∈ x.heard, k < sent.1 + 512
  | .status i => ∀ sent ∈ y.status[i]?, ∀ j ∈ x.reports, ∀ other ∈ y.status[j]?,
      other.number < sent.number + 512
  | _ => True

instance (x y : AmSide) : (e : AmEvent) → Decidable (Mac x y e)
  | .transmit _ p => inferInstanceAs (Decidable (p ≠ []))
  | .data i => inferInstanceAs (Decidable (∀ sent ∈ y.data[i]?, ∀ k ∈ x.heard, k < sent.1 + 512))
  | .status i => inferInstanceAs (Decidable (∀ sent ∈ y.status[i]?, ∀ j ∈ x.reports,
      ∀ other ∈ y.status[j]?, other.number < sent.number + 512))
  | .opportunity _ | .reorderingTimer | .pollRetransmitTimer | .statusProhibitTimer =>
    inferInstanceAs (Decidable True)

end Ns3.Rlc
