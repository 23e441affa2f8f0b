import Ns3.Rlc.DataField

/-!
# The transmitting side of `LteRlcUm`

The transmission buffer, from `DoTransmitPdcpPdu` to the RLC PDUs that
`DoNotifyTxOpportunity` hands to the MAC, and `PacketDeadlineTimer`, which
takes entries out of it. An operation also returns the packets it passes to
`m_txDropTrace`.
-/

namespace Ns3.Rlc

open Framing List LteRlcHeader

/-- The attributes of an `LteRlcUm`. -/
structure UmAttributes where
  maxTxBufferSize : Nat
  enablePdcpDiscarding : Bool
  discardTimerMs : Nat
  packetDelayBudgetMs : Nat
  schedulingDiscardTimerMs : Nat
  discardingRepetitionPacketInTheSameQueue : Bool

structure UmTransmitter where
  txBuffer : List TxPdu
  txBufferSize : Nat
  /-- VT(US) -/
  sequenceNumber : SequenceNumber10

namespace UmTransmitter

def create : UmTransmitter := ⟨[], 0, SequenceNumber10.ofNat 0⟩

/-- PDCP discarding reports a packet as dropped but does not drop it. -/
def pdcpDiscards (a : UmAttributes) (now : Time) (t : UmTransmitter) : Bool :=
  let discardTimerMs := if 0 < a.discardTimerMs then a.discardTimerMs else a.packetDelayBudgetMs
  let headOfLineDelayInMs := match t.txBuffer with
    | [] => 0
    | first :: _ => ((now - first.waitingSince : Time).getMilliSeconds % 2 ^ 32).toNat
  a.enablePdcpDiscarding && decide (discardTimerMs < headOfLineDelayInMs)

def fits (a : UmAttributes) (t : UmTransmitter) (p : Packet) : Bool :=
  decide (add32 t.txBufferSize p.length ≤ a.maxTxBufferSize)

/-- `senderTimestamp` is the one in the packet's `PdcpTag`. -/
def doTransmitPdcpPdu (a : UmAttributes) (now : Time) (t : UmTransmitter) (p : Packet)
    (senderTimestamp : Time) : UmTransmitter × List Packet :=
  if t.fits a p then
    ({ t with
        txBuffer := t.txBuffer ++ [⟨p, .fullSdu, senderTimestamp⟩]
        txBufferSize := add32 t.txBufferSize p.length },
      if t.pdcpDiscards a now then [p] else [])
  else
    (t, [p])

/-- An entry that has waited longer than the deadline. -/
def late (a : UmAttributes) (now : Time) (p : TxPdu) : Bool :=
  decide (0 < a.schedulingDiscardTimerMs) &&
    decide ((a.schedulingDiscardTimerMs : Int) < (now - p.waitingSince : Time).getMilliSeconds)

/-- The second loop of `PacketDeadlineTimer`: what stays and what goes. Neither
the table nor the sequence number of a `PdcpTag` is ever set before it is read,
so `pdcpSequenceNumbers` is what the table holds by chance, and `tags` are the
sequence numbers read from the tags. -/
def discardRepetitions (pdcpSequenceNumbers : Nat → Nat) :
    (tags : List Nat) → List TxPdu → List TxPdu × List TxPdu
  | _, [] => ([], [])
  | tags, p :: txBuffer =>
    let sn := tags.headD 0 % 100
    if pdcpSequenceNumbers sn = 1 then
      let (kept, dropped) := discardRepetitions pdcpSequenceNumbers tags.tail txBuffer
      (kept, p :: dropped)
    else
      let (kept, dropped) :=
        discardRepetitions (Function.update pdcpSequenceNumbers sn 1) tags.tail txBuffer
      (p :: kept, dropped)

/-- What the two loops of `PacketDeadlineTimer` leave and what they take. -/
def deadlineLoops (a : UmAttributes) (now : Time) (pdcpSequenceNumbers : Nat → Nat)
    (tags : List Nat) (txBuffer : List TxPdu) : List TxPdu × List TxPdu :=
  let (expired, inTime) := txBuffer.partition (late a now)
  if a.discardingRepetitionPacketInTheSameQueue then
    let (kept, repeated) := discardRepetitions pdcpSequenceNumbers tags inTime
    (kept, expired ++ repeated)
  else
    (inTime, expired)

def packetDeadlineTimer (a : UmAttributes) (now : Time) (pdcpSequenceNumbers : Nat → Nat)
    (tags : List Nat) (t : UmTransmitter) : UmTransmitter × List Packet :=
  let (kept, dropped) := deadlineLoops a now pdcpSequenceNumbers tags t.txBuffer
  ({ t with
      txBuffer := kept
      txBufferSize := dropped.foldl (fun size p => sub32 size p.pdu.length) t.txBufferSize },
    dropped.map TxPdu.pdu)

def pushes : Pushes LteRlcHeader :=
  ⟨pushExtensionBit, pushLengthIndicator⟩

def framingInfo (first last : Segment) : Nat :=
  (if first.status.startsMid then noFirstByte else firstByte) |||
    (if last.status.endsMid then noLastByte else lastByte)

/-- The RLC PDU, if there is one. `none` is an empty data field, whose first
segment the source would look at. -/
def doNotifyTxOpportunity (t : UmTransmitter) (bytes : Nat) :
    Option (UmTransmitter × Option Packet) :=
  if bytes ≤ 2 then
    some (t, none)
  else
    match t.txBuffer with
    | [] => some (t, none)
    | firstSegment :: txBuffer =>
      let built := buildDataField pushes LteRlcHeader.create []
        (sub32 t.txBufferSize firstSegment.pdu.length) (bytes - 2) 1 firstSegment txBuffer
      match built.dataField.head?, built.dataField.getLast? with
      | some first, some last =>
        let rlcHeader := (built.rlcHeader.setSequenceNumber t.sequenceNumber).setFramingInfo
          (framingInfo first last)
        some (⟨built.txBuffer, built.txBufferSize, t.sequenceNumber.succ⟩,
          some (rlcHeader.addHeader (built.dataField.map Segment.bytes).flatten))
      | _, _ => none

/-! ## The header -/

/-- The bytes of the header with so many extension bits. -/
def lengthFor (bits : Nat) : Nat :=
  if bits = 0 then 0 else 2 + 3 * ((bits - 1) / 2) + 2 * ((bits - 1) % 2)

/-- The header while length indicators are being pushed. -/
def pushed (lis : List Nat) : LteRlcHeader :=
  ⟨lengthFor lis.length, 0xff, SequenceNumber10.ofNat 0xfffa,
    List.replicate lis.length eLiFieldsFollows, lis⟩

theorem lengthFor_succ (bits : Nat) : lengthFor (bits + 1) =
    if bits + 1 = 1 then 2 else if (bits + 1) % 2 = 1 then lengthFor bits + 1
    else lengthFor bits + 2 := by
  cases bits with
  | zero => rfl
  | succ bits =>
    unfold lengthFor
    rw [if_neg (Nat.succ_ne_zero _), if_neg (show ¬bits + 1 + 1 = 1 by omega),
      if_neg (Nat.succ_ne_zero _)]
    split <;> omega

theorem lisLength_eq : ∀ (lis : List Nat),
    lisLength lis = 3 * (lis.length / 2) + 2 * (lis.length % 2)
  | [] => rfl
  | [_] => by simp [lisLength]
  | _ :: _ :: lis => by
    have later := lisLength_eq lis
    simp only [lisLength, length_cons]
    omega

theorem bitsFor_eq (lis : List Nat) : bitsFor lis =
    List.replicate lis.length eLiFieldsFollows ++ [dataFieldFollows] := by
  induction lis with
  | nil => rfl
  | cons li lis ih =>
    simp [bitsFor, ih, replicate_succ]

theorem pushed_next (lis : List Nat) (li : Nat) :
    ((pushed lis).pushExtensionBit 1).pushLengthIndicator li = pushed (lis ++ [li]) := by
  simp only [pushed, pushExtensionBit, pushLengthIndicator,
    length_append, length_replicate, length_singleton, lengthFor_succ,
    replicate_succ']
  rfl

theorem pushed_last (lis : List Nat) (sn : SequenceNumber10) {fi : Nat} (hf : fi < 4) :
    (((pushed lis).pushExtensionBit 0).setSequenceNumber sn).setFramingInfo fi =
      built fi sn lis := by
  have masked : fi &&& 0x03 = fi := by
    have all : ∀ fi < 4, fi &&& 0x03 = fi := by decide
    exact all fi hf
  have length : lengthFor (lis.length + 1) = 2 + lisLength lis := by
    rw [lisLength_eq, lengthFor, if_neg (by omega), Nat.add_sub_cancel, add_assoc]
  rw [lengthFor_succ] at length
  simp only [pushed, pushExtensionBit, setSequenceNumber,
    setFramingInfo, built, length_append, length_replicate,
    length_singleton, masked, length, bitsFor_eq]
  rfl

/-- The pushes of the loop make the header of the length indicators. -/
theorem pushAll_eq (lis more : List Nat) :
    pushAll pushes (pushed lis) more = (pushed (lis ++ more)).pushExtensionBit 0 := by
  induction more generalizing lis with
  | nil =>
    rw [append_nil]
    rfl
  | cons li more ih =>
    have step : pushAll pushes (pushed lis) (li :: more) =
        pushAll pushes (((pushed lis).pushExtensionBit 1).pushLengthIndicator li) more := rfl
    simp [step, pushed_next, ih]

end UmTransmitter

/-! ## The PDU of a frame -/

/-- The framing info of a frame. -/
def framingOf (f : Frame UInt8) : Nat :=
  (if f.startsMid then noFirstByte else firstByte) |||
    (if f.endsMid then noLastByte else lastByte)

def lengthsOf (f : Frame UInt8) : List Nat := (f.pieces.map List.length).dropLast

/-- The RLC PDU of a frame. -/
def encode (sn : SequenceNumber10) (f : Frame UInt8) : Packet :=
  (built (framingOf f) sn (lengthsOf f)).addHeader f.pieces.flatten

/-- A frame that a length indicator has room for. -/
structure Encodable (f : Frame UInt8) : Prop where
  some : f.pieces ≠ []
  small : ∀ li ∈ lengthsOf f, li < 2048

theorem framingOf_eq (f : Frame UInt8) : framingOf f =
    match f.startsMid, f.endsMid with
    | false, false => 0
    | false, true => 1
    | true, false => 2
    | true, true => 3 := by
  unfold framingOf
  cases f.startsMid <;> cases f.endsMid <;> decide

theorem framingOf_lt (f : Frame UInt8) : framingOf f < 4 := by
  rw [framingOf_eq]
  cases f.startsMid <;> cases f.endsMid <;> decide

theorem removeHeader_encode {f : Frame UInt8} (encodable : Encodable f) {sn : SequenceNumber10}
    (small : sn.value < 1024) : removeHeader (encode sn f) =
      some (built (framingOf f) (SequenceNumber10.ofNat sn.value) (lengthsOf f),
        f.pieces.flatten) :=
  removeHeader_addHeader (framingOf_lt f) small encodable.small _

namespace UmTransmitter

/-- An opportunity that is too small or finds nothing to send. -/
theorem opportunity_idle (t : UmTransmitter) {bytes : Nat} (idle : bytes ≤ 2 ∨ t.txBuffer = []) :
    t.doNotifyTxOpportunity bytes = some (t, none) := by
  unfold doNotifyTxOpportunity
  rcases idle with small | empty
  · rw [if_pos small]
  · rw [empty]
    split <;> rfl

/-- **Opportunity.** The PDU sent is that of a frame cut off the transmission
buffer. -/
theorem opportunity_sends {t : UmTransmitter} {mid : Bool} (ready : Ready mid t.txBuffer)
    {bytes : Nat} (large : 2 < bytes) (some_ : t.txBuffer ≠ []) :
    ∃ t' f, t.doNotifyTxOpportunity bytes = some (t', some (encode t.sequenceNumber f)) ∧
      t'.sequenceNumber = t.sequenceNumber.succ ∧ Encodable f ∧ f.startsMid = mid ∧
      Cut (t.txBuffer.map TxPdu.pdu) f.pieces f.endsMid (t'.txBuffer.map TxPdu.pdu) ∧
      Ready f.endsMid t'.txBuffer := by
  obtain ⟨txBuffer, txBufferSize, sequenceNumber⟩ := t
  obtain ⟨firstSegment, txBuffer, rfl⟩ := exists_cons_of_ne_nil some_
  obtain ⟨segments, taken, builds⟩ := buildDataField_builds pushes LteRlcHeader.create []
    (sub32 txBufferSize firstSegment.pdu.length) 1 ready (show 0 < bytes - 2 by omega)
  generalize built_eq : buildDataField pushes LteRlcHeader.create []
    (sub32 txBufferSize firstSegment.pdu.length) (bytes - 2) 1 firstSegment txBuffer = built
    at taken builds
  obtain ⟨⟨lis, lis_eq, small, header⟩, first, endsMid, last, cut, rest⟩ := builds
  obtain ⟨head, head_eq, starts⟩ := Option.map_eq_some_iff.mp first
  obtain ⟨tail, tail_eq, ends⟩ := Option.map_eq_some_iff.mp last
  have lengths : lengthsOf ⟨mid, segments.map Segment.bytes, endsMid⟩ = lis := by
    rw [lis_eq, lengthsOf, map_map]
    rfl
  have closed : built.rlcHeader = (pushed lis).pushExtensionBit 0 :=
    header.trans (pushAll_eq [] lis)
  refine ⟨⟨built.txBuffer, built.txBufferSize, sequenceNumber.succ⟩,
    ⟨mid, segments.map Segment.bytes, endsMid⟩, ?_, rfl, ⟨cut.pieces_ne_nil, ?_⟩, rfl, cut, rest⟩
  · have framing :
        framingInfo head tail = framingOf ⟨mid, segments.map Segment.bytes, endsMid⟩ := by
      rw [framingInfo, starts, ends]
      rfl
    unfold doNotifyTxOpportunity
    rw [if_neg (by omega)]
    simp only [built_eq, taken, nil_append, head_eq, tail_eq, framing, closed,
      pushed_last lis sequenceNumber (framingOf_lt _), encode, lengths]
  · rw [lengths]
    exact small

end UmTransmitter

end Ns3.Rlc
